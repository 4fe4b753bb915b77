import TableLexer.Proofs.Lexicon.Uses
import TableLexer.Proofs.Program.Running
import TableLexer.Proofs.Scan.Delivery
import TableLexer.Proofs.Scan.Joining
import TableLexer.Proofs.Scan.Size
import TableLexer.Proofs.Scan.Tracing
import TableLexer.Proofs.Text.Lines
namespace TableLexer

open Scan

theorem Token.mem_text {t : Token} {c : Char} (h : c ∈ t.text.toList) :
    c ∈ ['<', ',', '>'] ∨ c.isDigit := by
  simp only [text, String.toList_append, List.mem_append] at h
  rcases h with (((h | h) | h) | h) | h
  · exact .inl (by simp_all)
  · exact .inr (Text.isDigit_of_mem_toString h)
  · exact .inl (by simp_all)
  · exact .inr (Text.isDigit_of_mem_toString h)
  · exact .inl (by simp_all)

theorem Token.lineFeed_not_mem_text (t : Token) : '\n' ∉ t.text.toList := by
  intro h
  rcases mem_text h with h | h
  · revert h
    decide
  · cases h

theorem Token.getLast?_text (t : Token) : t.text.toList.getLast? = some '>' := by
  rw [text, String.toList_append]
  exact List.getLast?_concat

theorem Time.lineFeed_not_mem_text (t : Time) : '\n' ∉ t.text.toList := by
  have hdigits (n : Nat) : '\n' ∉ (toString n).toList := fun hmem =>
    absurd (Text.isDigit_of_mem_toString hmem) (by decide)
  simp only [text, Text.padLeft, String.toList_append, String.toList_ofList, List.mem_append,
    List.mem_replicate, not_or]
  exact ⟨⟨hdigits _, by decide⟩, by simp, hdigits _⟩

namespace Records

theorem tokenStream_eq (tokens : List Token) :
    tokenStream tokens = String.join ((tokens.map Token.text).map fun line => line ++ "\n") := by
  rw [tokenStream, List.map_map]
  rfl

theorem lines_tokenStream (tokens : List Token) :
    Text.lines (tokenStream tokens) = tokens.map Token.text := by
  rw [tokenStream_eq, Text.lines_join]
  intro line hline
  obtain ⟨t, _, rfl⟩ := List.mem_map.mp hline
  rw [t.getLast?_text]
  exact ⟨t.lineFeed_not_mem_text, by decide⟩

end Records

namespace Program

theorem stampedTokens_eq (clock : Clock) (tokens : List Token) :
    stampedTokens clock tokens = String.join ((tokens.mapIdx fun i t =>
      (clock.now i).text ++ " " ++ t.text).map fun line => line ++ "\n") := by
  rw [stampedTokens, List.mapIdx_eq_zipIdx_map, List.mapIdx_eq_zipIdx_map, List.map_map]
  rfl

theorem exists_times_stampedTokens (clock : Clock) (tokens : List Token) :
    ∃ times : List Time, times.length = (Text.lines (Records.tokenStream tokens)).length ∧
      Text.lines (stampedTokens clock tokens) =
        List.zipWith (fun time line => time.text ++ " " ++ line) times
          (Text.lines (Records.tokenStream tokens)) := by
  rw [Records.lines_tokenStream, stampedTokens_eq, Text.lines_join]
  · refine ⟨(List.range tokens.length).map clock.now, by simp, ?_⟩
    exact List.ext_getElem (by simp) fun i _ _ => by simp
  · intro line hline
    obtain ⟨i, hi, rfl⟩ := List.mem_mapIdx.mp hline
    rw [String.toList_append, List.getLast?_append, Token.getLast?_text]
    refine ⟨?_, by simp⟩
    simp [Time.lineFeed_not_mem_text, Token.lineFeed_not_mem_text]

end Program

namespace Scan

variable {s : Scanner}

/-- A lexicon without tokens gets those that the report gets and that whoever watches is shown. -/
theorem tokens_scan (s : Scanner) (source : String) (words : List String) :
    let o := s.scan source (Lexicon.ofReserved words)
    o.lexicon.tokens = o.report.tokens ∧ o.observed = o.report.tokens.toList := by
  intro o
  obtain ⟨hlexicon, htokens, hobserved⟩ := scan_registers s source (Lexicon.ofReserved words)
  refine ⟨Array.toList_inj.mp ?_, hobserved.trans htokens.symm⟩
  rw [hlexicon, Lexicon.tokens_registerAll, htokens]
  rfl

theorem sound_scan (s : Scanner) (source : String) (words : List String) :
    (s.scan source (Lexicon.ofReserved words)).lexicon.Sound := by
  rw [(scan_registers s source _).1]
  exact (Lexicon.sound_ofReserved words).registerAll _

theorem index_lt_scan {options : ScanOptions} (hs : Scanner.Reachable options s) (source : String)
    (words : List String) :
    ∀ t ∈ (s.scan source (Lexicon.ofReserved words)).lexicon.tokens,
      t.index < words.length + source.length := by
  intro t ht
  have hlt := (sound_scan s source words).index_lt t ht
  have hle := Lexicon.size_table_registerAll_le words (s.move source).entries t.category
  have hentries := length_entries_le hs source
  rw [(scan_registers s source _).1] at hlt
  omega

theorem exists_trace_of_illegal {policy : Policy} (hs : Scanner.Reachable ⟨policy, true⟩ s)
    {source : String} {k : Lexicon} {p : Position} {lexeme : String}
    (h : (s.scan source k).failure? = some (.illegal p lexeme)) :
    ∃ t ∈ (s.scan source k).report.traces.toList, t.isIllegal ∧ t.spoilt = lexeme := by
  have hrefused := (traced_move hs source).refused
  rw [Scanner.scan, Scanner.failure?_scanOnto] at h
  rw [Move.refused, h] at hrefused
  have hmem : lexeme ∈ ((s.move source).traces.filter TokenTrace.isIllegal).map
      TokenTrace.spoilt := by
    rw [hrefused]
    exact List.mem_append_right _ List.mem_cons_self
  obtain ⟨t, ht, hspoilt⟩ := List.mem_map.mp hmem
  obtain ⟨ht, hillegal⟩ := List.mem_filter.mp ht
  refine ⟨t, ?_, hillegal, hspoilt⟩
  rw [Scanner.scan, traces_scanOnto hs]
  exact List.mem_append_right _ ht

end Scan

namespace LexiconArchive

theorem exists_load?_pretty {k : Lexicon} (h : k.Sound)
    (hindex : ∀ t ∈ k.tokens, t.index < Token.indexBound) :
    ∃ archive, load? (ofLexicon k).toJson.pretty.toUTF8 = some archive ∧
      archive.restore = .ok k :=
  ⟨ofLexicon k,
    load?_of_parse (fun t ht => hindex t (Array.mem_toList_iff.mp ht)) (Json.parse_pretty _),
    restore_ofLexicon h⟩

end LexiconArchive

namespace Program

variable {args : List String} {env : String → Option String} {tree files : FileTree}
  {q : LexRequest} {settings : Settings} {reserved : List String} {text : String}

/-- The files of a run agree, also if the scan gave up. The stream has the lines of the token list,
with a time in front of each, and what is on file is a lexicon with this token list and these
tables. There is a log if traces were asked for, with all that the report has; the trace of a token
that the scan gave up at for a symbol in it is among them. The exit code says whether the scan went
to its end. Indices are machine words, and so are the counts of reserved words and characters. -/
theorem lex_files_agree (h : Provided args env tree q settings files reserved text)
    (hsize : reserved.length + text.length ≤ Token.indexBound) (clock : Clock)
    (out err : String) :
    let done := (lex args env).run clock ⟨tree, out, err⟩
    let read (extension : String) := done.1.files.read (q.output extension)
    ∃ s, Scanner.standard settings.options = .ok s ∧
      let o := s.scan text (Lexicon.ofReserved reserved)
      (∃ stream list tables json archive k, ∃ times : List Time,
        read "stream" = .ok stream.toUTF8 ∧ read "lex" = .ok list.toUTF8 ∧
          read "set" = .ok tables.toUTF8 ∧ read "json" = .ok json ∧
          times.length = (Text.lines list).length ∧
          Text.lines stream =
            List.zipWith (fun time line => time.text ++ " " ++ line) times (Text.lines list) ∧
          list = Records.tokenStream o.report.tokens.toList ∧
          LexiconArchive.load? json = some archive ∧ archive.restore = .ok k ∧
          Records.tokenStream k.tokens.toList = list ∧ Records.internedTables k = tables) ∧
      (if settings.trace then
        read "log" = .ok (String.join (o.report.traces.toList.map fun t =>
            Records.transcript Lexical.State.name t.steps.toList t.lexeme)).toUTF8 ∧
          ∀ p lexeme, o.failure? = some (.illegal p lexeme) →
            ∃ t ∈ o.report.traces.toList, t.isIllegal ∧ t.spoilt = lexeme
      else read "log" = files.read (q.output "log")) ∧
      (done.2 = 0 ↔ o.failure? = none) := by
  intro done read
  obtain ⟨s, hs, hreachable⟩ := Scanner.exists_reachable settings.options
  refine ⟨s, hs, ?_⟩
  intro o
  obtain ⟨hleft, hcode⟩ := h.run hs clock out err
  obtain ⟨htokens, hobserved⟩ := tokens_scan s text reserved
  have hindex : ∀ t ∈ o.lexicon.tokens, t.index < Token.indexBound := fun t ht =>
    Nat.lt_of_lt_of_le (index_lt_scan hreachable text reserved t ht) hsize
  obtain ⟨archive, hload, hrestore⟩ :=
    LexiconArchive.exists_load?_pretty (sound_scan s text reserved) hindex
  obtain ⟨times, hcount, hlines⟩ := exists_times_stampedTokens clock o.report.tokens.toList
  refine ⟨⟨_, _, _, _, archive, o.lexicon, times, hleft.stream, hleft.list, hleft.tables,
    hleft.archive, ?_, ?_, ?_, hload, hrestore, rfl, rfl⟩, ?_, hcode⟩
  · rw [htokens]
    exact hcount
  · rw [hobserved, htokens]
    exact hlines
  · rw [htokens]
  · split
    · next htrace =>
      have hoptions : settings.options = ⟨settings.policy, true⟩ := by
        rw [Settings.options, htrace]
      rw [hoptions] at hreachable
      exact ⟨hleft.log htrace, fun _ _ => exists_trace_of_illegal hreachable⟩
    · next htrace => exact hleft.noLog (by simpa using htrace)

/-- A run with traces that gives up at the first character of its source. -/
theorem lex_files_agree_question :
    let env (name : String) := if name = Settings.traceVariable then some "1" else none
    let files : FileTree := ⟨[(["a.s"], .file "?".toUTF8)]⟩
    let q : LexRequest := ⟨"a.s", "a", ""⟩
    let done := (lex ["a.s"] env).run tickingClock ⟨files, "", ""⟩
    done.2 ≠ 0 ∧
      (∃ json archive, done.1.files.read (q.output "json") = .ok json ∧
        LexiconArchive.load? json = some archive) ∧
      ∃ traces : List TokenTrace, done.1.files.read (q.output "log") =
          .ok (String.join (traces.map fun t =>
            Records.transcript Lexical.State.name t.steps.toList t.lexeme)).toUTF8 ∧
        ∃ t ∈ traces, t.isIllegal ∧ t.spoilt = "?" := by
  intro env files q
  have hnames (name : String) (hslash : '/' ∉ name.toList) (hvoid : Path.isVoid name = false)
      (hup : name ≠ "..") : files.Names name [name] :=
    ⟨[], name, [], Path.segments_of_not_mem hslash, rfl, hvoid, hup, rfl⟩
  have hsource : files.readText "a.s" = .ok "?" := by
    rw [FileTree.readText, FileTree.read_of_get? (hnames "a.s" (by decide) rfl (by decide)) rfl]
    simp only [ReadError.textOf, Text.fromUTF8?_toUTF8]
  have hwritable (name : String) (hslash : '/' ∉ name.toList) (hvoid : Path.isVoid name = false)
      (hup : name ≠ "..") (hfree : files.get? [name] ≠ some .directory) : files.Writable name :=
    fun content => ⟨_, (hnames name hslash hvoid hup).write_eq hfree content⟩
  have h : Provided ["a.s"] env files q ⟨.failFast, true, none⟩ files
      Lexicon.defaultReserved "?" := by
    refine ⟨by decide, by decide, rfl, rfl, hsource, ?_⟩
    have hclear : ∀ extension ∈ extensions true,
        '/' ∉ (q.output extension).toList ∧ Path.isVoid (q.output extension) = false ∧
          q.output extension ≠ ".." ∧ ([q.output extension] == ["a.s"]) = false := by
      decide
    intro extension he
    obtain ⟨hslash, hvoid, hup, hother⟩ := hclear extension he
    refine hwritable _ hslash hvoid hup ?_
    rw [FileTree.get?, if_neg (by simp), List.lookup_cons, hother]
    simp
  have hagree := lex_files_agree h (by decide) tickingClock "" ""
  -- no run is to be computed when the files are compared
  generalize (lex ["a.s"] env).run tickingClock ⟨files, "", ""⟩ = done at hagree ⊢
  obtain ⟨s, hs, hfiles, hlog, hcode⟩ := hagree
  obtain ⟨_, _, _, json, archive, _, _, _, _, _, hjson, _, _, _, hload, _⟩ := hfiles
  have hfailure : (s.scan "?" (Lexicon.ofReserved Lexicon.defaultReserved)).failure? =
      some (.illegal ⟨1, 1⟩ "?") := failure?_move_question (.standard hs) rfl
  refine ⟨?_, ⟨json, archive, hjson, hload⟩, _, hlog.1, hlog.2 _ _ hfailure⟩
  rw [hfailure] at hcode
  exact fun h => Option.some_ne_none _ (hcode.mp h)

end Program

end TableLexer
