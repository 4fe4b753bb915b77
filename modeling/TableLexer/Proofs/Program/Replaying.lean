import TableLexer.Program.Fuzz
import TableLexer.Proofs.Json.Archives
import TableLexer.Proofs.Program.Agreement
import TableLexer.Proofs.Scan.Conservation
namespace TableLexer.Program

open Scan Json

theorem NamedLexeme.pair_injective :
    Function.Injective fun x : NamedLexeme => (x.1, some x.2) := by
  intro x y h
  obtain ⟨hname, hlexeme⟩ := Prod.mk.inj h
  exact Prod.ext hname (Option.some.inj hlexeme)

theorem NamedLexeme.ofJson?_toJson (t : NamedLexeme) : ofJson? t.toJson = some t := by
  have hr : t.toJson.record? ["kind", "text"] = some [ofText t.1, ofText t.2] :=
    record?_ofFields (by simp)
  simp only [ofJson?, hr, Option.bind_eq_bind, Option.bind_some, text?_ofText]
  rfl

namespace Golden

theorem ofJson?_toJson (g : Golden) : ofJson? g.toJson = some g := by
  have hr : g.toJson.record? ["tokens"] = some [ofList NamedLexeme.toJson g.tokens] :=
    record?_ofFields (by simp)
  have htokens : (ofList NamedLexeme.toJson g.tokens).listOf? NamedLexeme.ofJson? =
      some g.tokens := listOf?_ofList fun t _ => t.ofJson?_toJson
  simp only [ofJson?, hr, Option.bind_eq_bind, Option.bind_some, htokens]
  rfl

theorem load_of_parse {g : Golden} {content : String} (h : parse content = .ok g.toJson) :
    load content = .ok g := by
  rw [load, h]
  simp only [ofJson?_toJson]

end Golden

/-- A lexeme stands at just one place of a table, so the check of the tables finds no fault. -/
theorem misplaced?_eq_none (k : Lexicon) : misplaced? k = none := by
  refine List.findSome?_eq_none_iff.mpr fun c _ => ?_
  rw [Option.map_eq_none_iff, List.find?_eq_none]
  intro (i, lexeme) hentry
  have hplace : (k.table c).lexeme? i = some lexeme := by
    simpa [LexemeTable.entries, LexemeTable.lexeme?, List.mem_zipIdx_iff_getElem?] using hentry
  simp [LexemeTable.get?_eq_some_iff.mpr hplace]

/-- Lists are compared up to the end of the longer one, so that a list differs from those that go
on behind it. -/
theorem firstDifference?_eq_none_iff {got want : List NamedLexeme} :
    firstDifference? got want = none ↔ got = want := by
  simp only [firstDifference?, List.find?_eq_none, List.mem_range, bne_iff_ne, ne_eq, not_not]
  constructor
  · intro h
    refine List.ext_getElem? fun i => ?_
    by_cases hi : i < max got.length want.length
    · exact h i hi
    · rw [List.getElem?_eq_none (by omega), List.getElem?_eq_none (by omega)]
  · rintro rfl i _
    rfl

/-- With every lexeme there, the names and lexemes that are compared are those of the tokens. -/
theorem map_namedLexemes {k : Lexicon} {tokens : List Token}
    (h : ∀ t ∈ tokens, (k.lexeme? t).isSome) :
    (namedLexemes k tokens).map (fun x => (x.1, some x.2)) =
      tokens.map fun t => (t.category.name, k.lexeme? t) := by
  rw [namedLexemes, List.map_map]
  refine List.map_congr_left fun t ht => ?_
  obtain ⟨lexeme, hlexeme⟩ := Option.isSome_iff_exists.mp (h t ht)
  simp [hlexeme]

theorem namedLexemes_eq_iff {k : Lexicon} {tokens : List Token}
    (h : ∀ t ∈ tokens, (k.lexeme? t).isSome) (golden : List NamedLexeme) :
    namedLexemes k tokens = golden ↔
      tokens.map (fun t => (t.category.name, k.lexeme? t)) =
        golden.map fun x => (x.1, some x.2) := by
  rw [← map_namedLexemes h]
  exact (List.map_inj_right NamedLexeme.pair_injective).symm

/-- The check of the tables passes, so what a case comes to is what its scan does. -/
theorem scanCase_eq {s : Scanner} (hs : Scanner.standard ScanOptions.standard = .ok s)
    (source : String) :
    let o := s.scan source (Lexicon.ofReserved Lexicon.defaultReserved)
    (scanCase source).2 = match o.failure? with
      | some e => .error e.message
      | none => .ok (namedLexemes o.lexicon o.report.tokens.toList) := by
  rw [scanCase, hs, scanCaseWith]
  generalize s.scan source (Lexicon.ofReserved Lexicon.defaultReserved) = o
  simp only [misplaced?_eq_none]
  cases o.failure? with
  | none => rfl
  | some e => rfl

/-- The tokens stored for a case, if there are any that can be read. -/
def Golden.stored? (files : FileTree) (path : String) : Option Golden :=
  match files.readText (pathFor path) with
  | .error _ => none
  | .ok content => (load content).toOption

theorem Golden.stored?_of_load {files : FileTree} {path content : String} {g : Golden}
    (hread : files.readText (pathFor path) = .ok content) (hload : load content = .ok g) :
    stored? files path = some g := by
  unfold stored?
  simp only [hread, hload]
  rfl

section Run

variable (clock : Clock)

theorem exists_run_sayScanned (source : String) (count? : Option Nat) (next : Script)
    (w : Script.World) :
    ∃ later w', (sayScanned source count? next).run clock w = next.run later w' ∧
      w'.files = w.files := by
  cases count? with
  | none => exact ⟨clock, w, rfl, rfl⟩
  | some count =>
    rw [sayScanned, Script.run, Script.sayLine, Script.run]
    exact ⟨_, _, rfl, files_say _ _ _⟩

theorem exists_run_readGolden (path : String) (next : Option Golden → Script) (w : Script.World) :
    ∃ w', (readGolden (Golden.pathFor path) next).run clock w =
      (next (Golden.stored? w.files path)).run clock w' := by
  rw [readGolden, run_readText]
  unfold Golden.stored?
  cases w.files.readText (Golden.pathFor path) with
  | error e => exact ⟨w, rfl⟩
  | ok content =>
    simp only
    cases Golden.load content with
    | error e =>
      simp only [Script.sayLine, Script.run]
      exact ⟨_, rfl⟩
    | ok g => exact ⟨w, rfl⟩

/-- The exit code of a comparison, if nothing else can go wrong. -/
theorem code_compare {next : Script} {w : Script.World} (hnext : (next.run clock w).2 = 0)
    (label : String) (got want : List NamedLexeme) :
    ((compare label got want next).run clock w).2 = 0 ↔ got = want := by
  rw [compare, ← firstDifference?_eq_none_iff]
  cases firstDifference? got want with
  | none => simp [hnext]
  | some i => simp [Script.run]

theorem code_sayLine_exit (channel : Channel) (line : String) (code : Nat) (w : Script.World) :
    ((Script.sayLine channel line (.exit code)).run clock w).2 = code := by
  rw [Script.sayLine, Script.run, Script.run]

/-- A case is accepted if its scan goes to its end and finds the tokens stored for it, should there
be any. -/
theorem code_replayScan (path source : String) (found : CaseScan) (w : Script.World) :
    ((replayScan path source found).run clock w).2 = 0 ↔
      ∃ got, found.2 = .ok got ∧ ∀ g ∈ Golden.stored? w.files path, got = g.tokens := by
  obtain ⟨count?, result⟩ := found
  cases result with
  | error problem =>
    obtain ⟨later, said, hsaid, _⟩ := exists_run_sayScanned clock source count?
      (.sayLine .err ("[replay] " ++ problem) (.exit 1)) w
    rw [replayScan, hsaid, code_sayLine_exit]
    simp
  | ok got =>
    obtain ⟨later, said, hsaid, hfiles⟩ := exists_run_sayScanned clock source count?
      (readGolden (Golden.pathFor path) (judgeReplay got)) w
    obtain ⟨read, hread⟩ := exists_run_readGolden later path (judgeReplay got) said
    rw [replayScan, hsaid, hread, hfiles]
    cases Golden.stored? w.files path with
    | none => simp [judgeReplay, Script.run]
    | some g => simp [judgeReplay, code_compare later (code_sayLine_exit later _ _ _ _)]

theorem run_fuzz {env : String → Option String} {path source : String} {w : Script.World}
    (hasked : env "FUZZ_INPUT" = some path) (hsource : w.files.readText path = .ok source) :
    ∃ w', (fuzz env).run clock w = (replaySource path source).run clock w' ∧
      w'.files = w.files := by
  have hsaid (line : String) : (w.say .err line).files = w.files := files_say w .err line
  simp only [fuzz, hasked, replay, Script.sayLine, Script.run, run_readText, hsaid, hsource]
  exact ⟨_, rfl, hsaid _⟩

end Run

/-- A replay accepts exactly the cases whose scan goes to its end and finds the golden tokens, by
their names and lexemes, no fewer and no more. The check of the tables never fails, and any tokens
can be golden, in either layout. -/
theorem fuzz_replays {env : String → Option String} {path source stored : String}
    {golden : List NamedLexeme} {w : Script.World} (hasked : env "FUZZ_INPUT" = some path)
    (hsource : w.files.readText path = .ok source)
    (hread : w.files.readText (Golden.pathFor path) = .ok stored)
    (hstored : Golden.load stored = .ok ⟨golden⟩) (clock : Clock) :
    ∃ s, Scanner.standard ScanOptions.standard = .ok s ∧
      let o := s.scan source (Lexicon.ofReserved Lexicon.defaultReserved)
      (((fuzz env).run clock w).2 = 0 ↔
        o.failure? = none ∧
          o.report.tokens.toList.map (fun t => (t.category.name, o.lexicon.lexeme? t)) =
            golden.map fun x => (x.1, some x.2)) ∧
      (∀ text k, misplaced? (s.scan text k).lexicon = none) ∧
      Golden.load (Golden.toJson ⟨golden⟩).compact = .ok ⟨golden⟩ ∧
      Golden.load (Golden.toJson ⟨golden⟩).pretty = .ok ⟨golden⟩ := by
  obtain ⟨s, hs, _⟩ := Scanner.exists_reachable ScanOptions.standard
  refine ⟨s, hs, ?_, fun _ _ => misplaced?_eq_none _, Golden.load_of_parse (parse_compact _),
    Golden.load_of_parse (parse_pretty _)⟩
  have hcase := scanCase_eq hs source
  have hsound := sound_scan s source Lexicon.defaultReserved
  obtain ⟨htokens, _⟩ := tokens_scan s source Lexicon.defaultReserved
  generalize s.scan source (Lexicon.ofReserved Lexicon.defaultReserved) = o at *
  have hlexemes : ∀ t ∈ o.report.tokens.toList, (o.lexicon.lexeme? t).isSome := by
    intro t ht
    exact hsound t (htokens ▸ Array.mem_toList_iff.mp ht)
  obtain ⟨w', hrun, hfiles⟩ := run_fuzz clock hasked hsource
  rw [hrun, replaySource, code_replayScan, hfiles, Golden.stored?_of_load hread hstored, hcase,
    ← namedLexemes_eq_iff hlexemes]
  cases o.failure? with
  | none => simp
  | some e => simp

/-- A case with two tokens, of which both, one or none are golden. -/
theorem fuzz_replays_prefix :
    let env (name : String) := if name = "FUZZ_INPUT" then some "a.simple" else none
    let code (golden : List NamedLexeme) :=
      ((fuzz env).run tickingClock ⟨⟨[(["a.simple"], .file "if x".toUTF8),
        (["a.tokens.json"], .file (Golden.toJson ⟨golden⟩).pretty.toUTF8)]⟩, "", ""⟩).2
    code [("keyword_end", "if"), ("identifier_end", "x")] = 0 ∧
      code [("keyword_end", "if")] ≠ 0 ∧ code [] ≠ 0 := by
  intro env code
  have hcode (golden : List NamedLexeme) :
      code golden = 0 ↔ golden = [("keyword_end", "if"), ("identifier_end", "x")] := by
    let w : Script.World := ⟨⟨[(["a.simple"], .file "if x".toUTF8),
      (["a.tokens.json"], .file (Golden.toJson ⟨golden⟩).pretty.toUTF8)]⟩, "", ""⟩
    have hsource : w.files.readText "a.simple" = .ok "if x" :=
      FileTree.readText_of_get? (FileTree.names_of_root (by decide) rfl (by decide)) rfl
    have hpath : Golden.pathFor "a.simple" = "a.tokens.json" := by decide
    have hread : w.files.readText (Golden.pathFor "a.simple") =
        .ok (Golden.toJson ⟨golden⟩).pretty := by
      rw [hpath]
      exact FileTree.readText_of_get? (FileTree.names_of_root (by decide) rfl (by decide)) rfl
    have hasked : env "FUZZ_INPUT" = some "a.simple" := rfl
    obtain ⟨s, hs, hiff, _⟩ := fuzz_replays hasked hsource hread
      (Golden.load_of_parse (parse_pretty _)) tickingClock
    have htext : LongestMatch.tokens (streamText "if x") =
        [(.identifierEnd, "if"), (.identifierEnd, "x")] := by
      decide +kernel
    have hlegal : ∀ x ∈ LongestMatch.tokens (streamText "if x"), x.1 ≠ .illegal := by
      rw [htext]
      simp
    obtain ⟨hok, htokens⟩ := map_tokens_scan_of_yields (yields_of_legal (.standard hs) hlegal)
      Lexicon.defaultReserved
    have hpairs := congrArg (List.map fun x => (x.1.name, x.2)) htokens
    have hfound : ([(.identifierEnd, "if"), (.identifierEnd, "x")] : List (Terminal × String)).map
        (fun x => ((LongestMatch.category Lexicon.defaultReserved x).name, some x.2)) =
          [("keyword_end", "if"), ("identifier_end", "x")].map fun x => (x.1, some x.2) := by
      decide
    simp only [htext, List.map_map, Function.comp_def] at hpairs
    rw [and_iff_right hok, hpairs, hfound] at hiff
    exact hiff.trans ((List.map_inj_right NamedLexeme.pair_injective).trans eq_comm)
  rw [hcode, Ne, hcode, Ne, hcode]
  decide

end TableLexer.Program
