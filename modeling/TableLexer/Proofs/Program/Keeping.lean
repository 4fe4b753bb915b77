import TableLexer.Proofs.Files.Keeping
import TableLexer.Proofs.Program.Agreement
namespace TableLexer

open Scan

namespace Script

variable {written : String → Prop}

/-- Whatever the answers, no other path is written to and no directory is made. -/
inductive WritesOnly (written : String → Prop) : Script → Prop
  | exit (code : Nat) : WritesOnly written (.exit code)
  | say {channel : Channel} {text : String} {next : Script} (h : WritesOnly written next) :
    WritesOnly written (.say channel text next)
  | now {next : Time → Script} (h : ∀ time, WritesOnly written (next time)) :
    WritesOnly written (.now next)
  | elapsed {next : String → Script} (h : ∀ elapsed, WritesOnly written (next elapsed)) :
    WritesOnly written (.elapsed next)
  | read {path : String} {next : Except OsError ByteArray → Script}
    (h : ∀ answer, WritesOnly written (next answer)) : WritesOnly written (.read path next)
  | create {path : String} {next : Except OsError Unit → Script} (hpath : written path)
    (h : ∀ answer, WritesOnly written (next answer)) : WritesOnly written (.create path next)
  | append {path text : String} {next : Except OsError Unit → Script} (hpath : written path)
    (h : ∀ answer, WritesOnly written (next answer)) : WritesOnly written (.append path text next)

/-- The frame of a run. The induction goes along what is still to be asked of the world, for every
world that answers it. -/
theorem WritesOnly.run {script : Script} (h : script.WritesOnly written) (clock : Clock)
    (w : World) : FileTree.WrittenAt written w.files (script.run clock w).1.files := by
  induction h generalizing clock w with
  | exit code => exact .refl written w.files
  | @say channel text next _ ih =>
    rw [Script.run, ← Program.files_say w channel text]
    exact ih _ _
  | now _ ih => exact ih _ _ w
  | elapsed _ ih => exact ih _ _ w
  | read _ ih => exact ih _ _ w
  | @create path next hpath _ ih =>
    rw [Script.run]
    cases hw : w.files.write path .empty with
    | error e => exact ih _ _ w
    | ok files => exact (FileTree.writtenAt_of_write hpath hw).trans (ih _ _ { w with files })
  | @append path text next hpath _ ih =>
    rw [Script.run]
    cases hw : w.files.append path text.toUTF8 with
    | error e => exact ih _ _ w
    | ok files => exact (FileTree.writtenAt_of_append hpath hw).trans (ih _ _ { w with files })

theorem writesOnly_fail (f : Failure) : (fail f).WritesOnly written := .say (.exit 1)

theorem writesOnly_readText {path : String} {next : Except ReadError String → Script}
    (h : ∀ answer, (next answer).WritesOnly written) : (readText path next).WritesOnly written :=
  .read fun content => h (ReadError.textOf content)

end Script

namespace Program

namespace LexRequest

variable {q : LexRequest}

/-- The files once there is a directory for the output, or as far as it could be made. -/
def prepared (q : LexRequest) (tree : FileTree) : FileTree :=
  (if q.outDir = "" then (tree, none) else tree.makeDirectories q.outDir).1

theorem within_prepared (q : LexRequest) (tree : FileTree) : tree.Within (q.prepared tree) := by
  unfold prepared
  split
  · exact .refl tree
  · exact FileTree.within_makeDirectories tree q.outDir

/-- The paths that a run may write to. There are none if the settings cannot be read. -/
def IsOutput (q : LexRequest) (env : String → Option String) (path : String) : Prop :=
  ∃ settings, Settings.ofLookup env = .ok settings ∧
    ∃ extension ∈ extensions settings.trace, path = q.output extension

end LexRequest

section WritesOnly

variable {written : String → Prop} {q : LexRequest}

theorem writesOnly_writeAll {next : Script} (h : next.WritesOnly written) {outputs : List Output}
    (houtputs : ∀ o ∈ outputs, written o.path) : (writeAll next outputs).WritesOnly written := by
  induction outputs with
  | nil => exact h
  | cons o outputs ih =>
    obtain ⟨ho, hrest⟩ := List.forall_mem_cons.mp houtputs
    refine .create ho fun created => ?_
    cases created with
    | error e => exact Script.writesOnly_fail _
    | ok _ =>
      refine .append ho fun added => ?_
      cases added with
      | error e => exact Script.writesOnly_fail _
      | ok _ => exact ih hrest

theorem writesOnly_finishLex (q : LexRequest) (o : Scanner.Outcome) :
    (finishLex q o).WritesOnly written := by
  rw [finishLex]
  cases o.failure? with
  | some e => exact Script.writesOnly_fail _
  | none => exact .say (.say (.exit 0))

theorem writesOnly_writeStream {path : String} (hpath : written path)
    {next : Option OsError → Script} (h : ∀ error?, (next error?).WritesOnly written)
    (tokens : List Token) : (writeStream path next tokens).WritesOnly written := by
  induction tokens with
  | nil => exact h none
  | cons t tokens ih =>
    refine .now fun time => .append hpath fun added => ?_
    cases added with
    | error e => exact h (some e)
    | ok _ => exact ih

theorem writesOnly_writeScanned {trace : Bool}
    (h : ∀ extension ∈ extensions trace, written (q.output extension)) (text : String)
    (o : Scanner.Outcome) (error? : Option OsError) :
    (writeScanned q trace text o error?).WritesOnly written := by
  refine .elapsed fun elapsed => .say ?_
  cases error? with
  | some e => exact Script.writesOnly_fail _
  | none =>
    refine writesOnly_writeAll (writesOnly_finishLex q o) ?_
    cases trace <;> simp_all [extensions, lexOutputs, Output.named]

theorem writesOnly_lexText {options : ScanOptions}
    (h : ∀ extension ∈ extensions options.trace, written (q.output extension))
    (reserved : List String) (text : String) :
    (lexText q options reserved text).WritesOnly written := by
  have hstream := h "stream" (by simp [extensions])
  rw [lexText]
  refine .create hstream fun created => ?_
  cases created with
  | error e => exact Script.writesOnly_fail _
  | ok _ =>
    cases Scanner.standard options with
    | error e => exact Script.writesOnly_fail _
    | ok s => exact writesOnly_writeStream hstream (writesOnly_writeScanned h text _) _

theorem writesOnly_readSource {next : String → Script}
    (h : ∀ text, (next text).WritesOnly written) : (readSource q next).WritesOnly written := by
  refine Script.writesOnly_readText fun answer => ?_
  cases answer with
  | error e => exact Script.writesOnly_fail _
  | ok text => exact h text

theorem writesOnly_readReserved (settings : Settings) {next : List String → Script}
    (h : ∀ words, (next words).WritesOnly written) :
    (readReserved settings next).WritesOnly written := by
  rw [readReserved]
  split
  · exact h _
  · refine Script.writesOnly_readText fun answer => ?_
    split
    · exact Script.writesOnly_fail _
    · exact h _

theorem writesOnly_lexWith (q : LexRequest) (env : String → Option String) :
    (lexWith q env).WritesOnly (q.IsOutput env) := by
  rw [lexWith]
  cases hsettings : Settings.ofLookup env with
  | error e => exact Script.writesOnly_fail _
  | ok settings =>
    exact writesOnly_readReserved settings fun words => writesOnly_readSource fun text =>
      writesOnly_lexText (fun e he => ⟨settings, hsettings, e, he, rfl⟩) words text

end WritesOnly

section Frame

variable {args : List String} {env : String → Option String} {tree : FileTree} {q : LexRequest}

theorem writtenAt_lex (hasked : LexRequest.ofArgs args = .ok q) (env : String → Option String)
    (tree : FileTree) (clock : Clock) (out err : String) :
    FileTree.WrittenAt (q.IsOutput env) (q.prepared tree)
      ((lex args env).run clock ⟨tree, out, err⟩).1.files := by
  rw [lex, hasked, LexRequest.prepared]
  by_cases hdirectory : q.outDir = ""
  · simp only [if_pos hdirectory]
    exact (writesOnly_lexWith q env).run clock ⟨tree, out, err⟩
  · simp only [if_neg hdirectory, Script.run]
    obtain ⟨files, error?⟩ := tree.makeDirectories q.outDir
    -- also a tree that was left half-way is what the run goes on with
    cases error? with
    | none => exact (writesOnly_lexWith q env).run clock ⟨files, out, err⟩
    | some e => exact (Script.writesOnly_fail _).run clock ⟨files, out, err⟩

/-- No output is the source under another name. -/
def Apart (args : List String) (env : String → Option String) (tree : FileTree) : Prop :=
  ∀ q, LexRequest.ofArgs args = .ok q → ∀ path, q.IsOutput env path →
    ¬ (q.prepared tree).SameFile path q.source

theorem read_lex_of_apart {source : String} {rest : List String} {content : ByteArray}
    (hread : tree.read source = .ok content) (hapart : Apart (source :: rest) env tree)
    (clock : Clock) (out err : String) :
    ((lex (source :: rest) env).run clock ⟨tree, out, err⟩).1.files.read source = .ok content := by
  cases hasked : LexRequest.ofArgs (source :: rest) with
  | error f =>
    rw [lex, hasked]
    simpa only [run_fail, files_say] using hread
  | ok q =>
    obtain ⟨hsource, _⟩ := LexRequest.source_eq hasked
    have hbefore := (q.within_prepared tree).read hread
    exact (writtenAt_lex hasked env tree clock out err).read (hsource ▸ hapart q hasked) hbefore

/-- A run does not write over a source whose extension is none of those that it writes. -/
theorem apart_of_extension {source : String} {content : ByteArray}
    (hread : tree.read source = .ok content)
    (h : ∀ settings, Settings.ofLookup env = .ok settings → ∀ extension ∈ extensions settings.trace,
      (Path.fileName? source).bind Path.extensionOf? ≠ some extension) (rest : List String) :
    Apart (source :: rest) env tree := by
  rintro q hasked path ⟨settings, hsettings, extension, he, rfl⟩ hsame
  obtain ⟨hsource, hstem⟩ := LexRequest.source_eq hasked
  rw [hsource] at hsame
  have hall := extensions_subset settings.trace he
  obtain ⟨hslash, hvoid, hup⟩ :=
    LexRequest.fileName_proper (LexRequest.slash_not_mem_stem hasked) hall
  have houtput : Path.fileName? (q.output extension) = some (q.fileName extension) :=
    Path.fileName?_join hslash hvoid hup
  -- the source would have the name of an output, so its stem would be followed by that extension
  have hname : Path.fileName? source = some (q.fileName extension) :=
    (hsame.symm.fileName? ((q.within_prepared tree).read hread)).trans houtput
  rw [Path.fileStem?, hname] at hstem
  have hdots : ∀ e ∈ extensions true, '.' ∉ e.toList := by decide
  have hextension : Path.extensionOf? (q.fileName extension) = some extension := by
    refine Path.extensionOf?_eq_some ?_ (hdots extension hall)
    rw [Option.some.inj hstem]
    rfl
  exact h settings hsettings extension he (hname ▸ hextension)

/-- Of the files that are written, the source is none, or holds the text of those that it is. -/
theorem read_lex_iff {source : String} {rest : List String} {content : ByteArray} {files : FileTree}
    {settings : Settings} {reserved : List String} {text : String} {s : Scanner}
    (hread : tree.read source = .ok content)
    (h : Provided (source :: rest) env tree q settings files reserved text)
    (hs : Scanner.standard settings.options = .ok s) (clock : Clock) (out err : String) :
    ((lex (source :: rest) env).run clock ⟨tree, out, err⟩).1.files.read source = .ok content ↔
      ∀ x ∈ lexTexts clock settings.trace (s.scan text (Lexicon.ofReserved reserved)),
        files.SameFile (q.output x.1) source → x.2.toUTF8 = content := by
  obtain ⟨hleft, _⟩ := h.run hs clock out err
  have hkept (hapart : Apart (source :: rest) env tree) :=
    read_lex_of_apart hread hapart clock out err
  have hframe := writtenAt_lex h.asked env tree clock out err
  have hprepared : q.prepared tree = files := congrArg Prod.fst h.made
  rw [hprepared] at hframe
  generalize ((lex (source :: rest) env).run clock ⟨tree, out, err⟩).1.files = after at *
  generalize s.scan text (Lexicon.ofReserved reserved) = o at *
  have hwritten : ∀ x ∈ lexTexts clock settings.trace o, files.SameFile (q.output x.1) source →
      after.read source = .ok x.2.toUTF8 := fun x hx hsame =>
    (hframe.sameFile_iff.mpr hsame).read_eq (hleft.read_of_mem x hx)
  constructor
  · intro hread' x hx hsame
    exact Except.ok.inj ((hwritten x hx hsame).symm.trans hread')
  · intro hall
    by_cases hsome : ∃ x ∈ lexTexts clock settings.trace o, files.SameFile (q.output x.1) source
    · obtain ⟨x, hx, hsame⟩ := hsome
      rw [hwritten x hx hsame, hall x hx hsame]
    · -- none of the files written is the source, so it is left alone
      refine hkept ?_
      rintro q' hasked path ⟨settings', hsettings, extension, he, rfl⟩ hsame
      obtain rfl := Except.ok.inj (h.asked.symm.trans hasked)
      obtain rfl := Except.ok.inj (h.configured.symm.trans hsettings)
      rw [← map_fst_lexTexts clock settings.trace o] at he
      obtain ⟨x, hx, rfl⟩ := List.mem_map.mp he
      rw [hprepared, (LexRequest.source_eq hasked).1] at hsame
      exact hsome ⟨x, hx, hsame⟩

/-- A run keeps its source, however it ends, unless a path that it writes to leads to the source.
There it does what it does to any other file: behind a run that has written all its files, the
source is as before exactly if what was written over it is what it held. -/
theorem lex_keeps_source {source : String} {tree : FileTree} {content : ByteArray}
    (hread : tree.read source = .ok content) (rest : List String) (env : String → Option String)
    (clock : Clock) (out err : String) :
    let done := (lex (source :: rest) env).run clock ⟨tree, out, err⟩
    (Apart (source :: rest) env tree → done.1.files.read source = .ok content) ∧
      ∀ q settings files reserved text,
        Provided (source :: rest) env tree q settings files reserved text →
          ∃ s, Scanner.standard settings.options = .ok s ∧
            (done.1.files.read source = .ok content ↔
              ∀ x ∈ lexTexts clock settings.trace (s.scan text (Lexicon.ofReserved reserved)),
                files.SameFile (q.output x.1) source → x.2.toUTF8 = content) := by
  dsimp only
  refine ⟨fun hapart => read_lex_of_apart hread hapart clock out err, ?_⟩
  intro q settings files reserved text h
  obtain ⟨s, hs, _⟩ := Scanner.exists_reachable settings.options
  exact ⟨s, hs, read_lex_iff hread h hs clock out err⟩

/-- Without traces no log is written, so a source may have the name of one. -/
theorem lex_keeps_source_log :
    let files : FileTree := ⟨[(["a.log"], .file "x".toUTF8)]⟩
    ((lex ["a.log"] fun _ => none).run tickingClock ⟨files, "", ""⟩).1.files.read "a.log" =
      .ok "x".toUTF8 := by
  intro files
  have hread : files.read "a.log" = .ok "x".toUTF8 :=
    FileTree.read_of_get? (FileTree.names_of_root (by decide) rfl (by decide)) rfl
  refine (lex_keeps_source hread [] (fun _ => none) tickingClock "" "").1 ?_
  refine apart_of_extension hread ?_ []
  intro settings hsettings
  obtain rfl : Settings.standard = settings := Except.ok.inj hsettings
  decide

/-- A source that has the extension of the token list is replaced by the token list. -/
theorem lex_overwrites_source_lex :
    let files : FileTree := ⟨[(["a.lex"], .file "x".toUTF8)]⟩
    files.read "a.lex" = .ok "x".toUTF8 ∧
      ((lex ["a.lex"] fun _ => none).run tickingClock ⟨files, "", ""⟩).1.files.read "a.lex" =
        .ok "<50,0>\n".toUTF8 ∧
      "<50,0>\n".toUTF8 ≠ "x".toUTF8 := by
  intro files
  have hfile : files.Names "a.lex" ["a.lex"] :=
    FileTree.names_of_root (by decide) rfl (by decide)
  have hread : files.read "a.lex" = .ok "x".toUTF8 := FileTree.read_of_get? hfile rfl
  refine ⟨hread, ?_, by decide +kernel⟩
  have h : Provided ["a.lex"] (fun _ => none) files ⟨"a.lex", "a", ""⟩ Settings.standard files
      Lexicon.defaultReserved "x" := by
    refine ⟨by decide, rfl, rfl, rfl, FileTree.readText_of_get? hfile rfl, ?_⟩
    intro extension he content
    obtain ⟨hslash, hvoid, hup⟩ :=
      LexRequest.fileName_proper (q := ⟨"a.lex", "a", ""⟩) (by decide) (extensions_subset _ he)
    exact ⟨_, (FileTree.names_of_root hslash hvoid hup).write_eq
      (FileTree.get?_single_ne_directory (by simp)) content⟩
  obtain ⟨s, hs, hreachable⟩ := Scanner.exists_reachable Settings.standard.options
  have hlist := (h.run hs tickingClock "" "").1.list
  have htext : LongestMatch.tokens (streamText "x") = [(.identifierEnd, "x")] := by decide +kernel
  have hlegal : ∀ x ∈ LongestMatch.tokens (streamText "x"), x.1 ≠ .illegal := by simp [htext]
  have hyields := yields_of_legal hreachable hlegal
  rw [htext] at hyields
  obtain ⟨_, htokens, _⟩ :=
    tokens_scan_of_yields (k := Lexicon.ofReserved Lexicon.defaultReserved) hyields Report.empty
  have hline : Records.tokenStream (Report.empty.tokens.toList ++
      ((Lexicon.ofReserved Lexicon.defaultReserved).registerAll [(.identifierEnd, "x")]).1) =
        "<50,0>\n" := by
    decide +kernel
  have hpath : LexRequest.output ⟨"a.lex", "a", ""⟩ "lex" = "a.lex" := by decide
  rw [(tokens_scan s "x" Lexicon.defaultReserved).1, Scanner.scan, htokens, hline, hpath] at hlist
  exact hlist

end Frame

end Program

end TableLexer
