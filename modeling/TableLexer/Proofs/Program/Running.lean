import Mathlib.Data.List.Nodup
import TableLexer.Program.Lex
import TableLexer.Proofs.Files.Writing
import TableLexer.Proofs.Scan.Reachable
namespace TableLexer.Program

open Scan

/-- A clock to try a program with: each look at the time comes a microsecond after the last. -/
def tickingClock : Clock where
  now i := ⟨7, i % 1000000, Nat.mod_lt i (by decide)⟩
  elapsed _ := "0.1"

section Files

/-- The stream of tokens that are written down one after the other. -/
def stampedTokens (clock : Clock) (tokens : List Token) : String :=
  String.join (tokens.mapIdx fun i t => Records.stampedToken (clock.now i) t)

/-- The files of a run by their extensions, in the order of writing. -/
def lexTexts (clock : Clock) (trace : Bool) (o : Scanner.Outcome) : List (String × String) :=
  ("stream", stampedTokens clock o.observed) ::
    ((if trace then [("log", transcripts o.report.traces.toList)] else []) ++
      [("lex", Records.tokenStream o.lexicon.tokens.toList),
        ("set", Records.internedTables o.lexicon),
        ("json", (LexiconArchive.ofLexicon o.lexicon).toJson.pretty)])

def extensions (trace : Bool) : List String :=
  "stream" :: ((if trace then ["log"] else []) ++ ["lex", "set", "json"])

theorem map_fst_lexTexts (clock : Clock) (trace : Bool) (o : Scanner.Outcome) :
    (lexTexts clock trace o).map Prod.fst = extensions trace := by
  cases trace <;> rfl

theorem nodup_extensions (trace : Bool) : (extensions trace).Nodup := by cases trace <;> decide

theorem extensions_subset (trace : Bool) : extensions trace ⊆ extensions true := by
  cases trace <;> decide

theorem log_not_mem_extensions : "log" ∉ extensions false := by decide

end Files

/-- What a run is given and finds: its request and settings, the files once there is a directory
for the output, the reserved words and the source. All that it writes can be written. -/
structure Provided (args : List String) (env : String → Option String) (tree : FileTree)
    (q : LexRequest) (settings : Settings) (files : FileTree) (reserved : List String)
    (text : String) : Prop where
  asked : LexRequest.ofArgs args = .ok q
  configured : Settings.ofLookup env = .ok settings
  made : (if q.outDir = "" then (tree, none) else tree.makeDirectories q.outDir) = (files, none)
  listed : settings.reserved files.readText = .ok reserved
  found : files.readText q.source = .ok text
  writable : ∀ extension ∈ extensions settings.trace, files.Writable (q.output extension)

namespace LexRequest

variable {q : LexRequest}

theorem source_eq {source : String} {rest : List String} (h : ofArgs (source :: rest) = .ok q) :
    q.source = source ∧ Path.fileStem? source = some q.stem := by
  delta ofArgs at h
  cases hstem : Path.fileStem? source with
  | none =>
    simp only [hstem] at h
    cases h
  | some stem =>
    simp only [hstem] at h
    obtain rfl := Except.ok.inj h
    exact ⟨rfl, rfl⟩

theorem slash_not_mem_stem {args : List String} (h : ofArgs args = .ok q) :
    '/' ∉ q.stem.toList := by
  cases args with
  | nil => cases h
  | cons source rest => exact Path.slash_not_mem_of_fileStem? (source_eq h).2

def fileName (q : LexRequest) (extension : String) : String := q.stem ++ "." ++ extension

/-- Where an output is, given the directory. -/
def location (q : LexRequest) (directory : Location) (extension : String) : Location :=
  directory ++ [q.fileName extension]

theorem location_injective (q : LexRequest) (directory : Location) :
    Function.Injective (q.location directory) := by
  intro e f h
  have hname := congrArg String.toList (List.cons.inj (List.append_cancel_left h)).1
  simp only [fileName, String.toList_append] at hname
  exact String.toList_inj.mp (List.append_cancel_left hname)

theorem fileName_proper (hq : '/' ∉ q.stem.toList) {extension : String}
    (h : extension ∈ extensions true) :
    '/' ∉ (q.fileName extension).toList ∧ Path.isVoid (q.fileName extension) = false ∧
      q.fileName extension ≠ ".." := by
  have hall : ∀ e ∈ extensions true, '/' ∉ e.toList ∧ 1 < e.length := by decide
  obtain ⟨hslash, hlong⟩ := hall extension h
  have hlength : 2 < (q.fileName extension).length := by
    simp only [fileName, String.length_append]
    have hdot : ".".length = 1 := rfl
    omega
  have hne (name : String) (hname : name.length ≤ 2) : q.fileName extension ≠ name := by
    intro he
    rw [he] at hlength
    omega
  refine ⟨by simp [fileName, hq, hslash], ?_, hne ".." (by decide)⟩
  simp [Path.isVoid, hne "" (by decide), hne "." (by decide)]

theorem exists_names_output (hq : '/' ∉ q.stem.toList) {files : FileTree} {l : Location}
    (h : files.Names (q.output "stream") l) :
    ∃ directory, ∀ extension ∈ extensions true,
      files.Names (q.output extension) (q.location directory extension) := by
  obtain ⟨hslash, _⟩ := fileName_proper hq (by decide : "stream" ∈ extensions true)
  obtain ⟨directory, hnames⟩ := h.exists_of_join hslash
  refine ⟨directory, fun extension he => ?_⟩
  obtain ⟨hslash, hvoid, hup⟩ := fileName_proper hq he
  exact hnames _ hslash hvoid hup

/-- Texts by their extensions as files. -/
def located (q : LexRequest) (directory : Location) (texts : List (String × String)) :
    List (Location × String) := texts.map fun x => (q.location directory x.1, x.2)

section Located

variable {files : FileTree} {directory : Location} {texts : List (String × String)}

theorem map_fst_located (q : LexRequest) (directory : Location) (texts : List (String × String)) :
    (q.located directory texts).map Prod.fst = (texts.map Prod.fst).map (q.location directory) := by
  rw [located, List.map_map, List.map_map]
  rfl

theorem not_mem_located {extension : String} (h : extension ∉ texts.map Prod.fst) :
    q.location directory extension ∉ (q.located directory texts).map Prod.fst := by
  rwa [map_fst_located, List.mem_map_of_injective (q.location_injective directory)]

variable (h : ∀ x ∈ texts, files.Takes (q.output x.1) (q.location directory x.1))
include h

theorem free_located : ∀ f ∈ q.located directory texts, files.get? f.1 ≠ some .directory := by
  intro f hf
  obtain ⟨x, hx, rfl⟩ := List.mem_map.mp hf
  exact (h x hx).free

theorem read_putTexts (hdistinct : (texts.map Prod.fst).Nodup) :
    ∀ x ∈ texts, (files.putTexts (q.located directory texts)).read (q.output x.1) =
      .ok x.2.toUTF8 := by
  intro x hx
  have hlocations : ((q.located directory texts).map Prod.fst).Nodup := by
    rw [map_fst_located]
    exact hdistinct.map (q.location_injective directory)
  exact FileTree.read_of_get? ((h x hx).names.putTexts (free_located h))
    (FileTree.get?_putTexts_of_mem (free_located h) hlocations (List.mem_map_of_mem hx))

/-- An output that is not among the texts stays as it is. -/
theorem read_putTexts_of_not_mem {extension : String}
    (hnames : files.Names (q.output extension) (q.location directory extension))
    (hnot : extension ∉ texts.map Prod.fst) :
    (files.putTexts (q.located directory texts)).read (q.output extension) =
      files.read (q.output extension) := by
  rw [(hnames.putTexts (free_located h)).read_eq, hnames.read_eq,
    FileTree.get?_putTexts_of_not_mem (free_located h) (not_mem_located hnot)]

end Located

end LexRequest

/-- What a run leaves on file. -/
structure Left (clock : Clock) (q : LexRequest) (trace : Bool) (o : Scanner.Outcome)
    (before after : FileTree) : Prop where
  stream : after.read (q.output "stream") = .ok (stampedTokens clock o.observed).toUTF8
  list : after.read (q.output "lex") = .ok (Records.tokenStream o.lexicon.tokens.toList).toUTF8
  tables : after.read (q.output "set") = .ok (Records.internedTables o.lexicon).toUTF8
  archive : after.read (q.output "json") =
    .ok (LexiconArchive.ofLexicon o.lexicon).toJson.pretty.toUTF8
  log : trace → after.read (q.output "log") = .ok (transcripts o.report.traces.toList).toUTF8
  noLog : trace = false → after.read (q.output "log") = before.read (q.output "log")

theorem Left.read_of_mem {clock : Clock} {q : LexRequest} {trace : Bool} {o : Scanner.Outcome}
    {before after : FileTree} (h : Left clock q trace o before after) :
    ∀ x ∈ lexTexts clock trace o, after.read (q.output x.1) = .ok x.2.toUTF8 := by
  cases trace with
  | false => simpa [lexTexts] using ⟨h.stream, h.list, h.tables, h.archive⟩
  | true => simpa [lexTexts] using ⟨h.stream, h.log rfl, h.list, h.tables, h.archive⟩

theorem left_putTexts (clock : Clock) {q : LexRequest} {trace : Bool} (o : Scanner.Outcome)
    {files : FileTree} {directory : Location}
    (htakes : ∀ extension ∈ extensions trace,
      files.Takes (q.output extension) (q.location directory extension))
    (hlog : files.Names (q.output "log") (q.location directory "log")) :
    Left clock q trace o files
      (files.putTexts (q.located directory (lexTexts clock trace o))) := by
  have hextensions := map_fst_lexTexts clock trace o
  have hwritten : ∀ x ∈ lexTexts clock trace o,
      files.Takes (q.output x.1) (q.location directory x.1) := by
    intro x hx
    exact htakes x.1 (hextensions ▸ List.mem_map_of_mem hx)
  have hread {extension text : String} (hx : (extension, text) ∈ lexTexts clock trace o) :
      (files.putTexts (q.located directory (lexTexts clock trace o))).read (q.output extension) =
        .ok text.toUTF8 :=
    LexRequest.read_putTexts hwritten (hextensions ▸ nodup_extensions trace) _ hx
  exact {
    stream := hread (by simp [lexTexts])
    list := hread (by simp [lexTexts])
    tables := hread (by simp [lexTexts])
    archive := hread (by simp [lexTexts])
    log := fun htrace => hread (by simp [lexTexts, htrace])
    noLog := by
      intro htrace
      refine LexRequest.read_putTexts_of_not_mem hwritten hlog ?_
      rw [hextensions, htrace]
      exact log_not_mem_extensions }

section Run

variable {clock : Clock} {w : Script.World} {q : LexRequest}

theorem files_say (w : Script.World) (channel : Channel) (s : String) :
    (w.say channel s).files = w.files := by
  cases channel <;> rfl

theorem run_fail (clock : Clock) (f : Failure) (w : Script.World) :
    (Script.fail f).run clock w = (w.say .err f.text, 1) := rfl

theorem run_create {path : String} {next : Except OsError Unit → Script} {l : Location}
    (h : w.files.Takes path l) :
    (Script.create path next).run clock w =
      (next (.ok ())).run clock { w with files := w.files.put l (.file "".toUTF8) } := by
  rw [Script.run, h.names.write_eq h.free]
  rfl

/-- A file that has been created, and written to since, is written on. -/
theorem run_append {files : FileTree} {path text more : String}
    {next : Except OsError Unit → Script} {l : Location} (h : files.Takes path l)
    (hw : w.files = files.put l (.file text.toUTF8)) :
    (Script.append path more next).run clock w =
      (next (.ok ())).run clock
        { w with files := files.put l (.file (text ++ more).toUTF8) } := by
  rw [Script.run, hw, h.append_eq]
  rfl

theorem run_writeAll (next : Script) (outputs : List (Output × Location))
    (h : ∀ x ∈ outputs, w.files.Takes x.1.path x.2) :
    (writeAll next (outputs.map Prod.fst)).run clock w =
      next.run clock
        { w with files := w.files.putTexts (outputs.map fun x => (x.2, x.1.text)) } := by
  induction outputs generalizing w with
  | nil => rfl
  | cons x outputs ih =>
    obtain ⟨hx, hrest⟩ := List.forall_mem_cons.mp h
    rw [List.map_cons, writeAll, run_create hx]
    dsimp only
    rw [run_append hx rfl, String.empty_append]
    exact ih fun y hy => (hrest y hy).put hx.free _

theorem stampedTokens_cons (clock : Clock) (t : Token) (tokens : List Token) :
    stampedTokens clock (t :: tokens) =
      Records.stampedToken (clock.now 0) t ++ stampedTokens clock.nextNow tokens := by
  rw [stampedTokens, List.mapIdx_cons, String.join_cons]
  rfl

/-- Each token comes behind those before it, with the time that the clock shows then. -/
theorem run_writeStream (clock : Clock) {files : FileTree} {path : String} {l : Location}
    (h : files.Takes path l) (next : Option OsError → Script) (tokens : List Token) {text : String}
    (hw : w.files = files.put l (.file text.toUTF8)) :
    ∃ later, (writeStream path next tokens).run clock w =
      (next none).run later
        { w with files := files.put l (.file (text ++ stampedTokens clock tokens).toUTF8) } := by
  induction tokens generalizing clock w text with
  | nil =>
    have hall : text ++ stampedTokens clock [] = text := String.append_empty
    exact ⟨clock, by rw [hall, ← hw]; rfl⟩
  | cons t tokens ih =>
    rw [writeStream, Script.run, run_append h hw, stampedTokens_cons, ← String.append_assoc]
    exact ih clock.nextNow rfl

theorem run_readText (path : String) (next : Except ReadError String → Script) :
    (Script.readText path next).run clock w = (next (w.files.readText path)).run clock w := rfl

theorem run_readReserved {settings : Settings} {reserved : List String}
    (h : settings.reserved w.files.readText = .ok reserved) (next : List String → Script) :
    (readReserved settings next).run clock w = (next reserved).run clock w := by
  rw [Settings.reserved] at h
  rw [readReserved]
  cases hk : settings.keywords? with
  | none =>
    rw [hk] at h
    rw [← Except.ok.inj h]
  | some path =>
    rw [hk] at h
    simp only [run_readText, h]

theorem run_readSource {text : String} (h : w.files.readText q.source = .ok text)
    (next : String → Script) :
    (readSource q next).run clock w = (next text).run clock w := by
  rw [readSource, run_readText, h]

theorem run_finishLex (q : LexRequest) (o : Scanner.Outcome) (clock : Clock) (w : Script.World) :
    ((finishLex q o).run clock w).1.files = w.files ∧
      (((finishLex q o).run clock w).2 = 0 ↔ o.failure? = none) := by
  rw [finishLex]
  cases o.failure? with
  | some e =>
    rw [run_fail]
    exact ⟨rfl, by simp⟩
  | none => exact ⟨rfl, by simp [Script.run, Script.sayLine]⟩

theorem run_lexWith {env : String → Option String} {settings : Settings} {reserved : List String}
    {text : String} (hconfigured : Settings.ofLookup env = .ok settings)
    (hlisted : settings.reserved w.files.readText = .ok reserved)
    (hfound : w.files.readText q.source = .ok text) :
    (lexWith q env).run clock w = (lexText q settings.options reserved text).run clock w := by
  rw [lexWith, hconfigured]
  exact (run_readReserved hlisted _).trans (run_readSource hfound _)

theorem run_lex {args : List String} {env : String → Option String} {files : FileTree}
    (hasked : LexRequest.ofArgs args = .ok q)
    (hmade : (if q.outDir = "" then (w.files, none) else w.files.makeDirectories q.outDir) =
      (files, none)) :
    (lex args env).run clock w = (lexWith q env).run clock { w with files } := by
  rw [lex, hasked]
  by_cases hdirectory : q.outDir = ""
  · rw [if_pos hdirectory] at hmade
    obtain rfl := (Prod.mk.inj hmade).1
    simp only [if_pos hdirectory]
  · rw [if_neg hdirectory] at hmade
    simp only [if_neg hdirectory, Script.run, hmade]
    rfl

variable {directory : Location} {trace : Bool}

theorem run_lexOutputs {o : Scanner.Outcome} (next : Script)
    (h : ∀ extension ∈ (extensions trace).tail,
      w.files.Takes (q.output extension) (q.location directory extension)) :
    (writeAll next (lexOutputs q trace o)).run clock w =
      next.run clock { w with
        files := w.files.putTexts (q.located directory (lexTexts clock trace o).tail) } := by
  let located (extension : String) (output : Output) := (output, q.location directory extension)
  cases trace with
  | false =>
    refine run_writeAll next [located "lex" _, located "set" _, located "json" _] ?_
    simpa [extensions] using h
  | true =>
    refine run_writeAll next
      [located "log" _, located "lex" _, located "set" _, located "json" _] ?_
    simpa [extensions] using h

theorem run_writeScanned (clock : Clock) (text : String) (o : Scanner.Outcome)
    (h : ∀ extension ∈ (extensions trace).tail,
      w.files.Takes (q.output extension) (q.location directory extension)) :
    ∃ later last, (writeScanned q trace text o none).run clock w =
        (finishLex q o).run later last ∧
      last.files = w.files.putTexts (q.located directory (lexTexts clock trace o).tail) := by
  rw [writeScanned, Script.run, Script.sayLine, Script.run]
  generalize hsaid : Script.World.say _ _ _ = said
  have hfiles : said.files = w.files := by rw [← hsaid, files_say]
  rw [← hfiles] at h
  exact ⟨_, _, run_lexOutputs _ h, by rw [← hfiles]; rfl⟩

theorem run_lexText_eq {options : ScanOptions} {s : Scanner}
    (hs : Scanner.standard options = .ok s) (reserved : List String) (text : String)
    {l : Location} (h : w.files.Takes (q.output "stream") l) :
    (lexText q options reserved text).run clock w =
      (lexScanner q options.trace reserved text (.ok s)).run clock
        { w with files := w.files.put l (.file "".toUTF8) } := by
  rw [lexText, run_create h, hs]

/-- Only the stream has times in it, and it comes first. -/
theorem putTexts_lexTexts (clock later : Clock) (o : Scanner.Outcome) (files : FileTree) :
    files.putTexts (q.located directory (lexTexts clock trace o)) =
      (files.put (q.location directory "stream")
        (.file (stampedTokens clock o.observed).toUTF8)).putTexts
          (q.located directory (lexTexts later trace o).tail) := by
  rw [lexTexts, LexRequest.located, List.map_cons, FileTree.putTexts_cons]
  rfl

theorem run_lexText (clock : Clock) {options : ScanOptions} {s : Scanner}
    (hs : Scanner.standard options = .ok s) (reserved : List String) (text : String)
    (h : ∀ extension ∈ extensions options.trace,
      w.files.Takes (q.output extension) (q.location directory extension)) :
    let o := s.scan text (Lexicon.ofReserved reserved)
    ∃ later last, (lexText q options reserved text).run clock w =
        (finishLex q o).run later last ∧
      last.files = w.files.putTexts (q.located directory (lexTexts clock options.trace o)) := by
  have hstream := h "stream" (by simp [extensions])
  intro o
  let stream (content : String) : Script.World :=
    { w with files := w.files.put (q.location directory "stream") (.file content.toUTF8) }
  obtain ⟨clock', hstreamed⟩ := run_writeStream clock hstream
    (writeScanned q options.trace text o) o.observed (w := stream "") rfl
  rw [String.empty_append] at hstreamed
  have hlater : ∀ extension ∈ (extensions options.trace).tail,
      (stream (stampedTokens clock o.observed)).files.Takes (q.output extension)
        (q.location directory extension) := fun extension he =>
    (h extension (List.mem_cons_of_mem _ he)).put hstream.free _
  obtain ⟨later, last, hlast, hfiles⟩ := run_writeScanned clock' text o hlater
  refine ⟨later, last, ?_, hfiles.trans (putTexts_lexTexts _ _ _ _).symm⟩
  rw [run_lexText_eq hs reserved text hstream, lexScanner]
  exact hstreamed.trans hlast

end Run

namespace Provided

variable {args : List String} {env : String → Option String} {tree files : FileTree}
  {q : LexRequest} {settings : Settings} {reserved : List String} {text : String}
  (h : Provided args env tree q settings files reserved text)
include h

theorem exists_takes :
    ∃ directory, (∀ extension ∈ extensions settings.trace,
        files.Takes (q.output extension) (q.location directory extension)) ∧
      files.Names (q.output "log") (q.location directory "log") := by
  obtain ⟨_, hstream⟩ := (h.writable "stream" (by simp [extensions])).exists_takes
  obtain ⟨directory, hnames⟩ :=
    LexRequest.exists_names_output (LexRequest.slash_not_mem_stem h.asked) hstream.names
  refine ⟨directory, fun extension he => ?_, hnames "log" (by simp [extensions])⟩
  have hname := hnames extension (extensions_subset _ he)
  obtain ⟨l, hl⟩ := (h.writable extension he).exists_takes
  rwa [hname.unique hl.names]

theorem run {s : Scanner} (hs : Scanner.standard settings.options = .ok s) (clock : Clock)
    (out err : String) :
    let o := s.scan text (Lexicon.ofReserved reserved)
    let done := (lex args env).run clock ⟨tree, out, err⟩
    Left clock q settings.trace o files done.1.files ∧ (done.2 = 0 ↔ o.failure? = none) := by
  intro o done
  obtain ⟨directory, htakes, hlog⟩ := h.exists_takes
  obtain ⟨later, last, hrun, hfiles⟩ :=
    run_lexText (w := ⟨files, out, err⟩) clock hs reserved text htakes
  have hdone : done = (finishLex q o).run later last :=
    calc done = (lexWith q env).run clock ⟨files, out, err⟩ := run_lex h.asked h.made
      _ = (lexText q settings.options reserved text).run clock ⟨files, out, err⟩ :=
        run_lexWith h.configured h.listed h.found
      _ = (finishLex q o).run later last := hrun
  obtain ⟨hkept, hcode⟩ := run_finishLex q o later last
  rw [hdone, hkept, hfiles]
  exact ⟨left_putTexts clock o htakes hlog, hcode⟩

end Provided

end TableLexer.Program
