import TableLexer.Proofs.Scan.Places
import TableLexer.Proofs.Scan.Relocation
import TableLexer.Proofs.Scan.Spacing
namespace TableLexer

open Scan Text

/-- A source with something else written for every line feed. -/
def Text.rebreak (lineEnd source : String) : String :=
  String.ofList (source.toList.flatMap fun c => if c = '\n' then lineEnd.toList else [c])

namespace Scan

/-- Where a position in some lines comes to be when they are written as one, with a blank behind
each of them. -/
def Position.inOneLine (lines : List (List Char)) (p : Position) : Position :=
  ⟨1, ((lines.take (p.line - 1)).flatMap fun line => line ++ [' ']).length + p.column⟩

section LineEnds

variable {source : String}

theorem splitLines_carriageReturns {text : List Char} (h : '\r' ∉ text) :
    splitLines (text.flatMap fun c => if c = '\n' then ['\r', '\n'] else [c]) =
      splitLines text := by
  induction text with
  | nil => rfl
  | cons c text ih =>
    obtain ⟨hc, htext⟩ : '\r' ≠ c ∧ '\r' ∉ text := by simpa using h
    have hrest := ih htext
    have hbegun (rest : List Char) : ∀ behind, c = '\r' → rest = '\n' :: behind → False :=
      fun _ he _ => hc he.symm
    by_cases hn : c = '\n'
    · subst hn
      rw [List.flatMap_cons, if_pos rfl, List.cons_append, List.singleton_append, splitLines,
        splitLines, hrest]
    · rw [List.flatMap_cons, if_neg hn, List.singleton_append, splitLines.eq_4 c _ hn (hbegun _),
        splitLines.eq_4 c _ hn (hbegun _), hrest]

theorem stream_rebreak_carriageReturn (h : '\r' ∉ source.toList) :
    stream (rebreak "\r\n" source) = stream source := by
  rw [stream_eq_placeLines, rebreak, String.toList_ofList]
  exact congrArg placeLines (splitLines_carriageReturns h)

theorem exists_last (hne : source ≠ "") (hopen : source.toList.getLast? ≠ some '\n') :
    ∃ text d, source.toList = text ++ [d] ∧ d ≠ '\n' := by
  rcases source.toList.eq_nil_or_concat with hnil | ⟨text, d, hd⟩
  · exact absurd (String.toList_eq_nil_iff.mp hnil) hne
  · rw [List.concat_eq_append] at hd
    refine ⟨text, d, hd, ?_⟩
    rintro rfl
    exact hopen (by rw [hd, List.getLast?_concat])

theorem stream_concat_lineFeed (hne : source ≠ "") (hreturn : '\r' ∉ source.toList)
    (hopen : source.toList.getLast? ≠ some '\n') : stream (source ++ "\n") = stream source := by
  obtain ⟨text, d, hsource, hd⟩ := exists_last hne hopen
  have hr : d ≠ '\r' := by
    rintro rfl
    exact hreturn (by simp [hsource])
  have hlist : (source ++ "\n").toList = text ++ [d] ++ ['\n'] := by
    rw [String.toList_append, hsource]
    rfl
  rw [stream_eq_placeLines, hlist, splitLines_concat_of_open text hd hr, ← hsource]
  rfl

end LineEnds

section OneLine

variable {source : String}

theorem placeLine_behind (xs ys : List Char) :
    placeLine 1 (xs ++ ys) =
      placeLine 1 xs ++ relocate (fun p => ⟨p.line, xs.length + p.column⟩) (placeLine 1 ys) := by
  have hplaced : (ys.zipIdx xs.length).map (fun x => (Position.mk 1 (x.2 + 1), x.1)) =
      relocate (fun p => ⟨p.line, xs.length + p.column⟩) (placeLine 1 ys) := by
    rw [List.zipIdx_eq_map_add, relocate, placeLine, List.map_map, List.map_map]
    rfl
  rw [placeLine, List.zipIdx_append, List.map_append, Nat.zero_add, hplaced]
  rfl

/-- Lines that are read as one: every character is found behind those of the lines above it. -/
theorem placeLine_flatMap (lines : List (List Char)) :
    placeLine 1 (lines.flatMap fun line => line ++ [' ']) =
      relocate (Position.inOneLine lines) (placeLines lines) := by
  induction lines with
  | nil => rfl
  | cons line lines ih =>
    have hfirst : relocate (Position.inOneLine (line :: lines)) (placeLine 1 (line ++ [' '])) =
        placeLine 1 (line ++ [' ']) := by
      rw [relocate, placeLine, List.map_map]
      refine List.map_congr_left fun i _ => ?_
      simp [Position.inOneLine]
    -- one line further down is one line further to the right
    have hbelow : relocate (Position.inOneLine (line :: lines)) (lower 1 (placeLines lines)) =
        relocate (fun p => ⟨p.line, (line ++ [' ']).length + p.column⟩)
          (relocate (Position.inOneLine lines) (placeLines lines)) := by
      rw [relocate, lower, List.map_map, relocate, relocate, List.map_map]
      refine List.map_congr_left fun i hi => ?_
      obtain ⟨n, hn⟩ := Nat.exists_eq_add_of_lt
        (line_pos_of_mem_placeLines (List.mem_map_of_mem (f := Prod.fst) hi))
      simp [Position.inOneLine, Position.below, hn, Nat.add_assoc]
    have happend : relocate (Position.inOneLine (line :: lines)) (placeLines (line :: lines)) =
        relocate (Position.inOneLine (line :: lines)) (placeLine 1 (line ++ [' '])) ++
          relocate (Position.inOneLine (line :: lines)) (lower 1 (placeLines lines)) := by
      rw [placeLines_cons]
      exact List.map_append
    rw [List.flatMap_cons, placeLine_behind, ih, happend, hfirst, hbelow]

theorem toList_rebreak_blank (source : String) :
    (rebreak " " source).toList = unbreak source.toList := by
  rw [rebreak, String.toList_ofList, unbreak, List.map_eq_flatMap]
  congr 1
  funext c
  split <;> rfl

theorem stream_rebreak_blank (hne : source ≠ "") (hreturn : '\r' ∉ source.toList)
    (hopen : source.toList.getLast? ≠ some '\n') :
    stream (rebreak " " source) =
      relocate (Position.inOneLine (splitLines source.toList)) (stream source) := by
  obtain ⟨text, d, hsource, hd⟩ := exists_last hne hopen
  have hline : '\n' ∉ unbreak source.toList := by
    intro hm
    obtain ⟨c, _, hc⟩ := List.mem_map.mp hm
    split at hc
    · exact absurd hc (by decide)
    · next hn => exact hn hc
  have hbegun : unbreak source.toList ≠ [] := by simp [unbreak, hsource]
  have htext : unbreak source.toList ++ [' '] = streamText source := by
    rw [streamText_of_concat hsource hreturn, if_neg hd]
  rw [stream_eq_placeLines, toList_rebreak_blank, splitLines_of_not_mem hline hbegun,
    placeLines_cons, htext, streamText, placeLine_flatMap, stream_eq_placeLines]
  exact List.append_nil _

end OneLine

section Relocated

variable {options : ScanOptions} {s : Scanner} {source other : String} {f : Position → Position}

theorem move_relocate (hs : Scanner.Reachable options s)
    (h : stream other = relocate f (stream source)) :
    (s.move other).findings = ((s.move source).relocate f).findings ∧
      (s.move other).failure? = ((s.move source).relocate f).failure? := by
  rw [Scanner.move, Scanner.move, h, ← Cursor.run_relocate]
  exact ⟨Cursor.findings_run hs.lawful _ _ _, Cursor.failure?_run hs.lawful _ _ _⟩

/-- The diagnostics that a scan adds, one for each rejection and for each illegal token it adds. -/
theorem exists_diagnostics (s : Scanner) (source : String) (k : Lexicon) (report : Report) :
    ∃ tokens diagnostics,
      (s.recording source k report).report.tokens.toList = report.tokens.toList ++ tokens ∧
        (s.recording source k report).report.diagnostics.toList =
          report.diagnostics.toList ++ diagnostics ∧
        diagnostics.map Diagnostic.rejection =
          (s.move source).findings.toList.filterMap Finding.rejection? ∧
        diagnostics.map Diagnostic.token =
          tokens.filter fun token => token.category = .illegal := by
  obtain ⟨tokens, diagnostics, h⟩ := Recording.exists_accounts_addAll s.options.trace
    ⟨k, report, #[], #[]⟩ (s.move source).findings
  rw [← Scanner.recording] at h
  have hrejections := (s.wrote_recording source k report).rejections
  rw [h.diagnosed, List.map_append] at hrejections
  exact ⟨tokens, diagnostics, h.reported, h.diagnosed, List.append_cancel_left hrejections,
    h.illegal⟩

theorem scanOnto_relocate (hs : Scanner.Reachable options s)
    (h : stream other = relocate f (stream source)) (k : Lexicon) (report : Report) :
    let read := s.scanOnto source k report
    let moved := s.scanOnto other k report
    moved.failure? = read.failure?.map (LexError.relocate f) ∧ moved.lexicon = read.lexicon ∧
      moved.report.tokens = read.report.tokens ∧ moved.observed = read.observed ∧
      moved.report.traces = read.report.traces ∧
      ∃ diagnostics,
        read.report.diagnostics.toList = report.diagnostics.toList ++ diagnostics ∧
          moved.report.diagnostics.toList =
            report.diagnostics.toList ++ diagnostics.map (Diagnostic.relocate f) := by
  obtain ⟨hfindings, hfailure⟩ := move_relocate hs h
  have hread := s.wrote_recording source k report
  have hmoved := s.wrote_recording other k report
  have hfiled : (s.move other).findings.toList.filterMap Finding.filed? =
      (s.move source).findings.toList.filterMap Finding.filed? := by
    rw [hfindings]
    exact Move.entries_relocate f (s.move source)
  have htokens : (s.recording other k report).report.tokens.toList =
      (s.recording source k report).report.tokens.toList := by
    rw [hmoved.tokens, hfiled, hread.tokens]
  simp only [Scanner.lexicon_scanOnto, Scanner.report_scanOnto, Scanner.observed_scanOnto,
    Scanner.failure?_scanOnto]
  refine ⟨hfailure, ?_, Array.toList_inj.mp htokens, ?_, Array.toList_inj.mp ?_, ?_⟩
  · rw [hmoved.lexicon, hfiled, hread.lexicon]
  · rw [hmoved.observed, hfiled, hread.observed]
  · rw [hmoved.traces, hfindings, Move.traces_relocate, hread.traces]
  · obtain ⟨ts, ds, hts, hds, hrejections, hillegal⟩ := exists_diagnostics s source k report
    obtain ⟨us, es, hus, hes, hrejections', hillegal'⟩ := exists_diagnostics s other k report
    obtain rfl : us = ts := List.append_cancel_left (hus.symm.trans (htokens.trans hts))
    refine ⟨ds, hds, hes.trans (congrArg _ (diagnostics_ext ?_ ?_))⟩
    · rw [hrejections', hfindings, Move.rejections_relocate, ← hrejections, List.map_map,
        List.map_map]
      rfl
    · rw [hillegal', ← hillegal, List.map_map]
      rfl

end Relocated

section LineBreaks

variable {options : ScanOptions} {s : Scanner} {source : String}

/-- A line break is one blank to a scan. How it is written makes no difference, nor does ending the
last line, and with a blank in its place nothing comes out otherwise but where things are. -/
theorem scanOnto_lineBreaks (hs : Scanner.Reachable options s) (hne : source ≠ "")
    (hreturn : '\r' ∉ source.toList) (hopen : source.toList.getLast? ≠ some '\n') (k : Lexicon)
    (report : Report) :
    let f := Position.inOneLine (splitLines source.toList)
    let broken := s.scanOnto source k report
    let joined := s.scanOnto (rebreak " " source) k report
    s.scanOnto (rebreak "\r\n" source) k report = broken ∧
      s.scanOnto (source ++ "\n") k report = broken ∧
      joined.failure? = broken.failure?.map (LexError.relocate f) ∧
      joined.lexicon = broken.lexicon ∧ joined.report.tokens = broken.report.tokens ∧
      joined.observed = broken.observed ∧ joined.report.traces = broken.report.traces ∧
      ∃ diagnostics,
        broken.report.diagnostics.toList = report.diagnostics.toList ++ diagnostics ∧
          joined.report.diagnostics.toList =
            report.diagnostics.toList ++ diagnostics.map (Diagnostic.relocate f) := by
  have hsame {other : String} (h : stream other = stream source) :
      s.scanOnto other k report = s.scanOnto source k report := by
    rw [Scanner.scanOnto, Scanner.move, h]
    rfl
  exact ⟨hsame (stream_rebreak_carriageReturn hreturn),
    hsame (stream_concat_lineFeed hne hreturn hopen),
    scanOnto_relocate hs (stream_rebreak_blank hne hreturn hopen) k report⟩

/-- Illegal text in the second line, which is the third column of the one line. -/
theorem scanOnto_lineBreaks_standard :
    ∃ s, Scanner.standard ⟨.failFast, true⟩ = .ok s ∧
      let k := Lexicon.ofReserved ["if"]
      let broken := s.scanOnto "x\n?" k Report.empty
      let joined := s.scanOnto "x ?" k Report.empty
      broken.failure? = some (.illegal ⟨2, 1⟩ "?") ∧
        s.scanOnto "x\r\n?" k Report.empty = broken ∧
        s.scanOnto "x\n?\n" k Report.empty = broken ∧
        joined.failure? = some (.illegal ⟨1, 3⟩ "?") ∧ joined.lexicon = broken.lexicon ∧
        joined.report.tokens = broken.report.tokens ∧
        joined.report.traces = broken.report.traces := by
  obtain ⟨table, _, hnew⟩ := Scanner.exists_standard ⟨.failFast, true⟩
  generalize Scanner.ofTable table ⟨.failFast, true⟩ = s at hnew
  have hs := Scanner.Reachable.standard hnew
  have htext : LongestMatch.tokens (streamText "x") = [(.identifierEnd, "x")] := by decide +kernel
  have hlegal : ∀ x ∈ LongestMatch.tokens (streamText "x"), x.1 ≠ .illegal := by
    rw [htext]
    simp
  have hclosed : Cursor.Closed (s.move "x").findings := by
    intro r hr
    rw [noRejection_of_failFast hs rfl "x"] at hr
    cases hr
  have hfirst : "x".toList.getLast? ≠ some '\r' := by decide
  obtain ⟨hfail, _⟩ :=
    move_append_lineFeed hs hs hs hfirst "?" (yields_of_legal hs hlegal).1 hclosed
  rw [failure?_move_question hs rfl] at hfail
  have hne : "x\n?" ≠ "" := by decide
  obtain ⟨hreturned, hended, hfailure, hlexicon, htokens, _, htraces, _⟩ :=
    scanOnto_lineBreaks hs hne (by decide) (by decide) (Lexicon.ofReserved ["if"]) Report.empty
  exact ⟨s, hnew, hfail, hreturned, hended, hfailure.trans (congrArg (Option.map _) hfail),
    hlexicon, htokens, htraces⟩

end LineBreaks

end Scan

end TableLexer
