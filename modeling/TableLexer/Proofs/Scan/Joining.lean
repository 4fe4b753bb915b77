import TableLexer.Proofs.Scan.Accounting
import TableLexer.Proofs.Scan.Displaced
import TableLexer.Proofs.Scan.Reuse
import TableLexer.Proofs.Text.Lines
namespace TableLexer.Scan

open Lexical Text

section Streams

/-- What a scan reads of some lines. -/
def placeLines (lines : List (List Char)) : List (Position × Char) :=
  lines.zipIdx.flatMap fun (line, i) => placeLine (i + 1) (line ++ [' '])

theorem stream_eq_placeLines (source : String) :
    stream source = placeLines (splitLines source.toList) := rfl

theorem placeLine_add (n line : Nat) (cs : List Char) :
    placeLine (line + n) cs = lower n (placeLine line cs) := by
  rw [placeLine, placeLine, lower, List.map_map]
  rfl

/-- Lines behind others are read as they are, further down. -/
theorem placeLines_append (xs ys : List (List Char)) :
    placeLines (xs ++ ys) = placeLines xs ++ lower xs.length (placeLines ys) := by
  have hplaced :
      (ys.zipIdx xs.length).flatMap (fun (line, i) => placeLine (i + 1) (line ++ [' '])) =
        lower xs.length (placeLines ys) := by
    rw [List.zipIdx_eq_map_add, List.flatMap_map, placeLines, lower, List.map_flatMap]
    congr 1
    funext x
    have hline : xs.length + x.2 + 1 = x.2 + 1 + xs.length := by omega
    change placeLine (xs.length + x.2 + 1) (x.1 ++ [' ']) = _
    rw [hline]
    exact placeLine_add xs.length (x.2 + 1) _
  rw [placeLines, List.zipIdx_append, List.flatMap_append, Nat.zero_add, hplaced]
  rfl

theorem placeLines_singleton (n : Nat) : lower n (placeLines [[]]) = [(⟨1 + n, 1⟩, ' ')] := rfl

/-- Two texts with a line feed between them are read one after the other. The line feed stands for a
blank of its own only where no line was open. -/
theorem stream_append_lineFeed {s₁ : String} (h : s₁.toList.getLast? ≠ some '\r') (s₂ : String) :
    ∃ gap, (∀ i ∈ gap, i.2 = ' ') ∧
      stream (s₁ ++ "\n" ++ s₂) =
        stream s₁ ++ gap ++ lower (s₁.toList.count '\n' + 1) (stream s₂) := by
  have hlist : (s₁ ++ "\n" ++ s₂).toList = s₁.toList ++ '\n' :: s₂.toList := by simp
  rw [stream_eq_placeLines, hlist, splitLines_append_lineFeed, placeLines_append,
    length_splitLines_concat]
  rcases splitLines_concat h with hlines | hlines
  · exact ⟨[], by simp, by rw [hlines, List.append_nil]; rfl⟩
  · refine ⟨lower (splitLines s₁.toList).length (placeLines [[]]), ?_, ?_⟩
    · simp [placeLines_singleton]
    · rw [hlines, placeLines_append]
      rfl

end Streams

namespace Cursor

variable {g : Basis} {k : Cursor}

theorem feedAll_blanks (hg : g.Lawful) (hi : k.state = .initial) {gap : List (Position × Char)}
    (h : ∀ i ∈ gap, i.2 = ' ') :
    ∃ j, k.feedAll g gap = Move.stay j ∧ j.state = .initial ∧ j.lexeme = k.lexeme := by
  induction gap generalizing k with
  | nil => exact ⟨k, rfl, hi, rfl⟩
  | cons i gap ih =>
    obtain ⟨position, c⟩ := i
    obtain ⟨rfl, hgap⟩ : c = ' ' ∧ ∀ i ∈ gap, i.2 = ' ' := by simpa using h
    have hfeed : k.feed g (position, ' ') = Move.stay (k.moved position ' ') := by
      rw [feed_of_contains hg.contains_blank, feedSymbol_blank_of_initial hg hi]
    obtain ⟨j, hj, hstate, hlexeme⟩ := ih (k := k.moved position ' ')
      (state_moved_blank hi) hgap
    refine ⟨j, ?_, hstate, ?_⟩
    · rw [feedAll_cons, hfeed, Move.stay_andThen, hj]
    · rw [hlexeme, lexeme_moved_blank hi]

/-- No token is cut short. -/
def Closed (findings : Array Finding) : Prop :=
  ∀ r ∈ findings.toList.filterMap Finding.rejection?, ∀ s, r.cause ≠ .unterminated s

theorem close_of_closed (hok : (k.close g).failure? = none)
    (hclosed : Closed (k.close g).findings) : k.close g = Move.stay k := by
  by_cases hi : k.state = .initial
  · exact if_pos hi
  · rw [close_of_ne_initial g hi, refuse] at hok hclosed
    cases hp : g.policy with
    | failFast =>
      rw [hp] at hok
      cases hok
    | recover =>
      rw [hp] at hclosed
      exact absurd rfl (hclosed _ (List.mem_singleton_self _) k.state)

theorem feedAll_of_closed {input : List (Position × Char)}
    (hok : (k.finish g input).failure? = none) (hclosed : Closed (k.finish g input).findings) :
    k.feedAll g input = k.finish g input := by
  rw [finish] at hok hclosed ⊢
  cases hfeed : (k.feedAll g input).failure? with
  | some e => rw [Move.andThen_of_failure hfeed]
  | none =>
    rw [Move.andThen_of_none hfeed] at hok hclosed
    have hclose := close_of_closed hok fun r hr => hclosed r (by
      rw [Array.toList_append, List.filterMap_append]
      exact List.mem_append_right _ hr)
    rw [Move.andThen_of_none hfeed, hclose, ← Move.andThen_of_none hfeed, Move.andThen_stay]

/-- Behind a scan that ended well the next text is scanned as by a scan of its own. -/
theorem exists_below_finish (hg : g.Lawful) {a : Automaton} (ha : Implements a g)
    {s₁ : String} (hreturn : s₁.toList.getLast? ≠ some '\r') (s₂ : String)
    (hok : (k.run g (stream s₁)).failure? = none)
    (hclosed : Closed (k.run g (stream s₁)).findings) (j : Cursor) :
    ∃ rest : Move, rest.Below (s₁.toList.count '\n' + 1) (j.run g (stream s₂)) ∧
      k.run g (stream (s₁ ++ "\n" ++ s₂)) = (k.run g (stream s₁)).andThen fun _ => rest := by
  obtain ⟨_, _, hruns⟩ := exists_runs hg ha (stream s₁) (reads_restart hg k)
    (settled_stream hg k s₁)
  obtain ⟨hstate, hlexeme⟩ := hruns.done hok
  obtain ⟨gap, hgap, hstream⟩ := stream_append_lineFeed hreturn s₂
  obtain ⟨i, hblanks, hi, hil⟩ := feedAll_blanks hg hstate hgap
  have hstart : i.Below (s₁.toList.count '\n' + 1) (j.restart g) :=
    ⟨hi.trans (state_restart hg j).symm, hil.trans hlexeme, .inl (state_restart hg j)⟩
  refine ⟨_, below_finish hg hstart (stream s₂), ?_⟩
  rw [run_eq_finish] at hok hclosed ⊢
  rw [hstream, finish, feedAll_append, feedAll_append, feedAll_of_closed hok hclosed,
    Move.andThen_assoc, Move.andThen_assoc, Move.andThen_of_none hok, run_eq_finish,
    Move.andThen_of_none hok, hblanks, Move.stay_andThen]
  rfl

end Cursor

section Joined

variable {options : ScanOptions} {s t u : Scanner}

theorem diagnostics_ext {ds es : List Diagnostic}
    (hr : ds.map Diagnostic.rejection = es.map Diagnostic.rejection)
    (ht : ds.map Diagnostic.token = es.map Diagnostic.token) : ds = es := by
  have hzip (ds : List Diagnostic) :
      List.zipWith Diagnostic.mk (ds.map Diagnostic.rejection) (ds.map Diagnostic.token) = ds := by
    rw [List.zipWith_map, List.zipWith_self]
    exact List.map_id ds
  rw [← hzip ds, ← hzip es, hr, ht]

theorem scan_registers (s : Scanner) (source : String) (k : Lexicon) :
    let outcome := s.scan source k
    let registered := k.registerAll (s.move source).entries
    outcome.lexicon = registered.2 ∧ outcome.report.tokens.toList = registered.1 ∧
      outcome.observed = registered.1 := by
  have h := s.wrote_recording source k Report.empty
  simp only [Scanner.scan, Scanner.lexicon_scanOnto, Scanner.report_scanOnto,
    Scanner.observed_scanOnto, Move.entries]
  exact ⟨h.lexicon, h.of_empty.1, h.observed.trans (List.nil_append _)⟩

theorem rejections_scan (s : Scanner) (source : String) (k : Lexicon) :
    (s.scan source k).report.diagnostics.toList.map Diagnostic.rejection =
      (s.move source).findings.toList.filterMap Finding.rejection? := by
  rw [Scanner.scan, Scanner.report_scanOnto]
  exact (s.wrote_recording source k Report.empty).of_empty.2.2

theorem illegal_tokens_scan (s : Scanner) (source : String) (k : Lexicon) :
    let report := (s.scan source k).report
    report.diagnostics.toList.map Diagnostic.token =
      report.tokens.toList.filter fun token => token.category = .illegal := by
  obtain ⟨tokens, diagnostics, h⟩ := Recording.exists_accounts_addAll s.options.trace
    ⟨k, Report.empty, #[], #[]⟩ (s.move source).findings
  rw [← Scanner.recording] at h
  have hdiagnosed := h.diagnosed.trans (List.nil_append _)
  have hreported := h.reported.trans (List.nil_append _)
  simp only [Scanner.scan, Scanner.report_scanOnto, hdiagnosed, hreported]
  exact h.illegal

theorem closed_findings {source : String} {k : Lexicon}
    (h : ∀ d ∈ (s.scan source k).report.diagnostics, ∀ state,
      d.rejection.cause ≠ .unterminated state) :
    Cursor.Closed (s.move source).findings := by
  intro r hr
  rw [← rejections_scan s source k] at hr
  obtain ⟨d, hd, rfl⟩ := List.mem_map.mp hr
  exact h d (Array.mem_toList_iff.mp hd)

/-- What is found in two texts with a line feed between them is what is found in the one and then
in the other. -/
theorem move_append_lineFeed (hs : Scanner.Reachable options s) (ht : Scanner.Reachable options t)
    (hu : Scanner.Reachable options u) {s₁ : String} (hreturn : s₁.toList.getLast? ≠ some '\r')
    (s₂ : String) (hok : (s.move s₁).failure? = none)
    (hclosed : Cursor.Closed (s.move s₁).findings) :
    let n := s₁.toList.count '\n' + 1
    let joined := u.move (s₁ ++ "\n" ++ s₂)
    joined.failure? = (t.move s₂).failure?.map (LexError.below n) ∧
      joined.entries = (s.move s₁).entries ++ (t.move s₂).entries ∧
      joined.findings.toList.filterMap Finding.rejection? =
        (s.move s₁).findings.toList.filterMap Finding.rejection? ++
          ((t.move s₂).findings.toList.filterMap Finding.rejection?).map (Rejection.below n) := by
  intro n joined
  obtain ⟨rest, hbelow, hrun⟩ := Cursor.exists_below_finish hs.lawful hs.implements hreturn s₂ hok
    hclosed t.cursor
  rw [← hs.basis_unique ht, ← Scanner.move] at hbelow
  rw [← Scanner.move, ← Scanner.move, Move.andThen_of_none hok] at hrun
  have hfindings : joined.findings = (s.move s₁).findings ++ rest.findings := by
    rw [hs.findings_unique hu, hrun]
  refine ⟨?_, ?_, ?_⟩
  · rw [hs.failure?_unique hu, hrun]
    exact hbelow.failure
  · rw [Move.entries, hfindings, Array.toList_append, List.filterMap_append]
    exact congrArg (_ ++ ·) hbelow.entries
  · rw [hfindings, Array.toList_append, List.filterMap_append, hbelow.rejections]

/-- Two texts with a line feed between them are scanned as the one and then the other, with what is
reported of the second that much further down. The first has to go to its end, with no token cut
short there, and not to end in half a line break. -/
theorem scan_append_lineFeed (hs : Scanner.Reachable options s) (ht : Scanner.Reachable options t)
    (hu : Scanner.Reachable options u) {s₁ : String} (hreturn : s₁.toList.getLast? ≠ some '\r')
    (s₂ : String) (k : Lexicon) (hok : (s.scan s₁ k).failure? = none)
    (hclosed : ∀ d ∈ (s.scan s₁ k).report.diagnostics, ∀ state,
      d.rejection.cause ≠ .unterminated state) :
    let n := s₁.toList.count '\n' + 1
    let first := s.scan s₁ k
    let second := t.scan s₂ first.lexicon
    let joined := u.scan (s₁ ++ "\n" ++ s₂) k
    joined.failure? = second.failure?.map (LexError.below n) ∧
      joined.lexicon = second.lexicon ∧
      joined.report.tokens = first.report.tokens ++ second.report.tokens ∧
      joined.observed = first.observed ++ second.observed ∧
      joined.report.diagnostics =
        first.report.diagnostics ++ second.report.diagnostics.map (Diagnostic.below n) := by
  obtain ⟨hfailure, hentries, hrejections⟩ :=
    move_append_lineFeed hs ht hu hreturn s₂ hok (closed_findings hclosed)
  obtain ⟨hlexicon₁, htokens₁, hobserved₁⟩ := scan_registers s s₁ k
  obtain ⟨hlexicon₂, htokens₂, hobserved₂⟩ := scan_registers t s₂ (s.scan s₁ k).lexicon
  obtain ⟨hlexicon, htokens, hobserved⟩ := scan_registers u (s₁ ++ "\n" ++ s₂) k
  rw [hentries, Lexicon.registerAll_append, ← hlexicon₁] at hlexicon htokens hobserved
  dsimp only at hlexicon htokens hobserved ⊢
  rw [← htokens₁, ← htokens₂, ← Array.toList_append] at htokens
  rw [← hobserved₁, ← hobserved₂] at hobserved
  refine ⟨hfailure, hlexicon.trans hlexicon₂.symm, Array.toList_inj.mp htokens, hobserved,
    Array.toList_inj.mp (diagnostics_ext ?_ ?_)⟩
  · rw [Array.toList_append, Array.toList_map, List.map_append, Diagnostic.map_rejection_below,
      rejections_scan, rejections_scan, rejections_scan, hrejections]
  · rw [Array.toList_append, Array.toList_map, List.map_append, Diagnostic.map_token_below,
      illegal_tokens_scan, illegal_tokens_scan, illegal_tokens_scan, htokens, Array.toList_append,
      List.filter_append]

/-- A string left open in the third line. -/
theorem scan_append_lineFeed_standard :
    ∃ s, Scanner.standard ⟨.failFast, true⟩ = .ok s ∧
      let k := Lexicon.ofReserved ["x"]
      let first := s.scan "x\n" k
      let second := s.scan "'" first.lexicon
      let joined := s.scan "x\n\n'" k
      second.failure? = some (.unterminated ⟨1, 1⟩ "' " "string_body") ∧
        joined.failure? = some (.unterminated ⟨3, 1⟩ "' " "string_body") ∧
        joined.lexicon = second.lexicon ∧
        joined.report.tokens = first.report.tokens ++ second.report.tokens := by
  obtain ⟨_, _, hnew⟩ := Scanner.exists_standard ⟨.failFast, true⟩
  have hs := Scanner.Reachable.standard hnew
  have htext : LongestMatch.tokens (streamText "x\n") = [(.identifierEnd, "x")] := by decide +kernel
  have hlegal : ∀ x ∈ LongestMatch.tokens (streamText "x\n"), x.1 ≠ .illegal := by
    rw [htext]
    simp
  have hreturn : "x\n".toList.getLast? ≠ some '\r' := by decide
  have hnone := diagnostics_scan (noRejection_of_failFast hs rfl "x\n")
    (Lexicon.ofReserved ["x"])
  have hquote := failure?_move_quote hs rfl
  obtain ⟨hfailure, hlexicon, htokens, _⟩ := scan_append_lineFeed hs hs hs hreturn "'"
    (Lexicon.ofReserved ["x"]) (yields_of_legal hs hlegal).1 (by
      intro d hd
      rw [hnone] at hd
      exact absurd hd (Array.not_mem_empty d))
  exact ⟨_, hnew, hquote, hfailure.trans (congrArg (Option.map _) hquote), hlexicon, htokens⟩

end Joined

end TableLexer.Scan
