import TableLexer.Proofs.Scan.Joining
namespace TableLexer.Scan

open Lexical Text

section Streams

/-- How an input that ends and one that goes on differ behind what they share: by the blank at the
end, or by a line break of which only the first half was there. -/
inductive Cut : List (Position × Char) → List (Position × Char) → Prop where
  | betweenLines (rest : List (Position × Char)) : Cut [] rest
  | inLine (p : Position) (rest : List (Position × Char)) : Cut [(p, ' ')] rest
  | inBreak (p q : Position) (rest : List (Position × Char)) :
      Cut [(p, '\r'), (q, ' ')] ((p, ' ') :: rest)

theorem Cut.lower {xs ys : List (Position × Char)} (h : Cut xs ys) (n : Nat) :
    Cut (lower n xs) (lower n ys) := by
  cases h with
  | betweenLines rest => exact .betweenLines _
  | inLine p rest => exact .inLine _ _
  | inBreak p q rest => exact .inBreak _ _ _

/-- One input is cut off somewhere in the other. -/
def CutOff (xs ys : List (Position × Char)) : Prop :=
  ∃ shared tail tail', xs = shared ++ tail ∧ ys = shared ++ tail' ∧ Cut tail tail'

theorem CutOff.behind {xs ys : List (Position × Char)} (h : CutOff xs ys)
    (front : List (Position × Char)) (n : Nat) :
    CutOff (front ++ lower n xs) (front ++ lower n ys) := by
  obtain ⟨shared, tail, tail', rfl, rfl, hcut⟩ := h
  refine ⟨front ++ lower n shared, lower n tail, lower n tail', ?_, ?_, hcut.lower n⟩
  · rw [lower, List.map_append, List.append_assoc]
    rfl
  · rw [lower, List.map_append, List.append_assoc]
    rfl

theorem placeLine_append (line : Nat) (xs ys : List Char) :
    ∃ rest, placeLine line (xs ++ ys) = placeLine line xs ++ rest := by
  rw [placeLine, List.zipIdx_append, List.map_append]
  exact ⟨_, rfl⟩

theorem placeLine_concat (line : Nat) (xs : List Char) (c : Char) :
    placeLine line (xs ++ [c]) = placeLine line xs ++ [(⟨line, xs.length + 1⟩, c)] := by
  rw [placeLine, List.zipIdx_append, List.map_append, Nat.zero_add]
  rfl

theorem placeLines_cons (line : List Char) (lines : List (List Char)) :
    placeLines (line :: lines) = placeLine 1 (line ++ [' ']) ++ lower 1 (placeLines lines) :=
  (placeLines_append [line] lines).trans (congrArg (· ++ _) (List.append_nil _))

theorem cutOff_line {line : List Char} (h : '\n' ∉ line) (text : List Char) :
    CutOff (placeLines (splitLines line)) (placeLines (splitLines (line ++ text))) := by
  by_cases hne : line = []
  · subst hne
    exact ⟨[], [], _, rfl, rfl, .betweenLines _⟩
  · rw [splitLines_of_not_mem h hne, placeLines_cons]
    rcases splitLines_append_of_not_mem h hne text with
      ⟨more, lines, hlines⟩ | ⟨front, behind, rfl, hlines⟩
    · obtain ⟨rest, hrest⟩ := placeLine_append 1 line (more ++ [' '])
      rw [hlines, placeLines_cons, List.append_assoc, hrest, placeLine_concat, List.append_assoc,
        List.append_assoc]
      exact ⟨_, _, _, rfl, rfl, .inLine _ _⟩
    · rw [hlines, placeLines_cons, placeLine_concat, placeLine_concat, placeLine_concat,
        List.append_assoc, List.append_assoc, List.append_assoc]
      exact ⟨_, _, _, rfl, rfl, .inBreak _ _ _⟩

theorem cutOff_stream (s₁ s₂ : String) : CutOff (stream s₁) (stream (s₁ ++ s₂)) := by
  rw [stream_eq_placeLines, stream_eq_placeLines, String.toList_append]
  by_cases h : '\n' ∈ s₁.toList
  · -- the lines in front of the last line feed are shared
    obtain ⟨back, front, hsplit, hback⟩ :=
      List.eq_append_cons_of_mem (List.mem_reverse.mpr h)
    have hlines : s₁.toList = front.reverse ++ '\n' :: back.reverse := by
      rw [← List.reverse_reverse s₁.toList, hsplit]
      simp
    rw [hlines, List.append_assoc, List.cons_append,
      splitLines_append_lineFeed _ back.reverse, placeLines_append,
      splitLines_append_lineFeed _ (back.reverse ++ s₂.toList), placeLines_append]
    exact (cutOff_line (fun hm => hback (List.mem_reverse.mp hm)) s₂.toList).behind _ _
  · exact cutOff_line h s₂.toList

end Streams

/-- What is found in the one text stands in what is found in the other, the last of it apart. If it
gave up at what is illegal, both came to the same. -/
structure Move.Delivers (part whole : Move) : Prop where
  delivered : part.entries.dropLast <+: whole.entries
  illegal : ∀ position lexeme, part.failure? = some (.illegal position lexeme) →
    whole.failure? = part.failure? ∧ whole.entries = part.entries

namespace Move

variable {part whole : Move}

theorem delivers_refl (m : Move) : m.Delivers m :=
  ⟨List.dropLast_prefix _, fun _ _ _ => ⟨rfl, rfl⟩⟩

theorem delivers_of_few (hfew : part.entries.length ≤ 1)
    (hfail : ∀ position lexeme, part.failure? ≠ some (.illegal position lexeme)) :
    part.Delivers whole where
  delivered := by
    have hnil : part.entries.dropLast = [] := by
      rw [← List.length_eq_zero_iff, List.length_dropLast]
      omega
    rw [hnil]
    exact List.nil_prefix
  illegal position lexeme h := absurd h (hfail position lexeme)

theorem Delivers.congr {other : Move} (h : part.Delivers whole)
    (he : other.entries = whole.entries) (hf : other.failure? = whole.failure?) :
    part.Delivers other := by
  obtain ⟨hdelivered, hillegal⟩ := h
  rw [← he] at hdelivered
  rw [← he, ← hf] at hillegal
  exact ⟨hdelivered, hillegal⟩

theorem Delivers.andThen_stay {f : Cursor → Move} (h : part.Delivers whole)
    (hf : part.failure? = none → ∃ j, f part.cursor = stay j) :
    (part.andThen f).Delivers whole := by
  cases hpart : part.failure? with
  | some e =>
    rw [andThen_of_failure hpart]
    exact h
  | none =>
    obtain ⟨j, hj⟩ := hf hpart
    rw [andThen_of_none hpart, hj]
    constructor
    · simpa [entries, stay] using h.delivered
    · intro position lexeme hfail
      cases hfail

theorem Delivers.andThen {m : Move} {f f' : Cursor → Move}
    (h : m.failure? = none → (f m.cursor).Delivers (f' m.cursor)) :
    (m.andThen f).Delivers (m.andThen f') := by
  cases hm : m.failure? with
  | some e =>
    rw [andThen_of_failure hm, andThen_of_failure hm]
    exact delivers_refl m
  | none =>
    obtain ⟨hdelivered, hillegal⟩ := h hm
    have hentries (next : Cursor → Move) :
        (m.andThen next).entries = m.entries ++ (next m.cursor).entries := by
      rw [andThen_of_none hm, entries, Array.toList_append, List.filterMap_append]
      rfl
    constructor
    · rw [hentries, hentries]
      by_cases hnil : (f m.cursor).entries = []
      · rw [hnil, List.append_nil]
        exact (List.dropLast_prefix _).trans (List.prefix_append _ _)
      · rw [List.dropLast_append_of_ne_nil hnil]
        exact (List.prefix_append_right_inj _).mpr hdelivered
    · intro position lexeme hfail
      rw [andThen_of_none hm] at hfail
      obtain ⟨hsame, hfound⟩ := hillegal position lexeme hfail
      rw [hentries, hentries, hfound, andThen_of_none hm, andThen_of_none hm]
      exact ⟨hsame, rfl⟩

end Move

namespace Cursor

variable {g : Basis} {k : Cursor}

theorem delivers_refuse {error : LexError} {rejection : Rejection}
    (he : ∀ position lexeme, error ≠ .illegal position lexeme) (whole : Move) :
    (k.refuse g error rejection).Delivers whole :=
  Move.delivers_of_few length_entries_refuse fun position lexeme h =>
    he position lexeme (policy_of_refuse h).2.symm

theorem delivers_close (whole : Move) : (k.close g).Delivers whole := by
  by_cases hi : k.state = .initial
  · rw [close, if_pos hi]
    exact Move.delivers_of_few (Nat.zero_le 1) (by simp [Move.stay])
  · rw [close_of_ne_initial g hi]
    exact delivers_refuse (by simp) whole

theorem feed_blank (hg : g.Lawful) (hk : k.Reads) (p : Position) :
    (∃ j, k.feed g (p, ' ') = Move.stay j) ∨
      ∃ trace j, j.state = .initial ∧ k.feed g (p, ' ') = ⟨#[.reached trace], j, none⟩ := by
  rw [feed_of_contains hg.contains_blank]
  cases hn : (k.state.next ' ').terminal? with
  | none => exact .inl ⟨_, feedSymbol_of_open hg hg.contains_blank hn⟩
  | some t =>
    have ht : t ≠ .illegal := by
      rintro rfl
      exact State.terminal?_next_blank_ne (not_isFinal_of_spells hk) hn
    exact .inr ⟨_, _, state_moved_blank (state_restart hg _), feedSymbol_blank_of_ends hg hn ht⟩

theorem finish_blank_of_initial (hg : g.Lawful) (hi : k.state = .initial) (p : Position) :
    k.finish g [(p, ' ')] = Move.stay (k.moved p ' ') := by
  rw [finish_cons, feed_of_contains hg.contains_blank, feedSymbol_blank_of_initial hg hi,
    Move.stay_andThen, finish_nil, close, if_pos (state_moved_blank hi)]

theorem delivers_inLine (hg : g.Lawful) (hk : k.Reads) (p : Position) (whole : Move) :
    (k.finish g [(p, ' ')]).Delivers whole := by
  rw [finish_cons]
  rcases feed_blank hg hk p with ⟨j, hj⟩ | ⟨trace, j, hi, hj⟩
  · rw [hj, Move.stay_andThen, finish_nil]
    exact delivers_close whole
  · have hclose : j.finish g [] = Move.stay j := by rw [finish_nil, close, if_pos hi]
    have hfew : (Move.mk #[.reached trace] j none).entries.length ≤ 1 :=
      List.length_filterMap_le _ _
    rw [hj]
    exact (Move.delivers_of_few hfew (by simp)).andThen_stay fun _ => ⟨j, hclose⟩

theorem delivers_inBreak (hg : g.Lawful) (hk : k.Reads) (p q : Position)
    (rest : List (Position × Char)) :
    (k.finish g [(p, '\r'), (q, ' ')]).Delivers (k.finish g ((p, ' ') :: rest)) := by
  have hforeign : g.alphabet.contains '\r' = false := by
    rw [hg.alphabet, Alphabet.contains_standard]
    decide
  rw [finish_cons, feed_of_foreign hforeign]
  by_cases halone : g.policy = .recover → endsPending k.state = false
  · -- the carriage return is refused, with the string before it if there is one
    rw [feedForeign_of_not_ends halone]
    exact (delivers_refuse (by simp) _).andThen_stay fun hok =>
      ⟨_, finish_blank_of_initial hg (cursor_refuse hok ▸ state_restart hg _) q⟩
  · -- the carriage return ends the token before it as the blank does
    obtain ⟨hp, hpend⟩ := Classical.not_imp.mp halone
    have hpend : endsPending k.state := by simpa using hpend
    obtain ⟨t, hnb, ht⟩ := State.exists_terminal?_next_blank hpend (not_isFinal_of_spells hk)
    rw [feedForeign_of_pending hg hp hpend hnb ht, Move.mk_andThen,
      finish_blank_of_initial (k := ⟨Session.start g.machine, p⟩) hg hg.initial, finish_cons,
      feed_of_contains hg.contains_blank, feedSymbol_blank_of_ends hg hnb ht, Move.mk_andThen]
    have hfiled : (Finding.reached ((k.moved p ' ').trace t)).filed? =
        some (t, (k.moved p ' ').lexeme) := Finding.filed?_reached ht
    constructor
    · simp only [Move.entries, Array.toList_append, List.singleton_append, List.filterMap_append]
      rw [List.filterMap_cons_some hfiled, List.filterMap_cons_some hfiled]
      exact ⟨_, rfl⟩
    · intro position lexeme h
      cases h

/-- A scan that ends within a text and one that goes on, from the same cursor. -/
theorem delivers_finish (hg : g.Lawful) {a : Automaton} (ha : Implements a g) (hk : k.Reads)
    {tail tail' : List (Position × Char)} (hcut : Cut tail tail')
    (shared : List (Position × Char)) :
    (k.finish g (shared ++ tail)).Delivers (k.finish g (shared ++ tail')) := by
  -- both make the same moves up to the cut, and what the cursor has read there decides the rest
  induction shared generalizing k with
  | nil =>
    cases hcut with
    | betweenLines rest =>
      rw [List.nil_append, finish_nil]
      exact delivers_close _
    | inLine p rest => exact delivers_inLine hg hk p _
    | inBreak p q rest => exact delivers_inBreak hg hk p q rest
  | cons i shared ih =>
    obtain ⟨_, _, hsteps⟩ := exists_steps hg ha hk i
    rw [List.cons_append, List.cons_append, finish_cons, finish_cons]
    exact .andThen fun hok => ih (hsteps.reads hok)

end Cursor

theorem registerAll_dropLast_prefix (k : Lexicon) {xs ys : List (Terminal × String)}
    (h : xs.dropLast <+: ys) : (k.registerAll xs).1.dropLast <+: (k.registerAll ys).1 := by
  rcases xs.eq_nil_or_concat with rfl | ⟨front, x, rfl⟩
  · exact List.nil_prefix
  · rw [List.concat_eq_append, List.dropLast_concat] at h
    obtain ⟨rest, rfl⟩ := h
    have hlast : (k.registerAll (front ++ [x])).1.dropLast = (k.registerAll front).1 := by
      rw [Lexicon.registerAll_append]
      exact List.dropLast_concat
    rw [List.concat_eq_append, hlast, Lexicon.registerAll_append]
    exact List.prefix_append _ _

section Delivered

variable {options : ScanOptions} {s t : Scanner}

theorem delivers_move (hs : Scanner.Reachable options s) (ht : Scanner.Reachable options t)
    (s₁ s₂ : String) : (s.move s₁).Delivers (t.move (s₁ ++ s₂)) := by
  obtain ⟨shared, tail, tail', hpart, hwhole, hcut⟩ := cutOff_stream s₁ s₂
  have h : (s.move s₁).Delivers (s.move (s₁ ++ s₂)) := by
    rw [Scanner.move, Scanner.move, hpart, hwhole]
    exact Cursor.delivers_finish hs.lawful hs.implements (Cursor.reads_restart hs.lawful _) hcut
      shared
  exact h.congr (hs.entries_unique ht _) (hs.failure?_unique ht _)

/-- No token is revised for what comes behind it: wherever a source is cut off, the tokens that are
handed on for its beginning are handed on for all of it, the last one apart. What was given up as
illegal stays so. -/
theorem scanOnto_delivers (hs : Scanner.Reachable options s) (ht : Scanner.Reachable options t)
    (s₁ s₂ : String) (k : Lexicon) (report report' : Report) :
    let part := s.scanOnto s₁ k report
    let whole := t.scanOnto (s₁ ++ s₂) k report'
    ∃ tokens tokens',
      part.report.tokens.toList = report.tokens.toList ++ tokens ∧
        part.observed = tokens ∧
        whole.report.tokens.toList = report'.tokens.toList ++ tokens' ∧
        whole.observed = tokens' ∧
        tokens.dropLast <+: tokens' ∧
        ∀ position lexeme, part.failure? = some (.illegal position lexeme) →
          whole.failure? = some (.illegal position lexeme) ∧ tokens' = tokens := by
  intro part whole
  have h := delivers_move hs ht s₁ s₂
  have hpart := s.wrote_recording s₁ k report
  have hwhole := t.wrote_recording (s₁ ++ s₂) k report'
  simp only [part, whole, Scanner.report_scanOnto, Scanner.observed_scanOnto,
    Scanner.failure?_scanOnto]
  refine ⟨_, _, hpart.tokens, hpart.observed.trans (List.nil_append _), hwhole.tokens,
    hwhole.observed.trans (List.nil_append _), registerAll_dropLast_prefix k h.delivered, ?_⟩
  intro position lexeme hfail
  obtain ⟨hsame, hentries⟩ := h.illegal position lexeme hfail
  exact ⟨hsame.trans hfail, congrArg (fun found => (k.registerAll found).1) hentries⟩

theorem failure?_move_question (hs : Scanner.Reachable options s)
    (hp : options.policy = .failFast) :
    (s.move "?").failure? = some (.illegal ⟨1, 1⟩ "?") := by
  have hg := hs.lawful
  have hpolicy : s.basis.policy = .failFast := hs.policy.trans hp
  let k := s.cursor.restart s.basis
  have hk : k.state = .initial := Cursor.state_restart hg _
  have hstream : stream "?" = [(⟨1, 1⟩, '?'), (⟨1, 2⟩, ' ')] := by decide
  have hquestion : s.basis.alphabet.contains '?' := by
    rw [hg.alphabet, Alphabet.contains_standard]
    decide
  have hspoils : k.state.next '?' = .illegal := by
    rw [hk]
    decide
  have hl : (k.moved ⟨1, 1⟩ '?').lexeme = "" := by
    rw [Cursor.lexeme_moved_of_final (by rw [hspoils]; rfl), Cursor.lexeme_restart]
  rw [Scanner.move, Cursor.run_eq_finish, hstream, Cursor.finish_cons,
    Cursor.feed_of_contains hquestion, Cursor.feedSymbol_of_spoils hg hquestion hspoils,
    Move.mk_andThen, Cursor.meetIllegal, hpolicy, hl]
  rfl

/-- A source that is cut off between a carriage return and its line feed, and one that is cut off
behind something illegal. -/
theorem scanOnto_delivers_standard :
    ∃ s t, Scanner.standard ⟨.recover, true⟩ = .ok s ∧ Scanner.standard ⟨.failFast, true⟩ = .ok t ∧
      let k := Lexicon.ofReserved ["if"]
      [⟨.identifier, 0⟩, ⟨.constant, 0⟩] <+:
          (s.scanOnto ("x 12\r" ++ "\ny") k Report.empty).report.tokens.toList ∧
        (t.scanOnto ("?" ++ "\ny") k Report.empty).failure? = some (.illegal ⟨1, 1⟩ "?") := by
  obtain ⟨table, _, hrecover⟩ := Scanner.exists_standard ⟨.recover, true⟩
  obtain ⟨_, _, hfail⟩ := Scanner.exists_standard ⟨.failFast, true⟩
  generalize Scanner.ofTable table ⟨.recover, true⟩ = s at hrecover
  have hs := Scanner.Reachable.standard hrecover
  have ht := Scanner.Reachable.standard hfail
  let k := Lexicon.ofReserved ["if"]
  have htext : LongestMatch.tokens (streamText "x 12\r") =
      [(.identifierEnd, "x"), (.constantEnd, "12"), (.illegal, "\r")] := by decide +kernel
  have hyields := Cursor.yields_run hs.lawful hs.policy s.cursor "x 12\r"
  rw [htext] at hyields
  obtain ⟨_, hread, _⟩ := tokens_scan_of_yields (k := k) hyields Report.empty
  obtain ⟨tokens, _, hpart, _, hwhole, _, hprefix, _⟩ :=
    scanOnto_delivers hs hs "x 12\r" "\ny" k Report.empty Report.empty
  obtain ⟨_, _, _, _, _, _, _, hillegal⟩ :=
    scanOnto_delivers ht ht "?" "\ny" k Report.empty Report.empty
  obtain rfl := List.append_cancel_left (hpart.symm.trans hread)
  refine ⟨_, _, hrecover, hfail, ?_, (hillegal _ _ (failure?_move_question ht rfl)).1⟩
  rw [hwhole]
  exact hprefix

end Delivered

end TableLexer.Scan
