import TableLexer.Proofs.Scan.Places
import TableLexer.Proofs.Scan.Tracing
namespace TableLexer.Scan

open Lexical LongestMatch

/-- Rejections of some input, in its order. Each is of text that ends with the character at its
position, save for a last one that may be of the input from a quote on. -/
inductive Points : List Rejection → List (Position × Char) → Prop where
  | done (input : List (Position × Char)) : Points [] input
  | ending (skipped : List (Position × Char)) {body behind : List (Position × Char)} {c : Char}
      {r : Rejection} {rs : List Rejection} : (∀ s, r.cause ≠ .unterminated s) → c ≠ ' ' →
      r.lexeme.toList = body.map Prod.snd ++ [c] → Points rs behind →
      Points (r :: rs) (skipped ++ body ++ (r.position, c) :: behind)
  | cutShort (skipped : List (Position × Char)) {body : List (Position × Char)} {s : State}
      {r : Rejection} :
      r.cause = .unterminated s → r.lexeme.toList = '\'' :: body.map Prod.snd →
      Points [r] (skipped ++ (r.position, '\'') :: body)

namespace Points

variable {rs : List Rejection} {input : List (Position × Char)}

theorem skip (h : Points rs input) (front : List (Position × Char)) :
    Points rs (front ++ input) := by
  cases h with
  | done input => exact .done _
  | @ending skipped body behind c r rs hcause hc hlexeme hrest =>
    rw [← List.append_assoc, ← List.append_assoc]
    exact .ending _ hcause hc hlexeme hrest
  | cutShort skipped hcause hlexeme =>
    rw [← List.append_assoc]
    exact .cutShort _ hcause hlexeme

theorem sublist (h : Points rs input) :
    (rs.map Rejection.position).Sublist (input.map Prod.fst) := by
  induction h with
  | done input => exact List.nil_sublist _
  | @ending skipped body behind c r rs _ _ _ _ ih =>
    rw [List.map_append, List.map_cons]
    exact (ih.cons_cons r.position).trans (List.sublist_append_right _ _)
  | @cutShort skipped body s r _ _ =>
    rw [List.map_append, List.map_cons]
    exact ((List.nil_sublist _).cons_cons r.position).trans (List.sublist_append_right _ _)

theorem cause_of_mem_dropLast (h : Points rs input) :
    ∀ r ∈ rs.dropLast, ∀ s, r.cause ≠ .unterminated s := by
  induction h with
  | done _ => simp
  | @ending _ _ _ _ r rs hcause _ _ _ ih =>
    cases rs with
    | nil => simp
    | cons r' rs => exact List.forall_mem_cons.mpr ⟨hcause, ih⟩
  | cutShort _ _ _ => simp

theorem exists_split (h : Points rs input) : ∀ r ∈ rs, ∃ front c behind,
    input = front ++ (r.position, c) :: behind ∧ c ≠ ' ' ∧
      match r.cause with
      | .unterminated _ => c = '\'' ∧ r.lexeme.toList = c :: behind.map Prod.snd
      | _ => r.lexeme ≠ "" ∧ r.lexeme.toList <:+ front.map Prod.snd ++ [c] := by
  induction h with
  | done _ => simp
  | @ending skipped body behind c r rs hcause hc hlexeme _ ih =>
    refine List.forall_mem_cons.mpr ⟨⟨skipped ++ body, c, behind, rfl, hc, ?_⟩, fun r' hr' => ?_⟩
    · split
      · next s hs => exact absurd hs (hcause s)
      · rw [hlexeme, List.map_append, List.append_assoc]
        refine ⟨fun he => ?_, List.suffix_append _ _⟩
        rw [he] at hlexeme
        simp at hlexeme
    · obtain ⟨front, d, rest, rfl, hd, hr⟩ := ih r' hr'
      refine ⟨skipped ++ body ++ (r.position, c) :: front, d, rest, by simp, hd, ?_⟩
      split at hr
      · exact hr
      · refine ⟨hr.1, hr.2.trans ?_⟩
        rw [List.map_append, List.map_cons, List.append_assoc]
        exact (List.suffix_cons _ _).trans (List.suffix_append _ _)
  | @cutShort skipped body s r hcause hlexeme =>
    refine List.forall_mem_cons.mpr ⟨⟨skipped, '\'', body, rfl, by decide, ?_⟩, by simp⟩
    rw [hcause]
    exact ⟨rfl, hlexeme⟩

end Points

namespace Move

theorem rejections_andThen {m : Move} (h : m.failure? = none) (f : Cursor → Move) :
    (m.andThen f).rejections = m.rejections ++ (f m.cursor).rejections := by
  rw [andThen_of_none h, rejections, Array.toList_append, List.filterMap_append]
  rfl

theorem filter_illegal_entries (m : Move) :
    (m.entries.filter fun x => x.1 = .illegal) =
      m.rejections.map fun r => (.illegal, r.lexeme) := by
  rw [entries, rejections]
  induction m.findings.toList with
  | nil => rfl
  | cons f fs ih =>
    cases f with
    | rejected r => simpa [Finding.filed?, Finding.rejection?] using ih
    | reached t =>
      have hrejection : (Finding.reached t).rejection? = none := rfl
      rw [List.filterMap_cons_none hrejection, ← ih]
      by_cases ht : t.terminal = .illegal
      · rw [List.filterMap_cons_none (Finding.filed?_reached_illegal ht)]
      · rw [List.filterMap_cons_some (Finding.filed?_reached ht)]
        simp [ht]

end Move

namespace Cursor

variable {g : Basis} {k : Cursor} {position : Position} {c : Char}
  {pending rest : List (Position × Char)}

/-- What has been read of a token is this, from where the token starts. -/
structure Holds (k : Cursor) (pending : List (Position × Char)) : Prop where
  reads : k.Reads
  text : pending.map Prod.snd = k.lexeme.toList
  start : ∀ i ∈ pending.head?, i.1 = k.tokenStart

theorem holds_of_initial (hi : k.state = .initial) (hl : k.lexeme = "") : k.Holds [] where
  reads := by
    rw [Reads, hi, hl]
    rfl
  text := by
    rw [hl]
    rfl
  start := by simp

theorem holds_restart (hg : g.Lawful) (k : Cursor) : (k.restart g).Holds [] :=
  holds_of_initial (state_restart hg k) (lexeme_restart g k)

theorem Holds.eq_nil (h : k.Holds pending) (hi : k.state = .initial) : pending = [] := by
  rw [← List.map_eq_nil_iff (f := Prod.snd), h.text]
  exact lexeme_of_initial h.reads hi

theorem Holds.exists_head (h : k.Holds pending) (hi : k.state ≠ .initial) :
    ∃ d body, pending = (k.tokenStart, d) :: body := by
  obtain ⟨d, text, hl⟩ := exists_lexeme h.reads hi
  have htext := h.text
  rw [hl] at htext
  obtain ⟨i, body, rfl, _, _⟩ := List.map_eq_cons_iff.mp htext
  rw [← h.start i rfl]
  exact ⟨i.2, body, rfl⟩

theorem Holds.moved (h : k.Holds pending) (hc : Alphabet.standard.contains c)
    (hn : (k.state.next c).terminal? = none) (hi : k.state.next c ≠ .initial)
    (position : Position) : (k.moved position c).Holds (pending ++ [(position, c)]) where
  reads := reads_moved h.reads hc hn
  text := by
    rw [lexeme_moved_of_open hn hi, String.toList_push, List.map_append, h.text]
    rfl
  start := by
    have hstart : (k.moved position c).tokenStart = (k.mark position).tokenStart := rfl
    rw [hstart]
    by_cases hk : k.state = .initial
    · rw [h.eq_nil hk, mark, if_pos hk]
      simp
    · obtain ⟨d, body, rfl⟩ := h.exists_head hk
      rw [mark_of_ne_initial hk]
      simp

/-- What the rest of a scan rejects points from the start of the token being read. -/
def PointsOn (g : Basis) (k : Cursor) (pending input : List (Position × Char)) : Prop :=
  Points (k.finish g input).rejections (pending ++ input)

/-- Whatever is read of a token, what is rejected from there on points where it should. -/
def Guides (g : Basis) (input : List (Position × Char)) : Prop :=
  ∀ (k : Cursor) (pending : List (Position × Char)), k.Holds pending →
    Settles k.state (input.map Prod.snd) → k.PointsOn g pending input

theorem guides_nil (hp : g.policy = .recover) : Guides g [] := by
  intro k pending hk hs
  rw [PointsOn, finish_nil, List.append_nil]
  by_cases hi : k.state = .initial
  · rw [close, if_pos hi]
    exact .done _
  · obtain ⟨d, body, rfl⟩ := hk.exists_head hi
    have hquote : ∃ text, k.lexeme.toList = '\'' :: text := by
      have hreads := hk.reads
      rw [Reads] at hreads
      rcases state_of_not_endsPending hs with hs | hs | hs
      · exact absurd hs hi
      · rw [hs] at hreads
        exact ⟨[], hreads⟩
      · rw [hs] at hreads
        obtain ⟨text, hl, _⟩ := hreads
        exact ⟨text, hl⟩
    obtain ⟨text, hl⟩ := hquote
    have htext := hk.text
    rw [hl] at htext
    obtain ⟨rfl, rfl⟩ := List.cons.inj htext
    rw [close_of_ne_initial g hi, refuse, hp]
    exact .cutShort [] rfl hl

theorem pointsOn_of_open (hg : g.Lawful) (ih : Guides g rest) (hk : k.Holds pending)
    (hs : Settles k.state (c :: rest.map Prod.snd)) (hc : g.alphabet.contains c)
    (hn : (k.state.next c).terminal? = none) : k.PointsOn g pending ((position, c) :: rest) := by
  have hsettles : Settles (k.moved position c).state _ := settles_moved hs hn
  rw [PointsOn, finish_cons, feed_of_contains hc, feedSymbol_of_open hg hc hn, Move.stay_andThen]
  by_cases hi : k.state.next c = .initial
  · obtain ⟨hstate, _⟩ := State.next_eq_initial hi
    have hlexeme : (k.moved position c).lexeme = "" := by
      rw [lexeme_moved_of_initial hi, lexeme_eq_of_initial hk.reads hstate]
    rw [hk.eq_nil hstate]
    have hk' := holds_of_initial (k := k.moved position c) hi hlexeme
    exact (ih _ [] hk' hsettles).skip [(position, c)]
  · have hmoved := ih _ _ (hk.moved (contains_standard hg hc) hn hi position) hsettles
    rwa [PointsOn, List.append_assoc] at hmoved

theorem pointsOn_of_spoils (hg : g.Lawful) (hp : g.policy = .recover) (ih : Guides g rest)
    (hk : k.Holds pending) (hs : Settles k.state (c :: rest.map Prod.snd))
    (hc : g.alphabet.contains c)
    (hn : k.state.next c = .illegal) : k.PointsOn g pending ((position, c) :: rest) := by
  have hblank : c ≠ ' ' := by
    rintro rfl
    exact State.terminal?_next_blank_ne (not_isFinal_of_spells hk.reads) (by rw [hn]; rfl)
  have hrest := ih _ [] (holds_restart hg (k.moved position c)) (settles_restart hg hs _)
  rw [PointsOn, finish_cons, feed_of_contains hc, feedSymbol_of_spoils_of_recover hg hp hc hn,
    Move.rejections_andThen rfl]
  refine .ending [] (by simp) hblank ?_ hrest
  rw [hk.text, String.toList_push]

theorem pointsOn_of_initial (hg : g.Lawful) (hp : g.policy = .recover) (ih : Guides g rest)
    (hk : k.Holds pending) (hs : Settles k.state (c :: rest.map Prod.snd))
    (hc : g.alphabet.contains c)
    (hi : k.state = .initial) : k.PointsOn g pending ((position, c) :: rest) := by
  rcases terminal?_next_initial c with hn | hn
  · exact pointsOn_of_open hg ih hk hs hc (by rw [hi]; exact hn)
  · exact pointsOn_of_spoils hg hp ih hk hs hc (by rw [hi]; exact hn)

theorem pointsOn_of_ends (hg : g.Lawful) (hp : g.policy = .recover) (ih : Guides g rest)
    (hs : Settles k.state (c :: rest.map Prod.snd)) (hc : g.alphabet.contains c) {t : Terminal}
    (hn : (k.state.next c).terminal? = some t) (ht : t ≠ .illegal) :
    k.PointsOn g pending ((position, c) :: rest) := by
  let j := (k.moved position c).restart g
  have hagain : j.PointsOn g [] ((position, c) :: rest) :=
    pointsOn_of_initial hg hp ih (holds_restart hg _) (hs.of_cons _) hc (state_restart hg _)
  have hfinish : k.finish g ((position, c) :: rest) =
      (Move.mk #[.reached ((k.moved position c).trace t)] j none).andThen
        fun j => j.finish g ((position, c) :: rest) := by
    simp only [finish_cons, feed_of_contains hc, feedSymbol_of_ends hg hc hn ht, Move.andThen_assoc,
      j]
  rw [PointsOn, hfinish, Move.rejections_andThen rfl]
  exact Points.skip hagain pending

theorem pointsOn_of_contains (hg : g.Lawful) (hp : g.policy = .recover) (ih : Guides g rest)
    (hk : k.Holds pending) (hs : Settles k.state (c :: rest.map Prod.snd))
    (hc : g.alphabet.contains c) : k.PointsOn g pending ((position, c) :: rest) := by
  cases hn : (k.state.next c).terminal? with
  | none => exact pointsOn_of_open hg ih hk hs hc hn
  | some t =>
    by_cases ht : t = .illegal
    · exact pointsOn_of_spoils hg hp ih hk hs hc (State.eq_illegal_of_terminal? (ht ▸ hn))
    · exact pointsOn_of_ends hg hp ih hs hc hn ht

/-- A foreign character is the last of what is rejected, be it all of it or not. -/
theorem pointsOn_of_foreign (hg : g.Lawful) (hp : g.policy = .recover) (ih : Guides g rest)
    (hk : k.Holds pending) (hs : Settles k.state (c :: rest.map Prod.snd))
    (hc : g.alphabet.contains c = false) : k.PointsOn g pending ((position, c) :: rest) := by
  have hblank : c ≠ ' ' := by
    rintro rfl
    rw [hg.contains_blank] at hc
    cases hc
  rw [PointsOn, finish_cons, feed_of_foreign hc]
  cases hpend : endsPending k.state with
  | false =>
    have hrest := ih _ [] (holds_restart hg (k.mark position)) (settles_restart hg hs _)
    rw [feedForeign_of_alone hp hpend, Move.rejections_andThen rfl]
    refine .ending [] (by simp) hblank ?_ hrest
    rw [hk.text, String.toList_push]
  | true =>
    -- the token in front is over, and what is rejected begins behind it
    obtain ⟨t, hn, ht⟩ := State.exists_terminal?_next_blank hpend (not_isFinal_of_spells hk.reads)
    have hrest := ih _ [] (holds_restart hg ⟨Session.start g.machine, position⟩)
      (settles_restart hg hs _)
    rw [feedForeign_of_pending hg hp hpend hn ht, Move.rejections_andThen rfl,
      ← List.append_nil pending]
    exact .ending pending (by simp) hblank (by simp) hrest

theorem guides (hg : g.Lawful) (hp : g.policy = .recover) (input : List (Position × Char)) :
    Guides g input := by
  -- for all tokens that can be held at once, as a token goes on from one character to the next
  induction input with
  | nil => exact guides_nil hp
  | cons i rest ih =>
    intro k pending hk hs
    cases hc : g.alphabet.contains i.2 with
    | true => exact pointsOn_of_contains hg hp ih hk hs hc
    | false => exact pointsOn_of_foreign hg hp ih hk hs hc

end Cursor

variable {trace : Bool} {s : Scanner}

theorem points_move (hs : Scanner.Reachable ⟨.recover, trace⟩ s) (source : String) :
    Points (s.move source).rejections (stream source) := by
  rw [Scanner.move, Cursor.run_eq_finish]
  have hholds := Cursor.holds_restart hs.lawful s.cursor
  have hsettles := Cursor.settles_stream hs.lawful s.cursor source
  exact Cursor.guides hs.lawful hs.policy (stream source) _ [] hholds hsettles

/-- Where the diagnostics of a scan point, in the order of reading and none twice. The last one may
be of a string cut short: it points at the quote, and its lexeme is the rest of the text from there
on. All others point at a character of a line, the last one of their lexeme. -/
theorem scanOnto_points (hs : Scanner.Reachable ⟨.recover, trace⟩ s) (source : String)
    (k : Lexicon) (report : Report) :
    let outcome := s.scanOnto source k report
    let lines := Text.splitLines source.toList
    ∃ diagnostics,
      outcome.report.diagnostics.toList = report.diagnostics.toList ++ diagnostics ∧
        (diagnostics.map fun d => d.rejection.position).Pairwise Position.Before ∧
        (∀ d ∈ diagnostics.dropLast, ∀ state, d.rejection.cause ≠ .unterminated state) ∧
        ∀ d ∈ diagnostics, ∃ c behind,
          Located lines d.rejection.position c ∧
            streamText source = textBefore lines d.rejection.position ++ c :: behind ∧
            match d.rejection.cause with
            | .unterminated _ => c = '\'' ∧ d.rejection.lexeme.toList = c :: behind
            | _ => d.rejection.lexeme ≠ "" ∧
                d.rejection.lexeme.toList <:+ textBefore lines d.rejection.position ++ [c] := by
  intro outcome lines
  have hpoints := points_move hs source
  obtain ⟨tokens, diagnostics, h⟩ := Recording.exists_accounts_addAll s.options.trace
    ⟨k, report, #[], #[]⟩ (s.move source).findings
  rw [← Scanner.recording] at h
  have hrejections : diagnostics.map Diagnostic.rejection = (s.move source).rejections :=
    h.rejections_eq (s.wrote_recording source k report)
  have hpositions : (diagnostics.map fun d => d.rejection.position) =
      (s.move source).rejections.map Rejection.position := by
    rw [← hrejections, List.map_map]
    rfl
  simp only [outcome, Scanner.report_scanOnto]
  refine ⟨diagnostics, h.diagnosed, ?_, ?_, ?_⟩
  · rw [hpositions]
    exact (pairwise_placeLines lines).sublist hpoints.sublist
  · intro d hd
    have hmem : d.rejection ∈ (s.move source).rejections.dropLast := by
      rw [← hrejections, ← List.map_dropLast]
      exact List.mem_map_of_mem hd
    exact hpoints.cause_of_mem_dropLast _ hmem
  · intro d hd
    have hmem : d.rejection ∈ (s.move source).rejections := by
      rw [← hrejections]
      exact List.mem_map_of_mem hd
    obtain ⟨front, c, behind, hsplit, hc, hlexeme⟩ := hpoints.exists_split _ hmem
    obtain ⟨hlocated, hfront⟩ := placeLines_split hsplit hc
    refine ⟨c, behind.map Prod.snd, hlocated, ?_, ?_⟩
    · rw [← map_snd_stream, hsplit, List.map_append, hfront]
      rfl
    · rw [hfront] at hlexeme
      exact hlexeme

/-- A foreign letter, a number spoilt in the fourth column, and a string that is never closed. -/
theorem scanOnto_points_standard :
    ∃ s, Scanner.standard ⟨.recover, false⟩ = .ok s ∧
      let source := "é 1a\n'b\nc"
      ∃ diagnostics,
        (s.scan source (Lexicon.ofReserved [])).report.diagnostics.toList = diagnostics ∧
          diagnostics.map (fun d => d.rejection.lexeme) = ["é", "1a", "'b c "] ∧
          (diagnostics.map fun d => d.rejection.position).Pairwise Position.Before ∧
          ∀ d ∈ diagnostics, ∃ c,
            Located ["é 1a".toList, "'b".toList, "c".toList] d.rejection.position c := by
  obtain ⟨s, hnew, hs⟩ := Scanner.exists_reachable ⟨.recover, false⟩
  let source := "é 1a\n'b\nc"
  obtain ⟨diagnostics, hdiagnostics, hordered, _, hlocated⟩ :=
    scanOnto_points hs source (Lexicon.ofReserved []) Report.empty
  have htokens : LongestMatch.tokens (streamText source) =
      [(.illegal, "é"), (.illegal, "1a"), (.illegal, "'b c ")] := by decide +kernel
  have hyields : (s.move source).Yields _ := Cursor.yields_run hs.lawful hs.policy s.cursor source
  have hillegal := congrArg (List.map Prod.snd) (s.move source).filter_illegal_entries
  rw [hyields.2, htokens, List.map_map] at hillegal
  have hrejections := congrArg (List.map Rejection.lexeme)
    (rejections_scan s source (Lexicon.ofReserved []))
  rw [Scanner.scan, hdiagnostics, List.map_map] at hrejections
  have hlines : Text.splitLines source.toList = ["é 1a".toList, "'b".toList, "c".toList] := by
    decide +kernel
  refine ⟨s, hnew, diagnostics, hdiagnostics, hrejections.trans hillegal.symm, hordered, ?_⟩
  intro d hd
  obtain ⟨c, _, hc, _⟩ := hlocated d hd
  exact ⟨c, hlines ▸ hc⟩

end TableLexer.Scan
