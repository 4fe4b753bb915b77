import TableLexer.Proofs.Scan.Reading
import TableLexer.Proofs.Scan.Recording
namespace TableLexer.Scan

open Lexical LongestMatch

namespace Move

/-- What is registered for the findings of a move. -/
def entries (m : Move) : List (Terminal × String) := m.findings.toList.filterMap Finding.filed?

/-- A move that went to its end and found these tokens. -/
def Yields (m : Move) (ts : List (Terminal × String)) : Prop :=
  m.failure? = none ∧ m.entries = ts

theorem Yields.andThen {m : Move} {f : Cursor → Move} {ts us : List (Terminal × String)}
    (hm : m.Yields ts) (hf : (f m.cursor).Yields us) : (m.andThen f).Yields (ts ++ us) := by
  obtain ⟨hn, rfl⟩ := hm
  obtain ⟨hn', rfl⟩ := hf
  rw [Move.andThen, hn]
  exact ⟨hn', by simp [entries]⟩

theorem yields_stay (k : Cursor) : (Move.stay k).Yields [] := ⟨rfl, rfl⟩

end Move

namespace Cursor

variable {g : Basis} {k : Cursor} {position : Position} {c : Char}

/-- Input that ends in a blank, or has ended where no token can be cut short but a string. -/
def Settles (s : State) (text : List Char) : Prop :=
  text.getLast?.elim (endsPending s = false) fun c => c = ' '

theorem Settles.tail {s t : State} {rest : List Char} (h : Settles s (c :: rest))
    (ht : c = ' ' → endsPending t = false) : Settles t rest := by
  cases rest with
  | nil => exact ht h
  | cons d rest => rwa [Settles, List.getLast?_cons_cons] at h

theorem Settles.of_cons {s : State} {rest : List Char} (h : Settles s (c :: rest)) (t : State) :
    Settles t (c :: rest) := h

theorem settles_moved {rest : List Char} (h : Settles k.state (c :: rest))
    (hn : (k.state.next c).terminal? = none) : Settles (k.moved position c).state rest := by
  apply h.tail
  rintro rfl
  exact State.endsPending_next_blank k.state hn

theorem settles_restart (hg : g.Lawful) {rest : List Char} (h : Settles k.state (c :: rest))
    (j : Cursor) : Settles (j.restart g).state rest := by
  apply h.tail
  intro _
  rw [state_restart hg]
  rfl

theorem tokens_of_match {d : Char} {text behind : List Char} {t : Terminal}
    {lexeme : String} (hb : Alphabet.isBlank d = false)
    (hf : first d text = ⟨t, lexeme.toList, behind⟩) :
    tokens (d :: text) = (t, lexeme) :: tokens behind := by
  rw [tokens_of_first hb, hf, String.ofList_toList]

section Recover

variable {rest : List (Position × Char)}

/-- What has been read of a token, and what is left, come to the same tokens. -/
def Recognizes (g : Basis) (k : Cursor) (input : List (Position × Char)) : Prop :=
  (k.finish g input).Yields (tokens (k.lexeme.toList ++ input.map Prod.snd))

/-- Whatever is read of it, the rest of the input is recognized. -/
def Sound (g : Basis) (input : List (Position × Char)) : Prop :=
  ∀ k : Cursor, k.Reads → Settles k.state (input.map Prod.snd) → k.Recognizes g input

theorem recognizes_cons {i : Position × Char} (ts : List (Terminal × String)) (j : Cursor)
    (hf : (k.feed g i).Yields ts) (hj : (k.feed g i).cursor = j) (hr : j.Recognizes g rest)
    (he : tokens (k.lexeme.toList ++ i.2 :: rest.map Prod.snd) =
      ts ++ tokens (j.lexeme.toList ++ rest.map Prod.snd)) :
    k.Recognizes g (i :: rest) := by
  rw [Recognizes, finish_cons, List.map_cons, he]
  apply hf.andThen
  rw [hj]
  exact hr

theorem contains_standard (hg : g.Lawful) (hc : g.alphabet.contains c) :
    Alphabet.standard.contains c := hg.alphabet ▸ hc

theorem state_of_not_endsPending {s : State} (h : endsPending s = false) :
    s = .initial ∨ s = .quoteOpen ∨ s = .stringBody := by
  simpa [endsPending, Classical.or_iff_not_imp_left] using h

theorem lexeme_of_initial (hk : k.Reads) (hi : k.state = .initial) : k.lexeme.toList = [] := by
  rw [Reads, hi] at hk
  exact hk

/-- A symbol within a token, or a blank between two, leaves the tokens as they are. -/
theorem recognizes_of_open (hg : g.Lawful) (hk : k.Reads) (hc : g.alphabet.contains c)
    (hn : (k.state.next c).terminal? = none) (hs : Settles k.state (c :: rest.map Prod.snd))
    (ih : Sound g rest) : k.Recognizes g ((position, c) :: rest) := by
  have hfeed : k.feed g (position, c) = Move.stay (k.moved position c) := by
    rw [feed_of_contains hc, feedSymbol_of_open hg hc hn]
  apply recognizes_cons [] (k.moved position c)
  · rw [hfeed]
    exact Move.yields_stay _
  · rw [hfeed]
    rfl
  · exact ih _ (reads_moved hk (contains_standard hg hc) hn) (settles_moved hs hn)
  by_cases hi : k.state.next c = .initial
  · obtain ⟨hst, hb⟩ := State.next_eq_initial hi
    rw [lexeme_moved_of_initial hi, lexeme_of_initial hk hst]
    exact tokens_of_isBlank hb _
  · rw [lexeme_moved_of_open hn hi, String.toList_push, List.append_assoc]
    rfl

theorem recognizes_of_spoils (hg : g.Lawful) (hp : g.policy = .recover) (hk : k.Reads)
    (hc : g.alphabet.contains c) (hn : k.state.next c = .illegal)
    (hs : Settles k.state (c :: rest.map Prod.snd)) (ih : Sound g rest) :
    k.Recognizes g ((position, c) :: rest) := by
  have hfeed : k.feed g (position, c) =
      ⟨#[.reached ((k.moved position c).trace .illegal),
        .rejected ⟨position, k.lexeme.push c, .illegal⟩],
        (k.moved position c).restart g, none⟩ := by
    rw [feed_of_contains hc, feedSymbol_of_spoils_of_recover hg hp hc hn]
  apply recognizes_cons [(.illegal, k.lexeme.push c)] ((k.moved position c).restart g)
  · rw [hfeed]
    exact ⟨rfl, rfl⟩
  · rw [hfeed]
  · exact ih _ (reads_restart hg _) (settles_restart hg hs _)
  have hfirst (d : Char) (text : List Char) (hd : k.lexeme.toList ++ [c] = d :: text)
      (hb : Alphabet.isBlank d = false)
      (hm : first d (text ++ rest.map Prod.snd) = ⟨.illegal, d :: text, rest.map Prod.snd⟩) :
      tokens (k.lexeme.toList ++ c :: rest.map Prod.snd) =
        (.illegal, k.lexeme.push c) :: tokens (rest.map Prod.snd) := by
    rw [List.append_cons, hd, List.cons_append]
    apply tokens_of_match hb
    rw [hm, String.toList_push, hd]
  by_cases hi : k.state = .initial
  · rw [hi] at hn
    obtain ⟨hb, hm⟩ := first_of_no_start hn (rest.map Prod.snd)
    exact hfirst c [] (by rw [lexeme_of_initial hk hi]; rfl) hb hm
  · obtain ⟨d, text, hd⟩ := exists_lexeme hk hi
    have hsp : Spells k.state (d :: text) := hd ▸ hk
    refine hfirst d (text ++ [c]) (by rw [hd]; rfl) (isBlank_of_spells hsp) ?_
    rw [List.append_assoc]
    exact first_of_spoils hsp hn _

theorem recognizes_of_ends (hg : g.Lawful) (hk : k.Reads) (hc : g.alphabet.contains c)
    {t : Terminal} (hn : (k.state.next c).terminal? = some t) (ht : t ≠ .illegal)
    (hi : k.state ≠ .initial)
    (h : ((k.moved position c).restart g).Recognizes g ((position, c) :: rest)) :
    k.Recognizes g ((position, c) :: rest) := by
  have hl : (k.moved position c).lexeme = k.lexeme := lexeme_moved_of_final hn
  have hfinish : k.finish g ((position, c) :: rest) =
      (Move.mk #[.reached ((k.moved position c).trace t)]
        ((k.moved position c).restart g) none).andThen
          fun j => j.finish g ((position, c) :: rest) := by
    simp only [finish_cons, feed_of_contains hc, feedSymbol_of_ends hg hc hn ht, Move.andThen_assoc]
  obtain ⟨d, text, hd⟩ := exists_lexeme hk hi
  have hsp : Spells k.state (d :: text) := hd ▸ hk
  have htok : tokens (d :: (text ++ c :: rest.map Prod.snd)) =
      (t, k.lexeme) :: tokens (c :: rest.map Prod.snd) := by
    apply tokens_of_match (isBlank_of_spells hsp)
    rw [hd]
    exact first_of_ends hsp hn ht _
  rw [Recognizes, hfinish, List.map_cons, hd, List.cons_append, htok]
  have hfound : (Move.mk #[.reached ((k.moved position c).trace t)]
      ((k.moved position c).restart g) none).Yields [(t, k.lexeme)] :=
    ⟨rfl, by simp [Move.entries, Finding.filed?, trace, ht, hl]⟩
  exact hfound.andThen h

theorem recognizes_of_contains (hg : g.Lawful) (hp : g.policy = .recover) (hk : k.Reads)
    (hc : g.alphabet.contains c) (hs : Settles k.state (c :: rest.map Prod.snd))
    (ih : Sound g rest) : k.Recognizes g ((position, c) :: rest) := by
  have hinitial (j : Cursor) (hj : j.Reads) (hi : j.state = .initial)
      (hs : Settles j.state (c :: rest.map Prod.snd)) :
      j.Recognizes g ((position, c) :: rest) := by
    rcases terminal?_next_initial c with hn | hn
    · exact recognizes_of_open hg hj hc (by rw [hi]; exact hn) hs ih
    · exact recognizes_of_spoils hg hp hj hc (by rw [hi]; exact hn) hs ih
  by_cases hi : k.state = .initial
  · exact hinitial k hk hi hs
  cases hn : (k.state.next c).terminal? with
  | none => exact recognizes_of_open hg hk hc hn hs ih
  | some t =>
    by_cases ht : t = .illegal
    · have hill : k.state.next c = .illegal := State.eq_illegal_of_terminal? (ht ▸ hn)
      exact recognizes_of_spoils hg hp hk hc hill hs ih
    · -- `ih` does not apply, as no input is used up, but the symbol cannot end a second token
      apply recognizes_of_ends hg hk hc hn ht hi
      refine hinitial _ (reads_restart hg _) (state_restart hg _) ?_
      exact hs.of_cons _

/-- A foreign character is the last of an illegal token where nothing is pending, or a string. -/
theorem recognizes_of_foreign_alone (hg : g.Lawful) (hp : g.policy = .recover) (hk : k.Reads)
    (hc : g.alphabet.contains c = false) (hs : Settles k.state (c :: rest.map Prod.snd))
    (hpend : endsPending k.state = false) (ih : Sound g rest) :
    k.Recognizes g ((position, c) :: rest) := by
  have hstd : Alphabet.standard.contains c = false := hg.alphabet ▸ hc
  have hfeed : k.feed g (position, c) =
      ⟨#[.rejected ⟨position, k.lexeme.push c, .outsideAlphabet⟩], (k.mark position).restart g,
        none⟩ := by
    rw [feed_of_foreign hc, feedForeign_of_alone hp hpend]
  apply recognizes_cons [(.illegal, k.lexeme.push c)] ((k.mark position).restart g)
  · rw [hfeed]
    exact ⟨rfl, rfl⟩
  · rw [hfeed]
  · exact ih _ (reads_restart hg _) (settles_restart hg hs _)
  rw [lexeme_restart]
  have hquoted (body : List Char) (hb : ∀ d ∈ body, isQuotable d)
      (hl : k.lexeme.toList = '\'' :: body) :
      tokens (k.lexeme.toList ++ c :: rest.map Prod.snd) =
        (.illegal, k.lexeme.push c) :: tokens (rest.map Prod.snd) := by
    have hne : c ≠ '\'' := by
      rintro rfl
      rw [Alphabet.contains_standard] at hstd
      exact absurd hstd (by decide)
    have hq : isQuotable c = false := by rw [isQuotable, hstd, Bool.and_false]
    rw [hl, List.cons_append]
    apply tokens_of_match (by decide)
    rw [first_of_quote hb hq, if_neg hne, String.toList_push, hl]
  rw [Reads] at hk
  rcases state_of_not_endsPending hpend with hi | hi | hi <;> rw [hi] at hk
  · obtain ⟨hb, hm⟩ := first_of_no_start (State.next_of_foreign hstd .initial) (rest.map Prod.snd)
    rw [hk, List.nil_append]
    apply tokens_of_match hb
    rw [hm, String.toList_push, hk]
    rfl
  · exact hquoted [] (by simp) hk
  · obtain ⟨body, hl, hb⟩ := hk
    exact hquoted body hb hl

theorem recognizes_of_foreign_pending (hg : g.Lawful) (hp : g.policy = .recover) (hk : k.Reads)
    (hc : g.alphabet.contains c = false) (hs : Settles k.state (c :: rest.map Prod.snd))
    (hpend : endsPending k.state) (ih : Sound g rest) :
    k.Recognizes g ((position, c) :: rest) := by
  have hstd : Alphabet.standard.contains c = false := hg.alphabet ▸ hc
  obtain ⟨hblank, t, hn, ht⟩ := State.fallback_of_endsPending hpend (not_isFinal_of_spells hk)
  have hnc : (k.state.next c).terminal? = some t := by rw [State.next_of_foreign hstd, hn]
  have hnb : (k.state.next ' ').terminal? = some t := by rw [hblank, hn]
  have hfeed : k.feed g (position, c) =
      ⟨#[.reached ((k.moved position ' ').trace t),
        .rejected ⟨position, String.singleton c, .outsideAlphabet⟩],
        ⟨Session.start g.machine, position⟩, none⟩ := by
    rw [feed_of_foreign hc, feedForeign_of_pending hg hp hpend hnb ht]
  have hl : (k.moved position ' ').lexeme = k.lexeme := lexeme_moved_of_final hnb
  apply recognizes_cons [(t, k.lexeme), (.illegal, String.singleton c)]
    ((⟨Session.start g.machine, position⟩ : Cursor).restart g)
  · rw [hfeed]
    exact ⟨rfl, by simp [Move.entries, Finding.filed?, trace, ht, hl]⟩
  · rw [hfeed]
    rfl
  · exact ih _ (reads_restart hg _) (settles_restart hg hs _)
  obtain ⟨d, text, hd⟩ := exists_lexeme hk (ne_initial_of_endsPending hpend)
  have hsp : Spells k.state (d :: text) := hd ▸ hk
  obtain ⟨hb, hm⟩ := first_of_no_start (State.next_of_foreign hstd .initial) (rest.map Prod.snd)
  calc tokens (k.lexeme.toList ++ c :: rest.map Prod.snd)
      = (t, k.lexeme) :: tokens (c :: rest.map Prod.snd) := by
        rw [hd, List.cons_append]
        apply tokens_of_match (isBlank_of_spells hsp)
        rw [hd]
        exact first_of_ends hsp hnc ht _
    _ = (t, k.lexeme) :: (.illegal, String.singleton c) :: tokens (rest.map Prod.snd) := by
        have halone : tokens (c :: rest.map Prod.snd) =
            (.illegal, String.singleton c) :: tokens (rest.map Prod.snd) :=
          tokens_of_match hb (by rw [hm, String.toList_singleton])
        rw [halone]

theorem recognizes_nil (hp : g.policy = .recover) (hk : k.Reads)
    (hs : endsPending k.state = false) : k.Recognizes g [] := by
  rw [Recognizes, finish_nil, List.map_nil, List.append_nil, close]
  have hquoted (body : List Char) (hb : ∀ d ∈ body, isQuotable d)
      (hl : k.lexeme.toList = '\'' :: body) :
      tokens k.lexeme.toList = [(.illegal, k.lexeme)] := by
    have hm : first '\'' body = ⟨.illegal, k.lexeme.toList, []⟩ := by
      rw [first_of_open_quote hb, hl]
    rw [hl, tokens_of_match (by decide) hm, tokens_nil]
  have hreject : (k.reject g k.tokenStart k.lexeme (.unterminated k.state)).Yields
      [(.illegal, k.lexeme)] := ⟨rfl, rfl⟩
  rw [Reads] at hk
  rcases state_of_not_endsPending hs with hi | hi | hi
  · rw [if_pos hi, lexeme_of_initial hk hi, tokens_nil]
    exact Move.yields_stay k
  · rw [if_neg (by simp [hi]), hp, hquoted [] (by simp) (by rw [hi] at hk; exact hk)]
    exact hreject
  · rw [hi] at hk
    obtain ⟨body, hl, hb⟩ := hk
    rw [if_neg (by simp [hi]), hp, hquoted body hb hl]
    exact hreject

/-- The scan under recovery follows the longest match, wherever it stands. -/
theorem sound (hg : g.Lawful) (hp : g.policy = .recover) (input : List (Position × Char)) :
    Sound g input := by
  -- for all cursors at once: a token is read over several characters, and the next starts anew
  induction input with
  | nil =>
    intro k hk hs
    exact recognizes_nil hp hk hs
  | cons i rest ih =>
    intro k hk hs
    obtain ⟨position, c⟩ := i
    cases hc : g.alphabet.contains c with
    | true => exact recognizes_of_contains hg hp hk hc hs ih
    | false =>
      cases hpend : endsPending k.state with
      | true => exact recognizes_of_foreign_pending hg hp hk hc hs hpend ih
      | false => exact recognizes_of_foreign_alone hg hp hk hc hs hpend ih

end Recover

theorem settles_stream (hg : g.Lawful) (k : Cursor) (source : String) :
    Settles (k.restart g).state ((stream source).map Prod.snd) := by
  rw [map_snd_stream, Settles, state_restart hg]
  have hlast := getLast?_streamText source
  cases h : (streamText source).getLast? with
  | none => rfl
  | some c => exact hlast c h

/-- From the start of a token on, a scan under recovery finds the tokens of the longest match. -/
theorem yields_run (hg : g.Lawful) (hp : g.policy = .recover) (k : Cursor) (source : String) :
    (k.run g (stream source)).Yields (tokens (streamText source)) := by
  have hs := settles_stream hg k source
  have h := sound hg hp (stream source) (k.restart g) (reads_restart hg k) hs
  rw [Recognizes, lexeme_restart, map_snd_stream] at h
  exact h

end Cursor

theorem categoryOf_ofReserved (words : List String) (lexeme : String) (t : Terminal) :
    (Lexicon.ofReserved words).categoryOf lexeme t = category words (t, lexeme) := by
  simp only [Lexicon.categoryOf, category, Bool.and_eq_true, decide_eq_true_eq,
    Lexicon.isReserved_ofReserved]

theorem tokens_scan_of_yields {s : Scanner} {source : String} {k : Lexicon}
    {ts : List (Terminal × String)} (h : (s.move source).Yields ts) (report : Report) :
    (s.scanOnto source k report).failure? = none ∧
      (s.scanOnto source k report).report.tokens.toList =
        report.tokens.toList ++ (k.registerAll ts).1 ∧
      (s.scanOnto source k report).lexicon = (k.registerAll ts).2 := by
  obtain ⟨hf, rfl⟩ := h
  have hw := s.wrote_recording source k report
  rw [Scanner.failure?_scanOnto, Scanner.report_scanOnto, Scanner.lexicon_scanOnto]
  exact ⟨hf, hw.tokens, hw.lexicon⟩

/-- A scan that went to its end gives its tokens with the categories that the reserved words say. -/
theorem map_tokens_scan_of_yields {s : Scanner} {source : String} {ts : List (Terminal × String)}
    (h : (s.move source).Yields ts) (words : List String) :
    let outcome := s.scan source (Lexicon.ofReserved words)
    outcome.failure? = none ∧
      outcome.report.tokens.toList.map
          (fun token => (token.category, outcome.lexicon.lexeme? token)) =
        ts.map fun x => (category words x, some x.2) := by
  obtain ⟨hf, ht, hl⟩ := tokens_scan_of_yields (k := Lexicon.ofReserved words) h Report.empty
  refine ⟨hf, ?_⟩
  rw [Scanner.scan, ht, hl]
  change List.map _ ([] ++ _) = _
  rw [List.nil_append, Lexicon.registerAll_tokens]
  apply List.map_congr_left
  intro x _
  rw [categoryOf_ofReserved]

theorem map_lexeme?_scan_of_yields {s : Scanner} {source : String} {ts : List (Terminal × String)}
    (h : (s.move source).Yields ts) (words : List String) :
    let outcome := s.scan source (Lexicon.ofReserved words)
    outcome.report.tokens.toList.map outcome.lexicon.lexeme? = (ts.map Prod.snd).map some := by
  obtain ⟨_, htokens⟩ := map_tokens_scan_of_yields h words
  have hlexemes := congrArg (List.map Prod.snd) htokens
  simpa only [List.map_map, Function.comp_def] using hlexemes

end TableLexer.Scan
