import TableLexer.Proofs.Lexical.NextState
import TableLexer.Proofs.Scan.LongestMatch
namespace TableLexer.Scan.LongestMatch

open Alphabet Lexical State

/-- The states that have read an operator, which their name spells. -/
def isOperator (s : State) : Bool := s ∉ plainStates && !s.isFinal

/-- What can have been read of a token when its recognition stands in a state. -/
def Spells : State → List Char → Prop
  | .initial, text => text = []
  | .identifier, text => ∃ c rest, text = c :: rest ∧ isWordStart c ∧ ∀ d ∈ rest, isWord d
  | .constantNoDot, text => ∃ c rest, text = c :: rest ∧ c.isDigit ∧ ∀ d ∈ rest, d.isDigit
  | .constantWithDot, text =>
    ∃ whole part, text = whole ++ '.' :: part ∧ (∀ d ∈ whole, d.isDigit) ∧
      (∀ d ∈ part, d.isDigit) ∧ (whole ≠ [] ∨ part ≠ [])
  | .dot, text => text = ['.']
  | .quoteOpen, text => text = ['\'']
  | .stringBody, text => ∃ body, text = '\'' :: body ∧ ∀ d ∈ body, isQuotable d
  | .quoteClose, text => ∃ body, text = '\'' :: body ++ ['\''] ∧ ∀ d ∈ body, isQuotable d
  | s, text => isOperator s ∧ text = s.name.toList

section Next

theorem not_mem_compounds_initial (c : Char) (t : State) : (initial, c, t) ∉ compounds := by
  have hall : ∀ x ∈ compounds, x.1 ≠ initial := by decide
  intro hm
  exact hall _ hm rfl

/-- No token ends on its first symbol: what begins none is illegal. -/
theorem terminal?_next_initial (c : Char) :
    (initial.next c).terminal? = none ∨ initial.next c = illegal := by
  rcases next_cases initial c with h | ⟨_, h⟩
  · left
    generalize initial.next c = t at h
    cases h with
    | symbolStart hm =>
      have hall : ∀ x ∈ symbolStarts, x.2.terminal? = none := by decide
      exact hall (c, t) hm
    | compound hm => exact absurd hm (not_mem_compounds_initial c t)
    | _ => rfl
  · exact .inr h

theorem next_identifier (c : Char) :
    identifier.next c = if isWord c then identifier else identifierEnd := by
  simp only [next, exception?]
  split <;> rfl

theorem next_constantNoDot (c : Char) :
    constantNoDot.next c =
      if c.isDigit then constantNoDot else if c = '.' then constantWithDot
      else if isWordStart c then illegal else constantEnd := by
  simp only [next, exception?]
  repeat' split
  all_goals rfl

theorem next_constantWithDot (c : Char) :
    constantWithDot.next c =
      if c.isDigit then constantWithDot else if isWordStart c || c = '.' then illegal
      else constantEnd := by
  simp only [next, exception?]
  repeat' split
  all_goals rfl

theorem next_dot (c : Char) :
    State.dot.next c = if c.isDigit then constantWithDot else symbolEnd := by
  simp only [next, exception?]
  split <;> rfl

theorem next_quoteOpen (c : Char) :
    quoteOpen.next c = if c = '\'' then quoteClose else stringBody := by
  simp only [next, exception?]
  split <;> rfl

theorem next_stringBody (c : Char) :
    stringBody.next c = if c = '\'' then quoteClose else stringBody := by
  simp only [next, exception?]
  split <;> rfl

theorem fallback_of_isOperator {s : State} (hs : isOperator s) : s.fallback = symbolEnd := by
  cases s <;> first | rfl | exact absurd hs (by decide)

/-- An operator goes on as a compound or ends. -/
theorem next_operator {s : State} (hs : isOperator s) (c : Char) :
    (s, c, s.next c) ∈ compounds ∨
      s.next c = symbolEnd ∧ ∀ x ∈ compounds, ¬(x.1 = s ∧ x.2.1 = c) := by
  rcases next_cases s c with h | ⟨hx, h⟩
  · left
    generalize s.next c = t at h
    cases h with
    | compound hm => exact hm
    | _ => exact absurd hs (by decide)
  · right
    refine ⟨h.trans (fallback_of_isOperator hs), ?_⟩
    rintro x hm ⟨rfl, rfl⟩
    have hex := exception?_of_mem_compounds x hm
    rw [hx] at hex
    cases hex

theorem isOperator_of_mem_compounds :
    ∀ x ∈ compounds, isOperator x.2.2 ∧ x.2.2.name.toList = x.1.name.toList ++ [x.2.1] := by decide

/-- How an operator is written: one character, of which the table knows the pairs, or a pair. -/
theorem operator_text {s : State} (hs : isOperator s) :
    (∃ c ∈ operators, s.name.toList = [c] ∧
      ∀ d, (c, d) ∈ pairs ↔ ∃ x ∈ compounds, x.1 = s ∧ x.2.1 = d) ∨
    (∃ p ∈ pairs, p.1 ∈ operators ∧ s.name.toList = [p.1, p.2] ∧ ∀ x ∈ compounds, x.1 ≠ s) := by
  have hstarts : ∀ x ∈ symbolStarts, x.1 ∈ operators ∧ x.2.name.toList = [x.1] ∧
      (∀ p ∈ pairs, p.1 = x.1 → ∃ y ∈ compounds, y.1 = x.2 ∧ y.2.1 = p.2) ∧
      ∀ y ∈ compounds, y.1 = x.2 → (x.1, y.2.1) ∈ pairs := by decide
  have hpairs : ∀ x ∈ compounds, (∃ p ∈ pairs, p.1 ∈ operators ∧
      x.2.2.name.toList = [p.1, p.2]) ∧ ∀ y ∈ compounds, y.1 ≠ x.2.2 := by decide
  -- operators of one character are those of `symbolStarts`, pairs those of `compounds`
  rcases mem_states s with hp | ⟨x, hx, rfl⟩ | ⟨x, hx, rfl⟩ | hf
  · simp [isOperator, hp] at hs
  · obtain ⟨ho, hn, hto, hfrom⟩ := hstarts x hx
    refine .inl ⟨x.1, ho, hn, fun d => ⟨fun hd => hto _ hd rfl, ?_⟩⟩
    rintro ⟨y, hy, hys, rfl⟩
    exact hfrom y hy hys
  · obtain ⟨⟨p, hp, ho, hn⟩, hx'⟩ := hpairs x hx
    exact .inr ⟨p, hp, ho, hn, hx'⟩
  · simp [isOperator, (List.mem_filter.mp hf).2] at hs

end Next

theorem spells_of_isOperator {s : State} (hs : isOperator s) {text : List Char} :
    Spells s text ↔ text = s.name.toList := by
  cases s <;> first | exact absurd hs (by decide) | simp [Spells, hs]

theorem isQuotable_of_contains {c : Char} (hc : standard.contains c) (hq : c ≠ '\'') :
    isQuotable c := by
  simp [isQuotable, hc, hq]

theorem spells_first {c : Char} (hn : (initial.next c).terminal? = none)
    (hi : initial.next c ≠ initial) : Spells (initial.next c) [c] := by
  rcases next_cases initial c with h | ⟨_, h⟩
  · generalize initial.next c = t at h hi
    cases h with
    | blank _ => exact absurd rfl hi
    | wordStart hw => exact ⟨c, [], rfl, hw, by simp⟩
    | digitStart hd => exact ⟨c, [], rfl, hd, by simp⟩
    | dotStart => rfl
    | quoteStart => rfl
    | symbolStart hm =>
      have hall : ∀ x ∈ symbolStarts, isOperator x.2 ∧ x.2.name.toList = [x.1] := by decide
      obtain ⟨ho, ht⟩ := hall (c, t) hm
      rw [spells_of_isOperator ho, ht]
    | compound hm => exact absurd hm (not_mem_compounds_initial c t)
  · rw [h] at hn
    cases hn

theorem forall_mem_concat {p : Char → Bool} {text : List Char} {c : Char} (h : ∀ d ∈ text, p d)
    (hc : p c) : ∀ d ∈ text ++ [c], p d := by
  intro d hd
  rcases List.mem_append.mp hd with hd | hd
  · exact h d hd
  · rw [List.mem_singleton.mp hd]
    exact hc

theorem spells_next {s : State} {text : List Char} {c : Char} (h : Spells s text)
    (hc : standard.contains c) (hn : (s.next c).terminal? = none) (hi : s.next c ≠ initial) :
    Spells (s.next c) (text ++ [c]) := by
  -- by the state: it says how far the token has been read, and so which part `c` adds to
  cases s with
  | initial =>
    cases h
    exact spells_first hn hi
  | identifier =>
    obtain ⟨d, rest, rfl, hd, hr⟩ := h
    rw [next_identifier] at hn ⊢
    split at hn
    · next hw =>
      rw [if_pos hw]
      exact ⟨d, rest ++ [c], rfl, hd, forall_mem_concat hr hw⟩
    · cases hn
  | constantNoDot =>
    obtain ⟨d, rest, rfl, hd, hr⟩ := h
    rw [next_constantNoDot] at hn ⊢
    split at hn
    · next hw =>
      rw [if_pos hw]
      exact ⟨d, rest ++ [c], rfl, hd, forall_mem_concat hr hw⟩
    split at hn
    · next hw hdot =>
      rw [if_neg hw, if_pos hdot, hdot]
      exact ⟨d :: rest, [], rfl, by simpa [hd] using hr, by simp, .inl (by simp)⟩
    · split at hn <;> cases hn
  | constantWithDot =>
    obtain ⟨whole, part, rfl, hw, hp, hne⟩ := h
    rw [next_constantWithDot] at hn ⊢
    split at hn
    · next hd =>
      rw [if_pos hd]
      exact ⟨whole, part ++ [c], by simp, hw, forall_mem_concat hp hd, .inr (by simp)⟩
    · split at hn <;> cases hn
  | dot =>
    cases h
    rw [next_dot] at hn ⊢
    split at hn
    · next hd =>
      rw [if_pos hd]
      exact ⟨[], [c], rfl, by simp, by simpa using hd, .inr (by simp)⟩
    · cases hn
  | quoteOpen =>
    cases h
    rw [next_quoteOpen]
    split
    · next hq => exact ⟨[], by simp [hq], by simp⟩
    · next hq => exact ⟨[c], rfl, by simpa using isQuotable_of_contains hc hq⟩
  | stringBody =>
    obtain ⟨body, rfl, hb⟩ := h
    rw [next_stringBody]
    split
    · next hq => exact ⟨body, by simp [hq], hb⟩
    · next hq => exact ⟨body ++ [c], rfl, forall_mem_concat hb (isQuotable_of_contains hc hq)⟩
  | quoteClose => cases hn
  | illegal | identifierEnd | constantEnd | strEnd | symbolEnd | commentEnd =>
    exact absurd h.1 (by decide)
  | _ =>
    rcases next_operator h.1 c with hm | ⟨he, _⟩
    · obtain ⟨ho, ht⟩ := isOperator_of_mem_compounds _ hm
      rw [spells_of_isOperator ho, ht, h.2]
    · rw [he] at hn
      cases hn

end TableLexer.Scan.LongestMatch
