import TableLexer.Lexical.Rules
import TableLexer.Proofs.Text.Chars
namespace TableLexer.Alphabet

theorem isBlank_eq_false_of_isWord {c : Char} (h : isWord c) : isBlank c = false := by
  apply Bool.eq_false_iff.mpr
  intro hb
  obtain rfl | rfl : c = ' ' ∨ c = '\t' := by simpa [isBlank] using hb
  all_goals exact absurd h (by decide)

theorem isWord_eq (c : Char) : isWord c = (isWordStart c || c.isDigit) := by
  simp only [isWord, isWordStart]
  cases c.isAlpha <;> cases c.isDigit <;> simp

theorem isDigit_eq_false_of_isWordStart {c : Char} (h : isWordStart c) : c.isDigit = false := by
  simp only [isWordStart, Bool.or_eq_true, beq_iff_eq] at h
  rcases h with h | rfl
  · have hn : (!c.isDigit) = true :=
      Text.forall_of_isAlpha (p := fun c => !c.isDigit) (by decide) (by decide) h
    simpa using hn
  · decide

theorem isWordStart_eq_false_of_isDigit {c : Char} (h : c.isDigit) : isWordStart c = false :=
  Bool.eq_false_iff.mpr fun hw => absurd h (by simp [isDigit_eq_false_of_isWordStart hw])

end TableLexer.Alphabet

namespace TableLexer.Lexical.State

open Alphabet

theorem mem_all (s : State) : s ∈ all := by cases s <;> decide

/-- Where a state leads on a symbol that no specific rule names. -/
def fallback : State → State
  | initial => illegal
  | identifier => identifierEnd
  | constantNoDot => constantEnd
  | constantWithDot => constantEnd
  | quoteOpen => stringBody
  | stringBody => stringBody
  | quoteClose => strEnd
  | illegal => illegal
  | identifierEnd => identifierEnd
  | constantEnd => constantEnd
  | strEnd => strEnd
  | commentEnd => commentEnd
  | _ => symbolEnd

/-- Where a state leads by a specific rule. -/
def exception? : State → Char → Option State
  | initial, c =>
    if isBlank c then some initial
    else if isWordStart c then some identifier
    else if c.isDigit then some constantNoDot
    else if c = '.' then some dot
    else if c = '\'' then some quoteOpen
    else symbolStarts.lookup c
  | identifier, c => if isWord c then some identifier else none
  | constantNoDot, c =>
    if c.isDigit then some constantNoDot
    else if c = '.' then some constantWithDot
    else if isWordStart c then some illegal
    else none
  | constantWithDot, c =>
    if c.isDigit then some constantWithDot
    else if isWordStart c || c = '.' then some illegal
    else none
  | dot, c => if c.isDigit then some constantWithDot else none
  | quoteOpen, c => if c = '\'' then some quoteClose else none
  | stringBody, c => if c = '\'' then some quoteClose else none
  | s, c => compounds.findSome? fun (first, second, compound) =>
      if s = first ∧ c = second then some compound else none

/-- The state behind a symbol. -/
def next (s : State) (c : Char) : State := (s.exception? c).getD s.fallback

/-- The specific rules, one symbol at a time. -/
inductive Exceptional : State → Char → State → Prop where
  | blank {c : Char} : isBlank c → Exceptional initial c initial
  | wordStart {c : Char} : isWordStart c → Exceptional initial c identifier
  | digitStart {c : Char} : c.isDigit → Exceptional initial c constantNoDot
  | dotStart : Exceptional initial '.' dot
  | quoteStart : Exceptional initial '\'' quoteOpen
  | symbolStart {c : Char} {t : State} : (c, t) ∈ symbolStarts → Exceptional initial c t
  | inWord {c : Char} : isWord c → Exceptional identifier c identifier
  | inWhole {c : Char} : c.isDigit → Exceptional constantNoDot c constantNoDot
  | point : Exceptional constantNoDot '.' constantWithDot
  | wholeSpoilt {c : Char} : isWordStart c → Exceptional constantNoDot c illegal
  | inFraction {c : Char} : c.isDigit → Exceptional constantWithDot c constantWithDot
  | fractionSpoilt {c : Char} : isWordStart c ∨ c = '.' → Exceptional constantWithDot c illegal
  | pointStart {c : Char} : c.isDigit → Exceptional dot c constantWithDot
  | quoteEnd : Exceptional quoteOpen '\'' quoteClose
  | stringEnd : Exceptional stringBody '\'' quoteClose
  | compound {s t : State} {c : Char} : (s, c, t) ∈ compounds → Exceptional s c t

theorem mem_compounds_of_findSome? {s t : State} {c : Char}
    (h : (compounds.findSome? fun (first, second, compound) =>
      if s = first ∧ c = second then some compound else none) = some t) :
    (s, c, t) ∈ compounds := by
  obtain ⟨x, hx, h⟩ := List.exists_of_findSome?_eq_some h
  simp only [Option.ite_none_right_eq_some, Option.some.injEq] at h
  obtain ⟨⟨rfl, rfl⟩, rfl⟩ := h
  exact hx

theorem exceptional_of_exception? {s t : State} {c : Char} (h : s.exception? c = some t) :
    Exceptional s c t := by
  cases s with
  | initial =>
    simp only [exception?] at h
    split at h
    · next hp => cases h; exact .blank hp
    split at h
    · next hp => cases h; exact .wordStart hp
    split at h
    · next hp => cases h; exact .digitStart hp
    split at h
    · next hp => cases h; subst hp; exact .dotStart
    split at h
    · next hp => cases h; subst hp; exact .quoteStart
    obtain ⟨before, after, hs, _⟩ := List.lookup_eq_some_iff.mp h
    exact .symbolStart (by simp [hs])
  | identifier =>
    simp only [exception?, Option.ite_none_right_eq_some, Option.some.injEq] at h
    obtain ⟨hp, rfl⟩ := h
    exact .inWord hp
  | constantNoDot =>
    simp only [exception?] at h
    split at h
    · next hp => cases h; exact .inWhole hp
    split at h
    · next hp => cases h; subst hp; exact .point
    split at h
    · next hp => cases h; exact .wholeSpoilt hp
    · cases h
  | constantWithDot =>
    simp only [exception?] at h
    split at h
    · next hp => cases h; exact .inFraction hp
    split at h
    · next hp => cases h; exact .fractionSpoilt (by simpa using hp)
    · cases h
  | dot =>
    simp only [exception?, Option.ite_none_right_eq_some, Option.some.injEq] at h
    obtain ⟨hp, rfl⟩ := h
    exact .pointStart hp
  | quoteOpen =>
    simp only [exception?, Option.ite_none_right_eq_some, Option.some.injEq] at h
    obtain ⟨rfl, rfl⟩ := h
    exact .quoteEnd
  | stringBody =>
    simp only [exception?, Option.ite_none_right_eq_some, Option.some.injEq] at h
    obtain ⟨rfl, rfl⟩ := h
    exact .stringEnd
  | _ => exact .compound (mem_compounds_of_findSome? h)

theorem next_cases (s : State) (c : Char) :
    Exceptional s c (s.next c) ∨ s.exception? c = none ∧ s.next c = s.fallback := by
  cases h : s.exception? c with
  | none => exact .inr ⟨rfl, by rw [next, h, Option.getD_none]⟩
  | some t =>
    left
    rw [next, h, Option.getD_some]
    exact exceptional_of_exception? h

theorem fallback_ne_initial (s : State) : s.fallback ≠ initial := by cases s <;> decide

theorem Exceptional.eq_initial {s : State} {c : Char} (h : Exceptional s c initial) :
    s = initial ∧ isBlank c := by
  cases h with
  | blank hb => exact ⟨rfl, hb⟩
  | symbolStart hm =>
    have hall : ∀ x ∈ symbolStarts, x.2 ≠ initial := by decide
    exact absurd rfl (hall _ hm)
  | compound hm =>
    have hall : ∀ x ∈ compounds, x.2.2 ≠ initial := by decide
    exact absurd rfl (hall _ hm)

theorem next_eq_initial {s : State} {c : Char} (h : s.next c = initial) :
    s = initial ∧ isBlank c := by
  rcases next_cases s c with hx | ⟨_, hf⟩
  · exact (h ▸ hx).eq_initial
  · exact absurd (hf.symm.trans h) s.fallback_ne_initial

theorem fallback_of_isFinal : ∀ s ∈ all.filter isFinal, s.fallback = s := by decide

theorem next_of_isFinal {s : State} (h : s.isFinal) (c : Char) : s.next c = s := by
  rcases next_cases s c with hx | ⟨_, hf⟩
  · generalize s.next c = t at hx
    cases hx with
    | compound hm =>
      have hall : ∀ x ∈ compounds, x.1.isFinal = false := by decide
      exact absurd h (by simp [hall _ hm])
    | _ => cases h
  · exact hf.trans (fallback_of_isFinal s (List.mem_filter.mpr ⟨mem_all s, h⟩))

end TableLexer.Lexical.State

namespace TableLexer.Lexical

open State

theorem exception?_of_mem_symbolStarts :
    ∀ x ∈ symbolStarts, initial.exception? x.1 = some x.2 := by decide

theorem exception?_of_mem_compounds :
    ∀ x ∈ compounds, x.1.exception? x.2.1 = some x.2.2 := by decide

/-- The states that are written out in the rules one by one. -/
def plainStates : List State :=
  [initial, identifier, constantNoDot, constantWithDot, dot, quoteOpen, stringBody, quoteClose]

theorem mem_states (s : State) :
    s ∈ plainStates ∨ (∃ x ∈ symbolStarts, x.2 = s) ∨ (∃ x ∈ compounds, x.2.2 = s) ∨
      s ∈ all.filter isFinal := by
  cases s <;> decide

end TableLexer.Lexical
