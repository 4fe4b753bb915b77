import TableLexer.Proofs.Lexical.NextState
import TableLexer.Scan.Move
namespace TableLexer

namespace Alphabet

theorem contains_standard (c : Char) : standard.contains c = sigma.toList.contains c :=
  contains_ofSymbols sigma.toList c

theorem contains_of_isWord {c : Char} (h : isWord c) : standard.contains c := by
  rw [contains_standard]
  simp only [isWord, Bool.or_eq_true, beq_iff_eq] at h
  -- letters and digits are ranges of codes, small enough to look each one up
  rcases h with (h | h) | rfl
  · exact Text.forall_of_isAlpha (p := sigma.toList.contains) (by decide) (by decide) h
  · exact Text.forall_of_isDigit (p := sigma.toList.contains) (by decide) h
  · decide

end Alphabet

namespace Lexical.State

open Alphabet Scan.Cursor

theorem contains_of_exceptional {s t : State} {c : Char} (h : Exceptional s c t) :
    standard.contains c := by
  have hword {d : Char} (hd : isWordStart d || d.isDigit) : standard.contains d :=
    contains_of_isWord (by rw [isWord_eq]; exact hd)
  have hlisted {d : Char} (hd : sigma.toList.contains d) : standard.contains d := by
    rw [contains_standard]
    exact hd
  have hpoint : standard.contains '.' := hlisted (by decide)
  have hquote : standard.contains '\'' := hlisted (by decide)
  cases h with
  | blank hb =>
    obtain rfl | rfl : c = ' ' ∨ c = '\t' := by simpa [isBlank] using hb
    · exact hlisted (by decide)
    · exact hlisted (by decide)
  | wordStart hw | wholeSpoilt hw => exact hword (by simp [hw])
  | digitStart hd | inWhole hd | inFraction hd | pointStart hd => exact hword (by simp [hd])
  | dotStart | point => exact hpoint
  | quoteStart | quoteEnd | stringEnd => exact hquote
  | inWord hw => exact contains_of_isWord hw
  | fractionSpoilt hp =>
    rcases hp with hw | rfl
    · exact hword (by simp [hw])
    · exact hpoint
  | symbolStart hm =>
    have hall : ∀ x ∈ symbolStarts, sigma.toList.contains x.1 := by decide
    exact hlisted (hall _ hm)
  | compound hm =>
    have hall : ∀ x ∈ compounds, sigma.toList.contains x.2.1 := by decide
    exact hlisted (hall _ hm)

theorem next_of_foreign {c : Char} (hc : standard.contains c = false) (s : State) :
    s.next c = s.fallback := by
  rcases next_cases s c with h | ⟨_, h⟩
  · have hmem := contains_of_exceptional h
    rw [hc] at hmem
    cases hmem
  · exact h

theorem fallback_of_endsPending {s : State} (h : endsPending s) (hs : s.isFinal = false) :
    s.next ' ' = s.fallback ∧ ∃ t, s.fallback.terminal? = some t ∧ t ≠ .illegal := by
  cases s <;> first | exact absurd h (by decide) | exact absurd hs (by decide) | skip
  all_goals exact ⟨by decide, _, rfl, by decide⟩

theorem exists_terminal?_next_blank {s : State} (h : endsPending s) (hs : s.isFinal = false) :
    ∃ t, (s.next ' ').terminal? = some t ∧ t ≠ .illegal := by
  obtain ⟨hblank, t, hn, ht⟩ := fallback_of_endsPending h hs
  exact ⟨t, by rw [hblank, hn], ht⟩

theorem eq_illegal_of_terminal? {s : State} (h : s.terminal? = some .illegal) : s = illegal := by
  cases s <;> first | rfl | cases h

theorem terminal?_next_blank_ne {s : State} (hs : s.isFinal = false) :
    (s.next ' ').terminal? ≠ some .illegal := by
  cases s <;> first | decide | exact absurd hs (by decide)

/-- No token is pending behind a blank, save for a string. -/
theorem endsPending_next_blank (s : State) (h : (s.next ' ').terminal? = none) :
    endsPending (s.next ' ') = false := by
  cases s <;> first | decide | exact absurd h (by decide)

theorem next_blank_cases {s : State} (h : (s.next ' ').terminal? = none) :
    s.next ' ' = initial ∨ s.next ' ' = stringBody := by
  cases s <;> first | decide | exact absurd h (by decide)

end Lexical.State

end TableLexer
