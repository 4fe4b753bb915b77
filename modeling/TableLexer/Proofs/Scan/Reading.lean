import TableLexer.Proofs.Scan.Reachable
namespace TableLexer.Scan

open Lexical LongestMatch

namespace Cursor

variable {g : Basis} {k : Cursor} {position : Position} {c : Char}

/-- The rest of a scan. -/
def finish (g : Basis) (k : Cursor) (input : List (Position × Char)) : Move :=
  (k.feedAll g input).andThen (close g)

theorem finish_nil (g : Basis) (k : Cursor) : k.finish g [] = k.close g := by
  rw [finish, feedAll, List.foldl_nil, Move.stay_andThen]

theorem finish_cons (g : Basis) (k : Cursor) (i : Position × Char)
    (rest : List (Position × Char)) :
    k.finish g (i :: rest) = (k.feed g i).andThen fun k => k.finish g rest := by
  rw [finish, feedAll_cons, Move.andThen_assoc]
  rfl

theorem run_eq_finish (g : Basis) (k : Cursor) (input : List (Position × Char)) :
    k.run g input = (k.restart g).finish g input := rfl

/-- The cursor stands within a token of which it has read what its state says. -/
def Reads (k : Cursor) : Prop := Spells k.state k.lexeme.toList

theorem reads_restart (hg : g.Lawful) (k : Cursor) : (k.restart g).Reads := by
  rw [Reads, state_restart hg, lexeme_restart]
  rfl

theorem reads_moved (hk : k.Reads) (hc : Alphabet.standard.contains c)
    (hn : (k.state.next c).terminal? = none) : (k.moved position c).Reads := by
  by_cases hi : k.state.next c = .initial
  · obtain ⟨hs, _⟩ := State.next_eq_initial hi
    rw [Reads, hs] at hk
    rw [Reads, state_moved, hi, lexeme_moved_of_initial hi, hk]
    rfl
  · rw [Reads, state_moved, lexeme_moved_of_open hn hi, String.toList_push]
    exact spells_next hk hc hn hi

theorem not_isFinal_of_spells {s : State} {text : List Char} (h : Spells s text) :
    s.isFinal = false := by
  cases s <;> first | rfl | exact absurd h.1 (by decide)

theorem ne_nil_of_spells {s : State} {text : List Char} (h : Spells s text)
    (hs : s ≠ .initial) : text ≠ [] := by
  rintro rfl
  cases s <;> first | exact hs rfl | skip
  case identifier | constantNoDot | constantWithDot | stringBody | quoteClose => simp [Spells] at h
  case dot | quoteOpen => cases h
  all_goals exact absurd h.2 (by decide)

theorem exists_lexeme (hk : k.Reads) (hs : k.state ≠ .initial) :
    ∃ d text, k.lexeme.toList = d :: text := List.exists_cons_of_ne_nil (ne_nil_of_spells hk hs)

theorem isBlank_of_spells {s : State} {d : Char} {text : List Char} (h : Spells s (d :: text)) :
    Alphabet.isBlank d = false := by
  have hword {d : Char} (hd : Alphabet.isWordStart d || d.isDigit) : Alphabet.isBlank d = false :=
    Alphabet.isBlank_eq_false_of_isWord (by rw [Alphabet.isWord_eq]; exact hd)
  have hop (ho : isOperator s) (ht : d :: text = s.name.toList) : Alphabet.isBlank d = false := by
    have hall : operators.all (fun o => !Alphabet.isBlank o) := by decide
    rcases operator_text ho with ⟨o, hm, hn, _⟩ | ⟨p, _, hm, hn, _⟩
    · rw [(List.cons.inj (ht.trans hn)).1]
      simpa using List.all_eq_true.mp hall o hm
    · rw [(List.cons.inj (ht.trans hn)).1]
      simpa using List.all_eq_true.mp hall p.1 hm
  cases s
  case initial => cases h
  case identifier =>
    obtain ⟨e, rest, he, hd, _⟩ := h
    rw [(List.cons.inj he).1]
    exact hword (by simp [hd])
  case constantNoDot =>
    obtain ⟨e, rest, he, hd, _⟩ := h
    rw [(List.cons.inj he).1]
    exact hword (by simp [hd])
  case constantWithDot =>
    obtain ⟨whole, part, he, hw, _⟩ := h
    cases whole with
    | nil =>
      rw [(List.cons.inj he).1]
      decide
    | cons e whole =>
      rw [(List.cons.inj he).1]
      exact hword (by simp [hw e])
  case dot => rw [(List.cons.inj h).1]; decide
  case quoteOpen => rw [(List.cons.inj h).1]; decide
  case stringBody =>
    obtain ⟨body, he, _⟩ := h
    rw [(List.cons.inj he).1]
    decide
  case quoteClose =>
    obtain ⟨body, he, _⟩ := h
    rw [(List.cons.inj he).1]
    decide
  all_goals exact hop h.1 h.2

end Cursor

end TableLexer.Scan
