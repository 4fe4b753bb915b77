import TableLexer.Proofs.Lexical.StandardTable
import TableLexer.Proofs.Scan.Ending
import TableLexer.Proofs.Scan.Foreign
import TableLexer.Scan.Scanner
namespace TableLexer.Scan

open Lexical

/-- A basis that leads where `State.next` says on every symbol of the standard alphabet. -/
structure Basis.Lawful (g : Basis) : Prop where
  initial : g.machine.initial = .initial
  isFinal : g.machine.isFinal = State.isFinal
  alphabet : g.alphabet = Alphabet.standard
  next? : ∀ (s : State) (c : Char), g.alphabet.contains c → g.machine.next? s c = some (s.next c)

theorem Basis.lawful_of_table {t : Table} (h : t.Follows) (ha : t.alphabet = Alphabet.standard)
    (p : Policy) : (Basis.mk t.machine t.alphabet p).Lawful where
  initial := rfl
  isFinal := rfl
  alphabet := ha
  next? s c hc := h s c (Alphabet.contains_iff.mp hc)

theorem Basis.Lawful.contains_blank {g : Basis} (hg : g.Lawful) : g.alphabet.contains ' ' := by
  rw [hg.alphabet, Alphabet.contains_standard]
  decide

theorem Move.mk_andThen (findings : Array Finding) (k : Cursor) (f : Cursor → Move) :
    (Move.mk findings k none).andThen f =
      ⟨findings ++ (f k).findings, (f k).cursor, (f k).failure?⟩ := rfl

namespace Cursor

variable {g : Basis} {k : Cursor} {position : Position} {c : Char}

/-- The cursor behind a symbol of the alphabet. -/
def moved (position : Position) (c : Char) (k : Cursor) : Cursor :=
  let target := k.state.next c
  let lexeme := if target.isFinal || target = .initial then k.lexeme else k.lexeme.push c
  ⟨⟨target, lexeme, k.session.steps.push ⟨k.state, c, target, lexeme⟩⟩,
    (k.mark position).tokenStart⟩

theorem session_mark (position : Position) (k : Cursor) :
    (k.mark position).session = k.session := by
  unfold mark
  split <;> rfl

theorem state_mark (position : Position) (k : Cursor) : (k.mark position).state = k.state := by
  rw [state, session_mark, state]

theorem lexeme_mark (position : Position) (k : Cursor) : (k.mark position).lexeme = k.lexeme := by
  rw [lexeme, session_mark, lexeme]

@[simp] theorem state_moved (position : Position) (c : Char) (k : Cursor) :
    (k.moved position c).state = k.state.next c := rfl

theorem lexeme_moved_of_initial (h : k.state.next c = .initial) :
    (k.moved position c).lexeme = k.lexeme := by
  simp only [moved, h, lexeme]
  rfl

theorem lexeme_moved_of_final {t : Terminal} (h : (k.state.next c).terminal? = some t) :
    (k.moved position c).lexeme = k.lexeme := by
  have hf : (k.state.next c).isFinal = true := by rw [State.isFinal, h]; rfl
  simp [moved, lexeme, hf]

theorem lexeme_moved_of_open (h : (k.state.next c).terminal? = none)
    (hi : k.state.next c ≠ .initial) : (k.moved position c).lexeme = k.lexeme.push c := by
  have hf : (k.state.next c).isFinal = false := by rw [State.isFinal, h]; rfl
  simp [moved, lexeme, hf, hi]

@[simp] theorem state_restart (hg : g.Lawful) (k : Cursor) : (k.restart g).state = .initial :=
  hg.initial

@[simp] theorem lexeme_restart (g : Basis) (k : Cursor) : (k.restart g).lexeme = "" := rfl

/-- The table knows the symbol, so the session goes where `State.next` says. -/
theorem advance?_session (hg : g.Lawful) (hc : g.alphabet.contains c) (position : Position) :
    k.session.advance? g.machine c = some (k.moved position c).session := by
  have hn := hg.next? k.state c hc
  simp only [state] at hn
  simp only [Session.advance?, hn, Option.map_some, Session.extend, hg.isFinal, hg.initial, moved,
    state, lexeme]
  rfl

theorem take_eq (hg : g.Lawful) (hc : g.alphabet.contains c) :
    k.take g position c =
      match (k.state.next c).terminal? with
      | none => (Move.stay (k.moved position c), false)
      | some terminal =>
        ((k.moved position c).arrive g position c terminal, terminal != .illegal) := by
  have hadv : (k.mark position).session.advance? g.machine c =
      some (k.moved position c).session := by
    rw [session_mark]
    exact advance?_session hg hc position
  rw [take]
  simp only [hadv]
  rfl

theorem feedSymbol_of_open (hg : g.Lawful) (hc : g.alphabet.contains c)
    (h : (k.state.next c).terminal? = none) :
    k.feedSymbol g position c = Move.stay (k.moved position c) := by
  rw [feedSymbol, take_eq hg hc, h]
  rfl

theorem feedSymbol_of_spoils (hg : g.Lawful) (hc : g.alphabet.contains c)
    (h : k.state.next c = .illegal) :
    k.feedSymbol g position c =
      (Move.mk #[.reached ((k.moved position c).trace .illegal)] (k.moved position c) none).andThen
        (meetIllegal g position c) := by
  rw [feedSymbol, take_eq hg hc, h]
  rfl

theorem feedSymbol_of_spoils_of_recover (hg : g.Lawful) (hp : g.policy = .recover)
    (hc : g.alphabet.contains c) (h : k.state.next c = .illegal) :
    k.feedSymbol g position c =
      ⟨#[.reached ((k.moved position c).trace .illegal),
        .rejected ⟨position, k.lexeme.push c, .illegal⟩],
        (k.moved position c).restart g, none⟩ := by
  have hl : (k.moved position c).lexeme = k.lexeme :=
    lexeme_moved_of_final (t := .illegal) (by rw [h]; rfl)
  rw [feedSymbol_of_spoils hg hc h]
  simp [Move.andThen, meetIllegal, hp, reject, hl]

theorem feedSymbol_of_initial (hg : g.Lawful) (hc : g.alphabet.contains c)
    (hi : k.state = .initial) : k.feedSymbol g position c = (k.take g position c).1 := by
  have hagain : (k.take g position c).2 = false := by
    rw [take_eq hg hc, hi]
    rcases LongestMatch.terminal?_next_initial c with h | h
    · rw [h]
    · rw [h]
      rfl
  change (if (k.take g position c).2 then _ else _) = _
  rw [hagain]
  rfl

/-- A symbol that ends the token in front of it is read again behind that token. -/
theorem feedSymbol_of_ends (hg : g.Lawful) (hc : g.alphabet.contains c) {t : Terminal}
    (h : (k.state.next c).terminal? = some t) (ht : t ≠ .illegal) :
    k.feedSymbol g position c =
      (Move.mk #[.reached ((k.moved position c).trace t)]
        ((k.moved position c).restart g) none).andThen
          fun k => k.feedSymbol g position c := by
  have hagain : (((k.moved position c).restart g).feedSymbol g position c) =
      (((k.moved position c).restart g).take g position c).1 :=
    feedSymbol_of_initial hg hc (state_restart hg _)
  rw [feedSymbol, take_eq hg hc, h]
  simp only [bne_iff_ne, ne_eq, ht, not_false_eq_true, if_true, arrive, if_false, Move.andThen,
    hagain]

theorem feed_of_contains (hc : g.alphabet.contains c) :
    k.feed g (position, c) = k.feedSymbol g position c := if_pos hc

theorem feed_of_foreign (hc : g.alphabet.contains c = false) :
    k.feed g (position, c) = k.feedForeign g position c := if_neg (by simp [hc])

theorem mark_of_ne_initial (h : k.state ≠ .initial) (position : Position) :
    k.mark position = k := if_neg h

theorem ne_initial_of_endsPending {s : State} (h : endsPending s) : s ≠ .initial := by
  rintro rfl
  cases h

/-- Between two tokens, and in a string, a foreign character is rejected with the text before it. -/
theorem feedForeign_of_alone (hp : g.policy = .recover) (hk : endsPending k.state = false) :
    k.feedForeign g position c =
      ⟨#[.rejected ⟨position, k.lexeme.push c, .outsideAlphabet⟩], (k.mark position).restart g,
        none⟩ := by
  simp [feedForeign, hp, state_mark, hk, Move.stay_andThen, reject, lexeme_mark]

/-- Elsewhere it is rejected behind a blank. -/
theorem feedForeign_of_ends (hp : g.policy = .recover) (hk : endsPending k.state) :
    k.feedForeign g position c = (k.feedSymbol g position ' ').andThen fun j =>
      j.reject g position (j.lexeme.push c) .outsideAlphabet := by
  rw [feedForeign, mark_of_ne_initial (ne_initial_of_endsPending hk), if_pos hk]
  simp only [hp]

section Blank

theorem next_blank_of_initial (hk : k.state = .initial) : k.state.next ' ' = .initial := by
  rw [hk]
  decide

theorem state_moved_blank (hk : k.state = .initial) :
    (k.moved position ' ').state = .initial := next_blank_of_initial hk

theorem lexeme_moved_blank (hk : k.state = .initial) :
    (k.moved position ' ').lexeme = k.lexeme := lexeme_moved_of_initial (next_blank_of_initial hk)

theorem feedSymbol_blank_of_initial (hg : g.Lawful) (hk : k.state = .initial) :
    k.feedSymbol g position ' ' = Move.stay (k.moved position ' ') :=
  feedSymbol_of_open hg hg.contains_blank (by rw [next_blank_of_initial hk]; rfl)

theorem feedSymbol_blank_of_ends (hg : g.Lawful) {t : Terminal}
    (hn : (k.state.next ' ').terminal? = some t) (ht : t ≠ .illegal) :
    k.feedSymbol g position ' ' =
      ⟨#[.reached ((k.moved position ' ').trace t)],
        ((k.moved position ' ').restart g).moved position ' ', none⟩ := by
  rw [feedSymbol_of_ends hg hg.contains_blank hn ht, Move.mk_andThen,
    feedSymbol_blank_of_initial hg (state_restart hg _)]
  rfl

end Blank

/-- The blank ends the token before it, so the foreign character is rejected on its own. -/
theorem feedForeign_of_pending (hg : g.Lawful) (hp : g.policy = .recover)
    (hk : endsPending k.state) {t : Terminal} (hn : (k.state.next ' ').terminal? = some t)
    (ht : t ≠ .illegal) :
    k.feedForeign g position c =
      ⟨#[.reached ((k.moved position ' ').trace t),
        .rejected ⟨position, String.singleton c, .outsideAlphabet⟩],
        ⟨Session.start g.machine, position⟩, none⟩ := by
  let j := (k.moved position ' ').restart g
  have hj : j.state = .initial := state_restart hg _
  have hl : (j.moved position ' ').lexeme = "" := by
    rw [lexeme_moved_blank hj, lexeme_restart]
  have hreject : (j.moved position ' ').reject g position
      ((j.moved position ' ').lexeme.push c) .outsideAlphabet =
      ⟨#[.rejected ⟨position, String.singleton c, .outsideAlphabet⟩],
        ⟨Session.start g.machine, position⟩, none⟩ := by
    rw [reject, hl, restart, moved, mark, if_pos hj]
    rfl
  rw [feedForeign_of_ends hp hk, feedSymbol_blank_of_ends hg hn ht, Move.mk_andThen, hreject]
  rfl

end Cursor

end TableLexer.Scan
