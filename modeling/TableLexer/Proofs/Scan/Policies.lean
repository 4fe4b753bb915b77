import TableLexer.Proofs.Scan.Reading
import TableLexer.Proofs.Scan.Recording
namespace TableLexer.Scan

open Lexical LongestMatch

/-- The rejection that recovering writes down where failing gives up with an error. -/
def Reports (r : Rejection) : LexError → Prop
  | .illegal position lexeme => r = ⟨position, lexeme, .illegal⟩
  | .outsideAlphabet position c =>
    r.position = position ∧ r.cause = .outsideAlphabet ∧ ∃ text : String, r.lexeme = text.push c
  | .unterminated start lexeme name =>
    ∃ state : State, name = state.name ∧ r = ⟨start, lexeme, .unterminated state⟩
  | .automaton _ => False

/-- Whether giving up leaves behind a token that recovering finishes first. -/
def leavesPending (e : LexError) (s : State) : Bool :=
  match e with
  | .outsideAlphabet _ _ => Cursor.endsPending s
  | _ => false

/-- What recovering finds of the token that was being read when failing gave up. -/
def Finishes (e : LexError) (k : Cursor) (pending : List Finding) : Prop :=
  if leavesPending e k.state then
    ∃ trace : TokenTrace, pending = [.reached trace] ∧ trace.terminal ≠ .illegal ∧
      trace.lexeme = k.lexeme
  else pending = []

theorem finishes_of_leaves {e : LexError} {k : Cursor} {pending : List Finding}
    (h : leavesPending e k.state) : Finishes e k pending ↔ ∃ trace : TokenTrace,
      pending = [.reached trace] ∧ trace.terminal ≠ .illegal ∧ trace.lexeme = k.lexeme := by
  rw [Finishes, if_pos h]

theorem finishes_of_not_leaves {e : LexError} {k : Cursor} {pending : List Finding}
    (h : leavesPending e k.state = false) : Finishes e k pending ↔ pending = [] := by
  rw [Finishes, if_neg (Bool.eq_false_iff.mp h)]

def NoRejection (findings : Array Finding) : Prop :=
  findings.toList.filterMap Finding.rejection? = []

theorem NoRejection.append {fs gs : Array Finding} (hf : NoRejection fs) (hg : NoRejection gs) :
    NoRejection (fs ++ gs) := by
  rw [NoRejection, Array.toList_append, List.filterMap_append, hf, hg]
  rfl

/-- Failing and recovering on the same input: alike while nothing is rejected, and up to there
otherwise. -/
inductive Agree (failing recovering : Move) : Prop where
  | alike : recovering = failing → failing.failure? = none → NoRejection failing.findings →
      failing.cursor.Reads → Agree failing recovering
  | parted (e : LexError) (pending : List Finding) (r : Rejection) (behind : List Finding) :
      failing.failure? = some e → NoRejection failing.findings → Reports r e →
      Finishes e failing.cursor pending →
      recovering.findings.toList =
        failing.findings.toList ++ pending ++ .rejected r :: behind →
      Agree failing recovering

theorem Move.andThen_of_failure {m : Move} {e : LexError} (h : m.failure? = some e)
    (f : Cursor → Move) : m.andThen f = m := by
  rw [andThen, h]

theorem Move.andThen_of_none {m : Move} (h : m.failure? = none) (f : Cursor → Move) :
    m.andThen f = ⟨m.findings ++ (f m.cursor).findings, (f m.cursor).cursor,
      (f m.cursor).failure?⟩ := by
  rw [andThen, h]

theorem Move.exists_findings_andThen (m : Move) (f : Cursor → Move) :
    ∃ more, (m.andThen f).findings.toList = m.findings.toList ++ more := by
  cases h : m.failure? with
  | none => exact ⟨(f m.cursor).findings.toList, by rw [andThen_of_none h]; simp⟩
  | some e => exact ⟨[], by rw [andThen_of_failure h, List.append_nil]⟩

theorem Agree.andThen {failing recovering : Move} {f r : Cursor → Move}
    (h : Agree failing recovering)
    (hn : failing.cursor.Reads → Agree (f failing.cursor) (r failing.cursor)) :
    Agree (failing.andThen f) (recovering.andThen r) := by
  cases h with
  | alike he hnone hrej hreads =>
    subst he
    rw [Move.andThen_of_none hnone, Move.andThen_of_none hnone]
    cases hn hreads with
    | alike he' hnone' hrej' hreads' =>
      rw [he']
      exact .alike rfl hnone' (hrej.append hrej') hreads'
    | parted e pending rejection behind hsome hrej' hrep hfin hfind =>
      refine .parted e pending rejection behind hsome (hrej.append hrej') hrep hfin ?_
      rw [Array.toList_append, hfind]
      simp
  | parted e pending rejection behind hsome hrej hrep hfin hfind =>
    rw [Move.andThen_of_failure hsome]
    obtain ⟨more, hmore⟩ := recovering.exists_findings_andThen r
    refine .parted e pending rejection (behind ++ more) hsome hrej hrep hfin ?_
    rw [hmore, hfind]
    simp

/-- The same table under another policy. -/
def Basis.under (g : Basis) (p : Policy) : Basis := { g with policy := p }

theorem Basis.Lawful.under {g : Basis} (hg : g.Lawful) (p : Policy) : (g.under p).Lawful :=
  ⟨hg.initial, hg.isFinal, hg.alphabet, hg.next?⟩

namespace Cursor

variable {g : Basis} {k : Cursor} {position : Position} {c : Char}

theorem agree_stay (hk : k.Reads) : Agree (Move.stay k) (Move.stay k) := .alike rfl rfl rfl hk

theorem agree_feedSymbol_of_open (hg : g.Lawful) (hk : k.Reads) (hc : g.alphabet.contains c)
    (hn : (k.state.next c).terminal? = none) :
    Agree (k.feedSymbol (g.under .failFast) position c)
      (k.feedSymbol (g.under .recover) position c) := by
  rw [feedSymbol_of_open (hg.under .failFast) hc hn, feedSymbol_of_open (hg.under .recover) hc hn]
  exact agree_stay (reads_moved hk (hg.alphabet ▸ hc) hn)

theorem agree_feedSymbol_of_spoils (hg : g.Lawful) (hc : g.alphabet.contains c)
    (hn : k.state.next c = .illegal) :
    Agree (k.feedSymbol (g.under .failFast) position c)
      (k.feedSymbol (g.under .recover) position c) := by
  rw [feedSymbol_of_spoils (hg.under .failFast) hc hn,
    feedSymbol_of_spoils (hg.under .recover) hc hn]
  exact .parted (.illegal position ((k.moved position c).lexeme.push c)) []
    ⟨position, (k.moved position c).lexeme.push c, .illegal⟩ [] rfl rfl rfl rfl rfl

theorem agree_feedSymbol_of_initial (hg : g.Lawful) (hk : k.Reads) (hc : g.alphabet.contains c)
    (hi : k.state = .initial) :
    Agree (k.feedSymbol (g.under .failFast) position c)
      (k.feedSymbol (g.under .recover) position c) := by
  rcases terminal?_next_initial c with hn | hn
  · exact agree_feedSymbol_of_open hg hk hc (by rw [hi]; exact hn)
  · exact agree_feedSymbol_of_spoils hg hc (by rw [hi]; exact hn)

theorem agree_feedSymbol (hg : g.Lawful) (hk : k.Reads) (hc : g.alphabet.contains c) :
    Agree (k.feedSymbol (g.under .failFast) position c)
      (k.feedSymbol (g.under .recover) position c) := by
  cases hn : (k.state.next c).terminal? with
  | none => exact agree_feedSymbol_of_open hg hk hc hn
  | some t =>
    by_cases ht : t = .illegal
    · exact agree_feedSymbol_of_spoils hg hc (State.eq_illegal_of_terminal? (ht ▸ hn))
    · -- the token ends alike, and the symbol is read again between two tokens
      rw [feedSymbol_of_ends (hg.under .failFast) hc hn ht,
        feedSymbol_of_ends (hg.under .recover) hc hn ht]
      have hi : ((k.moved position c).restart g).state = .initial := state_restart hg _
      have hrej : NoRejection #[.reached ((k.moved position c).trace t)] := rfl
      exact Agree.andThen (.alike rfl rfl hrej (reads_restart hg _)) fun hj =>
        agree_feedSymbol_of_initial hg hj hc hi

/-- A foreign character stops the failing scan; recovering finishes the token before it. -/
theorem agree_feedForeign (hg : g.Lawful) (hk : k.Reads) :
    Agree (k.feedForeign (g.under .failFast) position c)
      (k.feedForeign (g.under .recover) position c) := by
  have hfail : k.feedForeign (g.under .failFast) position c =
      Move.fail (k.mark position) (.outsideAlphabet position c) := rfl
  rw [hfail]
  cases hpend : endsPending k.state with
  | false =>
    have hleaves : leavesPending (.outsideAlphabet position c) (k.mark position).state = false := by
      rw [state_mark]
      exact hpend
    rw [feedForeign_of_alone rfl hpend]
    exact .parted _ [] ⟨position, k.lexeme.push c, .outsideAlphabet⟩ [] rfl rfl
      ⟨rfl, rfl, k.lexeme, rfl⟩ ((finishes_of_not_leaves hleaves).mpr rfl) rfl
  | true =>
    obtain ⟨t, hnb, ht⟩ := State.exists_terminal?_next_blank hpend (not_isFinal_of_spells hk)
    have hleaves : leavesPending (.outsideAlphabet position c) (k.mark position).state := by
      rw [state_mark]
      exact hpend
    rw [feedForeign_of_pending (hg.under .recover) rfl hpend hnb ht]
    have hl : (k.moved position ' ').lexeme = k.lexeme := lexeme_moved_of_final hnb
    exact .parted _ [.reached ((k.moved position ' ').trace t)]
      ⟨position, String.singleton c, .outsideAlphabet⟩ [] rfl rfl ⟨rfl, rfl, "", rfl⟩
      ((finishes_of_leaves hleaves).mpr ⟨_, rfl, ht, hl.trans (lexeme_mark position k).symm⟩) rfl

theorem agree_feed (hg : g.Lawful) (hk : k.Reads) (i : Position × Char) :
    Agree (k.feed (g.under .failFast) i) (k.feed (g.under .recover) i) := by
  obtain ⟨position, c⟩ := i
  cases hc : g.alphabet.contains c with
  | true =>
    rw [feed_of_contains (g := g.under .failFast) hc, feed_of_contains (g := g.under .recover) hc]
    exact agree_feedSymbol hg hk hc
  | false =>
    rw [feed_of_foreign (g := g.under .failFast) hc, feed_of_foreign (g := g.under .recover) hc]
    exact agree_feedForeign hg hk

theorem agree_close (hk : k.Reads) :
    Agree (k.close (g.under .failFast)) (k.close (g.under .recover)) := by
  by_cases hi : k.state = .initial
  · rw [close, if_pos hi, close, if_pos hi]
    exact agree_stay hk
  · rw [close, if_neg hi, close, if_neg hi]
    exact .parted _ [] ⟨k.tokenStart, k.lexeme, .unterminated k.state⟩ [] rfl rfl
      ⟨k.state, rfl, rfl⟩ rfl rfl

theorem agree_finish (hg : g.Lawful) (hk : k.Reads) (input : List (Position × Char)) :
    Agree (k.finish (g.under .failFast) input) (k.finish (g.under .recover) input) := by
  -- as long as the two moves are alike they leave the same cursor for the rest
  induction input generalizing k with
  | nil =>
    rw [finish_nil, finish_nil]
    exact agree_close hk
  | cons i rest ih =>
    rw [finish_cons, finish_cons]
    exact (agree_feed hg hk i).andThen fun hj => ih hj

theorem agree_run (hg : g.Lawful) (k : Cursor) (input : List (Position × Char)) :
    Agree (k.run (g.under .failFast) input) (k.run (g.under .recover) input) :=
  agree_finish hg (reads_restart hg k) input

end Cursor

end TableLexer.Scan
