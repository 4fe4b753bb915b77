import TableLexer.Proofs.Scan.Simulation
namespace TableLexer

open Scan Lexical

/-- The same column so many lines further down. -/
def Scan.Position.below (n : Nat) (p : Position) : Position := ⟨p.line + n, p.column⟩

def Scan.Rejection.below (n : Nat) (r : Rejection) : Rejection :=
  { r with position := r.position.below n }

def Scan.Diagnostic.below (n : Nat) (d : Diagnostic) : Diagnostic :=
  { d with rejection := d.rejection.below n }

def LexError.below (n : Nat) : LexError → LexError
  | illegal position lexeme => illegal (position.below n) lexeme
  | outsideAlphabet position symbol => outsideAlphabet (position.below n) symbol
  | unterminated start lexeme state => unterminated (start.below n) lexeme state
  | automaton error => automaton error

namespace Scan

/-- A finding further down. The steps of a trace are left out, as they go back to the blanks in
front of the token. -/
def Finding.below (n : Nat) : Finding → Finding
  | reached trace => reached { trace with steps := #[] }
  | rejected rejection => rejected (rejection.below n)

namespace Diagnostic

theorem map_rejection_below (n : Nat) (ds : List Diagnostic) :
    (ds.map (below n)).map rejection = (ds.map rejection).map (Rejection.below n) := by
  rw [List.map_map, List.map_map]
  rfl

theorem map_token_below (n : Nat) (ds : List Diagnostic) :
    (ds.map (below n)).map token = ds.map token := by
  rw [List.map_map]
  rfl

end Diagnostic

/-- The same text further down. -/
def lower (n : Nat) (input : List (Position × Char)) : List (Position × Char) :=
  input.map fun i => (i.1.below n, i.2)

/-- Two scans stand alike, the first one so many lines further down. -/
structure Cursor.Below (n : Nat) (j k : Cursor) : Prop where
  state : j.state = k.state
  lexeme : j.lexeme = k.lexeme
  start : k.state = .initial ∨ j.tokenStart = k.tokenStart.below n

/-- Two moves come to the same, the first one so many lines further down. -/
structure Move.Below (n : Nat) (l m : Move) : Prop where
  findings : l.findings.toList.map (Finding.below 0) = m.findings.toList.map (Finding.below n)
  failure : l.failure? = m.failure?.map (LexError.below n)
  cursor : l.cursor.Below n m.cursor

namespace Finding

theorem filed?_below (n : Nat) (f : Finding) : (f.below n).filed? = f.filed? := by
  cases f <;> rfl

theorem rejection?_below (n : Nat) (f : Finding) :
    (f.below n).rejection? = f.rejection?.map (Rejection.below n) := by
  cases f <;> rfl

end Finding

namespace Move

variable {n : Nat} {l m : Move}

theorem Below.entries (h : l.Below n m) : l.entries = m.entries := by
  have hfiled (n : Nat) (fs : List Finding) :
      (fs.map (Finding.below n)).filterMap Finding.filed? = fs.filterMap Finding.filed? := by
    rw [List.filterMap_map]
    exact congrArg (List.filterMap · fs) (funext (Finding.filed?_below n))
  rw [Move.entries, ← hfiled 0, h.findings, hfiled, Move.entries]

theorem Below.rejections (h : l.Below n m) :
    l.findings.toList.filterMap Finding.rejection? =
      (m.findings.toList.filterMap Finding.rejection?).map (Rejection.below n) := by
  have hrejected (n : Nat) (fs : List Finding) :
      (fs.map (Finding.below n)).filterMap Finding.rejection? =
        (fs.filterMap Finding.rejection?).map (Rejection.below n) := by
    rw [List.filterMap_map, List.map_filterMap]
    exact congrArg (List.filterMap · fs) (funext (Finding.rejection?_below n))
  have hsame (rs : List Rejection) : rs.map (Rejection.below 0) = rs := List.map_id rs
  rw [← hrejected, ← h.findings, hrejected, hsame]

theorem below_stay {j k : Cursor} (h : j.Below n k) : (stay j).Below n (stay k) :=
  ⟨rfl, rfl, h⟩

theorem Below.andThen (h : l.Below n m) {f g : Cursor → Move}
    (hf : ∀ {j k}, j.Below n k → (f j).Below n (g k)) :
    (l.andThen f).Below n (m.andThen g) := by
  have hfailure := h.failure
  cases hm : m.failure? with
  | some e =>
    rw [hm] at hfailure
    rw [andThen_of_failure hfailure, andThen_of_failure hm]
    exact h
  | none =>
    rw [hm] at hfailure
    have hnext := hf h.cursor
    rw [andThen_of_none hfailure, andThen_of_none hm]
    refine ⟨?_, hnext.failure, hnext.cursor⟩
    rw [Array.toList_append, Array.toList_append, List.map_append, List.map_append, h.findings,
      hnext.findings]

end Move

namespace Cursor

variable {n : Nat} {g : Basis} {j k : Cursor} {position : Position} {c : Char}

theorem tokenStart_mark (h : j.Below n k) (position : Position) :
    (j.mark (position.below n)).tokenStart = (k.mark position).tokenStart.below n := by
  unfold mark
  rw [h.state]
  split
  · rfl
  · next hi => exact h.start.resolve_left hi

theorem below_mark (h : j.Below n k) (position : Position) :
    (j.mark (position.below n)).Below n (k.mark position) where
  state := by rw [state_mark, state_mark, h.state]
  lexeme := by rw [lexeme_mark, lexeme_mark, h.lexeme]
  start := .inr (tokenStart_mark h position)

theorem below_moved (h : j.Below n k) (position : Position) (c : Char) :
    (j.moved (position.below n) c).Below n (k.moved position c) where
  state := by rw [state_moved, state_moved, h.state]
  lexeme := by
    have hl : j.session.lexeme = k.session.lexeme := h.lexeme
    simp only [moved, lexeme, h.state, hl]
  start := .inr (tokenStart_mark h position)

theorem below_restart (hg : g.Lawful) (n : Nat) (j k : Cursor) :
    (j.restart g).Below n (k.restart g) := ⟨rfl, rfl, .inl (state_restart hg k)⟩

theorem below_refuse (hg : g.Lawful) (h : j.Below n k) (error : LexError) (rejection : Rejection) :
    (j.refuse g (error.below n) (rejection.below n)).Below n (k.refuse g error rejection) := by
  unfold refuse
  cases g.policy with
  | failFast => exact ⟨rfl, rfl, h⟩
  | recover => exact ⟨rfl, rfl, below_restart hg n j k⟩

theorem below_found (h : j.Below n k) (t : Terminal) {j' k' : Cursor} {f f' : Cursor → Move}
    (hf : (f j').Below n (f' k')) :
    ((Move.mk #[.reached (j.trace t)] j' none).andThen f).Below n
      ((Move.mk #[.reached (k.trace t)] k' none).andThen f') := by
  rw [Move.mk_andThen, Move.mk_andThen]
  refine ⟨?_, hf.failure, hf.cursor⟩
  have hl : Finding.below 0 (.reached (j.trace t)) = .below n (.reached (k.trace t)) := by
    simp [Finding.below, trace, h.lexeme]
  rw [Array.toList_append, Array.toList_append, List.map_append, List.map_append, hf.findings]
  exact congrArg (· :: _) hl

theorem below_feedSymbol_of_open (hg : g.Lawful) (hc : g.alphabet.contains c) (h : j.Below n k)
    (hn : (k.state.next c).terminal? = none) :
    (j.feedSymbol g (position.below n) c).Below n (k.feedSymbol g position c) := by
  rw [feedSymbol_of_open hg hc (by rw [h.state]; exact hn), feedSymbol_of_open hg hc hn]
  exact Move.below_stay (below_moved h position c)

theorem below_feedSymbol_of_spoils (hg : g.Lawful) (hc : g.alphabet.contains c) (h : j.Below n k)
    (hn : k.state.next c = .illegal) :
    (j.feedSymbol g (position.below n) c).Below n (k.feedSymbol g position c) := by
  rw [feedSymbol_of_spoils hg hc (by rw [h.state]; exact hn), feedSymbol_of_spoils hg hc hn]
  have hmoved := below_moved h position c
  refine below_found hmoved .illegal ?_
  rw [meetIllegal_eq_refuse, meetIllegal_eq_refuse, hmoved.lexeme]
  exact below_refuse hg hmoved (.illegal position _) ⟨position, _, .illegal⟩

theorem below_feedSymbol_of_initial (hg : g.Lawful) (hc : g.alphabet.contains c)
    (h : j.Below n k) (hi : k.state = .initial) :
    (j.feedSymbol g (position.below n) c).Below n (k.feedSymbol g position c) := by
  rcases LongestMatch.terminal?_next_initial c with hn | hn
  · exact below_feedSymbol_of_open hg hc h (by rw [hi]; exact hn)
  · exact below_feedSymbol_of_spoils hg hc h (by rw [hi]; exact hn)

theorem below_feedSymbol (hg : g.Lawful) (hc : g.alphabet.contains c) (h : j.Below n k) :
    (j.feedSymbol g (position.below n) c).Below n (k.feedSymbol g position c) := by
  cases hn : (k.state.next c).terminal? with
  | none => exact below_feedSymbol_of_open hg hc h hn
  | some t =>
    by_cases ht : t = .illegal
    · exact below_feedSymbol_of_spoils hg hc h (State.eq_illegal_of_terminal? (ht ▸ hn))
    · -- behind the token both read the symbol again, between two tokens
      rw [feedSymbol_of_ends hg hc (by rw [h.state]; exact hn) ht, feedSymbol_of_ends hg hc hn ht]
      exact below_found (below_moved h position c) t
        (below_feedSymbol_of_initial hg hc (below_restart hg n _ _) (state_restart hg _))

theorem below_feedForeign (hg : g.Lawful) (h : j.Below n k) :
    (j.feedForeign g (position.below n) c).Below n (k.feedForeign g position c) := by
  by_cases halone : g.policy = .recover → endsPending k.state = false
  · have hmark := below_mark h position
    rw [feedForeign_of_not_ends (by rw [h.state]; exact halone), feedForeign_of_not_ends halone,
      hmark.lexeme]
    exact below_refuse hg hmark (.outsideAlphabet position c) ⟨position, _, .outsideAlphabet⟩
  · obtain ⟨hp, hpend⟩ := Classical.not_imp.mp halone
    have hpend : endsPending k.state := by simpa using hpend
    rw [feedForeign_of_ends hp (by rw [h.state]; exact hpend), feedForeign_of_ends hp hpend]
    refine (below_feedSymbol hg hg.contains_blank h).andThen fun {j k} h => ?_
    rw [h.lexeme]
    exact ⟨rfl, rfl, below_restart hg n j k⟩

theorem below_feed (hg : g.Lawful) (h : j.Below n k) (i : Position × Char) :
    (j.feed g (i.1.below n, i.2)).Below n (k.feed g i) := by
  obtain ⟨position, c⟩ := i
  cases hc : g.alphabet.contains c with
  | true =>
    rw [feed_of_contains hc, feed_of_contains hc]
    exact below_feedSymbol hg hc h
  | false =>
    rw [feed_of_foreign hc, feed_of_foreign hc]
    exact below_feedForeign hg h

theorem below_close (hg : g.Lawful) (h : j.Below n k) : (j.close g).Below n (k.close g) := by
  by_cases hi : k.state = .initial
  · rw [close, if_pos (h.state.trans hi), close, if_pos hi]
    exact Move.below_stay h
  · rw [close_of_ne_initial g (by rw [h.state]; exact hi), close_of_ne_initial g hi, h.state,
      h.lexeme, h.start.resolve_left hi]
    exact below_refuse hg h (.unterminated k.tokenStart k.lexeme k.state.name)
      ⟨k.tokenStart, k.lexeme, .unterminated k.state⟩

/-- A scan that stands alike goes alike, and everything it reports is so many lines further down. -/
theorem below_finish (hg : g.Lawful) (h : j.Below n k) (input : List (Position × Char)) :
    (j.finish g (lower n input)).Below n (k.finish g input) := by
  induction input generalizing j k with
  | nil =>
    rw [lower, List.map_nil, finish_nil, finish_nil]
    exact below_close hg h
  | cons i rest ih =>
    rw [lower, List.map_cons, finish_cons, finish_cons]
    exact (below_feed hg h i).andThen ih

end Cursor

end Scan

end TableLexer
