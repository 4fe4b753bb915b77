import TableLexer.Proofs.Scan.Driver
import TableLexer.Proofs.Scan.Policies
import TableLexer.Proofs.Scan.Recognition
namespace TableLexer

open Scan Lexical

section Renaming

variable {σ τ : Type}

def Step.map (f : σ → τ) (s : Step σ) : Step τ := ⟨f s.source, s.symbol, f s.target, s.lexeme⟩

/-- The same run, by other names of the states. -/
def Session.map (f : σ → τ) (s : Session σ) : Session τ :=
  ⟨f s.current, s.lexeme, s.steps.map (Step.map f)⟩

theorem Session.map_start (f : σ → τ) (m : Machine σ) :
    (start m).map f = ⟨f m.initial, "", #[]⟩ := by
  simp [map, start]

end Renaming

/-- The errors that a scan can give up with. Of tokens cut short there are only strings, as a blank
goes on with no other. -/
def LexError.Tenable : LexError → Prop
  | illegal _ _ | outsideAlphabet _ _ => True
  | unterminated _ lexeme name => name = State.stringBody.name ∧
      ∃ body, lexeme.toList = '\'' :: body ++ [' '] ∧ '\'' ∉ body
  | automaton _ => False

theorem LexError.eq_none_of_recover {p : Policy} {failure? : Option LexError}
    (h : ∀ e ∈ failure?, p = .failFast ∧ e.Tenable) (hp : p = .recover) : failure? = none := by
  apply Option.eq_none_iff_forall_ne_some.mpr
  intro e he
  have hfail := (h e he).1
  rw [hp] at hfail
  cases hfail

namespace Scan

/-- An automaton over ids of states that leads where `State.next` says. -/
structure Implements (a : Automaton) (g : Basis) : Prop where
  target? : ∀ (s : State) (c : Char), g.alphabet.contains c → a.target? s.id c = some (s.next c).id
  isFinal : ∀ s : State, a.isFinal s.id = s.isFinal

theorem implements_of_table {t : Table} (h : t.Follows)
    (hs : t.automaton.states.toList = State.all.map State.named) (p : Policy) :
    Implements t.automaton ⟨t.machine, t.alphabet, p⟩ where
  target? s c hc := by
    have hn := h s c (Alphabet.contains_iff.mp hc)
    obtain ⟨id, hid, hof⟩ := Option.bind_eq_some_iff.mp hn
    rw [hid, State.ofId?_eq_some_iff.mp hof]
  isFinal s := by
    have hnamed : t.automaton.states[s.id.position]? = some s.named := by
      rw [← Array.getElem?_toList, hs]
      cases s <;> rfl
    rw [Automaton.isFinal, hnamed]
    rfl

theorem Engine.process_of_advance? {e : Engine} {c : Char} {session : Session StateId}
    (h : e.automaton.session.advance? e.automaton.machine c = some session) :
    e.process c = .ok { e with automaton := { e.automaton with session } } := by
  rw [process, Automaton.advance, h]
  rfl

namespace Move

/-- A move with something found before. -/
def after (f : Finding) (m : Move) : Move := ⟨#[f] ++ m.findings, m.cursor, m.failure?⟩

theorem found_andThen (f : Finding) (k : Cursor) (next : Cursor → Move) :
    (Move.mk #[f] k none).andThen next = (next k).after f := rfl

theorem entries_after (f : Finding) (m : Move) :
    (m.after f).entries = f.filed?.toList ++ m.entries := by
  cases hf : f.filed? <;> simp [entries, after, hf]

end Move

/-- The engine that stands where a cursor does. -/
def Cursor.engine (a : Automaton) (k : Cursor) : Engine :=
  ⟨{ a with session := k.session.map State.id }, k.tokenStart⟩

/-- What a move comes to for the engine. -/
def Effect.ofMove (a : Automaton) (rereads : Nat) (m : Move) : Effect :=
  ⟨m.entries, rereads, m.cursor.engine a, m.failure?⟩

namespace Cursor

variable {a : Automaton} {g : Basis} {k : Cursor} {position : Position} {c : Char}

@[simp] theorem state?_engine (a : Automaton) (k : Cursor) : (k.engine a).state? = some k.state :=
  State.ofId?_id k.state

theorem mark?_engine (a : Automaton) (position : Position) (k : Cursor) :
    (k.engine a).mark? position = some (k.state, (k.mark position).engine a) := by
  rw [Engine.mark?, state?_engine, Option.map_some, mark]
  split <;> rfl

theorem restart_engine (hg : g.Lawful) (a : Automaton) (k : Cursor) :
    (k.engine a).restart = (k.restart g).engine a := by
  rw [restart, engine, engine, Session.map_start, hg.initial]
  rfl

theorem process_engine (ha : Implements a g) (hc : g.alphabet.contains c) :
    ((k.mark position).engine a).process c = .ok ((k.moved position c).engine a) := by
  have hn : a.machine.next? k.session.current.id c = some (k.state.next c).id :=
    ha.target? k.state c hc
  have hf : a.machine.isFinal (k.state.next c).id = (k.state.next c).isFinal :=
    ha.isFinal (k.state.next c)
  have hi : (k.state.next c).id = a.machine.initial ↔ k.state.next c = .initial :=
    State.id_eq_initial_iff
  have hadv : (Session.map State.id (k.mark position).session).advance? a.machine c =
      some ((k.moved position c).session.map State.id) := by
    rw [session_mark]
    simp only [Session.advance?, Session.map, hn, Option.map_some, Session.extend, hf, hi, moved,
      Array.map_push, Step.map]
    rfl
  exact Engine.process_of_advance? hadv

/-- Between two tokens, or in a string behind a blank. -/
def Rests (k : Cursor) : Prop :=
  k.state = .initial ∨ k.state = .stringBody ∧ ∃ front, k.lexeme.toList = front ++ [' ']

theorem rests_restart (hg : g.Lawful) (k : Cursor) : (k.restart g).Rests :=
  .inl (state_restart hg k)

theorem rests_moved (h : (k.state.next ' ').terminal? = none) : (k.moved position ' ').Rests := by
  rcases State.next_blank_cases h with hs | hs
  · exact .inl hs
  · have hi : k.state.next ' ' ≠ .initial := by rw [hs]; decide
    exact .inr ⟨hs, k.lexeme.toList, by rw [lexeme_moved_of_open h hi, String.toList_push]⟩

/-- Gives up, or rejects a lexeme and goes on behind it. -/
def refuse (g : Basis) (error : LexError) (rejection : Rejection) (k : Cursor) : Move :=
  match g.policy with
  | .failFast => Move.fail k error
  | .recover => k.reject g rejection.position rejection.lexeme rejection.cause

section Refuse

variable {error : LexError} {rejection : Rejection}

theorem length_entries_refuse : (k.refuse g error rejection).entries.length ≤ 1 := by
  unfold refuse
  cases g.policy with
  | failFast => exact Nat.zero_le 1
  | recover => exact Nat.le_refl 1

theorem cursor_refuse (h : (k.refuse g error rejection).failure? = none) :
    (k.refuse g error rejection).cursor = k.restart g := by
  unfold refuse at h ⊢
  cases hp : g.policy with
  | failFast =>
    rw [hp] at h
    cases h
  | recover => rfl

theorem policy_of_refuse {e : LexError} (h : e ∈ (k.refuse g error rejection).failure?) :
    g.policy = .failFast ∧ e = error := by
  unfold refuse at h
  cases hp : g.policy with
  | failFast =>
    rw [hp] at h
    exact ⟨rfl, (Option.some.inj h).symm⟩
  | recover =>
    rw [hp] at h
    cases h

end Refuse

theorem meetIllegal_eq_refuse (g : Basis) (position : Position) (c : Char) (k : Cursor) :
    k.meetIllegal g position c = k.refuse g (.illegal position (k.lexeme.push c))
      ⟨position, k.lexeme.push c, .illegal⟩ := rfl

theorem close_of_ne_initial (g : Basis) (h : k.state ≠ .initial) :
    k.close g = k.refuse g (.unterminated k.tokenStart k.lexeme k.state.name)
      ⟨k.tokenStart, k.lexeme, .unterminated k.state⟩ := if_neg h

theorem feedForeign_of_not_ends (h : g.policy = .recover → endsPending k.state = false) :
    k.feedForeign g position c =
      (k.mark position).refuse g (.outsideAlphabet position c)
        ⟨position, (k.mark position).lexeme.push c, .outsideAlphabet⟩ := by
  rw [feedForeign, refuse]
  cases hp : g.policy with
  | failFast => rfl
  | recover =>
    simp only [state_mark, h hp, Bool.false_eq_true, if_false, Move.stay_andThen]

theorem ofMove_refuse (hg : g.Lawful) (a : Automaton) (error : LexError) (rejection : Rejection)
    (k : Cursor) : Effect.ofMove a 0 (k.refuse g error rejection) =
      (k.engine a).refuse g.policy error rejection.lexeme := by
  unfold refuse Engine.refuse
  cases g.policy with
  | failFast => rfl
  | recover =>
    rw [restart_engine hg]
    rfl

/-- What there is to know of the move on one character. The engine makes it too, and reads a
character again this often. -/
structure Steps (a : Automaton) (g : Basis) (k : Cursor) (i : Position × Char) (rereads : Nat)
    (m : Move) : Prop where
  feeds : Feeds g.alphabet g.policy (k.engine a) i (.ofMove a rereads m)
  tokens : m.entries.length ≤ rereads + 1
  reads : m.failure? = none → m.cursor.Reads
  rests : i.2 = ' ' → m.failure? = none → m.cursor.Rests
  failed : ∀ e ∈ m.failure?, g.policy = .failFast ∧ e.Tenable

theorem Steps.failure?_eq_none {i : Position × Char} {n : Nat} {m : Move} (h : Steps a g k i n m)
    (hp : g.policy = .recover) : m.failure? = none := LexError.eq_none_of_recover h.failed hp

theorem Steps.after {f : Finding} (hf : f.filed? = none) {i : Position × Char} {n : Nat} {m : Move}
    (h : Steps a g k i n m) : Steps a g k i n (m.after f) := by
  have hentries : (m.after f).entries = m.entries := by
    rw [Move.entries_after, hf]
    rfl
  refine ⟨?_, ?_, h.reads, h.rests, h.failed⟩
  · rw [Effect.ofMove, hentries]
    exact h.feeds
  · rw [hentries]
    exact h.tokens

theorem steps_of_open (hg : g.Lawful) (ha : Implements a g) (hk : k.Reads)
    (hc : g.alphabet.contains c) (hn : (k.state.next c).terminal? = none) :
    Steps a g k (position, c) 0 (k.feedSymbol g position c) := by
  rw [feedSymbol_of_open hg hc hn]
  exact {
    feeds := .within (mark?_engine a position k) hc (process_engine ha hc) (state?_engine a _) hn
    tokens := Nat.zero_le _
    reads := fun _ => reads_moved hk (contains_standard hg hc) hn
    rests := by
      rintro rfl _
      exact rests_moved hn
    failed := by simp [Move.stay] }

theorem steps_of_refuse (hg : g.Lawful) {error : LexError} (he : error.Tenable)
    {rejection : Rejection} {j : Cursor} {i : Position × Char}
    (h : Feeds g.alphabet g.policy (k.engine a) i
      ((j.engine a).refuse g.policy error rejection.lexeme)) :
    Steps a g k i 0 (j.refuse g error rejection) := by
  rw [← ofMove_refuse hg] at h
  exact {
    feeds := h
    tokens := length_entries_refuse
    reads := fun hok => cursor_refuse hok ▸ reads_restart hg j
    rests := fun _ hok => cursor_refuse hok ▸ rests_restart hg j
    failed := by
      intro e hfail
      obtain ⟨hp, rfl⟩ := policy_of_refuse hfail
      exact ⟨hp, he⟩ }

theorem steps_of_spoils (hg : g.Lawful) (ha : Implements a g) (hc : g.alphabet.contains c)
    (hn : k.state.next c = .illegal) :
    Steps a g k (position, c) 0 (k.feedSymbol g position c) := by
  have hs : (k.moved position c).state.terminal? = some .illegal := by rw [state_moved, hn]; rfl
  -- the trace of the illegal token is found first, but nothing is registered for it
  rw [feedSymbol_of_spoils hg hc hn, Move.found_andThen, meetIllegal_eq_refuse]
  apply Steps.after (Finding.filed?_reached_illegal rfl)
  refine steps_of_refuse hg ?_ ?_
  · trivial
  · exact .spoils (mark?_engine a position k) hc (process_engine ha hc) (state?_engine a _) hs

theorem steps_of_initial (hg : g.Lawful) (ha : Implements a g) (hk : k.Reads)
    (hc : g.alphabet.contains c) (hi : k.state = .initial) :
    Steps a g k (position, c) 0 (k.feedSymbol g position c) := by
  rcases LongestMatch.terminal?_next_initial c with hn | hn
  · exact steps_of_open hg ha hk hc (by rw [hi]; exact hn)
  · exact steps_of_spoils hg ha hc (by rw [hi]; exact hn)

theorem steps_of_ends (hg : g.Lawful) (ha : Implements a g) (hc : g.alphabet.contains c)
    {t : Terminal} (hn : (k.state.next c).terminal? = some t) (ht : t ≠ .illegal) :
    Steps a g k (position, c) 1 (k.feedSymbol g position c) := by
  have h : Steps a g ((k.moved position c).restart g) (position, c) 0
      (((k.moved position c).restart g).feedSymbol g position c) :=
    steps_of_initial hg ha (reads_restart hg _) hc (state_restart hg _)
  have hagain := h.feeds
  rw [← restart_engine hg] at hagain
  have hfiled : (Finding.reached ((k.moved position c).trace t)).filed? =
      some (t, (k.moved position c).lexeme) := Finding.filed?_reached ht
  rw [feedSymbol_of_ends hg hc hn ht, Move.found_andThen]
  refine ⟨?_, ?_, h.reads, h.rests, h.failed⟩
  · rw [Effect.ofMove, Move.entries_after, hfiled]
    exact .ends (mark?_engine a position k) hc (process_engine ha hc) (state?_engine a _) hn ht
      hagain
  · rw [Move.entries_after, hfiled]
    exact Nat.succ_le_succ h.tokens

theorem exists_steps_feedSymbol (hg : g.Lawful) (ha : Implements a g) (hk : k.Reads)
    (hc : g.alphabet.contains c) :
    ∃ n ≤ 1, Steps a g k (position, c) n (k.feedSymbol g position c) := by
  cases hn : (k.state.next c).terminal? with
  | none => exact ⟨0, Nat.zero_le 1, steps_of_open hg ha hk hc hn⟩
  | some t =>
    by_cases ht : t = .illegal
    · have hill : k.state.next c = .illegal := State.eq_illegal_of_terminal? (ht ▸ hn)
      exact ⟨0, Nat.zero_le 1, steps_of_spoils hg ha hc hill⟩
    · exact ⟨1, Nat.le_refl 1, steps_of_ends hg ha hc hn ht⟩

theorem steps_of_foreign_alone (hg : g.Lawful) (hc : g.alphabet.contains c = false)
    (h : g.policy = .recover → endsPending k.state = false) :
    Steps a g k (position, c) 0 (k.feedForeign g position c) := by
  rw [feedForeign_of_not_ends h]
  refine steps_of_refuse hg ?_ ?_
  · trivial
  · exact .foreign (mark?_engine a position k) hc h

/-- A foreign character that ends a token, as the blank does that is taken in front of it. -/
theorem steps_of_foreign_pending (hg : g.Lawful) (ha : Implements a g) (hk : k.Reads)
    (hc : g.alphabet.contains c = false) (hp : g.policy = .recover) (hpend : endsPending k.state) :
    Steps a g k (position, c) 1 (k.feedForeign g position c) := by
  obtain ⟨t, hnb, ht⟩ := State.exists_terminal?_next_blank hpend (not_isFinal_of_spells hk)
  have hmark : k.mark position = k := mark_of_ne_initial (ne_initial_of_endsPending hpend) position
  let blank := k.feedSymbol g position ' '
  have h : Steps a g k (position, ' ') 1 blank := steps_of_ends hg ha hg.contains_blank hnb ht
  have hok : blank.failure? = none := h.failure?_eq_none hp
  have hmove : k.feedForeign g position c =
      ⟨blank.findings ++ #[.rejected ⟨position, blank.cursor.lexeme.push c, .outsideAlphabet⟩],
        blank.cursor.restart g, none⟩ := by
    rw [feedForeign_of_ends hp hpend, Move.andThen_of_none hok]
    rfl
  have hfeeds := Feeds.pending (mark?_engine a position k) hc hp hpend
    (by rw [hmark]; exact h.feeds) hok
  have heffect : Effect.ofMove a 1 (k.feedForeign g position c) =
      ⟨blank.entries ++ [(.illegal, blank.cursor.lexeme.push c)], 1,
        (blank.cursor.engine a).restart, none⟩ := by
    rw [hmove, restart_engine hg]
    simp [Effect.ofMove, Move.entries, Finding.filed?]
  exact {
    feeds := by
      rw [heffect]
      exact hfeeds
    tokens := by
      rw [feedForeign_of_pending hg hp hpend hnb ht]
      exact List.length_filterMap_le _ _
    reads := by
      rw [hmove]
      exact fun _ => reads_restart hg _
    rests := by
      rw [hmove]
      exact fun _ _ => rests_restart hg _
    failed := by
      rw [hmove]
      simp }

/-- What one character comes to. -/
theorem exists_steps (hg : g.Lawful) (ha : Implements a g) (hk : k.Reads) (i : Position × Char) :
    ∃ n ≤ 1, Steps a g k i n (k.feed g i) := by
  obtain ⟨position, c⟩ := i
  cases hc : g.alphabet.contains c with
  | true =>
    rw [feed_of_contains hc]
    exact exists_steps_feedSymbol hg ha hk hc
  | false =>
    rw [feed_of_foreign hc]
    by_cases h : g.policy = .recover → endsPending k.state = false
    · exact ⟨0, Nat.zero_le 1, steps_of_foreign_alone hg hc h⟩
    · obtain ⟨hp, hpend⟩ := Classical.not_imp.mp h
      exact ⟨1, Nat.le_refl 1, steps_of_foreign_pending hg ha hk hc hp (by simpa using hpend)⟩

end Cursor

end Scan

namespace Scanner

/-- The automaton of a scanner's table, in the state that the scanner is in. -/
def engine (s : Scanner) : Engine := s.cursor.engine s.table.automaton

theorem Reachable.implements {options : ScanOptions} {s : Scanner} (h : Reachable options s) :
    Implements s.table.automaton s.basis := by
  obtain ⟨_, hf, hstates, _⟩ := h.table_built
  exact implements_of_table hf hstates s.options.policy

/-- A new scanner starts from the automaton as it was built. -/
theorem engine_standard {options : ScanOptions} {s : Scanner} (h : standard options = .ok s) :
    s.engine = ⟨s.table.automaton, ⟨1, 1⟩⟩ := by
  obtain ⟨_, _, _, hsession⟩ := (Reachable.standard h).table_built
  have hcursor : s.cursor = ⟨Session.start s.table.machine, ⟨1, 1⟩⟩ := by
    obtain ⟨table, _, hnew⟩ := exists_standard options
    rw [hnew] at h
    cases h
    rfl
  have hinitial : (⟨s.table.machine.initial.id, "", #[]⟩ : Session StateId) =
      s.table.automaton.session := hsession.symm
  rw [engine, hcursor, Cursor.engine, Session.map_start, hinitial]

end Scanner

end TableLexer
