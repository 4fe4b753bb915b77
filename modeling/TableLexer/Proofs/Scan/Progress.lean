import TableLexer.Proofs.Scan.Simulation
namespace TableLexer.Scan

open Lexical

namespace Cursor

variable {a : Automaton} {g : Basis} {k : Cursor}

/-- Input that ends in a blank, or has ended where a scan can go to its end or in a string. -/
def Settled (k : Cursor) (text : List Char) : Prop :=
  text.getLast?.elim k.Rests fun c => c = ' '

theorem Settled.tail {j : Cursor} {c : Char} {rest : List Char} (h : k.Settled (c :: rest))
    (hj : c = ' ' → j.Rests) : j.Settled rest := by
  cases rest with
  | nil => exact hj h
  | cons d rest => rwa [Settled, List.getLast?_cons_cons] at h

theorem settled_stream (hg : g.Lawful) (k : Cursor) (source : String) :
    (k.restart g).Settled ((stream source).map Prod.snd) := by
  rw [map_snd_stream, Settled]
  have hlast := getLast?_streamText source
  cases h : (streamText source).getLast? with
  | none => exact rests_restart hg k
  | some c => exact hlast c h

/-- A run of the engine beside a move of the scan. It is bounded in what it does on one character,
and says where a scan can end. -/
structure Runs (a : Automaton) (g : Basis) (k : Cursor) (input : List (Position × Char))
    (log : List Effect) (last : Effect) (m : Move) : Prop where
  drives : Drives g.alphabet g.policy (k.engine a) input log last
  bounded : ∀ x ∈ log ++ [last],
    x.rereads ≤ 1 ∧ x.tokens.length ≤ 2 ∧ x.engine.state?.isSome
  tokens : (log ++ [last]).flatMap Effect.tokens = m.entries
  engine : last.engine = m.cursor.engine a
  failure : last.failure? = m.failure?
  done : m.failure? = none → m.cursor.state = .initial ∧ m.cursor.lexeme = ""
  failed : ∀ e ∈ m.failure?, g.policy = .failFast ∧ e.Tenable

theorem bounded_ofMove {n : Nat} (hn : n ≤ 1) {m : Move} (hm : m.entries.length ≤ n + 1) :
    (Effect.ofMove a n m).rereads ≤ 1 ∧ (Effect.ofMove a n m).tokens.length ≤ 2 ∧
      (Effect.ofMove a n m).engine.state?.isSome := by
  refine ⟨hn, Nat.le_trans hm (Nat.succ_le_succ hn), ?_⟩
  rw [Effect.ofMove, state?_engine]
  rfl

theorem close?_engine (hg : g.Lawful) (a : Automaton) (k : Cursor) :
    (k.engine a).close? g.policy = some (.ofMove a 0 (k.close g)) := by
  rw [Engine.close?, state?_engine, Option.map_some]
  by_cases hi : k.state = .initial
  · rw [if_pos hi, close, if_pos hi]
    rfl
  · rw [if_neg hi, close_of_ne_initial g hi, ofMove_refuse hg]
    rfl

theorem tenable_unterminated (hk : k.Reads) (hr : k.Rests) (hi : k.state ≠ .initial) :
    (LexError.unterminated k.tokenStart k.lexeme k.state.name).Tenable := by
  rcases hr with hr | ⟨hs, front, hfront⟩
  · exact absurd hr hi
  rw [Reads, hs] at hk
  obtain ⟨body, hbody, hq⟩ := hk
  have hlast := congrArg List.getLast? (hbody.symm.trans hfront)
  rw [List.getLast?_concat] at hlast
  rcases body.eq_nil_or_concat with rfl | ⟨inner, d, rfl⟩
  · -- the blank at the end is not the quote at the start
    simp at hlast
  · rw [List.concat_eq_append, ← List.cons_append, List.getLast?_concat] at hlast
    obtain rfl : d = ' ' := Option.some.inj hlast
    refine ⟨by rw [hs], inner, by simpa using hbody, fun hm => ?_⟩
    have hquote := hq '\'' (by simp [hm])
    simp [LongestMatch.isQuotable] at hquote

theorem lexeme_eq_of_initial (hk : k.Reads) (hi : k.state = .initial) : k.lexeme = "" :=
  String.toList_eq_nil_iff.mp (lexeme_of_initial hk hi)

/-- Closing leaves the initial state behind, or gives up with a string. -/
theorem close_spec (hg : g.Lawful) (hk : k.Reads) (hr : k.Rests) :
    (k.close g).entries.length ≤ 1 ∧
      ((k.close g).failure? = none →
        (k.close g).cursor.state = .initial ∧ (k.close g).cursor.lexeme = "") ∧
      ∀ e ∈ (k.close g).failure?, g.policy = .failFast ∧ e.Tenable := by
  by_cases hi : k.state = .initial
  · have hclose : k.close g = Move.stay k := if_pos hi
    rw [hclose]
    exact ⟨Nat.zero_le 1, fun _ => ⟨hi, lexeme_eq_of_initial hk hi⟩, by simp [Move.stay]⟩
  · rw [close_of_ne_initial g hi]
    refine ⟨length_entries_refuse, fun hok => ?_, fun e hfail => ?_⟩
    · rw [cursor_refuse hok]
      exact ⟨state_restart hg k, lexeme_restart g k⟩
    · obtain ⟨hp, rfl⟩ := policy_of_refuse hfail
      exact ⟨hp, tenable_unterminated hk hr hi⟩

theorem runs_close (hg : g.Lawful) (hk : k.Reads) (hr : k.Rests) :
    Runs a g k [] [] (.ofMove a 0 (k.close g)) (k.close g) := by
  obtain ⟨hfew, hdone, hfailed⟩ := close_spec hg hk hr
  exact {
    drives := .close (close?_engine hg a k)
    bounded := by simpa using bounded_ofMove (a := a) (Nat.zero_le 1) hfew
    tokens := by simp [Effect.ofMove]
    engine := rfl
    failure := rfl
    done := hdone
    failed := hfailed }

/-- The engine runs to an end on all input, as the scan does. -/
theorem exists_runs (hg : g.Lawful) (ha : Implements a g) (input : List (Position × Char))
    (hk : k.Reads) (hs : k.Settled (input.map Prod.snd)) :
    ∃ log last, Runs a g k input log last (k.finish g input) := by
  induction input generalizing k with
  | nil =>
    rw [finish_nil]
    exact ⟨_, _, runs_close hg hk hs⟩
  | cons i rest ih =>
    obtain ⟨n, hn, h⟩ := exists_steps hg ha hk i
    have hbound := bounded_ofMove (a := a) hn h.tokens
    rw [finish_cons]
    cases hf : (k.feed g i).failure? with
    | some e =>
      refine ⟨[], .ofMove a n (k.feed g i), ?_⟩
      rw [Move.andThen_of_failure hf]
      exact {
        drives := .stop h.feeds hf
        bounded := by simpa using hbound
        tokens := by simp [Effect.ofMove]
        engine := rfl
        failure := rfl
        done := by simp [hf]
        failed := h.failed }
    | none =>
      obtain ⟨log, last, hrun⟩ := ih (h.reads hf) (hs.tail fun hc => h.rests hc hf)
      refine ⟨.ofMove a n (k.feed g i) :: log, last, ?_⟩
      rw [Move.andThen_of_none hf]
      exact {
        drives := .more h.feeds hf hrun.drives
        bounded := List.forall_mem_cons.mpr ⟨hbound, hrun.bounded⟩
        tokens := by
          rw [List.cons_append, List.flatMap_cons, hrun.tokens]
          simp [Effect.ofMove, Move.entries]
        engine := hrun.engine
        failure := hrun.failure
        done := hrun.done
        failed := hrun.failed }

end Cursor

/-- No scan gets stuck, whatever the scans before it were: with all the calls it makes on a
character, the engine has one way to go, and that has an end. It reads no character more than twice
and hands on no more than two tokens for it, and always stands in a state of the language. What
comes of it is what the scan writes down. -/
theorem scanOnto_progresses {options : ScanOptions} {s : Scanner}
    (hs : Scanner.Reachable options s) (source : String) (k : Lexicon) (report : Report) :
    let outcome := s.scanOnto source k report
    (∃ log last,
      Drives s.table.alphabet options.policy s.engine.restart (stream source) log last ∧
        (∀ log' last',
          Drives s.table.alphabet options.policy s.engine.restart (stream source) log' last' →
            log' = log ∧ last' = last) ∧
        (∀ x ∈ log ++ [last], x.rereads ≤ 1 ∧ x.tokens.length ≤ 2 ∧ x.engine.state?.isSome) ∧
        last.engine = outcome.scanner.engine ∧ last.failure? = outcome.failure? ∧
        outcome.report.tokens.toList = report.tokens.toList ++
          (k.registerAll ((log ++ [last]).flatMap Effect.tokens)).1) ∧
      (∀ e, outcome.failure? ≠ some (.automaton e)) ∧
      (options.policy = .recover → outcome.failure? = none) ∧
      (outcome.failure? = none →
        outcome.scanner.engine.state? = some .initial ∧ outcome.scanner.engine.lexeme = "") ∧
      ∀ start lexeme name, outcome.failure? = some (.unterminated start lexeme name) →
        name = State.stringBody.name ∧
          ∃ body, lexeme.toList = '\'' :: body ++ [' '] ∧ '\'' ∉ body := by
  intro outcome
  have hg := hs.lawful
  have hpolicy : s.basis.policy = options.policy := hs.policy
  obtain ⟨log, last, h⟩ := Cursor.exists_runs hg hs.implements (stream source)
    (Cursor.reads_restart hg s.cursor) (Cursor.settled_stream hg s.cursor source)
  have hdrives : Drives s.table.alphabet options.policy s.engine.restart (stream source)
      log last := by
    rw [Scanner.engine, Cursor.restart_engine hg, ← hpolicy]
    exact h.drives
  refine ⟨⟨log, last, hdrives, fun _ _ h' => hdrives.unique h', h.bounded, h.engine, h.failure,
    ?_⟩, ?_, ?_, ?_, ?_⟩
  · rw [h.tokens]
    exact (s.wrote_recording source k report).tokens
  · exact fun e he => (h.failed _ he).2
  · exact fun hp => LexError.eq_none_of_recover h.failed (hpolicy.trans hp)
  · intro hok
    obtain ⟨hstate, hlexeme⟩ := h.done hok
    exact ⟨(Cursor.state?_engine _ _).trans (congrArg some hstate), hlexeme⟩
  · exact fun start lexeme name he => (h.failed _ he).2

theorem failure?_move_quote {options : ScanOptions} {s : Scanner}
    (hs : Scanner.Reachable options s) (hp : options.policy = .failFast) :
    (s.move "'").failure? = some (.unterminated ⟨1, 1⟩ "' " "string_body") := by
  have hg := hs.lawful
  have hpolicy : s.basis.policy = .failFast := hs.policy.trans hp
  let k := s.cursor.restart s.basis
  let j := k.moved ⟨1, 1⟩ '\''
  have hk : k.state = .initial := Cursor.state_restart hg _
  have hj : j.state = .quoteOpen := by
    rw [Cursor.state_moved, hk]
    decide
  have hstream : stream "'" = [(⟨1, 1⟩, '\''), (⟨1, 2⟩, ' ')] := by decide
  have hquote : s.basis.alphabet.contains '\'' := by
    rw [hg.alphabet, Alphabet.contains_standard]
    decide
  have hopen : k.feed s.basis (⟨1, 1⟩, '\'') = Move.stay j := by
    rw [Cursor.feed_of_contains hquote, Cursor.feedSymbol_of_open hg hquote]
    rw [hk]
    decide
  have hblank : j.feed s.basis (⟨1, 2⟩, ' ') = Move.stay (j.moved ⟨1, 2⟩ ' ') := by
    rw [Cursor.feed_of_contains hg.contains_blank, Cursor.feedSymbol_of_open hg hg.contains_blank]
    rw [hj]
    decide
  have hend : (j.moved ⟨1, 2⟩ ' ').state = .stringBody := by
    rw [Cursor.state_moved, hj]
    decide
  have hstart : (j.moved ⟨1, 2⟩ ' ').tokenStart = ⟨1, 1⟩ := by
    change (j.mark ⟨1, 2⟩).tokenStart = _
    rw [Cursor.mark_of_ne_initial (by rw [hj]; decide)]
    change (k.mark ⟨1, 1⟩).tokenStart = _
    rw [Cursor.mark, if_pos hk]
  have hlexeme : (j.moved ⟨1, 2⟩ ' ').lexeme = "' " := by
    rw [Cursor.lexeme_moved_of_open, Cursor.lexeme_moved_of_open, Cursor.lexeme_restart]
    · decide
    · rw [hk]; decide
    · rw [hk]; decide
    · rw [hj]; decide
    · rw [hj]; decide
  rw [Scanner.move, Cursor.run_eq_finish, hstream, Cursor.finish_cons, hopen, Move.stay_andThen,
    Cursor.finish_cons, hblank, Move.stay_andThen, Cursor.finish_nil,
    Cursor.close_of_ne_initial _ (by rw [hend]; decide), Cursor.refuse, hpolicy, hstart, hlexeme,
    hend]
  rfl

theorem scanOnto_progresses_standard :
    ∃ s, Scanner.standard ⟨.failFast, false⟩ = .ok s ∧ s.engine = ⟨s.table.automaton, ⟨1, 1⟩⟩ ∧
      let k := Lexicon.ofReserved ["if"]
      let after := (s.scanOnto "if x:=1a" k Report.empty).scanner
      let outcome := after.scanOnto "'" k Report.empty
      (∃ log last,
        Drives s.table.alphabet .failFast after.engine.restart (stream "'") log last ∧
          ∀ x ∈ log ++ [last], x.rereads ≤ 1 ∧ x.tokens.length ≤ 2) ∧
      outcome.failure? = some (.unterminated ⟨1, 1⟩ "' " "string_body") ∧
      ∃ body, "' ".toList = '\'' :: body ++ [' '] ∧ '\'' ∉ body := by
  obtain ⟨_, _, hs⟩ := Scanner.exists_standard ⟨.failFast, false⟩
  have hr := Scanner.Reachable.scanOnto "if x:=1a" (Lexicon.ofReserved ["if"]) Report.empty
    (.standard hs)
  have hfail := failure?_move_quote hr rfl
  obtain ⟨⟨log, last, hdrives, _, hbounded, _⟩, _, _, _, hstring⟩ :=
    scanOnto_progresses hr "'" (Lexicon.ofReserved ["if"]) Report.empty
  exact ⟨_, hs, Scanner.engine_standard hs,
    ⟨log, last, hdrives, fun x hx => ⟨(hbounded x hx).1, (hbounded x hx).2.1⟩⟩, hfail,
    (hstring _ _ _ hfail).2⟩

end TableLexer.Scan
