import TableLexer.Proofs.Automaton.Numbering
namespace TableLexer.Automaton

section Gaps

variable {a : Automaton} {alphabet : Alphabet} {s : StateId} {c : Char}

theorem mem_stateIds_iff (hsize : a.states.size ≤ 65536) : s ∈ a.stateIds ↔ a.Declares s := by
  unfold stateIds Declares
  constructor
  · intro hs
    obtain ⟨i, hi, rfl⟩ := List.mem_map.mp hs
    have hlt := List.mem_range.mp hi
    rwa [StateId.position_ofPosition (by omega)]
  · intro hs
    exact List.mem_map.mpr ⟨s.position, List.mem_range.mpr hs, s.ofPosition_position⟩

theorem nodup_stateIds (hsize : a.states.size ≤ 65536) : a.stateIds.Nodup := by
  refine List.Nodup.map_on (fun i hi j hj h => ?_) List.nodup_range
  have hi := List.mem_range.mp hi
  have hj := List.mem_range.mp hj
  exact (StateId.ofPosition_inj (by omega) (by omega)).mp h

theorem mem_gaps_iff :
    (s, c) ∈ a.gaps alphabet ↔
      s ∈ a.stateIds ∧ c ∈ alphabet.symbols ∧ a.target? s c = none := by
  unfold gaps
  simp only [List.mem_flatMap, List.mem_map, List.mem_filter, Option.isNone_iff_eq_none,
    Prod.mk.injEq]
  constructor
  · rintro ⟨_, hs, _, ⟨hc, hnone⟩, rfl, rfl⟩
    exact ⟨hs, hc, hnone⟩
  · rintro ⟨hs, hc, hnone⟩
    exact ⟨s, hs, c, ⟨hc, hnone⟩, rfl, rfl⟩

theorem nodup_gaps (hsize : a.states.size ≤ 65536) : (a.gaps alphabet).Nodup := by
  refine List.nodup_flatMap.mpr ⟨fun s _ => ?_, ?_⟩
  · exact (alphabet.nodup.filter _).map fun c d h => (Prod.mk.inj h).2
  · -- gaps of different states differ in the state
    refine (nodup_stateIds hsize).imp fun {s t} hne => ?_
    intro gap hs ht
    obtain ⟨_, _, rfl⟩ := List.mem_map.mp hs
    obtain ⟨_, _, h⟩ := List.mem_map.mp ht
    exact hne (Prod.mk.inj h).1.symm

theorem isTotal_iff : a.isTotal alphabet ↔ a.gaps alphabet = [] := List.isEmpty_iff

end Gaps

/-- Only takes a symbol of the alphabet, or starts again. -/
def Operation.Scans (alphabet : Alphabet) : Operation → Prop
  | .advance c => c ∈ alphabet.symbols
  | .restart => True
  | _ => False

/-- What each of the operations comes to, performed in turn. -/
def outcomes (a : Automaton) : List Operation → List (Option AutomatonError)
  | [] => []
  | operation :: rest =>
    let (next, outcome) := a.perform operation
    outcome :: next.outcomes rest

/-- From a declared state every symbol leads to a declared state, and a declared state is the
current one. -/
structure Runs (a : Automaton) (alphabet : Alphabet) : Prop where
  initial : a.Declares StateId.initial
  leads : ∀ s, a.Declares s → ∀ c ∈ alphabet.symbols, ∃ t, a.target? s c = some t ∧ a.Declares t
  current : a.Declares a.session.current

section Running

variable {a : Automaton} {alphabet : Alphabet}

theorem perform_advance_of_target? {c : Char} {t : StateId}
    (h : a.target? a.session.current c = some t) :
    ∃ session, a.perform (.advance c) = ({ a with session }, none) ∧ session.current = t := by
  have hnext : a.machine.next? a.session.current c = some t := h
  have hadvance : ∃ session, a.session.advance? a.machine c = some session ∧
      session.current = t := by
    unfold Session.advance?
    rw [hnext]
    exact ⟨_, rfl, rfl⟩
  obtain ⟨session, hs, hcurrent⟩ := hadvance
  refine ⟨session, ?_, hcurrent⟩
  rw [perform, advance, hs]
  rfl

theorem Runs.perform (h : a.Runs alphabet) {operation : Operation}
    (hscans : operation.Scans alphabet) :
    (a.perform operation).2 = none ∧ (a.perform operation).1.Runs alphabet := by
  cases operation with
  | advance c =>
    obtain ⟨t, ht, hdeclares⟩ := h.leads _ h.current c hscans
    obtain ⟨session, hperform, rfl⟩ := perform_advance_of_target? ht
    rw [hperform]
    exact ⟨rfl, h.initial, h.leads, hdeclares⟩
  | restart => exact ⟨rfl, h.initial, h.leads, h.initial⟩
  | addState | connect | applyRules => exact hscans.elim

theorem Runs.outcomes (h : a.Runs alphabet) {run : List Operation}
    (hrun : ∀ operation ∈ run, operation.Scans alphabet) :
    ∀ outcome ∈ a.outcomes run, outcome = none := by
  induction run generalizing a with
  | nil =>
    intro outcome ho
    cases ho
  | cons operation run ih =>
    obtain ⟨hfirst, hrest⟩ := List.forall_mem_cons.mp hrun
    obtain ⟨hnone, hnext⟩ := h.perform hfirst
    exact List.forall_mem_cons.mpr ⟨hnone, ih hnext hrest⟩

/-- Without gaps a run can begin in any declared state. -/
theorem Closed.runs (h : a.Closed) (hsize : a.states.size ≤ 65536)
    (hgaps : a.gaps alphabet = []) {session : Session StateId}
    (hcurrent : a.Declares session.current) : Runs { a with session } alphabet where
  initial := h.initial
  leads s hs c hc := by
    cases ht : a.target? s c with
    | none =>
      have hgap := mem_gaps_iff.mpr ⟨(mem_stateIds_iff hsize).mpr hs, hc, ht⟩
      rw [hgaps] at hgap
      cases hgap
    | some t => exact ⟨t, ht, h.linked s c t ht⟩
  current := hcurrent

end Running

/-- The gaps of an automaton are the missing transitions of its declared states, each of them once.
If there are none, no run over the alphabet is ever stopped, whatever state it begins in, and where
a symbol is refused there is a gap. -/
theorem gaps_spec (operations : List Operation) (symbols : List Char) :
    let a := empty.performAll operations
    let alphabet := Alphabet.ofSymbols symbols
    a.states.size ≤ 65536 →
      (a.gaps alphabet).Nodup ∧
      (∀ s c, (s, c) ∈ a.gaps alphabet ↔
        a.Declares s ∧ c ∈ alphabet.symbols ∧ a.target? s c = none) ∧
      (a.isTotal alphabet ↔ a.gaps alphabet = []) ∧
      a.Declares a.session.current ∧
      ∀ session, a.Declares session.current →
        (a.isTotal alphabet → ∀ run, (∀ operation ∈ run, operation.Scans alphabet) →
          ∀ outcome ∈ outcomes { a with session } run, outcome = none) ∧
        ∀ c ∈ alphabet.symbols, ∀ e, (perform { a with session } (.advance c)).2 = some e →
          (session.current, c) ∈ a.gaps alphabet := by
  intro a alphabet hsize
  have hsound : a.Sound := sound_empty.performAll operations
  have hmem (s : StateId) (c : Char) : (s, c) ∈ a.gaps alphabet ↔
      a.Declares s ∧ c ∈ alphabet.symbols ∧ a.target? s c = none := by
    rw [mem_gaps_iff, mem_stateIds_iff hsize]
  refine ⟨nodup_gaps hsize, hmem, isTotal_iff, hsound.declares_current,
    fun session hcurrent => ⟨fun htotal run hrun => ?_, fun c hc e he => ?_⟩⟩
  · exact (hsound.closed.runs hsize (isTotal_iff.mp htotal) hcurrent).outcomes hrun
  · obtain ⟨_, hnone, _⟩ := perform_advance_of_failed he
    exact (hmem _ _).mpr ⟨hcurrent, hc, hnone⟩

/-- A token of one `a` or more, which any other symbol ends. The automaton is in the middle of one,
and `c` is a symbol that it was not made for. -/
theorem gaps_spec_word :
    let a := empty.performAll
      [.addState "word" false, .addState "end" true, .connect "initial" "initial" [' '],
        .connect "initial" "word" ['a'], .connect "initial" "end" ['b'],
        .connect "word" "word" ['a'], .connect "word" "end" ['b', ' '],
        .connect "end" "end" ['a', 'b', ' '], .advance 'a']
    let narrow := Alphabet.ofSymbols ['a', 'b', 'a', ' ']
    let wide := Alphabet.ofSymbols ['a', 'c']
    a.states.size ≤ 65536 ∧ a.isTotal narrow ∧
      (∀ run, (∀ operation ∈ run, operation.Scans narrow) →
        ∀ outcome ∈ a.outcomes run, outcome = none) ∧
      a.gaps wide = [(⟨0⟩, 'c'), (⟨1⟩, 'c'), (⟨2⟩, 'c')] ∧
      (a.perform (.advance 'c')).2 = some (.undefinedTransition "word" 'c') ∧
      (a.session.current, 'c') ∈ a.gaps wide := by
  intro a narrow wide
  have hsize : a.states.size ≤ 65536 := by decide +kernel
  have htotal : a.isTotal narrow := by decide +kernel
  have hrefused : (a.perform (.advance 'c')).2 = some (.undefinedTransition "word" 'c') := by
    decide +kernel
  obtain ⟨_, _, _, hcurrent, hnarrow⟩ := gaps_spec _ ['a', 'b', 'a', ' '] hsize
  obtain ⟨_, _, _, _, hwide⟩ := gaps_spec _ ['a', 'c'] hsize
  exact ⟨hsize, htotal, (hnarrow a.session hcurrent).1 htotal, by decide +kernel, hrefused,
    (hwide a.session hcurrent).2 'c' (by decide) _ hrefused⟩

end TableLexer.Automaton
