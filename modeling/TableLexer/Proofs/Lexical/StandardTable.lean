import TableLexer.Lexical.Table
import TableLexer.Proofs.Automaton.Declaration
import TableLexer.Proofs.Lexical.Declared
namespace TableLexer.Lexical

open State

def State.named (s : State) : NamedState := ⟨s.name, s.isFinal⟩

theorem State.ofId?_id (s : State) : ofId? s.id = some s := by cases s <;> rfl

theorem State.id_injective {s t : State} (h : s.id = t.id) : s = t := by
  have hs := ofId?_id s
  rw [h, ofId?_id] at hs
  exact (Option.some.inj hs).symm

theorem State.position_of_getElem? {i : Nat} {s : State} (h : all[i]? = some s) :
    i = s.position := by
  have hrange : all.map position = List.range all.length := by decide
  have hi := congrArg (Option.map position) h
  rw [← List.getElem?_map, hrange, Option.map_some, List.getElem?_eq_some_iff] at hi
  obtain ⟨_, hi⟩ := hi
  rwa [List.getElem_range] at hi

theorem State.ofId?_eq_some_iff {id : StateId} {s : State} : ofId? id = some s ↔ id = s.id := by
  constructor
  · intro h
    have hp := position_of_getElem? h
    rw [State.id, ← hp, StateId.ofPosition, StateId.position]
    simp
  · rintro rfl
    exact ofId?_id s

theorem State.id_eq_initial_iff {s : State} : s.id = StateId.initial ↔ s = initial :=
  ⟨fun h => id_injective (t := initial) h, fun h => by rw [h]; rfl⟩

/-- The state with a name, or one that does not matter. -/
def idOfName (name : String) : StateId := ((ofName? name).getD .initial).id

theorem idOfName_name (s : State) : idOfName s.name = s.id := by
  rw [idOfName, ofName?_name, Option.getD_some]

namespace Table

/-- All states of the language declared, and no transition between them. -/
structure Bare (a : Automaton) : Prop where
  states : a.states.toList = all.map State.named
  stateId? : ∀ s : State, a.stateId? s.name = some s.id
  session : a.session = ⟨StateId.initial, "", #[]⟩

theorem exists_addStates : ∃ a, addStates = .ok a ∧ Bare a := by
  have hnd : ((Automaton.empty.states.toList ++ all.tail.map State.named).map
      NamedState.name).Nodup := by decide
  obtain ⟨a, ha, hi, hs, _, hse⟩ := Automaton.foldlM_addState Automaton.indexed_empty hnd
  refine ⟨a, ?_, hs, fun s => ?_, hse⟩
  · rw [List.foldlM_map] at ha
    exact ha
  · rw [hi, hs]
    cases s <;> rfl

/-- A table that leads where `State.next` says, on all of its alphabet. -/
def Follows (t : Table) : Prop :=
  ∀ (s : State) (c : Char), c ∈ t.alphabet.symbols → t.next? s c = some (s.next c)

theorem known_of_mem_entries {bare : Automaton} (h : Bare bare) (a : Alphabet) :
    ∀ e ∈ (Rule.resolution (declared a)).entries,
      bare.stateId? e.1 = some (idOfName e.1) ∧ bare.stateId? e.2.2 = some (idOfName e.2.2) := by
  rintro ⟨source, c, target⟩ he
  obtain ⟨s, t, rfl, rfl⟩ := names_of_mem_entries a he
  simp only [h.stateId?, idOfName_name, and_self]

theorem target?_writeAll_entries {id : String → StateId}
    (hid : ∀ s t : State, id s.name = id t.name → s = t) (a : Alphabet) (t : Transitions)
    (s : State) {c : Char} (hc : c ∈ a.symbols) :
    (Automaton.writeAll id t (Rule.resolution (declared a)).entries).target? (id s.name) c =
      some (id (s.next c).name) := by
  have hmem : (s.name, c, (s.next c).name) ∈ (Rule.resolution (declared a)).entries :=
    Rule.mem_entries_iff.mpr (resolved?_declared a hc)
  refine Automaton.target?_writeAll (.inr ⟨_, hmem, rfl, rfl⟩) ?_
  -- ids and names are one to one, so every entry on the cell is of this state and symbol
  rintro ⟨source, d, target⟩ he hs hd
  obtain ⟨s', t', rfl, rfl⟩ := names_of_mem_entries a he
  have hss : s' = s := hid s' s hs
  have hdc : d = c := hd
  subst hss hdc
  have ht := Rule.mem_entries_iff.mp he
  rw [resolved?_declared a hc] at ht
  rw [← Option.some.inj ht]

theorem gaps_eq_nil {m : Automaton} {a : Alphabet}
    (h : ∀ s ∈ m.stateIds, ∀ c ∈ a.symbols, (m.target? s c).isSome) : m.gaps a = [] := by
  rw [Automaton.gaps, List.flatMap_eq_nil_iff]
  intro s hs
  rw [List.map_eq_nil_iff, List.filter_eq_nil_iff]
  intro c hc
  rw [Option.isNone_iff_eq_none]
  exact Option.isSome_iff_ne_none.mp (h s hs c hc)

/-- The bare states with the transitions that the rules come to. -/
def linked (bare : Automaton) (a : Alphabet) : Automaton :=
  { bare with
    transitions := Automaton.writeAll idOfName bare.transitions
      (Rule.resolution (declared a)).entries }

theorem target?_linked (bare : Automaton) (a : Alphabet) (s : State) {c : Char}
    (hc : c ∈ a.symbols) : (linked bare a).target? s.id c = some (s.next c).id := by
  have hid (s t : State) (h : idOfName s.name = idOfName t.name) : s = t :=
    State.id_injective (by rwa [idOfName_name, idOfName_name] at h)
  have ht := target?_writeAll_entries hid a bare.transitions s hc
  rwa [idOfName_name, idOfName_name] at ht

theorem isTotal_linked {bare : Automaton} (h : Bare bare) (a : Alphabet) :
    (linked bare a).isTotal a = true := by
  have hsize : bare.states.size = 38 := by
    rw [← Array.length_toList, h.states]
    rfl
  have hids : (linked bare a).stateIds = all.map State.id := by
    rw [Automaton.stateIds, linked, hsize]
    rfl
  have hgaps : (linked bare a).gaps a = [] := by
    refine gaps_eq_nil fun id hid c hc => ?_
    rw [hids] at hid
    obtain ⟨s, _, rfl⟩ := List.mem_map.mp hid
    rw [target?_linked bare a s hc]
    rfl
  rw [Automaton.isTotal, hgaps]
  rfl

theorem applyRules_rules {bare : Automaton} (h : Bare bare) (a : Alphabet) :
    bare.applyRules (rules a) = ⟨linked bare a, .ok (Rule.resolution (declared a))⟩ := by
  rw [Automaton.applyRules, Rule.resolve_of_consistent (consistent_declared a)]
  dsimp only
  rw [Automaton.connectAll_of_known (known_of_mem_entries h a)]
  rfl

theorem exists_build (a : Alphabet) :
    ∃ t, (build a).result = .ok t ∧ t.alphabet = a ∧ t.Follows ∧
      t.automaton.states.toList = all.map State.named ∧
      t.automaton.session = ⟨StateId.initial, "", #[]⟩ := by
  obtain ⟨bare, hb, h⟩ := exists_addStates
  let t : Table := ⟨linked bare a, a, (Rule.resolution (declared a)).shadowed⟩
  have hbuild : (build a).result = .ok t := by
    simp only [build, hb, applyRules_rules h a, isTotal_linked h a, if_true, t]
  have hnext : t.Follows := by
    intro s c hc
    rw [next?, target?_linked bare a s hc, Option.bind_some, State.ofId?_id]
  exact ⟨t, hbuild, rfl, hnext, h.states, h.session⟩

end Table

end TableLexer.Lexical
