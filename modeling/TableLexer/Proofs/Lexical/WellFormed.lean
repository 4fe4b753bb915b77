import TableLexer.Proofs.Automaton.Application
import TableLexer.Proofs.Lexical.StandardTable
namespace TableLexer.Lexical

open State

section Entries

variable (a b : Alphabet)

theorem eq_initial_of_mem_entries {s : State} {c : Char}
    (he : (s.name, c, initial.name) ∈ (Rule.resolution (declared a)).entries) : s = initial := by
  obtain ⟨s', t, hs, ht, hleads⟩ := leads_of_mem_entries a he
  obtain rfl := name_injective hs
  obtain rfl := name_injective ht
  rcases hleads with hf | hx
  · exact absurd hf s.fallback_ne_initial
  · exact (exceptional_of_exception? hx).eq_initial.1

theorem mem_entries_congr {source target : String} {c : Char} (ha : c ∈ a.symbols)
    (hb : c ∈ b.symbols) :
    (source, c, target) ∈ (Rule.resolution (declared a)).entries ↔
      (source, c, target) ∈ (Rule.resolution (declared b)).entries := by
  have hone {x y : Alphabet} (hx : c ∈ x.symbols) (hy : c ∈ y.symbols)
      (he : (source, c, target) ∈ (Rule.resolution (declared x)).entries) :
      (source, c, target) ∈ (Rule.resolution (declared y)).entries := by
    obtain ⟨s, _, rfl, _⟩ := names_of_mem_entries x he
    rw [Rule.mem_entries_iff, resolved?_declared x hx] at he
    rwa [Rule.mem_entries_iff, resolved?_declared y hy]
  exact ⟨hone ha hb, hone hb ha⟩

end Entries

/-- The states of the language declared and no others, the first of them first. -/
structure Hosts (m : Automaton) : Prop where
  indexed : m.Indexed
  states : m.states.toList.Perm (all.map State.named)
  initial : m.stateId? State.initial.name = some StateId.initial

namespace Hosts

variable {m : Automaton}

theorem performAll (operations : List Automaton.Operation)
    (hs : (Automaton.empty.performAll operations).states.toList.Perm (all.map State.named)) :
    Hosts (Automaton.empty.performAll operations) where
  indexed := Automaton.indexed_empty.performAll operations
  states := hs
  initial := by
    refine Automaton.stateId?_performAll operations ?_
    rw [Automaton.indexed_empty]
    rfl

theorem size_states (h : Hosts m) : m.states.size = 38 := by
  rw [← Array.length_toList, h.states.length_eq]
  rfl

theorem nodup_names (h : Hosts m) : (m.states.toList.map NamedState.name).Nodup := by
  rw [(h.states.map NamedState.name).nodup_iff]
  decide

theorem stateId?_name (h : Hosts m) (s : State) : m.stateId? s.name = some (m.idOf s.name) := by
  have hmem : s.named ∈ m.states.toList :=
    h.states.mem_iff.mpr (List.mem_map_of_mem (mem_all s))
  apply Automaton.stateId?_of_isSome
  rw [Option.isSome_iff_ne_none]
  intro hnone
  exact (Automaton.stateId?_eq_none_iff h.indexed).mp hnone s.named hmem rfl

theorem idOf_initial (h : Hosts m) : m.idOf State.initial.name = StateId.initial :=
  Automaton.idOf_of_stateId? h.initial

theorem idOf_injective (h : Hosts m) {s t : State} (hid : m.idOf s.name = m.idOf t.name) :
    s = t := by
  have hsize : m.states.size ≤ 65536 := by
    have := h.size_states
    omega
  have hs : m.stateId? s.name = some (m.idOf t.name) := by rw [h.stateId?_name, hid]
  exact name_injective (h.indexed.name_unique hsize (h.stateId?_name t) hs)

theorem exists_state (h : Hosts m) {id : StateId} (hid : id ∈ m.stateIds) :
    ∃ s : State, id = m.idOf s.name ∧ m.isFinal id = s.isFinal := by
  obtain ⟨i, hi, rfl⟩ := List.mem_map.mp hid
  have hlt : i < m.states.size := List.mem_range.mp hi
  have hmem : m.states[i] ∈ all.map State.named :=
    h.states.mem_iff.mp (Array.getElem_mem_toList hlt)
  obtain ⟨s, _, hs⟩ := List.mem_map.mp hmem
  -- too few states for two of them to share an id
  have hsmall : i < 65536 := by
    have := h.size_states
    omega
  refine ⟨s, ?_, ?_⟩
  · have hname := h.indexed.stateId?_getElem h.nodup_names hlt
    rw [← hs] at hname
    exact (Automaton.idOf_of_stateId? hname).symm
  · rw [Automaton.isFinal, StateId.position_ofPosition hsmall, Array.getElem?_eq_getElem hlt, ← hs]
    rfl

/-- The automaton with the transitions that the rules come to. -/
def ruled (m : Automaton) (a : Alphabet) : Automaton :=
  { m with
    transitions := Automaton.writeAll m.idOf m.transitions
      (Rule.resolution (declared a)).entries }

theorem applyRules_rules (h : Hosts m) (a : Alphabet) :
    m.applyRules (rules a) = ⟨ruled m a, .ok (Rule.resolution (declared a))⟩ := by
  refine Automaton.applyRules_of_known (Rule.resolve_of_consistent (consistent_declared a)) ?_
  rintro ⟨source, c, target⟩ he
  obtain ⟨s, t, rfl, rfl⟩ := names_of_mem_entries a he
  simp only [h.stateId?_name, Option.isSome_some, and_self]

theorem target?_ruled (h : Hosts m) (a : Alphabet) (s : State) {c : Char} (hc : c ∈ a.symbols) :
    (ruled m a).target? (m.idOf s.name) c = some (m.idOf (s.next c).name) :=
  Table.target?_writeAll_entries (fun _ _ => h.idOf_injective) a m.transitions s hc

theorem gaps_ruled (h : Hosts m) (a : Alphabet) : (ruled m a).gaps a = [] := by
  refine Table.gaps_eq_nil fun id hid c hc => ?_
  obtain ⟨s, rfl, _⟩ := h.exists_state hid
  rw [h.target?_ruled a s hc]
  rfl

theorem target?_ruled_of_final (h : Hosts m) (a : Alphabet) {id : StateId}
    (hid : id ∈ (ruled m a).finalStates) {c : Char} (hc : c ∈ a.symbols) :
    (ruled m a).target? id c = some id := by
  obtain ⟨hid, hfinal⟩ := List.mem_filter.mp hid
  obtain ⟨s, rfl, hs⟩ := h.exists_state hid
  have hsfinal : s.isFinal := hs.symm.trans hfinal
  rw [h.target?_ruled a s hc, next_of_isFinal hsfinal]

theorem eq_initial_of_target?_ruled (h : Hosts m) (a : Alphabet) {id : StateId}
    (hid : id ∈ (ruled m a).stateIds) {c : Char}
    (ht : (ruled m a).target? id c = some StateId.initial) :
    id = StateId.initial ∨ c ∉ a.symbols ∧ m.target? id c = some StateId.initial := by
  obtain ⟨s, rfl, _⟩ := h.exists_state hid
  -- inside the alphabet every cell was written over, so what it held before is gone
  by_cases hc : c ∈ a.symbols
  · rw [h.target?_ruled a s hc, ← h.idOf_initial] at ht
    obtain ⟨rfl, _⟩ := next_eq_initial (h.idOf_injective (Option.some.inj ht))
    exact .inl h.idOf_initial
  · rcases Automaton.target?_writeAll_cases ht with hold | ⟨⟨source, d, target⟩, he, hs, _, hi⟩
    · exact .inr ⟨hc, hold⟩
    · obtain ⟨s', t, rfl, rfl⟩ := names_of_mem_entries a he
      obtain rfl := h.idOf_injective hs
      obtain rfl := h.idOf_injective (hi.trans h.idOf_initial.symm)
      obtain rfl := eq_initial_of_mem_entries a he
      exact .inl h.idOf_initial

end Hosts

/-- The rules fit together over every alphabet. They lead on from every state on every symbol, out
of no final state and back to the start from nowhere else, and over two alphabets they say the same
about what these share. Only what led to the start before, on a symbol outside the alphabet, may
still do so. -/
theorem rules_wellFormed (a b : Alphabet) :
    ∃ res other, Rule.resolve (rules a) = .ok res ∧ Rule.resolve (rules b) = .ok other ∧
      (∀ source target c, c ∈ a.symbols → c ∈ b.symbols →
        ((source, c, target) ∈ res.entries ↔ (source, c, target) ∈ other.entries)) ∧
      ∀ operations : List Automaton.Operation,
        let m := Automaton.empty.performAll operations
        let applied := m.applyRules (rules a)
        m.states.toList.Perm (all.map State.named) →
          applied.result = .ok res ∧
          applied.automaton.gaps a = [] ∧
          (∀ s ∈ applied.automaton.finalStates, ∀ c ∈ a.symbols,
            applied.automaton.target? s c = some s) ∧
          ∀ s ∈ applied.automaton.stateIds, ∀ c,
            applied.automaton.target? s c = some StateId.initial →
              s = StateId.initial ∨ c ∉ a.symbols ∧ m.target? s c = some StateId.initial := by
  refine ⟨_, _, Rule.resolve_of_consistent (consistent_declared a),
    Rule.resolve_of_consistent (consistent_declared b),
    fun _ _ _ => mem_entries_congr a b, fun operations => ?_⟩
  intro m applied hs
  have h : Hosts m := Hosts.performAll operations hs
  have happlied : applied = ⟨Hosts.ruled m a, .ok (Rule.resolution (declared a))⟩ :=
    h.applyRules_rules a
  rw [happlied]
  exact ⟨rfl, h.gaps_ruled a, fun _ hid _ => h.target?_ruled_of_final a hid,
    fun _ hid _ => h.eq_initial_of_target?_ruled a hid⟩

/-- A letter outside ASCII, no point, and the states declared from the last to the second. -/
theorem rules_wellFormed_backwards :
    let a := Alphabet.ofSymbols ['a', 'é', 'a', ' ']
    let b := Alphabet.ofSymbols ['.', 'é', 'a']
    let operations := all.tail.reverse.map fun s => Automaton.Operation.addState s.name s.isFinal
    let m := Automaton.empty.performAll operations
    let applied := m.applyRules (rules a)
    m.states.toList.Perm (all.map State.named) ∧
      (∃ res other, Rule.resolve (rules a) = .ok res ∧ Rule.resolve (rules b) = .ok other ∧
        ∀ source target, (source, 'é', target) ∈ res.entries ↔
          (source, 'é', target) ∈ other.entries) ∧
      applied.automaton.gaps a = [] ∧
      (∀ s ∈ applied.automaton.finalStates, ∀ c ∈ a.symbols,
        applied.automaton.target? s c = some s) ∧
      ∀ s ∈ applied.automaton.stateIds, ∀ c ∈ a.symbols,
        applied.automaton.target? s c = some StateId.initial → s = StateId.initial := by
  intro a b operations
  dsimp only
  obtain ⟨res, other, hres, hother, hshared, hall⟩ := rules_wellFormed a b
  have hstates : (Automaton.empty.performAll operations).states.toList.Perm
      (all.map State.named) := by decide +kernel
  obtain ⟨_, hgaps, hfinal, hinitial⟩ := hall operations hstates
  have ha : 'é' ∈ a.symbols := by decide
  have hb : 'é' ∈ b.symbols := by decide
  refine ⟨hstates, ⟨res, other, hres, hother, fun source target => hshared source target 'é' ha hb⟩,
    hgaps, hfinal, fun s hs c hc ht => ?_⟩
  exact (hinitial s hs c ht).resolve_right fun h => h.1 hc

end TableLexer.Lexical
