import Mathlib.Data.List.Nodup
import Std.Data.String.ToNat
import TableLexer.Proofs.Automaton.Application
namespace TableLexer.Automaton

/-- Every state has a name of its own, which stands for its position. -/
structure Numbered (a : Automaton) : Prop where
  indexed : a.Indexed
  nodup : (a.states.toList.map NamedState.name).Nodup

/-- The id of a name leads back to that name and to what was declared under it. -/
structure Recovers (a : Automaton) (s : NamedState) (id : StateId) : Prop where
  found : a.stateId? s.name = some id
  name : a.name id = s.name
  isFinal : a.isFinal id = s.isFinal

section Positions

variable {a next : Automaton}

theorem numbered_empty : empty.Numbered where
  indexed := indexed_empty
  nodup := List.nodup_singleton _

theorem Numbered.stateId?_of_getElem? (h : a.Numbered) {i : Nat} {s : NamedState}
    (hs : a.states[i]? = some s) : a.stateId? s.name = some (StateId.ofPosition i) := by
  obtain ⟨hi, rfl⟩ := Array.getElem?_eq_some_iff.mp hs
  exact h.indexed.stateId?_getElem h.nodup hi

theorem Numbered.addState (h : a.Numbered) {name : String} {isFinal : Bool} {id : StateId}
    (hadd : a.addState name isFinal = .ok (id, next)) : next.Numbered where
  indexed := h.indexed.addState hadd
  nodup := by
    obtain ⟨hnew, _, rfl⟩ := eq_of_addState hadd
    rw [Array.toList_push, List.map_append, List.nodup_append]
    refine ⟨h.nodup, List.nodup_singleton _, ?_⟩
    intro other hother last hlast
    obtain ⟨t, ht, rfl⟩ := List.mem_map.mp hother
    rw [List.mem_singleton.mp hlast]
    exact h.indexed.of_new hnew t ht

theorem Numbered.perform (h : a.Numbered) (operation : Operation) :
    (a.perform operation).1.Numbered := by
  rcases perform_cases a operation with ⟨_, _, hsame⟩ | ⟨_, _, _, hadd⟩
  · rw [hsame]
    exact ⟨h.indexed, h.nodup⟩
  · exact h.addState hadd

theorem Numbered.performAll (h : a.Numbered) (operations : List Operation) :
    (a.performAll operations).Numbered :=
  performAll_induction (fun _ operation h => h.perform operation) h operations

theorem states_prefix_perform (a : Automaton) (operation : Operation) :
    a.states.toList <+: (a.perform operation).1.states.toList := by
  rcases perform_cases a operation with ⟨_, _, hsame⟩ | ⟨_, _, _, hadd⟩
  · have hstates : (a.perform operation).1.states = a.states := by rw [hsame]
    exact hstates ▸ List.prefix_rfl
  · obtain ⟨_, _, hlast⟩ := eq_of_addState hadd
    rw [hlast, Array.toList_push]
    exact List.prefix_append _ _

theorem states_prefix_performAll (a : Automaton) (operations : List Operation) :
    a.states.toList <+: (a.performAll operations).states.toList :=
  performAll_induction (P := fun b => a.states.toList <+: b.states.toList)
    (fun b operation h => h.trans (states_prefix_perform b operation)) List.prefix_rfl operations

theorem Numbered.recovers (h : a.Numbered) {i : Nat} {s : NamedState} (hs : a.states[i]? = some s)
    (hsmall : i < 65536) : a.Recovers s (StateId.ofPosition i) := by
  have hposition : a.states[(StateId.ofPosition i).position]? = some s := by
    rw [StateId.position_ofPosition hsmall]
    exact hs
  exact {
    found := h.stateId?_of_getElem? hs
    name := by rw [Automaton.name, hposition]
    isFinal := by rw [Automaton.isFinal, hposition] }

end Positions

section Declared

variable {before after calls : List NamedState} {s : NamedState} {id : StateId}

/-- The automaton on which states were declared in turn. A state whose name is taken is refused. -/
def declared (calls : List NamedState) : Automaton :=
  empty.performAll (calls.map fun s => .addState s.name s.isFinal)

/-- Behind the declarations `before` the state `s` is accepted, and gets this id. -/
def Accepts (before : List NamedState) (s : NamedState) (id : StateId) : Prop :=
  ∃ next, (declared before).addState s.name s.isFinal = .ok (id, next)

theorem declared_append (before after : List NamedState) :
    declared (before ++ after) =
      (declared before).performAll (after.map fun s => .addState s.name s.isFinal) := by
  unfold declared performAll
  rw [List.map_append, List.foldl_append]

theorem numbered_declared (calls : List NamedState) : (declared calls).Numbered :=
  numbered_empty.performAll _

theorem states_concat_of_accepts (h : Accepts before s id) :
    id = StateId.ofPosition (declared before).states.size ∧
      (declared (before ++ [s])).states = (declared before).states.push s := by
  obtain ⟨next, hadd⟩ := h
  obtain ⟨_, hid, rfl⟩ := eq_of_addState hadd
  refine ⟨hid, ?_⟩
  rw [declared_append]
  simp only [List.map_cons, List.map_nil, performAll, List.foldl_cons, List.foldl_nil, perform,
    hadd, Except.map, keep]

theorem states_concat_of_not_accepts (h : ∀ id, ¬Accepts before s id) :
    (declared (before ++ [s])).states = (declared before).states := by
  rw [declared_append]
  simp only [List.map_cons, List.map_nil, performAll, List.foldl_cons, List.foldl_nil, perform]
  cases hadd : (declared before).addState s.name s.isFinal with
  | ok last => exact absurd ⟨last.2, hadd⟩ (h last.1)
  | error e => rfl

theorem getElem?_states_declared (hcalls : calls = before ++ s :: after) (h : Accepts before s id) :
    (declared calls).states[(declared before).states.size]? = some s := by
  obtain ⟨more, hmore⟩ := states_prefix_performAll (declared (before ++ [s]))
    (after.map fun s => .addState s.name s.isFinal)
  rw [← declared_append, List.append_assoc, List.singleton_append, ← hcalls,
    (states_concat_of_accepts h).2, Array.toList_push] at hmore
  rw [← Array.getElem?_toList, ← hmore]
  simp

theorem exists_accepts (calls : List NamedState) {i : Nat} (h0 : 0 < i)
    (hi : i < (declared calls).states.size) :
    ∃ before s after, calls = before ++ s :: after ∧ (declared before).states.size = i ∧
      Accepts before s (StateId.ofPosition i) := by
  induction calls using List.reverseRecOn with
  | nil =>
    have hone : (declared []).states.size = 1 := rfl
    omega
  | append_singleton calls s ih =>
    have hearlier : i < (declared calls).states.size →
        ∃ before t after, calls ++ [s] = before ++ t :: after ∧
          (declared before).states.size = i ∧ Accepts before t (StateId.ofPosition i) := by
      intro hlt
      obtain ⟨before, t, after, rfl, hsize, haccepts⟩ := ih hlt
      exact ⟨before, t, after ++ [s], by simp, hsize, haccepts⟩
    by_cases h : ∃ id, Accepts calls s id
    · obtain ⟨id, h⟩ := h
      obtain ⟨rfl, hstates⟩ := states_concat_of_accepts h
      rw [hstates, Array.size_push] at hi
      -- either this last state is the one, or one before it
      rcases Nat.lt_succ_iff_lt_or_eq.mp hi with hlt | rfl
      · exact hearlier hlt
      · exact ⟨calls, s, [], rfl, rfl, h⟩
    · rw [states_concat_of_not_accepts (not_exists.mp h)] at hi
      exact hearlier hi

theorem states_declared_of_nodup (h : (initialName :: calls.map NamedState.name).Nodup) :
    (declared calls).states.toList = ⟨initialName, false⟩ :: calls := by
  induction calls using List.reverseRecOn with
  | nil => rfl
  | append_singleton calls s ih =>
    rw [List.map_append, ← List.cons_append, List.nodup_append] at h
    obtain ⟨hfront, _, hlast⟩ := h
    have hstates := ih hfront
    have hnew : ∀ t ∈ (declared calls).states.toList, t.name ≠ s.name := by
      intro t ht
      rw [hstates] at ht
      exact hlast _ (List.mem_map_of_mem (f := NamedState.name) ht) _ (by simp)
    obtain ⟨next, hadd, _⟩ := addState_of_new (numbered_declared calls).indexed hnew
    rw [(states_concat_of_accepts ⟨next, hadd⟩).2, Array.toList_push, hstates, List.cons_append]

end Declared

/-- What ids are for: whatever is accepted gets an id that no state had before, and every state is
recovered from its id. -/
structure Identifies (calls : List NamedState) : Prop where
  fresh : ∀ before s after id, calls = before ++ s :: after → Accepts before s id →
    ∀ other t, (declared before).stateId? other = some t → t ≠ id
  recovers : ∀ before s after id, calls = before ++ s :: after → Accepts before s id →
    (declared calls).Recovers s id
  initial : (declared calls).Recovers ⟨initialName, false⟩ StateId.initial

section Identifying

variable {calls : List NamedState}

theorem recovers_initial (calls : List NamedState) :
    (declared calls).Recovers ⟨initialName, false⟩ StateId.initial := by
  obtain ⟨more, hmore⟩ := states_prefix_performAll empty
    (calls.map fun s => .addState s.name s.isFinal)
  have hfirst : (declared calls).states[0]? = some ⟨initialName, false⟩ := by
    rw [← Array.getElem?_toList, declared, ← hmore]
    rfl
  exact (numbered_declared calls).recovers (i := 0) hfirst (by omega)

theorem identifies_of_le (h : (declared calls).states.size ≤ 65536) : Identifies calls where
  fresh before s after id hcalls haccepts other t ht := by
    obtain ⟨hlt, _⟩ := Array.getElem?_eq_some_iff.mp (getElem?_states_declared hcalls haccepts)
    obtain ⟨rfl, _⟩ := states_concat_of_accepts haccepts
    obtain ⟨j, hj, _, rfl⟩ := (numbered_declared before).indexed.exists_position ht
    rw [Ne, StateId.ofPosition_inj (by omega) (by omega)]
    omega
  recovers before s after id hcalls haccepts := by
    have hs := getElem?_states_declared hcalls haccepts
    obtain ⟨hlt, _⟩ := Array.getElem?_eq_some_iff.mp hs
    obtain ⟨rfl, _⟩ := states_concat_of_accepts haccepts
    exact (numbered_declared calls).recovers hs (by omega)
  initial := recovers_initial calls

theorem le_of_identifies (h : Identifies calls) : (declared calls).states.size ≤ 65536 := by
  by_contra hsize
  -- the id of this position is that of the initial state again
  obtain ⟨before, s, after, hcalls, hbefore, haccepts⟩ :=
    exists_accepts calls (i := 65536) (by omega) (by omega)
  have hinitial : (declared before).stateId? initialName = some StateId.initial :=
    stateId?_performAll _ rfl
  exact h.fresh before s after _ hcalls haccepts initialName _ hinitial rfl

end Identifying

section Many

/-- Many states, and a final one behind them. -/
def manyStates (n : Nat) : List NamedState :=
  (List.range n).map (fun i => ⟨"s" ++ toString i, false⟩) ++ [⟨"last", true⟩]

theorem nodup_names_manyStates (n : Nat) :
    (initialName :: (manyStates n).map NamedState.name).Nodup := by
  have hnames : (manyStates n).map NamedState.name =
      (List.range n).map (fun i => "s" ++ toString i) ++ ["last"] := by
    unfold manyStates
    rw [List.map_append, List.map_map]
    rfl
  have hs : ∀ name ∈ (List.range n).map (fun i => "s" ++ toString i),
      name.toList.head? = some 's' := by
    intro name hname
    obtain ⟨i, _, rfl⟩ := List.mem_map.mp hname
    simp
  have hinj : Function.Injective fun i : Nat => "s" ++ toString i := by
    intro i j hij
    have hchars : (toString i).toList = (toString j).toList := by
      simpa using congrArg String.toList hij
    exact Nat.repr_inj.mp (String.toList_inj.mp hchars)
  rw [hnames]
  refine List.nodup_cons.mpr ⟨?_, List.nodup_append.mpr ⟨List.nodup_range.map hinj, ?_, ?_⟩⟩
  · intro hmem
    rcases List.mem_append.mp hmem with hmem | hmem
    · exact absurd (hs _ hmem) (by decide)
    · exact absurd (List.mem_singleton.mp hmem) (by decide)
  · exact List.nodup_singleton _
  · rintro name hname last hlast rfl
    rw [List.mem_singleton.mp hlast] at hname
    exact absurd (hs _ hname) (by decide)

theorem states_manyStates (n : Nat) :
    (declared (manyStates n)).states.toList = ⟨initialName, false⟩ :: manyStates n :=
  states_declared_of_nodup (nodup_names_manyStates n)

theorem size_states_manyStates (n : Nat) : (declared (manyStates n)).states.size = n + 2 := by
  rw [← Array.length_toList, states_manyStates]
  simp [manyStates]

theorem stateId?_last_manyStates (n : Nat) :
    (declared (manyStates n)).stateId? "last" = some (StateId.ofPosition (n + 1)) := by
  have hlast : (declared (manyStates n)).states[n + 1]? = some ⟨"last", true⟩ := by
    rw [← Array.getElem?_toList, states_manyStates]
    simp [manyStates]
  exact (numbered_declared (manyStates n)).stateId?_of_getElem? hlast

end Many

/-- Ids identify states just as long as there are no more states than ids. -/
theorem identifies_iff (calls : List NamedState) :
    Identifies calls ↔ (declared calls).states.size ≤ 65536 :=
  ⟨le_of_identifies, identifies_of_le⟩

/-- With one state too many the last one gets the id of the initial state, and is not final under
it, though it was declared as a final one. -/
theorem not_identifies_manyStates :
    (declared (manyStates 65535)).stateId? "last" = some StateId.initial ∧
      (declared (manyStates 65535)).isFinal StateId.initial = false ∧
      ¬Identifies (manyStates 65535) := by
  refine ⟨stateId?_last_manyStates 65535, (recovers_initial _).isFinal, fun h => ?_⟩
  have hle := le_of_identifies h
  rw [size_states_manyStates] at hle
  omega

end TableLexer.Automaton
