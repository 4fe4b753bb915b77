import TableLexer.Proofs.Automaton.Clashes
import TableLexer.Proofs.Automaton.Declaration
import TableLexer.Proofs.Automaton.Operations
namespace TableLexer

namespace StateId

theorem position_ofPosition {n : Nat} (h : n < 65536) : (ofPosition n).position = n := by
  rw [ofPosition, position]
  exact UInt16.toNat_ofNat_of_lt' h

theorem ofPosition_position (s : StateId) : ofPosition s.position = s :=
  congrArg mk UInt16.ofNat_toNat

/-- Ids are told apart as long as there are enough of them. -/
theorem ofPosition_inj {i j : Nat} (hi : i < 65536) (hj : j < 65536) :
    ofPosition i = ofPosition j ↔ i = j := by
  constructor
  · intro h
    rw [← position_ofPosition hi, h, position_ofPosition hj]
  · rintro rfl
    rfl

end StateId

namespace Automaton

section Names

variable {a next : Automaton} {name other : String} {s : StateId}

theorem Indexed.exists_position (h : a.Indexed) (hs : a.stateId? name = some s) :
    ∃ i, ∃ hi : i < a.states.size, a.states[i].name = name ∧ s = StateId.ofPosition i := by
  rw [h name] at hs
  obtain ⟨i, hi, rfl⟩ := Option.map_eq_some_iff.mp hs
  obtain ⟨hlt, hname, _⟩ := List.findIdx?_eq_some_iff_getElem.mp hi
  exact ⟨i, hlt, by simpa using hname, rfl⟩

theorem Indexed.name_unique (h : a.Indexed) (hsize : a.states.size ≤ 65536)
    (hs : a.stateId? name = some s) (ht : a.stateId? other = some s) : other = name := by
  obtain ⟨i, hi, rfl, rfl⟩ := h.exists_position hs
  obtain ⟨j, hj, rfl, hij⟩ := h.exists_position ht
  obtain rfl := (StateId.ofPosition_inj (by omega) (by omega)).mp hij
  rfl

theorem Indexed.stateId?_getElem (h : a.Indexed)
    (hnames : (a.states.toList.map NamedState.name).Nodup) {i : Nat} (hi : i < a.states.size) :
    a.stateId? a.states[i].name = some (StateId.ofPosition i) := by
  have hfind : (a.states.toList.findIdx? fun t => t.name = a.states[i].name) = some i := by
    refine List.findIdx?_eq_some_iff_getElem.mpr ⟨hi, by simp, fun j hj => ?_⟩
    have hne := List.pairwise_iff_getElem.mp hnames j i (by simp; omega) (by simpa using hi) hj
    simpa using hne
  rw [h, hfind]
  rfl

theorem Indexed.of_new (h : a.Indexed) (hs : a.byName.contains name = false) :
    ∀ t ∈ a.states.toList, t.name ≠ name := by
  refine (stateId?_eq_none_iff h).mp ?_
  rw [Std.TreeMap.contains_eq_isSome_getElem?] at hs
  exact Option.not_isSome_iff_eq_none.mp (Bool.eq_false_iff.mp hs)

end Names

section Reached

variable {a next : Automaton}

theorem exists_connectAll (a : Automaton) (es : List (String × Char × String)) :
    ∃ transitions, (a.connectAll es).1 = { a with transitions } := by
  induction es generalizing a with
  | nil => exact ⟨a.transitions, rfl⟩
  | cons e es ih =>
    obtain ⟨source, c, target⟩ := e
    rw [connectAll]
    split
    · next mid hmid =>
      obtain ⟨_, _, _, _, rfl⟩ := exists_of_connect hmid
      exact ih _
    · exact ⟨a.transitions, rfl⟩

theorem exists_applyRules (a : Automaton) (rules : List Rule) :
    ∃ transitions, (a.applyRules rules).automaton = { a with transitions } := by
  rw [applyRules]
  split
  · exact ⟨a.transitions, rfl⟩
  · next resolution _ =>
    have h := exists_connectAll a resolution.entries
    split <;> next heq => rw [heq] at h; exact h

theorem Indexed.addState (h : a.Indexed) {name : String} {isFinal : Bool} {id : StateId}
    (hadd : a.addState name isFinal = .ok (id, next)) : next.Indexed := by
  obtain ⟨hnew, _⟩ := eq_of_addState hadd
  obtain ⟨last, hlast, hi, _⟩ := addState_of_new h (s := ⟨name, isFinal⟩) (h.of_new hnew)
  rw [hlast] at hadd
  cases hadd
  exact hi

theorem stateId?_addState {name other : String} {isFinal : Bool} {id s : StateId}
    (hadd : a.addState name isFinal = .ok (id, next)) (h : a.stateId? other = some s) :
    next.stateId? other = some s := by
  obtain ⟨hnew, _, rfl⟩ := eq_of_addState hadd
  have hne : name ≠ other := by
    rintro rfl
    rw [Std.TreeMap.contains_eq_isSome_getElem?] at hnew
    exact Bool.eq_false_iff.mp hnew (Option.isSome_of_eq_some h)
  rw [stateId?, Std.TreeMap.getElem?_insert, if_neg (by simpa using hne)]
  exact h

/-- An operation gives one more state, or leaves the states and their names alone. -/
theorem perform_cases (a : Automaton) (operation : Operation) :
    (∃ transitions session, (a.perform operation).1 = { a with transitions, session }) ∨
      ∃ name isFinal id, a.addState name isFinal = .ok (id, (a.perform operation).1) := by
  -- what fails leaves all of it alone, rules apart
  have hsame : ∃ transitions session, a = { a with transitions, session } := ⟨_, _, rfl⟩
  cases operation with
  | addState name isFinal =>
    rw [perform]
    cases hadd : a.addState name isFinal with
    | ok last => exact .inr ⟨name, isFinal, last.1, hadd⟩
    | error e => exact .inl hsame
  | connect source target symbols =>
    rw [perform]
    cases hconnect : a.connect source target symbols with
    | ok next =>
      obtain ⟨_, _, _, _, rfl⟩ := exists_of_connect hconnect
      exact .inl ⟨_, a.session, rfl⟩
    | error e => exact .inl hsame
  | applyRules rules =>
    obtain ⟨transitions, ht⟩ := exists_applyRules a rules
    exact .inl ⟨transitions, a.session, ht⟩
  | advance c =>
    rw [perform]
    cases hadvance : a.advance c with
    | ok last =>
      obtain ⟨session, _, hlast⟩ := exists_of_advance hadvance
      exact .inl ⟨a.transitions, session, hlast⟩
    | error e => exact .inl hsame
  | restart => exact .inl ⟨a.transitions, _, rfl⟩

theorem Indexed.perform (h : a.Indexed) (operation : Operation) :
    (a.perform operation).1.Indexed := by
  rcases perform_cases a operation with ⟨_, _, hsame⟩ | ⟨_, _, _, hadd⟩
  · rw [hsame]
    exact h
  · exact h.addState hadd

theorem Indexed.performAll (h : a.Indexed) (operations : List Operation) :
    (a.performAll operations).Indexed :=
  performAll_induction (fun _ operation h => h.perform operation) h operations

theorem stateId?_perform (operation : Operation) {name : String} {s : StateId}
    (h : a.stateId? name = some s) : (a.perform operation).1.stateId? name = some s := by
  rcases perform_cases a operation with ⟨_, _, hsame⟩ | ⟨_, _, _, hadd⟩
  · rw [hsame]
    exact h
  · exact stateId?_addState hadd h

theorem stateId?_performAll (operations : List Operation) {name : String} {s : StateId}
    (h : a.stateId? name = some s) : (a.performAll operations).stateId? name = some s :=
  performAll_induction (P := fun b => b.stateId? name = some s)
    (fun _ operation => stateId?_perform operation) h operations

end Reached

section Effect

variable {a : Automaton} {id : String → StateId} {es es' : List (String × Char × String)}
  {t : Transitions} {s : StateId} {c : Char}

/-- The id that a name stands for, or one that does not matter. -/
def idOf (a : Automaton) (name : String) : StateId := (a.stateId? name).getD StateId.initial

theorem idOf_of_stateId? {name : String} (h : a.stateId? name = some s) : a.idOf name = s := by
  rw [idOf, h, Option.getD_some]

theorem stateId?_of_isSome {name : String} (h : (a.stateId? name).isSome) :
    a.stateId? name = some (a.idOf name) := by
  obtain ⟨s, hs⟩ := Option.isSome_iff_exists.mp h
  rw [idOf_of_stateId? hs, hs]

/-- Rules whose states are all declared are applied to the end. -/
theorem applyRules_of_known {rules : List Rule} {res : Resolution}
    (hres : Rule.resolve rules = .ok res)
    (h : ∀ e ∈ res.entries, (a.stateId? e.1).isSome ∧ (a.stateId? e.2.2).isSome) :
    a.applyRules rules =
      ⟨{ a with transitions := writeAll a.idOf a.transitions res.entries }, .ok res⟩ := by
  rw [applyRules, hres]
  dsimp only
  rw [connectAll_of_known fun e he =>
    ⟨stateId?_of_isSome (h e he).1, stateId?_of_isSome (h e he).2⟩]

theorem target?_writeAll_of_forall_ne (h : ∀ e ∈ es, id e.1 = s → e.2.1 ≠ c) :
    (writeAll id t es).target? s c = t.target? s c := by
  induction es generalizing t with
  | nil => rfl
  | cons e es ih =>
    obtain ⟨he, hes⟩ := List.forall_mem_cons.mp h
    refine (ih (t := t.insert (id e.1) e.2.1 (id e.2.2)) hes).trans ?_
    rw [Transitions.target?_insert, if_neg fun hk => he hk.1 hk.2]

theorem target?_writeAll_cases {target : StateId}
    (h : (writeAll id t es).target? s c = some target) :
    t.target? s c = some target ∨ ∃ e ∈ es, id e.1 = s ∧ e.2.1 = c ∧ id e.2.2 = target := by
  induction es generalizing t with
  | nil => exact .inl h
  | cons e es ih =>
    rcases ih (t := t.insert (id e.1) e.2.1 (id e.2.2)) h with ht | ⟨e', he', hlast⟩
    · rw [Transitions.target?_insert] at ht
      split at ht
      · next hk => exact .inr ⟨e, by simp, hk.1, hk.2, Option.some.inj ht⟩
      · exact .inl ht
    · exact .inr ⟨e', by simp [he'], hlast⟩

theorem target?_writeAll_perm (hp : es.Perm es')
    (h : ∀ e ∈ es, ∀ e' ∈ es, id e.1 = id e'.1 → e.2.1 = e'.2.1 → id e.2.2 = id e'.2.2)
    (t : Transitions) (s : StateId) (c : Char) :
    (writeAll id t es).target? s c = (writeAll id t es').target? s c := by
  -- either order writes the cell, with the one target its entries agree on, or neither does
  by_cases hex : ∃ e ∈ es, id e.1 = s ∧ e.2.1 = c
  · obtain ⟨e, he, hs, hc⟩ := hex
    have hall : ∀ e' ∈ es, id e'.1 = s → e'.2.1 = c → id e'.2.2 = id e.2.2 :=
      fun e' he' hs' hc' => h e' he' e he (hs'.trans hs.symm) (hc'.trans hc.symm)
    rw [target?_writeAll (.inr ⟨e, he, hs, hc⟩) hall,
      target?_writeAll (.inr ⟨e, hp.mem_iff.mp he, hs, hc⟩) fun e' he' =>
        hall e' (hp.mem_iff.mpr he')]
  · have hne : ∀ e ∈ es, id e.1 = s → e.2.1 ≠ c := fun e he hs hc => hex ⟨e, he, hs, hc⟩
    rw [target?_writeAll_of_forall_ne hne,
      target?_writeAll_of_forall_ne fun e he => hne e (hp.mem_iff.mpr he)]

end Effect

end Automaton

end TableLexer
