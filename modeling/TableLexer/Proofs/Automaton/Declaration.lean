import TableLexer.Automaton.Rules
namespace TableLexer.Automaton

/-- A name stands for the position of the state that bears it. -/
def Indexed (a : Automaton) : Prop :=
  ∀ name, a.stateId? name =
    (a.states.toList.findIdx? fun s => s.name = name).map StateId.ofPosition

theorem indexed_empty : empty.Indexed := by
  intro name
  by_cases h : initialName = name <;>
    simp [stateId?, empty, List.findIdx?_cons, h, StateId.initial, StateId.ofPosition]

theorem stateId?_eq_none_iff {a : Automaton} (h : a.Indexed) {name : String} :
    a.stateId? name = none ↔ ∀ s ∈ a.states.toList, s.name ≠ name := by
  rw [h, Option.map_eq_none_iff, List.findIdx?_eq_none_iff]
  simp

theorem addState_of_new {a : Automaton} (h : a.Indexed) {s : NamedState}
    (hs : ∀ t ∈ a.states.toList, t.name ≠ s.name) :
    ∃ next, a.addState s.name s.isFinal = .ok (StateId.ofPosition a.states.size, next) ∧
      next.Indexed ∧ next.states = a.states.push s ∧ next.transitions = a.transitions ∧
      next.session = a.session := by
  have hn : a.byName.contains s.name = false := by
    have := (stateId?_eq_none_iff h).mpr hs
    rw [Std.TreeMap.contains_eq_isSome_getElem?, show a.byName[s.name]? = none from this]
    rfl
  simp only [addState, hn, Bool.false_eq_true, if_false]
  refine ⟨_, rfl, ?_, rfl, rfl, rfl⟩
  intro name
  simp only [stateId?, Std.TreeMap.getElem?_insert, Array.toList_push, List.findIdx?_append,
    Std.LawfulEqCmp.compare_eq_iff_eq]
  by_cases hname : s.name = name
  · subst hname
    have hf : a.states.toList.findIdx? (fun t => decide (t.name = s.name)) = none := by
      simpa [List.findIdx?_eq_none_iff] using hs
    simp [hf]
  · rw [if_neg hname]
    refine (h name).trans ?_
    simp [hname]

theorem foldlM_addState {ss : List NamedState} {a : Automaton} (h : a.Indexed)
    (hs : ((a.states.toList ++ ss).map NamedState.name).Nodup) :
    ∃ last, ss.foldlM (fun a s => (a.addState s.name s.isFinal).map Prod.snd) a = .ok last ∧
      last.Indexed ∧ last.states.toList = a.states.toList ++ ss ∧
      last.transitions = a.transitions ∧ last.session = a.session := by
  induction ss generalizing a with
  | nil => exact ⟨a, rfl, h, by simp, rfl, rfl⟩
  | cons s ss ih =>
    have hnew : ∀ t ∈ a.states.toList, t.name ≠ s.name := by
      rw [List.map_append, List.nodup_append] at hs
      intro t ht
      exact hs.2.2 _ (List.mem_map_of_mem ht) _ (by simp)
    obtain ⟨next, hn, hi, hst, htr, hse⟩ := addState_of_new h hnew
    obtain ⟨last, hl, hil, hstl, htrl, hsel⟩ := ih hi (by simpa [hst] using hs)
    refine ⟨last, ?_, hil, by simp [hstl, hst], htrl.trans htr, hsel.trans hse⟩
    rw [List.foldlM_cons, hn]
    exact hl

section Connection

/-- The transitions of entries whose names stand for the ids that `id` gives. -/
def writeAll (id : String → StateId) (t : Transitions) (es : List (String × Char × String)) :
    Transitions :=
  es.foldl (fun t e => t.insert (id e.1) e.2.1 (id e.2.2)) t

theorem connect_of_known {a : Automaton} {source target : String} {s t : StateId}
    (hs : a.stateId? source = some s) (ht : a.stateId? target = some t) (c : Char) :
    a.connect source target [c] = .ok { a with transitions := a.transitions.insert s c t } := by
  simp [connect, lookup, hs, ht, bind, Except.bind, pure, Except.pure]

theorem connectAll_of_known {id : String → StateId} {es : List (String × Char × String)}
    {a : Automaton}
    (h : ∀ e ∈ es, a.stateId? e.1 = some (id e.1) ∧ a.stateId? e.2.2 = some (id e.2.2)) :
    a.connectAll es = ({ a with transitions := writeAll id a.transitions es }, none) := by
  induction es generalizing a with
  | nil => rfl
  | cons e es ih =>
    obtain ⟨source, c, target⟩ := e
    obtain ⟨hs, ht⟩ := h (source, c, target) (by simp)
    rw [connectAll, connect_of_known hs ht]
    exact ih fun e he => h e (by simp [he])

/-- What is written last on a cell counts, so entries that agree on it decide its target. -/
theorem target?_writeAll {id : String → StateId} {es : List (String × Char × String)}
    {t : Transitions} {s target : StateId} {c : Char}
    (hex : t.target? s c = some target ∨ ∃ e ∈ es, id e.1 = s ∧ e.2.1 = c)
    (hall : ∀ e ∈ es, id e.1 = s → e.2.1 = c → id e.2.2 = target) :
    (writeAll id t es).target? s c = some target := by
  induction es generalizing t with
  | nil => simpa [writeAll] using hex
  | cons e es ih =>
    refine ih (t := t.insert (id e.1) e.2.1 (id e.2.2)) ?_ fun e he => hall e (by simp [he])
    rw [Transitions.target?_insert]
    -- a cell that this entry leaves alone was written before or is written by a later one
    by_cases hk : id e.1 = s ∧ e.2.1 = c
    · exact .inl (by rw [if_pos hk, hall e (by simp) hk.1 hk.2])
    · rw [if_neg hk]
      apply hex.imp_right
      rintro ⟨e', he', hs', hc'⟩
      rcases List.mem_cons.mp he' with rfl | he'
      · exact absurd ⟨hs', hc'⟩ hk
      · exact ⟨e', he', hs', hc'⟩

end Connection

end TableLexer.Automaton
