import TableLexer.Proofs.Automaton.Reordering
namespace TableLexer.Automaton

open Rule

/-- The first of the two states of an entry that is not declared. -/
def unknown? (a : Automaton) (e : String × Char × String) : Option String :=
  [e.1, e.2.2].find? fun name => (a.stateId? name).isNone

/-- Entries were written, and nothing else was changed. -/
structure Gains (a next : Automaton) (es : List (String × Char × String)) : Prop where
  states : next.states = a.states
  names : next.stateId? = a.stateId?
  session : next.session = a.session
  written : ∀ source c target, (source, c, target) ∈ es →
    ∃ s t, a.stateId? source = some s ∧ a.stateId? target = some t ∧ next.target? s c = some t
  kept : ∀ s c, (∀ source target, (source, c, target) ∈ es → a.stateId? source ≠ some s) →
    next.target? s c = a.target? s c

section Connecting

variable {a : Automaton} {es before after : List (String × Char × String)}

theorem unknown?_eq_none_iff {e : String × Char × String} :
    a.unknown? e = none ↔ (a.stateId? e.1).isSome ∧ (a.stateId? e.2.2).isSome := by
  unfold unknown?
  rw [List.find?_eq_none]
  simp [← Option.isSome_iff_ne_none]

theorem connect_of_unknown {source target name : String} {c : Char}
    (h : a.unknown? (source, c, target) = some name) :
    a.connect source target [c] = .error (.unknownState name) := by
  unfold unknown? at h
  unfold connect lookup
  cases hs : a.stateId? source with
  | none =>
    rw [List.find?_cons_of_pos (by simp [hs])] at h
    cases h
    rfl
  | some s =>
    rw [List.find?_cons_of_neg (by simp [hs])] at h
    cases ht : a.stateId? target with
    | none =>
      rw [List.find?_cons_of_pos (by simp [ht])] at h
      cases h
      rfl
    | some t =>
      rw [List.find?_cons_of_neg (by simp [ht])] at h
      cases h

theorem connectAll_append (a : Automaton) (before after : List (String × Char × String)) :
    a.connectAll (before ++ after) =
      match a.connectAll before with
      | (next, none) => next.connectAll after
      | (next, some e) => (next, some e) := by
  induction before generalizing a with
  | nil => rfl
  | cons entry before ih =>
    obtain ⟨source, c, target⟩ := entry
    rw [List.cons_append, connectAll, connectAll]
    cases a.connect source target [c] with
    | ok next => exact ih next
    | error e => rfl

/-- The automaton with the transitions of entries whose states are declared. -/
def written (a : Automaton) (es : List (String × Char × String)) : Automaton :=
  { a with transitions := writeAll a.idOf a.transitions es }

/-- Entries are written up to the first one with a state that is not declared. -/
theorem connectAll_of_unknown {e : String × Char × String} {name : String}
    (hbefore : ∀ x ∈ before, a.unknown? x = none) (h : a.unknown? e = some name) :
    a.connectAll (before ++ e :: after) = (a.written before, some (.unknownState name)) := by
  have hwritten : a.connectAll before = (a.written before, none) := by
    refine connectAll_of_known fun x hx => ?_
    obtain ⟨hs, ht⟩ := unknown?_eq_none_iff.mp (hbefore x hx)
    exact ⟨stateId?_of_isSome hs, stateId?_of_isSome ht⟩
  -- the names are what they were before anything was written
  have hunknown : (a.written before).unknown? e = some name := h
  obtain ⟨source, c, target⟩ := e
  rw [connectAll_append, hwritten]
  dsimp only
  rw [connectAll, connect_of_unknown hunknown]

end Connecting

section Writing

variable {a next : Automaton} {rules : List Rule} {res : Resolution} {e : AutomatonError}
  {es : List (String × Char × String)}

theorem applyRules_of_error (hr : resolve rules = .error e) :
    a.applyRules rules = ⟨a, .error e⟩ := by
  unfold applyRules
  rw [hr]

theorem applyRules_of_failed (hr : resolve rules = .ok res)
    (hconnect : a.connectAll res.entries = (next, some e)) :
    a.applyRules rules = ⟨next, .error e⟩ := by
  unfold applyRules
  rw [hr]
  dsimp only
  rw [hconnect]

theorem Indexed.gains_written (hi : a.Indexed) (hsize : a.states.size ≤ 65536)
    (hr : resolve rules = .ok res) (hsub : ∀ e ∈ es, e ∈ res.entries)
    (h : ∀ e ∈ es, a.unknown? e = none) : a.Gains (a.written es) es where
  states := rfl
  names := rfl
  session := rfl
  written source c target he := by
    obtain ⟨hs, ht⟩ := unknown?_eq_none_iff.mp (h _ he)
    refine ⟨a.idOf source, a.idOf target, stateId?_of_isSome hs, stateId?_of_isSome ht,
      target?_writeAll (.inr ⟨_, he, rfl, rfl⟩) ?_⟩
    intro e' he' hs' hc
    exact congrArg a.idOf (hi.entries_agree hsize hr hsub
      (fun e he => (unknown?_eq_none_iff.mp (h e he)).1) e' he' _ he hs' hc)
  kept s c hne := by
    refine target?_writeAll_of_forall_ne ?_
    rintro ⟨source, d, target⟩ he hs rfl
    exact hne source target he (hs ▸ stateId?_of_isSome (unknown?_eq_none_iff.mp (h _ he)).1)

end Writing

/-- What applying rules comes to. Rules that contradict each other change nothing. Otherwise the
resolved entries are written, all of them or those in front of the first one with a state that is
not declared. -/
theorem applyRules_effect (operations : List Operation) (rules : List Rule) :
    let a := empty.performAll operations
    let applied := a.applyRules rules
    a.states.size ≤ 65536 →
      match resolve rules with
      | .error e => applied.result = .error e ∧ applied.automaton = a
      | .ok res =>
        ((∀ e ∈ res.entries, a.unknown? e = none) ∧ applied.result = .ok res ∧
          a.Gains applied.automaton res.entries) ∨
        ∃ before e after name, res.entries = before ++ e :: after ∧
          (∀ x ∈ before, a.unknown? x = none) ∧ a.unknown? e = some name ∧
          applied.result = .error (.unknownState name) ∧ a.Gains applied.automaton before := by
  intro a applied hsize
  have hi : a.Indexed := indexed_empty.performAll operations
  cases hr : resolve rules with
  | error e =>
    have happlied : applied = ⟨a, .error e⟩ := applyRules_of_error hr
    rw [happlied]
    exact ⟨rfl, rfl⟩
  | ok res =>
    cases hfirst : res.entries.findSome? a.unknown? with
    | none =>
      have hall : ∀ e ∈ res.entries, a.unknown? e = none := List.findSome?_eq_none_iff.mp hfirst
      have happlied : applied = ⟨a.written res.entries, .ok res⟩ :=
        applyRules_of_known hr fun e he => unknown?_eq_none_iff.mp (hall e he)
      rw [happlied]
      exact .inl ⟨hall, rfl, hi.gains_written hsize hr (fun _ => id) hall⟩
    | some name =>
      obtain ⟨before, e, after, hentries, hunknown, hbefore⟩ :=
        List.findSome?_eq_some_iff.mp hfirst
      have happlied : applied = ⟨a.written before, .error (.unknownState name)⟩ :=
        applyRules_of_failed hr (hentries ▸ connectAll_of_unknown hbefore hunknown)
      have hsub : ∀ x ∈ before, x ∈ res.entries := by
        intro x hx
        rw [hentries]
        exact List.mem_append_left _ hx
      rw [happlied]
      exact .inr ⟨before, e, after, name, hentries, hbefore, hunknown, rfl,
        hi.gains_written hsize hr hsub hbefore⟩

/-- The second entry leads to a state that is not declared. In the middle of a session the first one
is written over what was declared before, and the third one is not written any more. -/
theorem applyRules_effect_partial :
    let a := empty.performAll [.addState "x" true, .connect "initial" "x" ['a', 'b'], .advance 'b']
    let rules : List Rule := [⟨.general, "initial", "initial", ['a']⟩,
      ⟨.specific, "x", "ghost", ['b']⟩, ⟨.general, "x", "x", ['a', 'b']⟩]
    let applied := a.applyRules rules
    a.states.size ≤ 65536 ∧ applied.result = .error (.unknownState "ghost") ∧
      a.Gains applied.automaton [("initial", 'a', "initial")] ∧
      a.target? ⟨0⟩ 'a' = some ⟨1⟩ ∧ applied.automaton.target? ⟨0⟩ 'a' = some ⟨0⟩ ∧
      applied.automaton.target? ⟨0⟩ 'b' = some ⟨1⟩ ∧ applied.automaton.target? ⟨1⟩ 'a' = none := by
  intro a rules applied
  have hsize : a.states.size ≤ 65536 := by decide +kernel
  have hres : resolve rules = .ok ⟨[("initial", 'a', "initial"), ("x", 'b', "ghost"),
      ("x", 'a', "x")], [⟨"x", 'b', "x", "ghost"⟩]⟩ := by rfl
  have hghost : a.unknown? ("x", 'b', "ghost") = some "ghost" := by decide +kernel
  have hinitial : a.unknown? ("initial", 'a', "initial") = none := by decide +kernel
  have heffect := applyRules_effect
    [.addState "x" true, .connect "initial" "x" ['a', 'b'], .advance 'b'] rules hsize
  rw [hres] at heffect
  rcases heffect with ⟨hall, _⟩ | ⟨before, e, after, name, hentries, hbefore, hunknown, hresult,
    hgains⟩
  · exact absurd (hghost.symm.trans (hall _ (by simp))) (by simp)
  · rcases before with _ | ⟨x, _ | ⟨y, before⟩⟩
    · obtain ⟨rfl, _⟩ := List.cons.inj hentries
      exact absurd (hinitial.symm.trans hunknown) (by simp)
    · obtain ⟨rfl, hrest⟩ := List.cons.inj hentries
      obtain ⟨rfl, _⟩ := List.cons.inj hrest
      obtain rfl : "ghost" = name := Option.some.inj (hghost.symm.trans hunknown)
      exact ⟨hsize, hresult, hgains, by decide +kernel, by decide +kernel, by decide +kernel,
        by decide +kernel⟩
    · obtain ⟨rfl, hrest⟩ := List.cons.inj hentries
      obtain ⟨rfl, _⟩ := List.cons.inj hrest
      exact absurd (hghost.symm.trans (hbefore _ (by simp))) (by simp)

end TableLexer.Automaton
