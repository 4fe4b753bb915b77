import TableLexer.Automaton.Rules
import TableLexer.Proofs.Automaton.Log
namespace TableLexer.Automaton

/-- What can be done to an automaton. -/
inductive Operation where
  | addState (name : String) (isFinal : Bool)
  | connect (source target : String) (symbols : List Char)
  | applyRules (rules : List Rule)
  | advance (c : Char)
  | restart

/-- What fails leaves the automaton as it was. -/
def keep (a : Automaton) : Except AutomatonError Automaton → Automaton × Option AutomatonError
  | .ok next => (next, none)
  | .error e => (a, some e)

/-- The automaton behind an operation, and the error if it failed. Rules that fail to apply leave
behind what they had declared by then. -/
def perform (a : Automaton) : Operation → Automaton × Option AutomatonError
  | .addState name isFinal => a.keep ((a.addState name isFinal).map Prod.snd)
  | .connect source target symbols => a.keep (a.connect source target symbols)
  | .applyRules rules =>
    let applied := a.applyRules rules
    (applied.automaton, match applied.result with
      | .ok _ => none
      | .error e => some e)
  | .advance c => a.keep ((a.advance c).map Prod.snd)
  | .restart => (a.restart, none)

def performAll (a : Automaton) (operations : List Operation) : Automaton :=
  operations.foldl (fun a operation => (a.perform operation).1) a

/-- Whether an id is that of a declared state. -/
def Declares (a : Automaton) (s : StateId) : Prop := s.position < a.states.size

/-- Every id that the automaton can come upon is that of a declared state. -/
structure Closed (a : Automaton) : Prop where
  initial : a.Declares StateId.initial
  named : ∀ name s, a.stateId? name = some s → a.Declares s
  linked : ∀ s c t, a.target? s c = some t → a.Declares t
  reached : ∀ x ∈ a.session.steps.toList, a.Declares x.target

/-- An automaton to which more has been declared, in the middle of a session or not. -/
structure Extends (a next : Automaton) : Prop where
  states : a.states.toList <+: next.states.toList
  session : next.session = a.session

theorem extends_refl (a : Automaton) : a.Extends a := ⟨List.prefix_rfl, rfl⟩

theorem Extends.trans {a b c : Automaton} (h₁ : a.Extends b) (h₂ : b.Extends c) : a.Extends c :=
  ⟨h₁.states.trans h₂.states, h₂.session.trans h₁.session⟩

section Declaring

variable {a next : Automaton}

theorem Extends.declares (h : a.Extends next) {s : StateId} (hs : a.Declares s) :
    next.Declares s := Nat.lt_of_lt_of_le hs h.states.length_le

/-- A declared state stays as it is, also where an id comes to stand for more states than one. -/
theorem Extends.isFinal (h : a.Extends next) {s : StateId} (hs : a.Declares s) :
    next.isFinal s = a.isFinal s := by
  obtain ⟨more, hmore⟩ := h.states
  have hstate : next.states[s.position]? = a.states[s.position]? := by
    rw [← Array.getElem?_toList, ← hmore, List.getElem?_append_left hs, Array.getElem?_toList]
  rw [Automaton.isFinal, hstate, Automaton.isFinal]

theorem Extends.logged (h : a.Extends next) (hc : a.Closed) (hl : a.session.Logged a.machine) :
    next.session.Logged next.machine := by
  rw [h.session]
  exact hl.congr rfl fun x hx => h.isFinal (hc.reached x hx)

theorem Closed.of_extends (hc : a.Closed) (h : a.Extends next)
    (hnamed : ∀ name s, next.stateId? name = some s → a.stateId? name = some s ∨ next.Declares s)
    (hlinked : ∀ s c t, next.target? s c = some t → a.target? s c = some t ∨ a.Declares t) :
    next.Closed where
  initial := h.declares hc.initial
  named name s hs := (hnamed name s hs).elim (fun ho => h.declares (hc.named name s ho)) id
  linked s c t ht := h.declares ((hlinked s c t ht).elim (hc.linked s c t) id)
  reached x hx := h.declares (hc.reached x (h.session ▸ hx))

theorem eq_of_addState {name : String} {isFinal : Bool} {id : StateId}
    (h : a.addState name isFinal = .ok (id, next)) :
    a.byName.contains name = false ∧ id = StateId.ofPosition a.states.size ∧
      next = { a with
        states := a.states.push ⟨name, isFinal⟩
        byName := a.byName.insert name (StateId.ofPosition a.states.size) } := by
  rw [addState] at h
  split at h
  · cases h
  · next hnew =>
    cases h
    exact ⟨Bool.eq_false_iff.mpr hnew, rfl, rfl⟩

theorem closed_addState (hc : a.Closed) {name : String} {isFinal : Bool} {id : StateId}
    (h : a.addState name isFinal = .ok (id, next)) : a.Extends next ∧ next.Closed := by
  obtain ⟨_, _, rfl⟩ := eq_of_addState h
  have hext : a.Extends { a with
      states := a.states.push ⟨name, isFinal⟩
      byName := a.byName.insert name (StateId.ofPosition a.states.size) } :=
    ⟨by rw [Array.toList_push]; exact List.prefix_append _ _, rfl⟩
  refine ⟨hext, hc.of_extends hext ?_ fun s c t ht => .inl ht⟩
  intro other s hs
  rw [stateId?, Std.TreeMap.getElem?_insert] at hs
  split at hs
  · refine .inr ?_
    obtain rfl := Option.some.inj hs
    have hwrap : (StateId.ofPosition a.states.size).position ≤ a.states.size := Nat.mod_le _ _
    rw [Declares, Array.size_push]
    omega
  · exact .inl hs

theorem exists_of_lookup {name : String} {s : StateId} (h : a.lookup name = .ok s) :
    a.stateId? name = some s := by
  rw [lookup] at h
  split at h
  · next id hid =>
    cases h
    exact hid
  · cases h

theorem exists_of_connect {source target : String} {symbols : List Char}
    (h : a.connect source target symbols = .ok next) :
    ∃ s t, a.stateId? source = some s ∧ a.stateId? target = some t ∧
      next = { a with transitions := symbols.foldl (fun m c => m.insert s c t) a.transitions } := by
  rw [connect] at h
  cases hs : a.lookup source with
  | error e => rw [hs] at h; cases h
  | ok s =>
    cases ht : a.lookup target with
    | error e => rw [hs, ht] at h; cases h
    | ok t =>
      rw [hs, ht] at h
      cases h
      exact ⟨s, t, exists_of_lookup hs, exists_of_lookup ht, rfl⟩

theorem target?_foldl_insert {symbols : List Char} {m : Transitions} {s t s' t' : StateId}
    {c : Char} (h : (symbols.foldl (fun m c => m.insert s c t) m).target? s' c = some t') :
    m.target? s' c = some t' ∨ t' = t := by
  induction symbols generalizing m with
  | nil => exact .inl h
  | cons d symbols ih =>
    rcases ih h with hm | ht
    · rw [Transitions.target?_insert] at hm
      split at hm
      · exact .inr (Option.some.inj hm).symm
      · exact .inl hm
    · exact .inr ht

theorem closed_connect (hc : a.Closed) {source target : String} {symbols : List Char}
    (h : a.connect source target symbols = .ok next) : a.Extends next ∧ next.Closed := by
  obtain ⟨s, t, _, ht, rfl⟩ := exists_of_connect h
  have hext : a.Extends
      { a with transitions := symbols.foldl (fun m c => m.insert s c t) a.transitions } :=
    ⟨List.prefix_rfl, rfl⟩
  refine ⟨hext, hc.of_extends hext (fun _ _ hs => .inl hs) ?_⟩
  intro s' c t' ht'
  rcases target?_foldl_insert ht' with ho | rfl
  · exact .inl ho
  · exact .inr (hc.named target _ ht)

theorem closed_connectAll (hc : a.Closed) (entries : List (String × Char × String)) :
    a.Extends (a.connectAll entries).1 ∧ (a.connectAll entries).1.Closed := by
  induction entries generalizing a with
  | nil => exact ⟨extends_refl a, hc⟩
  | cons e entries ih =>
    obtain ⟨source, c, target⟩ := e
    rw [connectAll]
    split
    · next mid hmid =>
      obtain ⟨hext, hmid⟩ := closed_connect hc hmid
      obtain ⟨hmore, hlast⟩ := ih hmid
      exact ⟨hext.trans hmore, hlast⟩
    · exact ⟨extends_refl a, hc⟩

theorem closed_applyRules (hc : a.Closed) (rules : List Rule) :
    a.Extends (a.applyRules rules).automaton ∧ (a.applyRules rules).automaton.Closed := by
  rw [applyRules]
  split
  · exact ⟨extends_refl a, hc⟩
  · next resolution _ =>
    have h := closed_connectAll hc resolution.entries
    split <;> next heq => rw [heq] at h; exact h

end Declaring

/-- What holds of an automaton whatever was done to it. -/
structure Sound (a : Automaton) : Prop where
  closed : a.Closed
  logged : a.session.Logged a.machine

section Performing

variable {a next : Automaton}

theorem Sound.of_extends (h : a.Sound) (hext : a.Extends next) (hc : next.Closed) : next.Sound :=
  ⟨hc, hext.logged h.closed h.logged⟩

theorem sound_empty : empty.Sound where
  closed := {
    initial := Nat.zero_lt_one
    named := by
      intro name s hs
      rw [stateId?, empty, Std.TreeMap.getElem?_insert] at hs
      split at hs
      · obtain rfl := Option.some.inj hs
        exact Nat.zero_lt_one
      · simp at hs
    linked := by
      intro s c t ht
      rw [target?, empty, Transitions.target?_empty] at ht
      cases ht
    reached := by
      intro x hx
      cases hx }
  logged := Session.logged_start empty.machine

theorem exists_of_advance {c : Char} {b : Bool} (h : a.advance c = .ok (b, next)) :
    ∃ session, a.session.advance? a.machine c = some session ∧ next = { a with session } := by
  rw [advance] at h
  split at h
  · next session hs =>
    cases h
    exact ⟨session, hs, rfl⟩
  · cases h

theorem Sound.advance (h : a.Sound) {c : Char} {b : Bool} (ha : a.advance c = .ok (b, next)) :
    next.Sound := by
  obtain ⟨session, hs, rfl⟩ := exists_of_advance ha
  obtain ⟨target, ht, _, _, hsteps⟩ := Session.exists_of_advance? hs
  refine ⟨⟨h.closed.initial, h.closed.named, h.closed.linked, ?_⟩, h.logged.advance? hs⟩
  intro x hx
  rw [hsteps] at hx
  rcases List.mem_append.mp hx with hx | hx
  · exact h.closed.reached x hx
  · rw [List.mem_singleton.mp hx]
    exact h.closed.linked _ _ _ ht

theorem Sound.restart (h : a.Sound) : a.restart.Sound where
  closed := ⟨h.closed.initial, h.closed.named, h.closed.linked, by intro x hx; cases hx⟩
  logged := Session.logged_start a.machine

theorem Sound.keep (h : a.Sound) {result : Except AutomatonError Automaton}
    (hr : ∀ next, result = .ok next → next.Sound) : (a.keep result).1.Sound := by
  cases result with
  | ok next => exact hr next rfl
  | error e => exact h

theorem exists_of_map_snd {α : Type} {r : Except AutomatonError (α × Automaton)}
    (h : r.map Prod.snd = .ok next) : ∃ x, r = .ok (x, next) := by
  cases r with
  | ok x =>
    cases h
    exact ⟨x.1, rfl⟩
  | error e => cases h

theorem Sound.perform (h : a.Sound) (operation : Operation) : (a.perform operation).1.Sound := by
  cases operation with
  | addState name isFinal =>
    refine h.keep fun next hn => ?_
    obtain ⟨id, hadd⟩ := exists_of_map_snd hn
    obtain ⟨hext, hc⟩ := closed_addState h.closed hadd
    exact h.of_extends hext hc
  | connect source target symbols =>
    refine h.keep fun next hn => ?_
    obtain ⟨hext, hc⟩ := closed_connect h.closed hn
    exact h.of_extends hext hc
  | applyRules rules =>
    obtain ⟨hext, hc⟩ := closed_applyRules h.closed rules
    exact h.of_extends hext hc
  | advance c =>
    refine h.keep fun next hn => ?_
    obtain ⟨b, ha⟩ := exists_of_map_snd hn
    exact h.advance ha
  | restart => exact h.restart

/-- What each operation preserves is preserved by all of them. -/
theorem performAll_induction {P : Automaton → Prop}
    (hstep : ∀ a operation, P a → P (a.perform operation).1) (h : P a)
    (operations : List Operation) : P (a.performAll operations) :=
  List.foldlRecOn operations _ h fun a ha operation _ => hstep a operation ha

theorem Sound.performAll (h : a.Sound) (operations : List Operation) :
    (a.performAll operations).Sound :=
  performAll_induction (fun _ operation h => h.perform operation) h operations

theorem Sound.declares_current (h : a.Sound) : a.Declares a.session.current := by
  rcases h.logged.leads.eq_or_mem with hi | ⟨x, hx, ht⟩
  · rw [hi]
    exact h.closed.initial
  · rw [← ht]
    exact h.closed.reached x hx

theorem perform_advance_of_failed {c : Char} {e : AutomatonError}
    (h : (a.perform (.advance c)).2 = some e) :
    (a.perform (.advance c)).1 = a ∧ a.target? a.session.current c = none ∧
      e = .undefinedTransition (a.name a.session.current) c := by
  rw [Automaton.perform, Automaton.advance] at h ⊢
  cases hs : a.session.advance? a.machine c with
  | some session =>
    rw [hs] at h
    cases h
  | none =>
    rw [hs] at h
    exact ⟨rfl, Option.map_eq_none_iff.mp hs, (Option.some.inj h).symm⟩

theorem exists_name {s : StateId} (h : a.Declares s) :
    ∃ state, a.states[s.position]? = some state ∧ a.name s = state.name := by
  refine ⟨a.states[s.position], Array.getElem?_eq_getElem h, ?_⟩
  rw [name, Array.getElem?_eq_getElem h]

end Performing

/-- Whatever is done to an automaton, with success or without, the steps of its session are a run
from the initial state to where it stands, and they spell its lexeme, by what is final in the end. A
symbol that there is no transition on changes nothing, and the error names it and the state. -/
theorem performAll_logged (operations : List Operation) :
    let a := empty.performAll operations
    a.session.Logged a.machine ∧
      ∀ c e, (a.perform (.advance c)).2 = some e →
        (a.perform (.advance c)).1 = a ∧ a.target? a.session.current c = none ∧
          ∃ state, a.states[a.session.current.position]? = some state ∧
            e = .undefinedTransition state.name c := by
  intro a
  have h : a.Sound := sound_empty.performAll operations
  refine ⟨h.logged, fun c e he => ?_⟩
  obtain ⟨hsame, hnone, rfl⟩ := perform_advance_of_failed he
  obtain ⟨state, hstate, hname⟩ := exists_name h.declares_current
  exact ⟨hsame, hnone, state, hstate, by rw [hname]⟩

/-- A state and a rule are declared in the middle of a session, and then a rule and a symbol are
refused. -/
theorem performAll_logged_interleaved :
    let a := empty.performAll
      [.addState "x" false, .connect "initial" "x" ['a'], .advance 'a', .addState "y" true,
        .applyRules [⟨.general, "x", "x", ['b']⟩, ⟨.specific, "x", "z", ['c']⟩], .advance 'b',
        .advance 'c']
    a.session.Logged a.machine ∧ a.session.lexeme = "ab" ∧
      (a.perform (.advance 'c')).2 = some (.undefinedTransition "x" 'c') ∧
      (a.perform (.advance 'c')).1 = a := by
  intro a
  obtain ⟨hlogged, hfailed⟩ := performAll_logged
    [.addState "x" false, .connect "initial" "x" ['a'], .advance 'a', .addState "y" true,
      .applyRules [⟨.general, "x", "x", ['b']⟩, ⟨.specific, "x", "z", ['c']⟩], .advance 'b',
      .advance 'c']
  have he : (a.perform (.advance 'c')).2 = some (.undefinedTransition "x" 'c') := by decide +kernel
  exact ⟨hlogged, by decide +kernel, he, (hfailed 'c' _ he).1⟩

end TableLexer.Automaton
