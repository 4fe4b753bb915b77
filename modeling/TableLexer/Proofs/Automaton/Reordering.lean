import TableLexer.Proofs.Automaton.Application
namespace TableLexer.Rule

/-- The same rule with its symbols in another order. -/
def Respelt (r r' : Rule) : Prop :=
  r'.layer = r.layer ∧ r'.source = r.source ∧ r'.target = r.target ∧ r.symbols.Perm r'.symbols

/-- The same rules in another order, and the symbols of each of them as well. -/
def Reordered (rules rules' : List Rule) : Prop :=
  ∃ moved, rules.Perm moved ∧ List.Forall₂ Respelt moved rules'

section Declarations

variable {rules rules' : List Rule} {ds ds' : List Declaration}

theorem Respelt.perm {r r' : Rule} (h : r.Respelt r') : r.declarations.Perm r'.declarations := by
  obtain ⟨hlayer, hsource, htarget, hsymbols⟩ := h
  rw [declarations, declarations, hlayer, hsource, htarget]
  exact hsymbols.map _

theorem Reordered.perm (h : Reordered rules rules') :
    (rules.flatMap declarations).Perm (rules'.flatMap declarations) := by
  obtain ⟨moved, hmoved, hrespelt⟩ := h
  refine (hmoved.flatMap_right declarations).trans ?_
  clear hmoved
  induction hrespelt with
  | nil => exact .nil
  | cons hr _ ih =>
    rw [List.flatMap_cons, List.flatMap_cons]
    exact hr.perm.append ih

theorem Consistent.perm (h : Consistent ds) (hp : ds.Perm ds') : Consistent ds' :=
  fun d hd e he => h d (hp.mem_iff.mpr hd) e (hp.mem_iff.mpr he)

/-- Without clashes it does not matter which declaration of a cell is the first. -/
theorem declared?_perm (h : Consistent ds) (hp : ds.Perm ds') : declared? ds' = declared? ds := by
  funext layer cell
  refine Option.ext fun target => ?_
  rw [declared?_eq_some_iff (h.perm hp), declared?_eq_some_iff h, hp.mem_iff]

theorem cells_perm (hp : ds.Perm ds') : (cells ds).Perm (cells ds') := by
  refine (List.perm_ext_iff_of_nodup (nodup_eraseDups _) (nodup_eraseDups _)).mpr fun cell => ?_
  rw [List.mem_eraseDups, List.mem_eraseDups, (hp.map Declaration.cell).mem_iff]

theorem resolution_perm (h : Consistent ds) (hp : ds.Perm ds') :
    (resolution ds).entries.Perm (resolution ds').entries ∧
      (resolution ds).shadowed.Perm (resolution ds').shadowed := by
  have hdeclared := declared?_perm h hp
  have hresolved : resolved? ds' = resolved? ds := by
    funext cell
    rw [resolved?, hdeclared, resolved?]
  have hreplaced : replaced? ds' = replaced? ds := by
    funext cell
    rw [replaced?, hdeclared, replaced?]
  rw [resolution, resolution, hresolved, hreplaced]
  exact ⟨(cells_perm hp).filterMap _, (cells_perm hp).filterMap _⟩

end Declarations

section Resolving

variable {rules rules' : List Rule} {res : Resolution}

theorem resolution_of_resolve (h : resolve rules = .ok res) :
    Consistent (rules.flatMap declarations) ∧ res = resolution (rules.flatMap declarations) := by
  by_cases hc : Consistent (rules.flatMap declarations)
  · exact ⟨hc, Except.ok.inj (h.symm.trans (resolve_of_consistent hc))⟩
  · obtain ⟨e, he, _⟩ := resolve_of_clash hc
    rw [h] at he
    cases he

theorem exists_rule_of_mem_entries (h : resolve rules = .ok res) {source target : String}
    {c : Char} (he : (source, c, target) ∈ res.entries) :
    ∃ r ∈ rules, r.source = source ∧ r.target = target := by
  obtain ⟨hc, rfl⟩ := resolution_of_resolve h
  obtain ⟨layer, hd⟩ : ∃ layer, ⟨layer, (source, c), target⟩ ∈ rules.flatMap declarations := by
    rcases ((merges_resolution hc).entries source c target).mp he with hs | ⟨hg, _⟩
    · exact ⟨_, hs⟩
    · exact ⟨_, hg⟩
  obtain ⟨r, hr, hd⟩ := List.mem_flatMap.mp hd
  obtain ⟨d, _, hd⟩ := List.mem_map.mp hd
  obtain ⟨_, hcell, htarget⟩ := Declaration.mk.inj hd
  exact ⟨r, hr, (Prod.mk.inj hcell).1, htarget⟩

theorem target_unique (h : resolve rules = .ok res) {source t u : String} {c : Char}
    (ht : (source, c, t) ∈ res.entries) (hu : (source, c, u) ∈ res.entries) : t = u := by
  obtain ⟨_, rfl⟩ := resolution_of_resolve h
  exact Option.some.inj ((mem_entries_iff.mp ht).symm.trans (mem_entries_iff.mp hu))

theorem Reordered.exists_resolve (h : Reordered rules rules') (hr : resolve rules = .ok res) :
    ∃ res', resolve rules' = .ok res' ∧ res.entries.Perm res'.entries ∧
      res.shadowed.Perm res'.shadowed := by
  obtain ⟨hc, rfl⟩ := resolution_of_resolve hr
  exact ⟨_, resolve_of_consistent (hc.perm h.perm), resolution_perm hc h.perm⟩

theorem Reordered.resolve_fails (h : Reordered rules rules') {e : AutomatonError}
    (hr : resolve rules = .error e) : ∃ e', resolve rules' = .error e' := by
  have hc : ¬Consistent (rules'.flatMap declarations) := by
    intro hc
    rw [resolve_of_consistent (hc.perm h.perm.symm)] at hr
    cases hr
  obtain ⟨e', he, _⟩ := resolve_of_clash hc
  exact ⟨e', he⟩

end Resolving

end TableLexer.Rule

namespace TableLexer.Automaton

open Rule

variable {rules rules' : List Rule} {a : Automaton}

/-- All states that some rules lead between are declared. -/
def Knows (a : Automaton) (rules : List Rule) : Prop :=
  ∀ r ∈ rules, (a.stateId? r.source).isSome ∧ (a.stateId? r.target).isSome

theorem Knows.of_mem_entries (h : a.Knows rules) {res : Resolution}
    (hr : resolve rules = .ok res) :
    ∀ e ∈ res.entries, (a.stateId? e.1).isSome ∧ (a.stateId? e.2.2).isSome := by
  rintro ⟨source, c, target⟩ he
  obtain ⟨r, hm, rfl, rfl⟩ := exists_rule_of_mem_entries hr he
  exact h r hm

theorem Indexed.entries_agree (hi : a.Indexed) (hsize : a.states.size ≤ 65536) {res : Resolution}
    (hr : resolve rules = .ok res) {es : List (String × Char × String)}
    (hsub : ∀ e ∈ es, e ∈ res.entries) (h : ∀ e ∈ es, (a.stateId? e.1).isSome) :
    ∀ e ∈ es, ∀ e' ∈ es, a.idOf e.1 = a.idOf e'.1 → e.2.1 = e'.2.1 → e.2.2 = e'.2.2 := by
  rintro ⟨source, c, target⟩ he ⟨source', c', target'⟩ he' hid hc
  have hs : a.stateId? source' = some (a.idOf source') := stateId?_of_isSome (h _ he')
  have hs' : a.stateId? source = some (a.idOf source') := by
    rw [← hid]
    exact stateId?_of_isSome (h _ he)
  obtain rfl : source = source' := hi.name_unique hsize hs hs'
  obtain rfl : c = c' := hc
  exact target_unique hr (hsub _ he) (hsub _ he')

theorem target?_applyRules_reordered (hi : a.Indexed) (hsize : a.states.size ≤ 65536)
    (hk : a.Knows rules) (h : Reordered rules rules') :
    (a.applyRules rules).automaton.target? = (a.applyRules rules').automaton.target? := by
  cases hr : resolve rules with
  | error e =>
    obtain ⟨e', hr'⟩ := h.resolve_fails hr
    rw [applyRules, hr, applyRules, hr']
  | ok res =>
    -- no state is unknown, so neither list of entries stops half-way
    obtain ⟨res', hr', hentries, _⟩ := h.exists_resolve hr
    have hknown := hk.of_mem_entries hr
    rw [applyRules_of_known hr hknown,
      applyRules_of_known hr' fun e he => hknown e (hentries.mem_iff.mpr he)]
    funext s c
    refine target?_writeAll_perm hentries (fun e he e' he' hs hc => ?_) a.transitions s c
    exact congrArg a.idOf
      (hi.entries_agree hsize hr (fun _ => id) (fun e he => (hknown e he).1) e he e' he' hs hc)

/-- The order of rules, and of the symbols within them, decides neither whether they are resolved
nor what they come to. -/
theorem applyRules_reordered (h : Reordered rules rules') :
    ((∃ res, resolve rules = .ok res) ↔ ∃ res, resolve rules' = .ok res) ∧
      (∀ res res', resolve rules = .ok res → resolve rules' = .ok res' →
        res.entries.Perm res'.entries ∧ res.shadowed.Perm res'.shadowed) ∧
      ∀ operations : List Operation,
        let a := empty.performAll operations
        a.states.size ≤ 65536 → a.Knows rules →
          (a.applyRules rules).automaton.target? = (a.applyRules rules').automaton.target? := by
  refine ⟨⟨fun ⟨res, hr⟩ => ?_, fun ⟨res, hr'⟩ => ?_⟩, fun res res' hr hr' => ?_, ?_⟩
  · obtain ⟨res', hr', _⟩ := h.exists_resolve hr
    exact ⟨res', hr'⟩
  · cases hr : resolve rules with
    | ok res => exact ⟨res, rfl⟩
    | error e =>
      obtain ⟨e', he⟩ := h.resolve_fails hr
      rw [hr'] at he
      cases he
  · obtain ⟨other, hother, hperm⟩ := h.exists_resolve hr
    obtain rfl : other = res' := Except.ok.inj (hother.symm.trans hr')
    exact hperm
  · intro operations a hsize hk
    exact target?_applyRules_reordered (indexed_empty.performAll operations) hsize hk h

/-- The specific rule for a blank wins, in front of the general one and behind it. -/
theorem applyRules_reordered_mixed :
    let before : List Rule := [⟨.general, "initial", "x", ['a', ' ']⟩,
      ⟨.general, "x", "x", ['a']⟩, ⟨.specific, "initial", "initial", [' ']⟩]
    let behind : List Rule := [⟨.specific, "initial", "initial", [' ']⟩,
      ⟨.general, "x", "x", ['a']⟩, ⟨.general, "initial", "x", [' ', 'a']⟩]
    let a := empty.performAll [.addState "x" true]
    Reordered before behind ∧ a.Knows before ∧
      (a.applyRules before).automaton.target? = (a.applyRules behind).automaton.target? ∧
      (a.applyRules before).automaton.target? StateId.initial ' ' = some StateId.initial ∧
      (a.applyRules behind).automaton.target? StateId.initial ' ' = some StateId.initial := by
  intro before behind a
  have h : Reordered before behind :=
    ⟨[⟨.specific, "initial", "initial", [' ']⟩, ⟨.general, "x", "x", ['a']⟩,
      ⟨.general, "initial", "x", ['a', ' ']⟩], by decide,
      .cons ⟨rfl, rfl, rfl, by decide⟩ (.cons ⟨rfl, rfl, rfl, by decide⟩
        (.cons ⟨rfl, rfl, rfl, by decide⟩ .nil))⟩
  have hk : a.Knows before := by
    unfold Knows
    decide +kernel
  have hsame := (applyRules_reordered h).2.2 [.addState "x" true] (by decide +kernel) hk
  have hblank : (a.applyRules before).automaton.target? StateId.initial ' ' =
      some StateId.initial := by decide +kernel
  exact ⟨h, hk, hsame, hblank, (congrFun (congrFun hsame _) _).symm.trans hblank⟩

end TableLexer.Automaton
