import TableLexer.Proofs.Automaton.Resolution
namespace TableLexer

open Rule

def Overridden.cell (o : Overridden) : Cell := (o.state, o.symbol)

/-- The cells that were resolved, in their order. -/
def Resolution.cells (res : Resolution) : List Cell := res.entries.map fun e => (e.1, e.2.1)

/-- What declarations come to if no two of a layer disagree: every declared cell has one entry,
where the specific layer is heard before the general one, and what it silenced is listed. -/
structure Resolution.Merges (res : Resolution) (ds : List Declaration) : Prop where
  cells : res.cells = (ds.map Declaration.cell).eraseDups
  once : res.cells.Nodup
  entries : ∀ source c target, (source, c, target) ∈ res.entries ↔
    ⟨.specific, (source, c), target⟩ ∈ ds ∨
      ⟨.general, (source, c), target⟩ ∈ ds ∧ ∀ t, ⟨.specific, (source, c), t⟩ ∉ ds
  order : (res.shadowed.map Overridden.cell).Sublist res.cells
  shadowed : ∀ o, o ∈ res.shadowed ↔
    ⟨.general, o.cell, o.general⟩ ∈ ds ∧ ⟨.specific, o.cell, o.specific⟩ ∈ ds ∧
      o.general ≠ o.specific

namespace Rule

/-- Two rules of a layer that give a cell different targets. -/
def Contradicts (r r' : Rule) : Prop :=
  r.layer = r'.layer ∧ r.source = r'.source ∧ r.target ≠ r'.target ∧
    ∃ c ∈ r.symbols, c ∈ r'.symbols

/-- A declaration clashes with those in front of it, which agree among themselves. The error names
its cell, what that was given first in this layer, and what it is given now. -/
def FirstClash (ds : List Declaration) (e : AutomatonError) : Prop :=
  ∃ before x after first, ds = before ++ x :: after ∧ Consistent before ∧
    declared? before x.layer x.cell = some first ∧ first ≠ x.target ∧
    e = .conflictingRule x.cell.1 x.cell.2 first x.target

section Merging

variable {ds : List Declaration}

theorem consistent_flatMap_iff {rules : List Rule} :
    Consistent (rules.flatMap declarations) ↔
      ¬∃ r ∈ rules, ∃ r' ∈ rules, r.Contradicts r' := by
  constructor
  · rintro h ⟨r, hr, r', hr', hlayer, hsource, htarget, c, hc, hc'⟩
    refine htarget (h ⟨r.layer, (r.source, c), r.target⟩ ?_ ⟨r'.layer, (r'.source, c), r'.target⟩
      ?_ hlayer (congrArg (·, c) hsource))
    · exact List.mem_flatMap.mpr ⟨r, hr, List.mem_map.mpr ⟨c, hc, rfl⟩⟩
    · exact List.mem_flatMap.mpr ⟨r', hr', List.mem_map.mpr ⟨c, hc', rfl⟩⟩
  · intro h d hd e he hlayer hcell
    obtain ⟨r, hr, hd⟩ := List.mem_flatMap.mp hd
    obtain ⟨r', hr', he⟩ := List.mem_flatMap.mp he
    obtain ⟨c, hc, rfl⟩ := List.mem_map.mp hd
    obtain ⟨c', hc', rfl⟩ := List.mem_map.mp he
    obtain ⟨hsource, rfl⟩ := Prod.mk.inj hcell
    by_contra htarget
    exact h ⟨r, hr, r', hr', hlayer, hsource, htarget, c, hc, hc'⟩

theorem declared?_eq_some_iff (h : Consistent ds) {layer : Layer} {cell : Cell} {target : String} :
    declared? ds layer cell = some target ↔ ⟨layer, cell, target⟩ ∈ ds :=
  ⟨exists_of_declared?, fun hd => declared?_of_mem h hd⟩

theorem declared?_eq_none_iff (h : Consistent ds) {layer : Layer} {cell : Cell} :
    declared? ds layer cell = none ↔ ∀ target, ⟨layer, cell, target⟩ ∉ ds := by
  rw [Option.eq_none_iff_forall_ne_some]
  exact forall_congr' fun target => not_congr (declared?_eq_some_iff h)

theorem exists_resolved? {cell : Cell} (h : cell ∈ cells ds) :
    ∃ target, resolved? ds cell = some target := by
  obtain ⟨d, hd, rfl⟩ := List.mem_map.mp (List.mem_eraseDups.mp h)
  have hsome : (declared? ds d.layer d.cell).isSome := declared?_isSome_iff.mpr ⟨d, hd, rfl, rfl⟩
  rw [← Option.isSome_iff_exists, resolved?, Option.isSome_or]
  cases hlayer : d.layer <;> rw [hlayer] at hsome <;> simp [hsome]

theorem cells_resolution (ds : List Declaration) : (resolution ds).cells = cells ds := by
  have hkept : ∀ cell ∈ cells ds,
      ((resolved? ds cell).map fun target => (cell.1, cell.2, target)).map
        (fun e => (e.1, e.2.1)) = some cell := by
    intro cell hcell
    obtain ⟨target, ht⟩ := exists_resolved? hcell
    rw [ht]
    rfl
  rw [Resolution.cells, resolution, List.map_filterMap, List.filterMap_congr hkept,
    List.filterMap_some]

theorem replaced?_eq_some_iff (h : Consistent ds) {cell : Cell} {o : Overridden} :
    replaced? ds cell = some o ↔
      o.cell = cell ∧ ⟨.general, cell, o.general⟩ ∈ ds ∧ ⟨.specific, cell, o.specific⟩ ∈ ds ∧
        o.general ≠ o.specific := by
  rw [← declared?_eq_some_iff h, ← declared?_eq_some_iff h, replaced?]
  cases declared? ds .general cell with
  | none => simp
  | some g =>
    cases declared? ds .specific cell with
    | none => simp
    | some s =>
      by_cases hgs : g = s
      · simp only [hgs, if_true, reduceCtorEq, Option.some.injEq, false_iff, not_and]
        rintro _ hg hs
        exact absurd (hg.symm.trans hs)
      · obtain ⟨state, symbol, general, specific⟩ := o
        simp only [if_neg hgs, Option.some.injEq, Overridden.mk.injEq, Overridden.cell]
        constructor
        · rintro ⟨rfl, rfl, rfl, rfl⟩
          exact ⟨rfl, rfl, rfl, hgs⟩
        · rintro ⟨rfl, rfl, rfl, _⟩
          exact ⟨rfl, rfl, rfl, rfl⟩

theorem cells_shadowed_sublist (h : Consistent ds) :
    ((resolution ds).shadowed.map Overridden.cell).Sublist (cells ds) := by
  have hkept (cell : Cell) : (replaced? ds cell).map Overridden.cell =
      Option.guard (fun cell => (replaced? ds cell).isSome) cell := by
    cases hr : replaced? ds cell with
    | none => simp [Option.guard, hr]
    | some o => simp [Option.guard, hr, ((replaced?_eq_some_iff h).mp hr).1]
  rw [resolution, List.map_filterMap, funext hkept, List.filterMap_eq_filter]
  exact List.filter_sublist

theorem merges_resolution (h : Consistent ds) : (resolution ds).Merges ds where
  cells := cells_resolution ds
  once := by
    rw [cells_resolution]
    exact nodup_eraseDups _
  entries source c target := by
    rw [mem_entries_iff, resolved?, Option.or_eq_some_iff, declared?_eq_some_iff h,
      declared?_eq_some_iff h, declared?_eq_none_iff h, and_comm (a := ∀ _, _)]
  order := by
    rw [cells_resolution]
    exact cells_shadowed_sublist h
  shadowed o := by
    simp only [resolution, List.mem_filterMap, replaced?_eq_some_iff h]
    constructor
    · rintro ⟨cell, _, rfl, hboth⟩
      exact hboth
    · intro hboth
      exact ⟨o.cell, List.mem_eraseDups.mpr (List.mem_map_of_mem hboth.1), rfl, hboth⟩

end Merging

section Clashing

variable {before ds : List Declaration}

theorem Consistent.concat (h : Consistent before) {x : Declaration}
    (hx : ∀ first, declared? before x.layer x.cell = some first → first = x.target) :
    Consistent (before ++ [x]) := by
  have hbehind {d : Declaration} (hd : d ∈ before) (hl : d.layer = x.layer)
      (hc : d.cell = x.cell) : d.target = x.target :=
    hx _ (by rw [← hl, ← hc]; exact declared?_of_mem h hd)
  intro d hd e he hl hc
  rcases List.mem_append.mp hd with hd | hd <;> rcases List.mem_append.mp he with he | he
  · exact h d hd e he hl hc
  · rw [List.mem_singleton.mp he] at hl hc ⊢
    exact hbehind hd hl hc
  · rw [List.mem_singleton.mp hd] at hl hc ⊢
    exact (hbehind he hl.symm hc.symm).symm
  · rw [List.mem_singleton.mp hd, List.mem_singleton.mp he]

theorem Draft.foldlM_declare_of_clash {draft : Draft} (h : draft.Holds before)
    (hb : Consistent before) (hc : ¬Consistent (before ++ ds)) :
    ∃ e, ds.foldlM declare draft = .error e ∧ FirstClash (before ++ ds) e := by
  -- what is held grows by one declaration at a time, until one of them does not fit
  induction ds generalizing draft before with
  | nil => exact absurd (by simpa using hb) hc
  | cons x ds ih =>
    by_cases hx : ∀ first, declared? before x.layer x.cell = some first → first = x.target
    · obtain ⟨e, he, hclash⟩ := ih (holds_put h hx) (hb.concat hx) (by simpa using hc)
      refine ⟨e, ?_, by simpa using hclash⟩
      rw [List.foldlM_cons, declare_eq_put h hx]
      exact he
    · obtain ⟨first, hx⟩ := Classical.not_forall.mp hx
      obtain ⟨hfirst, hne⟩ := Classical.not_imp.mp hx
      refine ⟨_, ?_, before, x, ds, first, rfl, hb, hfirst, hne, rfl⟩
      rw [List.foldlM_cons, declare, h.targets, hfirst]
      dsimp only
      rw [if_neg hne]
      rfl

theorem consistent_nil : Consistent [] := by
  intro d hd
  cases hd

theorem resolve_of_clash {rules : List Rule} (h : ¬Consistent (rules.flatMap declarations)) :
    ∃ e, resolve rules = .error e ∧ FirstClash (rules.flatMap declarations) e := by
  have hclash : ¬Consistent ([] ++ rules.flatMap declarations) := h
  obtain ⟨e, he, hfirst⟩ := Draft.foldlM_declare_of_clash Draft.holds_empty consistent_nil hclash
  refine ⟨e, ?_, hfirst⟩
  rw [resolve, he]
  rfl

end Clashing

/-- Rules are resolved unless two of a layer contradict each other, and then the error is about the
first declaration that clashes with an earlier one. -/
theorem resolve_spec (rules : List Rule) :
    let ds := rules.flatMap declarations
    ((∃ e, resolve rules = .error e) ↔ ∃ r ∈ rules, ∃ r' ∈ rules, r.Contradicts r') ∧
      match resolve rules with
      | .error e => FirstClash ds e
      | .ok res => res.Merges ds := by
  intro ds
  by_cases h : Consistent ds
  · have hok : resolve rules = .ok (resolution ds) := resolve_of_consistent h
    rw [hok]
    refine ⟨iff_of_false (by simp) (consistent_flatMap_iff.mp h), merges_resolution h⟩
  · obtain ⟨e, he, hclash⟩ := resolve_of_clash h
    rw [he]
    refine ⟨iff_of_true ⟨e, rfl⟩ ?_, hclash⟩
    exact Classical.not_not.mp fun hn => h (consistent_flatMap_iff.mpr hn)

/-- The clash in the general layer comes first, though the first rule is a specific one. -/
example :
    resolve [⟨.specific, "s", "a", ['x', 'y']⟩, ⟨.general, "s", "b", ['y']⟩,
      ⟨.general, "s", "c", ['x', 'y']⟩, ⟨.specific, "s", "b", ['x']⟩] =
      .error (.conflictingRule "s" 'y' "b" "c") := by
  rfl

end Rule

end TableLexer
