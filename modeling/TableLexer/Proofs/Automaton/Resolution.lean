import TableLexer.Automaton.Rules
import TableLexer.Proofs.Lists.EraseDups
namespace TableLexer.Rule

/-- The target that a layer gave a cell first. -/
def declared? (ds : List Declaration) (layer : Layer) (cell : Cell) : Option String :=
  (ds.find? fun d => d.layer = layer && d.cell = cell).map Declaration.target

/-- Within a layer no cell has two targets. -/
def Consistent (ds : List Declaration) : Prop :=
  ∀ d ∈ ds, ∀ e ∈ ds, d.layer = e.layer → d.cell = e.cell → d.target = e.target

theorem declared?_concat (ds : List Declaration) (x : Declaration) (layer : Layer) (cell : Cell) :
    declared? (ds ++ [x]) layer cell =
      (declared? ds layer cell).or
        (if x.layer = layer ∧ x.cell = cell then some x.target else none) := by
  unfold declared?
  rw [List.find?_append, Option.map_or]
  by_cases h : x.layer = layer ∧ x.cell = cell
  · simp [h]
  · have hx : (decide (x.layer = layer) && decide (x.cell = cell)) = false := by
      simpa using h
    simp [hx, h]

theorem declared?_isSome_iff {ds : List Declaration} {layer : Layer} {cell : Cell} :
    (declared? ds layer cell).isSome ↔ ∃ d ∈ ds, d.layer = layer ∧ d.cell = cell := by
  simp [declared?, List.find?_isSome]

theorem exists_of_declared? {ds : List Declaration} {layer : Layer} {cell : Cell} {target : String}
    (h : declared? ds layer cell = some target) : ⟨layer, cell, target⟩ ∈ ds := by
  obtain ⟨d, hd, rfl⟩ := Option.map_eq_some_iff.mp h
  have hm := List.mem_of_find?_eq_some hd
  have hp := List.find?_some hd
  simp only [Bool.and_eq_true, decide_eq_true_eq] at hp
  obtain ⟨rfl, rfl⟩ := hp
  exact hm

theorem declared?_of_mem {ds : List Declaration} (h : Consistent ds) {d : Declaration}
    (hd : d ∈ ds) : declared? ds d.layer d.cell = some d.target := by
  have hs := declared?_isSome_iff.mpr ⟨d, hd, rfl, rfl⟩
  obtain ⟨target, ht⟩ := Option.isSome_iff_exists.mp hs
  rw [ht]
  exact congrArg some (h _ (exists_of_declared? ht) d hd rfl rfl)

/-- Where a specific rule is silent the general one holds. -/
def resolved? (ds : List Declaration) (cell : Cell) : Option String :=
  (declared? ds .specific cell).or (declared? ds .general cell)

def replaced? (ds : List Declaration) (cell : Cell) : Option Overridden :=
  match declared? ds .general cell, declared? ds .specific cell with
  | some g, some s => if g = s then none else some ⟨cell.1, cell.2, g, s⟩
  | _, _ => none

def cells (ds : List Declaration) : List Cell := (ds.map Declaration.cell).eraseDups

def resolution (ds : List Declaration) : Resolution where
  entries := (cells ds).filterMap fun cell =>
    (resolved? ds cell).map fun target => (cell.1, cell.2, target)
  shadowed := (cells ds).filterMap (replaced? ds)

namespace Draft

/-- A draft that holds what was declared and nothing else. -/
structure Holds (draft : Draft) (ds : List Declaration) : Prop where
  targets : ∀ layer cell, (draft.layer layer)[cell]? = declared? ds layer cell
  cells : draft.cells.toList = Rule.cells ds
  seen : ∀ cell, cell ∈ draft.seen ↔ cell ∈ ds.map Declaration.cell

theorem holds_empty : empty.Holds [] where
  targets layer cell := by cases layer <;> simp [empty, layer, declared?]
  cells := rfl
  seen cell := by simp [empty]

theorem cells_concat (ds : List Declaration) (x : Declaration) :
    Rule.cells (ds ++ [x]) =
      if x.cell ∈ ds.map Declaration.cell then Rule.cells ds else Rule.cells ds ++ [x.cell] := by
  rw [Rule.cells, List.map_append]
  exact eraseDups_concat _ _

/-- Putting in a declaration again changes nothing, as it had its target before. -/
theorem holds_put {draft : Draft} {ds : List Declaration} (h : draft.Holds ds) {x : Declaration}
    (hx : ∀ first, declared? ds x.layer x.cell = some first → first = x.target) :
    (draft.put x.layer x.cell x.target).Holds (ds ++ [x]) where
  targets layer cell := by
    rw [layer_put, h.targets, declared?_concat]
    by_cases hxc : x.layer = layer ∧ x.cell = cell
    · obtain ⟨rfl, rfl⟩ := hxc
      rw [if_pos ⟨rfl, rfl⟩, if_pos ⟨rfl, rfl⟩]
      cases hd : declared? ds x.layer x.cell with
      | none => rfl
      | some first => rw [hx first hd, Option.some_or]
    · simp [hxc]
  cells := by
    rw [cells_put, cells_concat]
    simp only [h.seen]
    split
    · exact h.cells
    · rw [Array.toList_push, h.cells]
  seen cell := by
    rw [mem_seen_put, h.seen]
    simp [or_comm, eq_comm]

theorem declare_eq_put {draft : Draft} {ds : List Declaration} (h : draft.Holds ds)
    {x : Declaration}
    (hx : ∀ first, declared? ds x.layer x.cell = some first → first = x.target) :
    draft.declare x = .ok (draft.put x.layer x.cell x.target) := by
  unfold declare
  rw [h.targets]
  split
  · next first hd => rw [if_pos (hx first hd)]
  · rfl

theorem holds_foldlM_declare {draft : Draft} {before : List Declaration} (h : draft.Holds before)
    {ds : List Declaration} (hc : Consistent (before ++ ds)) :
    ∃ last, ds.foldlM declare draft = .ok last ∧ last.Holds (before ++ ds) := by
  -- what is held grows by one declaration at a time, so `before` varies with the draft
  induction ds generalizing draft before with
  | nil => exact ⟨draft, rfl, by simpa using h⟩
  | cons x ds ih =>
    have hx : ∀ first, declared? before x.layer x.cell = some first → first = x.target := by
      intro first hf
      exact hc _ (List.mem_append_left _ (exists_of_declared? hf)) x (by simp) rfl rfl
    obtain ⟨last, hl, hlast⟩ := ih (holds_put h hx) (by simpa using hc)
    refine ⟨last, ?_, by simpa using hlast⟩
    rw [List.foldlM_cons, declare_eq_put h hx]
    exact hl

theorem resolution_of_holds {draft : Draft} {ds : List Declaration} (h : draft.Holds ds) :
    draft.resolution = Rule.resolution ds := by
  have hg := h.targets .general
  have hs := h.targets .specific
  simp only [layer] at hg hs
  have ht : draft.target? = resolved? ds := by
    funext cell
    simp only [target?, resolved?, hg, hs]
    cases declared? ds .specific cell <;> rfl
  have hr : draft.shadowed? = replaced? ds := by
    funext cell
    rw [shadowed?, hg, hs]
    rfl
  simp [resolution, Rule.resolution, ht, hr, h.cells]

end Draft

theorem resolve_of_consistent {rules : List Rule} (h : Consistent (rules.flatMap declarations)) :
    resolve rules = .ok (resolution (rules.flatMap declarations)) := by
  have hc : Consistent ([] ++ rules.flatMap declarations) := h
  obtain ⟨draft, hd, hh⟩ := Draft.holds_foldlM_declare Draft.holds_empty hc
  have hr : draft.resolution = resolution (rules.flatMap declarations) :=
    Draft.resolution_of_holds hh
  simp only [resolve, hd, bind, Except.bind, hr]
  rfl

theorem mem_entries_iff {ds : List Declaration} {source target : String} {c : Char} :
    (source, c, target) ∈ (resolution ds).entries ↔ resolved? ds (source, c) = some target := by
  simp only [resolution, List.mem_filterMap, Option.map_eq_some_iff, Prod.mk.injEq]
  constructor
  · rintro ⟨⟨s, d⟩, _, t, ht, rfl, rfl, rfl⟩
    exact ht
  · intro h
    refine ⟨(source, c), ?_, target, h, rfl, rfl, rfl⟩
    rw [cells, List.mem_eraseDups]
    rcases Option.or_eq_some_iff.mp h with hs | ⟨_, hg⟩
    · exact List.mem_map.mpr ⟨_, exists_of_declared? hs, rfl⟩
    · exact List.mem_map.mpr ⟨_, exists_of_declared? hg, rfl⟩

end TableLexer.Rule
