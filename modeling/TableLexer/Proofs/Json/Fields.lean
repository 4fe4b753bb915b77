import TableLexer.Json.Decode
namespace TableLexer.Json

theorem mapM_of_forall {α β : Type} {f : α → Option β} {g : β → α} {xs : List β}
    (h : ∀ x ∈ xs, f (g x) = some x) : (xs.map g).mapM f = some xs := by
  induction xs with
  | nil => rfl
  | cons x xs ih =>
    rw [List.map_cons, List.mapM_cons, h x (by simp), ih fun y hy => h y (by simp [hy])]
    rfl

theorem listOf?_ofList {α : Type} {f : Json → Option α} {g : α → Json} {xs : List α}
    (h : ∀ x ∈ xs, f (g x) = some x) : (ofList g xs).listOf? f = some xs := mapM_of_forall h

theorem text?_ofText (s : String) : (ofText s).text? = some s := rfl

theorem natBelow?_ofNat {n bound : Nat} (h : n < bound) : (ofNat n).natBelow? bound = some n :=
  if_pos h

section Fields

variable {fields : List (String × Json)}

theorem filter_fields_of_not_mem {name : String} (h : name ∉ fields.map Prod.fst) :
    (fields.map fun (key, value) => (some key, value)).filter (fun field => field.1 = some name) =
      [] := by
  rw [List.filter_eq_nil_iff]
  intro field hf
  obtain ⟨⟨key, value⟩, hm, rfl⟩ := List.mem_map.mp hf
  intro he
  simp only [decide_eq_true_eq, Option.some.injEq] at he
  exact h (List.mem_map.mpr ⟨(key, value), hm, he⟩)

theorem field?_of_mem (hd : (fields.map Prod.fst).Nodup) {name : String} {value : Json}
    (h : (name, value) ∈ fields) :
    field? name (fields.map fun (key, value) => (some key, value)) = some value := by
  have hfilter : (fields.map fun (key, value) => (some key, value)).filter
      (fun field => field.1 = some name) = [(some name, value)] := by
    induction fields with
    | nil => cases h
    | cons field rest ih =>
      obtain ⟨key, v⟩ := field
      rw [List.map_cons, List.nodup_cons] at hd
      rcases List.mem_cons.mp h with h | h
      · obtain ⟨rfl, rfl⟩ := Prod.mk.inj h
        rw [List.map_cons, List.filter_cons_of_pos (by simp), filter_fields_of_not_mem hd.1]
      · have hne : key ≠ name := by
          rintro rfl
          exact hd.1 (List.mem_map.mpr ⟨_, h, rfl⟩)
        rw [List.map_cons, List.filter_cons_of_neg (by simp [hne]), ih hd.2 h]
  rw [field?, hfilter]

theorem record?_ofFields (hd : (fields.map Prod.fst).Nodup) :
    (ofFields fields).record? (fields.map Prod.fst) = some (fields.map Prod.snd) := by
  have hkeys : (fields.map fun (key, value) => (some key, value)).all
      (fun field => field.1.isSome) = true := by simp
  have hvalues (rest : List (String × Json)) (hr : ∀ field ∈ rest, field ∈ fields) :
      (rest.map Prod.fst).mapM
          (fun name => field? name (fields.map fun (key, value) => (some key, value))) =
        some (rest.map Prod.snd) := by
    induction rest with
    | nil => rfl
    | cons field rest ih =>
      rw [List.map_cons, List.mapM_cons, field?_of_mem hd (hr field (by simp)),
        ih fun f hf => hr f (by simp [hf])]
      rfl
  rw [ofFields, record?, if_pos hkeys]
  exact hvalues fields fun _ h => h

end Fields

end TableLexer.Json
