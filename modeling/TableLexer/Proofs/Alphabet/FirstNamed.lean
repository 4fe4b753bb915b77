import Mathlib.Data.List.Basic
import Mathlib.Data.List.Induction
import TableLexer.Alphabet
namespace TableLexer.Alphabet

variable {a b : Alphabet}

theorem toNat_ofNat_code (code : Fin 128) : (Char.ofNat code).toNat = code := by
  have hvalid : (code : Nat).isValidChar := .inl (by omega)
  rw [Char.ofNat, dif_pos hvalid]
  rfl

theorem marked_iff (a : Alphabet) (code : Fin 128) :
    a.ascii[code] ↔ Char.ofNat code ∈ a.symbols := by
  have hcode := toNat_ofNat_code code
  have hmark := a.ascii_eq (Char.ofNat code) (by omega)
  simp only [hcode] at hmark
  rw [Fin.getElem_fin, hmark, List.contains_iff_mem]

theorem eq_of_symbols (h : a.symbols = b.symbols) : a = b := by
  have hascii : a.ascii = b.ascii := by
    apply Vector.ext
    intro i hi
    rw [Bool.eq_iff_iff]
    calc a.ascii[i] = true
      _ ↔ Char.ofNat i ∈ a.symbols := marked_iff a ⟨i, hi⟩
      _ ↔ Char.ofNat i ∈ b.symbols := by rw [h]
      _ ↔ b.ascii[i] = true := (marked_iff b ⟨i, hi⟩).symm
  cases a
  cases b
  rw [mk.injEq]
  exact ⟨h, hascii⟩

theorem ofSymbols_concat (named : List Char) (c : Char) :
    ofSymbols (named ++ [c]) = (ofSymbols named).insert c := List.foldl_concat ..

/-- The order of the symbols is the one in which they are first named. -/
theorem pairwise_idxOf (named : List Char) :
    (ofSymbols named).symbols.Pairwise fun c d => named.idxOf c < named.idxOf d := by
  induction named using List.reverseRecOn with
  | nil => exact List.Pairwise.nil
  | append_singleton named c ih =>
    -- what comes behind does not move the place of a character that is named already
    have hkeep {d : Char} (hd : d ∈ (ofSymbols named).symbols) :
        (named ++ [c]).idxOf d = named.idxOf d :=
      List.idxOf_append_of_mem (mem_ofSymbols.mp hd)
    have hold : (ofSymbols named).symbols.Pairwise
        fun d e => (named ++ [c]).idxOf d < (named ++ [c]).idxOf e := by
      refine ih.imp_of_mem fun hd he hlt => ?_
      rwa [hkeep hd, hkeep he]
    rw [ofSymbols_concat, symbols_insert]
    split
    · exact hold
    · next hc =>
      refine List.pairwise_append.mpr ⟨hold, List.pairwise_singleton .., fun d hd e he => ?_⟩
      have hnew : c ∉ named := fun h => hc (mem_ofSymbols.mpr h)
      rw [List.mem_singleton.mp he, hkeep hd, List.idxOf_append_of_notMem hnew]
      exact Nat.lt_add_right _ (List.idxOf_lt_length_iff.mpr (mem_ofSymbols.mp hd))

theorem symbols_ofSymbols_of_nodup {named : List Char} (h : named.Nodup) :
    (ofSymbols named).symbols = named := by
  induction named using List.reverseRecOn with
  | nil => rfl
  | append_singleton named c ih =>
    obtain ⟨hnamed, _, hdisjoint⟩ := List.nodup_append.mp h
    have hnew : c ∉ named := fun hc => hdisjoint c hc c (List.mem_singleton_self c) rfl
    rw [ofSymbols_concat, symbols_insert, ih hnamed, if_neg hnew]

theorem ofSymbols_symbols (a : Alphabet) : ofSymbols a.symbols = a :=
  eq_of_symbols (symbols_ofSymbols_of_nodup a.nodup)

theorem mem_select {p : Char → Bool} {c : Char} : c ∈ a.select p ↔ c ∈ a.symbols ∧ p c :=
  List.mem_filter

/-- An alphabet has each character it is made from once, where it was first named. A character is
found in it, by its mark or by a search, if it was named. A selection has those that it asks for,
in the same order, and the symbols of an alphabet make the same alphabet again. -/
theorem ofSymbols_firstNamed (named : List Char) :
    let a := ofSymbols named
    a.symbols.Nodup ∧
      (∀ c, c ∈ a.symbols ↔ c ∈ named) ∧
      a.symbols.Pairwise (fun c d => named.idxOf c < named.idxOf d) ∧
      (∀ c, a.contains c ↔ c ∈ named) ∧
      (∀ code : Fin 128, a.ascii[code] ↔ Char.ofNat code ∈ named) ∧
      (∀ p, (a.select p).Sublist a.symbols ∧ ∀ c, c ∈ a.select p ↔ c ∈ named ∧ p c) ∧
      ofSymbols a.symbols = a := by
  intro a
  have hmem (c : Char) : c ∈ a.symbols ↔ c ∈ named := mem_ofSymbols
  refine ⟨a.nodup, hmem, pairwise_idxOf named, fun c => ?_, fun code => ?_, fun p => ?_,
    ofSymbols_symbols a⟩
  · exact contains_iff.trans (hmem c)
  · exact (marked_iff a code).trans (hmem _)
  · exact ⟨List.filter_sublist, fun c => mem_select.trans (and_congr_left' (hmem c))⟩

example : (ofSymbols "ab€a€".toList).symbols = ['a', 'b', '€'] := by decide

end TableLexer.Alphabet
