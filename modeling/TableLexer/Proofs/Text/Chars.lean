namespace TableLexer.Text

theorem forall_of_range {p : Char → Bool} (low count : Nat)
    (h : ∀ i ∈ List.range' low count, p (Char.ofNat i)) {c : Char} (hlow : low ≤ c.toNat)
    (hhigh : c.toNat < low + count) : p c := by
  have hc := h c.toNat (List.mem_range'_1.mpr ⟨hlow, hhigh⟩)
  rwa [Char.ofNat_toNat] at hc

theorem forall_of_isDigit {p : Char → Bool} (h : ∀ i ∈ List.range' 48 10, p (Char.ofNat i))
    {c : Char} (hc : c.isDigit) : p c := by
  simp only [Char.isDigit, Bool.and_eq_true, decide_eq_true_eq] at hc
  exact forall_of_range 48 10 h hc.1 (Nat.lt_succ_of_le hc.2)

theorem forall_of_isAlpha {p : Char → Bool} (hupper : ∀ i ∈ List.range' 65 26, p (Char.ofNat i))
    (hlower : ∀ i ∈ List.range' 97 26, p (Char.ofNat i)) {c : Char} (hc : c.isAlpha) : p c := by
  obtain h | h : c.isUpper = true ∨ c.isLower = true := Bool.or_eq_true _ _ ▸ hc
  · have hrange : decide (c.val ≥ 'A'.val ∧ c.val ≤ 'Z'.val) = true := h
    obtain ⟨hlow, hhigh⟩ := of_decide_eq_true hrange
    exact forall_of_range 65 26 hupper hlow (Nat.lt_succ_of_le hhigh)
  · have hrange : (decide (c.val ≥ 'a'.val) && decide (c.val ≤ 'z'.val)) = true := h
    simp only [Bool.and_eq_true, decide_eq_true_eq] at hrange
    exact forall_of_range 97 26 hlower hrange.1 (Nat.lt_succ_of_le hrange.2)

theorem takeWhile_of_forall {p : Char → Bool} {cs : List Char} (h : ∀ c ∈ cs, p c) :
    cs.takeWhile p = cs := by
  rw [← List.append_nil cs, List.takeWhile_append_of_pos h, List.takeWhile_nil]

theorem dropWhile_of_forall {p : Char → Bool} {cs : List Char} (h : ∀ c ∈ cs, p c) :
    cs.dropWhile p = [] := by
  rw [← List.append_nil cs, List.dropWhile_append_of_pos h, List.dropWhile_nil]

theorem isDigit_of_mem_toString {n : Nat} {c : Char} (h : c ∈ (toString n).toList) :
    c.isDigit := by
  rw [Nat.toString_eq_repr, Nat.toList_repr] at h
  exact Nat.isDigit_of_mem_toDigits (by decide) (by decide) h

theorem fromUTF8?_toUTF8 (s : String) : String.fromUTF8? s.toUTF8 = some s := by
  rw [String.fromUTF8?, String.toUTF8_eq_toByteArray, dif_pos s.isValidUTF8]
  rfl

end TableLexer.Text
