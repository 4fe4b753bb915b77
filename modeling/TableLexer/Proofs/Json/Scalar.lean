import TableLexer.Json.Lexer
import TableLexer.Json.Printer
import TableLexer.Proofs.Text.Chars
namespace TableLexer.Json

namespace Lexer

/-- Reads characters from the left. -/
def feed (l : Lexer) (cs : List Char) : Option Lexer := (cs.map some).foldlM step l

theorem feed_nil (l : Lexer) : l.feed [] = some l := rfl

theorem feed_cons (l : Lexer) (c : Char) (cs : List Char) :
    l.feed (c :: cs) = (l.step (some c)).bind fun l => l.feed cs := rfl

theorem feed_append (l : Lexer) (cs ds : List Char) :
    l.feed (cs ++ ds) = (l.feed cs).bind fun l => l.feed ds := by
  rw [feed, List.map_append, List.foldlM_append]
  rfl

section Text

variable (ps : Array Piece) (s : String)

/-- Text of which `s` has been read. -/
def within : Lexer := ⟨.text ⟨some s, none⟩, ps⟩

theorem feed_plain {c : Char} (hq : c ≠ '"') (hb : c ≠ '\\') (hc : ¬c.toNat < 0x20) :
    (within ps s).feed [c] = some (within ps (s.push c)) := by
  simp [feed_cons, feed_nil, within, step, inText, hq, hb, hc, Draft.addChar]

theorem feed_escaped {c e : Char} (hu : c ≠ 'u') (he : escaped? c = some e) :
    (within ps s).feed ['\\', c] = some (within ps (s.push e)) := by
  simp [feed_cons, feed_nil, within, step, inText, hu, he, Draft.addChar]

theorem hexValue?_hexDigit {n : Nat} (hn : n < 16) : hexValue? (hexDigit n) = some n := by
  have hall : ∀ n, n < 16 → hexValue? (hexDigit n) = some n := by decide
  exact hall n hn

theorem feed_control {c : Char} (hc : c.toNat < 0x20) :
    (within ps s).feed ['\\', 'u', '0', '0', hexDigit (c.toNat / 16), hexDigit (c.toNat % 16)] =
      some (within ps (s.push c)) := by
  have hzero : hexValue? '0' = some 0 := by decide
  have hhigh : hexValue? (hexDigit (c.toNat / 16)) = some (c.toNat / 16) :=
    hexValue?_hexDigit (by omega)
  have hlow : hexValue? (hexDigit (c.toNat % 16)) = some (c.toNat % 16) :=
    hexValue?_hexDigit (by omega)
  have hvalue : c.toNat / 16 * 16 + c.toNat % 16 = c.toNat := by omega
  -- a control character is no half of a surrogate pair
  have hnot : Draft.isHigh c.toNat = false ∧ Draft.isLow c.toNat = false := by
    simp only [Draft.isHigh, Draft.isLow, Bool.and_eq_false_iff, decide_eq_false_iff_not]
    omega
  simp [feed_cons, feed_nil, within, step, inText, hzero, hhigh, hlow, hvalue, Draft.addUnit,
    hnot, Draft.addChar, Char.ofNat_toNat]

theorem feed_escapeChar (c : Char) :
    (within ps s).feed (escapeChar c) = some (within ps (s.push c)) := by
  unfold escapeChar
  split
  · next h => subst h; exact feed_escaped ps s (by decide) rfl
  split
  · next h => subst h; exact feed_escaped ps s (by decide) rfl
  split
  · next h => subst h; exact feed_escaped ps s (by decide) rfl
  split
  · next h => subst h; exact feed_escaped ps s (by decide) rfl
  split
  · next h => subst h; exact feed_escaped ps s (by decide) rfl
  split
  · next h => subst h; exact feed_escaped ps s (by decide) rfl
  split
  · next h => subst h; exact feed_escaped ps s (by decide) rfl
  split
  · next h => exact feed_control ps s h
  · next hq hb _ _ _ _ _ hc => exact feed_plain ps s hq hb hc

theorem feed_flatMap_escapeChar (cs : List Char) :
    (within ps s).feed (cs.flatMap escapeChar) = some (within ps (s ++ String.ofList cs)) := by
  induction cs generalizing s with
  | nil => simp [feed_nil]
  | cons c cs ih =>
    have hpush : s.push c ++ String.ofList cs = s ++ String.ofList (c :: cs) := by
      apply String.toList_inj.mp
      simp
    rw [List.flatMap_cons, feed_append, feed_escapeChar, Option.bind_some, ih, hpush]

theorem feed_quote : feed ⟨.between, ps⟩ (quote s) =
    some ⟨.between, ps.push (.scalar (.text (some s)))⟩ := by
  have hopen : step ⟨.between, ps⟩ (some '"') = some (within ps "") := rfl
  have hclose (t : String) : (within ps t).feed ['"'] =
      some ⟨.between, ps.push (.scalar (.text (some t)))⟩ := rfl
  rw [quote, List.cons_append, feed_cons, hopen, Option.bind_some, feed_append,
    feed_flatMap_escapeChar, Option.bind_some, String.ofList_toList, String.empty_append, hclose]

/-- Text is read back, also where it is no Unicode text. -/
theorem feed_print_text (value? : Option String) :
    feed ⟨.between, ps⟩ (Scalar.text value?).print =
      some ⟨.between, ps.push (.scalar (.text value?))⟩ := by
  cases value? with
  | some s => exact feed_quote ps s
  | none => rfl

end Text

end Lexer

section Number

theorem head?_toDigits_ne_zero {n : Nat} (hn : 0 < n) : (Nat.toDigits 10 n).head? ≠ some '0' := by
  -- the first digit of a number is that of a tenth of it, down to a single digit
  induction n using Nat.strongRecOn with
  | ind n ih =>
    by_cases h : n < 10
    · have hall : ∀ n, n < 10 → 0 < n → [n.digitChar].head? ≠ some '0' := by decide
      rw [Nat.toDigits_of_lt_base h]
      exact hall n h hn
    · have hrest := ih (n / 10) (by omega) (by omega)
      rw [Nat.toDigits_of_base_le (by decide) (by omega), List.head?_append]
      cases hd : (Nat.toDigits 10 (n / 10)).head? with
      | none => exact absurd (List.head?_eq_none_iff.mp hd) Nat.toDigits_ne_nil
      | some d => rwa [hd] at hrest

theorem badWhole_of_head?_ne {cs : List Char} (h : cs ≠ []) (h0 : cs.head? ≠ some '0') :
    badWhole cs = false := by
  match cs with
  | [] => exact absurd rfl h
  | [_] => rfl
  | c :: _ :: _ =>
    have hc : c ≠ '0' := fun he => h0 (congrArg some he)
    simp [badWhole, hc]

theorem badWhole_toDigits (n : Nat) : badWhole (Nat.toDigits 10 n) = false := by
  cases n with
  | zero => rfl
  | succ n =>
    exact badWhole_of_head?_ne Nat.toDigits_ne_nil (head?_toDigits_ne_zero (Nat.succ_pos n))

theorem isDigit_of_mem_toDigits {n : Nat} : ∀ c ∈ Nat.toDigits 10 n, c.isDigit :=
  fun _ => Nat.isDigit_of_mem_toDigits (by decide) (by decide)

theorem ofNumber?_toDigits (n : Nat) :
    Scalar.ofNumber? (Nat.toDigits 10 n) = some (.number (some n)) := by
  have hminus : (Nat.toDigits 10 n).head? ≠ some '-' := by
    intro h
    have hd := isDigit_of_mem_toDigits _ (List.mem_of_head? h)
    exact absurd hd (by decide)
  have htake := Text.takeWhile_of_forall (isDigit_of_mem_toDigits (n := n))
  have hdrop := Text.dropWhile_of_forall (isDigit_of_mem_toDigits (n := n))
  have hneg : ((Nat.toDigits 10 n).head? == some '-') = false := by simpa using hminus
  simp only [Scalar.ofNumber?, hneg, Bool.false_eq_true, if_false, htake, hdrop,
    badWhole_toDigits, afterFraction?, Option.bind_some, afterExponent?,
    Nat.ofDigitChars_ten_toDigits]
  rfl

/-- A scalar that is no text. -/
def Scalar.isWord : Scalar → Bool
  | .text _ => false
  | _ => true

theorem ofWord?_print {s : Scalar} (h : s.isWord) : Scalar.ofWord? s.print = some s := by
  cases s with
  | null => rfl
  | bool b => cases b <;> rfl
  | text value? => cases h
  | number value? =>
    cases value? with
    | none => rfl
    | some n =>
      have hne (word : List Char) (c : Char) (hc : c ∈ word) (hd : c.isDigit = false) :
          Nat.toDigits 10 n ≠ word := by
        rintro rfl
        simp [isDigit_of_mem_toDigits c hc] at hd
      have hnull := hne "null".toList 'n' (by decide) (by decide)
      have htrue := hne "true".toList 't' (by decide) (by decide)
      have hfalse := hne "false".toList 'f' (by decide) (by decide)
      change Scalar.ofWord? (Nat.toDigits 10 n) = _
      rw [Scalar.ofWord?, if_neg hnull, if_neg htrue, if_neg hfalse]
      exact ofNumber?_toDigits n

theorem all_print {s : Scalar} (h : s.isWord) : s.print.all fun c => !Lexer.endsWord c := by
  cases s with
  | null => decide
  | bool b => cases b <;> decide
  | text value? => cases h
  | number value? =>
    cases value? with
    | none => decide
    | some n =>
      apply List.all_eq_true.mpr
      intro c hc
      exact Text.forall_of_isDigit (p := fun c => !Lexer.endsWord c) (by decide)
        (isDigit_of_mem_toDigits c hc)

theorem print_ne_nil {s : Scalar} (h : s.isWord) : s.print ≠ [] := by
  cases s with
  | null => decide
  | bool b => cases b <;> decide
  | text value? => cases h
  | number value? =>
    cases value? with
    | none => decide
    | some n => exact Nat.toDigits_ne_nil

end Number

end TableLexer.Json
