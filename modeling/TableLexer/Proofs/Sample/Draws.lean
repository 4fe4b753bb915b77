import TableLexer.Proofs.Scan.Assembly
import TableLexer.Sample
namespace TableLexer.Sample

open Lexical RandomSource Scan LongestMatch

variable {ρ : Type} [RandomSource ρ]

theorem pick_mem {α : Type} {items : List α} (h : items ≠ []) (otherwise : α) (r : ρ) :
    (pick items otherwise r).1 ∈ items := by
  rw [pick, dif_pos (List.length_pos_iff.mpr h)]
  exact List.getElem_mem _

theorem pickChars_subset {chars : List Char} (h : chars ≠ []) (n : Nat) (r : ρ) :
    (pickChars chars n r).1 ⊆ chars := by
  induction n generalizing r with
  | zero => exact List.nil_subset _
  | succ n ih =>
    rw [pickChars]
    exact List.cons_subset.mpr ⟨pick_mem h ' ' r, ih _⟩

/-- The state that has read what a token of a sample is written with. A word is an identifier just
if it is not reserved. -/
inductive Writes : Category × String → State → Prop where
  | identifier {text : String} : Spells .identifier text.toList →
      text ∉ Lexicon.defaultReserved → Writes (.identifier, text) .identifier
  | keyword {text : String} : Spells .identifier text.toList →
      text ∈ Lexicon.defaultReserved → Writes (.keyword, text) .identifier
  | whole {text : String} : Spells .constantNoDot text.toList →
      Writes (.constant, text) .constantNoDot
  | fraction {text : String} : Spells .constantWithDot text.toList →
      Writes (.constant, text) .constantWithDot
  | quoted {text : String} : Spells .quoteClose text.toList → Writes (.str, text) .quoteClose
  | operator {s : State} : isOperator s → Writes (.symbol, s.name) s
  | point : Writes (.symbol, ".") .dot

theorem wordHeads_isWordStart : ∀ c ∈ wordHeads, Alphabet.isWordStart c :=
  List.all_eq_true.mp (by decide)

theorem wordTails_isWord : ∀ c ∈ wordTails, Alphabet.isWord c := List.all_eq_true.mp (by decide)

theorem stringChars_isQuotable : ∀ c ∈ stringChars, isQuotable c := by
  have hall : ∀ c ∈ stringChars, c != '\'' && Alphabet.sigma.toList.contains c :=
    List.all_eq_true.mp (by decide)
  intro c hc
  obtain ⟨hq, hs⟩ := Bool.and_eq_true_iff.mp (hall c hc)
  exact isQuotable_of_contains ((Alphabet.contains_standard c).trans hs) (bne_iff_ne.mp hq)

theorem isWord_of_isWordStart {c : Char} (h : Alphabet.isWordStart c) : Alphabet.isWord c := by
  rw [Alphabet.isWord_eq, h, Bool.true_or]

theorem prefixed_not_mem_defaultReserved (word : String) :
    "v_" ++ word ∉ Lexicon.defaultReserved := by
  have hall : ∀ w ∈ Lexicon.defaultReserved, w.toList.take 2 ≠ ['v', '_'] := by decide
  intro hm
  exact hall _ hm (by simp)

theorem writes_word {head : Char} {tail : List Char} (hhead : head ∈ wordHeads)
    (htail : tail ⊆ wordTails) :
    Writes (.identifier, if String.ofList (head :: tail) ∈ Lexicon.defaultReserved
      then "v_" ++ String.ofList (head :: tail) else String.ofList (head :: tail)) .identifier := by
  have hstart : Alphabet.isWordStart head := wordHeads_isWordStart head hhead
  have hrest : ∀ c ∈ tail, Alphabet.isWord c := fun c hc => wordTails_isWord c (htail hc)
  split
  · have hlong : ∀ c ∈ '_' :: head :: tail, Alphabet.isWord c :=
      List.forall_mem_cons.mpr ⟨by decide,
        List.forall_mem_cons.mpr ⟨isWord_of_isWordStart hstart, hrest⟩⟩
    refine .identifier ⟨'v', '_' :: head :: tail, ?_, by decide, hlong⟩
      (prefixed_not_mem_defaultReserved _)
    have hprefix : "v_".toList = ['v', '_'] := by decide
    rw [String.toList_append, hprefix, String.toList_ofList]
    rfl
  · next hn => exact .identifier ⟨head, tail, String.toList_ofList, hstart, hrest⟩ hn

theorem writes_identifier (r : ρ) : Writes (.identifier, (identifier r).1) .identifier :=
  writes_word (pick_mem (by decide) ' ' r) (pickChars_subset (by decide) _ _)

theorem writes_keyword (r : ρ) :
    Writes (.keyword, (pick Lexicon.defaultReserved "" r).1) .identifier := by
  have hall : ∀ w ∈ Lexicon.defaultReserved,
      w.toList.head?.any Alphabet.isWordStart && w.toList.tail.all Alphabet.isWord := by decide
  have hm : (pick Lexicon.defaultReserved "" r).1 ∈ Lexicon.defaultReserved :=
    pick_mem (by decide) "" r
  have hword := hall _ hm
  cases hw : (pick Lexicon.defaultReserved "" r).1.toList with
  | nil => simp [hw] at hword
  | cons c rest =>
    obtain ⟨hc, hrest⟩ : Alphabet.isWordStart c ∧ ∀ d ∈ rest, Alphabet.isWord d := by
      simpa [hw] using hword
    exact .keyword ⟨c, rest, hw, hc, hrest⟩ hm

theorem toList_toString_ne_nil (n : Nat) : (toString n).toList ≠ [] := by
  rw [Nat.toString_eq_repr, Nat.toList_repr]
  exact Nat.toDigits_ne_nil

theorem writes_whole (n : Nat) : Writes (.constant, toString n) .constantNoDot := by
  obtain ⟨c, rest, hn⟩ := List.exists_cons_of_ne_nil (toList_toString_ne_nil n)
  have hdigits : ∀ d ∈ c :: rest, d.isDigit := fun d hd => Text.isDigit_of_mem_toString (hn ▸ hd)
  exact .whole ⟨c, rest, hn, hdigits c (by simp), fun d hd => hdigits d (by simp [hd])⟩

theorem writes_fraction {whole : String} (h : ∀ c ∈ whole.toList, c.isDigit) (n : Nat) :
    Writes (.constant, whole ++ ("." ++ toString n)) .constantWithDot := by
  refine .fraction ⟨whole.toList, (toString n).toList, ?_, h,
    fun c => Text.isDigit_of_mem_toString, .inr (toList_toString_ne_nil n)⟩
  rw [String.toList_append, String.toList_append]
  rfl

theorem writes_number (r : ρ) : ∃ s, Writes (.constant, (number r).1) s := by
  unfold number
  dsimp only
  split
  · exact ⟨_, writes_whole _⟩
  split
  · exact ⟨_, writes_fraction (fun c => Text.isDigit_of_mem_toString) _⟩
  · have hnone : ∀ c ∈ "".toList, c.isDigit := by simp
    have h := writes_fraction hnone
      (below 1000 (by decide) (below 3 (by decide) (below 100000 (by decide) r).2).2).1.val
    rw [String.empty_append] at h
    exact ⟨_, h⟩

theorem writes_quoted (r : ρ) : Writes (.str, (quoted r).1) .quoteClose := by
  refine .quoted ⟨(pickChars stringChars _ _).1, String.toList_ofList, fun c hc => ?_⟩
  exact stringChars_isQuotable c (pickChars_subset (by decide) _ _ hc)

theorem writes_symbol (r : ρ) : ∃ s, Writes (.symbol, (pick symbols "" r).1) s := by
  have hall : ∀ text ∈ symbols, text = "." ∨ ∃ s ∈ State.all, isOperator s ∧ text = s.name := by
    decide
  rcases hall _ (pick_mem (by decide) "" r) with h | ⟨s, _, hs, h⟩
  · rw [h]
    exact ⟨_, .point⟩
  · rw [h]
    exact ⟨s, .operator hs⟩

theorem exists_writes_token (r : ρ) : ∃ s, Writes (token r).1 s := by
  unfold token
  dsimp only
  split
  · exact ⟨_, writes_identifier _⟩
  split
  · exact ⟨_, writes_keyword _⟩
  split
  · exact writes_number _
  split
  · exact ⟨_, writes_quoted _⟩
  · exact writes_symbol _

end TableLexer.Sample
