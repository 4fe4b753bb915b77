import TableLexer.Proofs.Lexicon.FirstSeen
import TableLexer.Proofs.Scan.Accounting
namespace TableLexer

namespace LexemeTable

theorem size_intern_le (t : LexemeTable) (lexeme : String) :
    (t.intern lexeme).2.size ≤ t.size + 1 := by
  rw [size, lexemes_intern]
  split
  · exact Nat.le_succ _
  · rw [List.length_append]
    exact Nat.le_refl _

theorem size_foldl_intern_le (xs : List String) (t : LexemeTable) :
    (xs.foldl (fun t x => (t.intern x).2) t).size ≤ t.size + xs.length := by
  induction xs generalizing t with
  | nil => exact Nat.le_refl _
  | cons x xs ih =>
    have hstep := size_intern_le t x
    have hrest := ih (t.intern x).2
    rw [List.foldl_cons, List.length_cons]
    omega

end LexemeTable

namespace Lexicon

theorem size_table_ofReserved_le (words : List String) (c : Category) :
    ((ofReserved words).table c).size ≤ words.length := by
  rw [table, ofReserved, ByCategory.get_set]
  split
  · have h := LexemeTable.size_foldl_intern_le words .empty
    rwa [show LexemeTable.empty.size = 0 from rfl, Nat.zero_add] at h
  · rw [ByCategory.get_replicate]
    exact Nat.zero_le _

theorem size_table_registerAll_le (words : List String) (calls : List (Terminal × String))
    (c : Category) :
    (((ofReserved words).registerAll calls).2.table c).size ≤ words.length + calls.length := by
  have hstart := size_table_ofReserved_le words c
  have hgrowth := LexemeTable.size_foldl_intern_le
    (filedIn (fun call => (ofReserved words).categoryOf call.2 call.1) c calls)
    ((ofReserved words).table c)
  have hfiled : (filedIn (fun call => (ofReserved words).categoryOf call.2 call.1) c calls).length ≤
      calls.length := by
    rw [filedIn, List.length_map]
    exact List.length_filter_le _ _
  rw [table_registerAll]
  omega

end Lexicon

namespace Scan

open Alphabet

theorem length_tokens_le (text : List Char) :
    (LongestMatch.tokens text).length ≤ text.countP fun c => !isBlank c := by
  induction text using LongestMatch.tokens.induct with
  | case1 =>
    rw [LongestMatch.tokens_nil]
    exact Nat.zero_le _
  | case2 c rest hb ih =>
    rwa [LongestMatch.tokens_of_isBlank hb, List.countP_cons_of_neg (by simp [hb])]
  | case3 c rest hb ih =>
    have hb : isBlank c = false := by simpa using hb
    obtain ⟨d, more, hlexeme⟩ :=
      List.exists_cons_of_ne_nil (LongestMatch.first_lexeme_ne_nil c rest)
    have hsplit := LongestMatch.first_split c rest
    rw [hlexeme, List.cons_append] at hsplit
    have hsuffix : (LongestMatch.first c rest).rest <:+ rest := ⟨more, (List.cons.inj hsplit).2⟩
    have hcount := hsuffix.countP_le (p := fun c => !isBlank c)
    rw [LongestMatch.tokens_of_first hb, List.length_cons, List.countP_cons_of_pos (by simp [hb])]
    omega

theorem countP_splitLines_le (text : List Char) :
    ((Text.splitLines text).flatMap fun line => line ++ [' ']).countP (fun c => !isBlank c) ≤
      text.length := by
  have hblank : [' '].countP (fun c => !isBlank c) = 0 := by decide
  have hcons (c : Char) (cs : List Char) : (c :: cs).countP (fun c => !isBlank c) ≤
      cs.countP (fun c => !isBlank c) + 1 := by
    rw [List.countP_cons]
    split <;> omega
  induction text using Text.splitLines.induct with
  | case1 => exact Nat.le_refl 0
  | case2 rest ih | case3 rest ih =>
    rw [Text.splitLines, List.flatMap_cons, List.nil_append, List.countP_append, hblank]
    simp only [List.length_cons]
    omega
  | case4 c rest hc hr hnil ih =>
    rw [Text.splitLines.eq_4 c rest hc hr, hnil]
    have h := hcons c [' ']
    simp only [List.flatMap_singleton, List.singleton_append, List.length_cons]
    omega
  | case5 c rest hc hr line lines hlines ih =>
    rw [hlines] at ih
    rw [Text.splitLines.eq_4 c rest hc hr, hlines]
    have h := hcons c ((line :: lines).flatMap fun line => line ++ [' '])
    rw [List.length_cons]
    exact Nat.le_trans h (Nat.succ_le_succ ih)

theorem length_entries_le {options : ScanOptions} {s : Scanner}
    (hs : Scanner.Reachable options s) (source : String) :
    (s.move source).entries.length ≤ source.length := by
  have hprefix := (entries_prefix_tokens hs source).length_le
  have htokens := length_tokens_le (streamText source)
  have hstream := countP_splitLines_le source.toList
  rw [String.length_toList] at hstream
  rw [← streamText] at hstream
  omega

end Scan

end TableLexer
