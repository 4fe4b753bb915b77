import TableLexer.Proofs.Lexicon.FirstSeen
import TableLexer.Proofs.Lexicon.Uses
namespace TableLexer.Lexicon

open Scan Scan.LongestMatch

/-- How a lexicon begins: from reserved words, or as an archive has it. -/
inductive Origin : Lexicon → Prop where
  | reserved (words : List String) : Origin (ofReserved words)
  | restored {archive : LexiconArchive} {k : Lexicon} : archive.restore = .ok k → Origin k

/-- Lexemes and indices lead to each other, and every token handed out leads to a lexeme. -/
structure Consistent (k : Lexicon) : Prop where
  filled : ∀ c i, ((k.table c).lexeme? i).isSome ↔ i < (k.table c).size
  indexed : ∀ c lexeme i, (k.table c).get? lexeme = some i ↔ (k.table c).lexeme? i = some lexeme
  unique : ∀ c lexeme i j, (k.table c).lexeme? i = some lexeme →
    (k.table c).lexeme? j = some lexeme → i = j
  resolved : k.Sound

/-- The lexicon `next` is `k` with these tokens handed out since: nothing in it was moved or lost,
and no keyword has come in. -/
structure Grows (k next : Lexicon) (tokens : List Token) : Prop where
  tables : ∀ c, (k.table c).lexemes <+: (next.table c).lexemes
  indices : ∀ c lexeme i, (k.table c).get? lexeme = some i → (next.table c).get? lexeme = some i
  history : next.tokens.toList = k.tokens.toList ++ tokens
  keywords : next.table .keyword = k.table .keyword

theorem Sound.consistent {k : Lexicon} (h : k.Sound) : k.Consistent where
  filled _ _ := by simp [LexemeTable.lexeme?, LexemeTable.size]
  indexed _ _ _ := LexemeTable.get?_eq_some_iff
  unique _ _ _ _ hi hj := by
    rw [← LexemeTable.get?_eq_some_iff] at hi hj
    exact Option.some.inj (hi.symm.trans hj)
  resolved := h

theorem sound_restore {archive : LexiconArchive} {k : Lexicon}
    (h : archive.restore = .ok k) : k.Sound := by
  obtain ⟨hfits, htokens, htables⟩ := LexiconArchive.restore_eq_ok_iff.mp h
  intro t ht
  rw [isSome_lexeme?_iff, htables]
  exact hfits.indices t (htokens ▸ Array.mem_toList_iff.mpr ht)

theorem Origin.sound {k : Lexicon} (h : Origin k) : k.Sound := by
  cases h with
  | reserved words => exact sound_ofReserved words
  | restored hr => exact sound_restore hr

theorem grows_useAll (k : Lexicon) (uses : List Use) :
    Grows k (k.useAll uses).2 ((k.useAll uses).1.flatMap Answer.tokens) := by
  obtain ⟨xs, htokens, hlast⟩ := exists_registerAll_useAll k uses
  rw [htokens, hlast]
  refine ⟨lexemes_prefix_registerAll k xs, fun c lexeme i hi => ?_, tokens_registerAll k xs,
    table_keyword_registerAll xs k⟩
  rw [LexemeTable.get?_eq_some_iff] at hi ⊢
  exact LexemeTable.lexeme?_of_prefix (lexemes_prefix_registerAll k xs c) hi

theorem Grows.lexeme? {k next : Lexicon} {tokens : List Token} (h : Grows k next tokens)
    {t : Token} {lexeme : String} (ht : k.lexeme? t = some lexeme) :
    next.lexeme? t = some lexeme :=
  LexemeTable.lexeme?_of_prefix (h.tables t.category) ht

theorem keyword_identifier_disjoint (words : List String) (calls : List (Terminal × String)) :
    let k := ((ofReserved words).registerAll calls).2
    (k.table .keyword).lexemes.Disjoint (k.table .identifier).lexemes := by
  intro k lexeme hkeyword hidentifier
  rw [lexemes_table_registerAll, firstSeen] at hkeyword hidentifier
  have hreserved : lexeme ∈ words := List.mem_eraseDups.mp hkeyword
  obtain ⟨call, hcall, rfl⟩ := List.mem_map.mp (List.mem_eraseDups.mp hidentifier)
  have hcategory : category words call = .identifier := by simpa using (List.mem_filter.mp hcall).2
  rw [category] at hcategory
  split at hcategory
  · cases hcategory
  · next hne =>
    have hend : call.1 = .identifierEnd := by
      cases ht : call.1 <;> rw [ht] at hcategory <;> first | rfl | cases hcategory
    exact hne ⟨hend, hreserved⟩

/-- Whatever a lexicon is used for, it stays consistent and only grows, so that a token stands for
one lexeme for good. It has the keywords that it began with, and if that was with reserved words, no
keyword is ever an identifier as well. -/
theorem useAll_consistent {start : Lexicon} (h : Origin start) (uses : List Use) :
    let k := (start.useAll uses).2
    k.Consistent ∧
      (∀ later, Grows k (k.useAll later).2 ((k.useAll later).1.flatMap Answer.tokens)) ∧
      (∀ later t lexeme, k.lexeme? t = some lexeme →
        (k.useAll later).2.lexeme? t = some lexeme) ∧
      k.table .keyword = start.table .keyword ∧
      ∀ words, start = ofReserved words →
        (k.table .keyword).lexemes.Disjoint (k.table .identifier).lexemes := by
  intro k
  refine ⟨(h.sound.useAll uses).consistent, grows_useAll k,
    fun later _ _ => (grows_useAll k later).lexeme?, (grows_useAll start uses).keywords, ?_⟩
  rintro words rfl
  obtain ⟨xs, _, hlast⟩ := exists_registerAll_useAll (ofReserved words) uses
  change ((((ofReserved words).useAll uses).2.table .keyword).lexemes).Disjoint
    (((ofReserved words).useAll uses).2.table .identifier).lexemes
  rw [hlast]
  exact keyword_identifier_disjoint words xs

/-- Accepted, though a keyword of it is an identifier as well. -/
def overlapping : LexiconArchive :=
  ⟨[⟨.identifier, 1⟩], [⟨.keyword, "", ["if", "do"]⟩, ⟨.identifier, "", ["x", "if"]⟩]⟩

theorem useAll_consistent_sample :
    let uses : List Use := [.classify "do" .identifierEnd, .classify "y" .identifierEnd]
    (∃ start, overlapping.restore = .ok start ∧ (start.useAll uses).2.Consistent ∧
      (start.useAll uses).2.table .keyword = start.table .keyword ∧
      ∀ later, ((start.useAll uses).2.useAll later).2.lexeme? ⟨.identifier, 1⟩ = some "if") ∧
      (((ofReserved ["if", "do"]).useAll uses).2.table .keyword).lexemes.Disjoint
        (((ofReserved ["if", "do"]).useAll uses).2.table .identifier).lexemes := by
  intro uses
  have hrestored : ∃ start, overlapping.restore = .ok start ∧
      (start.useAll uses).2.lexeme? ⟨.identifier, 1⟩ = some "if" := ⟨_, rfl, by decide⟩
  obtain ⟨start, hr, hlexeme⟩ := hrestored
  obtain ⟨hconsistent, _, hstays, hkeywords, _⟩ := useAll_consistent (.restored hr) uses
  obtain ⟨_, _, _, _, hdisjoint⟩ := useAll_consistent (.reserved ["if", "do"]) uses
  exact ⟨⟨start, hr, hconsistent, hkeywords, fun later => hstays later _ _ hlexeme⟩,
    hdisjoint _ rfl⟩

end TableLexer.Lexicon
