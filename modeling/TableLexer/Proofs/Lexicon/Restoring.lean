import TableLexer.Proofs.Lexicon.Growth
namespace TableLexer.LexiconArchive

theorem nodup_entriesOf {a : LexiconArchive} (h : a.FitsTogether) (c : Category) :
    (a.entriesOf c).Nodup := by
  unfold entriesOf
  cases hfind : a.tables.find? fun t => t.category = c with
  | none => exact List.nodup_nil
  | some t => exact h.entries t (List.mem_of_find?_eq_some hfind)

theorem exists_restore {a : LexiconArchive} (h : a.FitsTogether) : ∃ k, a.restore = .ok k := by
  let filled (c : Category) : LexemeTable := LexemeTable.ofLexemes (a.entriesOf c)
  refine ⟨⟨⟨filled .constant, filled .str, filled .symbol, filled .comment, filled .identifier,
    filled .keyword, filled .illegal⟩, a.tokens.toArray⟩, restore_eq_ok_iff.mpr ⟨h, rfl, ?_⟩⟩
  intro c
  have hlexemes := LexemeTable.lexemes_ofLexemes_of_nodup (nodup_entriesOf h c)
  cases c <;> exact hlexemes

/-- An archive is accepted if it fits together, and only then. All of it is in the lexicon, whose
own archive has the tables in their usual order and under their usual names, and leads back to the
same lexicon. -/
theorem restore_exact (a : LexiconArchive) :
    ((∃ k, a.restore = .ok k) ↔ a.FitsTogether) ∧
      ∀ k, a.restore = .ok k →
        k.tokens.toList = a.tokens ∧
          (∀ c, (k.table c).lexemes = a.entriesOf c ∧
            ∀ lexeme, (k.table c).get? lexeme = (a.entriesOf c).idxOf? lexeme) ∧
          ofLexicon k = ⟨a.tokens, Category.all.map fun c => ⟨c, c.name, a.entriesOf c⟩⟩ ∧
          (ofLexicon k).restore = .ok k := by
  refine ⟨⟨fun ⟨k, hk⟩ => (restore_eq_ok_iff.mp hk).1, exists_restore⟩, fun k hk => ?_⟩
  obtain ⟨_, htokens, htables⟩ := restore_eq_ok_iff.mp hk
  refine ⟨htokens, fun c => ⟨htables c, fun lexeme => ?_⟩, ?_,
    restore_ofLexicon (Lexicon.sound_restore hk)⟩
  · rw [LexemeTable.get?_eq_idxOf?, htables]
  · unfold ofLexicon
    simp only [htokens, htables]

/-- Two tables, the later category first, and under names of their own. -/
def shuffled : LexiconArchive :=
  ⟨[⟨.identifier, 1⟩, ⟨.str, 0⟩], [⟨.identifier, "names", ["y", "x"]⟩, ⟨.str, "", ["'x'"]⟩]⟩

theorem restore_exact_shuffled :
    ∃ k, shuffled.restore = .ok k ∧ k.lexeme? ⟨.identifier, 1⟩ = some "x" ∧
      ofLexicon k = ⟨[⟨.identifier, 1⟩, ⟨.str, 0⟩],
        [⟨.constant, "constant_end", []⟩, ⟨.str, "str_end", ["'x'"]⟩, ⟨.symbol, "symbol_end", []⟩,
          ⟨.comment, "comment_end", []⟩, ⟨.identifier, "identifier_end", ["y", "x"]⟩,
          ⟨.keyword, "keyword_end", []⟩, ⟨.illegal, "illegal", []⟩]⟩ ∧
      (ofLexicon k).restore = .ok k := by
  have hfits : shuffled.FitsTogether := ⟨by decide, by decide, by decide⟩
  obtain ⟨hiff, hall⟩ := restore_exact shuffled
  obtain ⟨k, hk⟩ := hiff.mpr hfits
  obtain ⟨_, htables, harchive, hagain⟩ := hall k hk
  refine ⟨k, hk, ?_, harchive, hagain⟩
  rw [Lexicon.lexeme?, LexemeTable.lexeme?, (htables _).1]
  rfl

end TableLexer.LexiconArchive
