import TableLexer.Lexicon.Basic
import TableLexer.Proofs.Lists.EraseDups
namespace TableLexer

namespace LexemeTable

theorem intern_of_mem {t : LexemeTable} {lexeme : String} (h : lexeme ∈ t.lexemes) :
    (t.intern lexeme).2 = t :=
  ext_lexemes (by rw [lexemes_intern, if_pos h])

theorem lexemes_prefix_intern (t : LexemeTable) (lexeme : String) :
    t.lexemes <+: (t.intern lexeme).2.lexemes := by
  rw [lexemes_intern]
  split
  · exact List.prefix_rfl
  · exact List.prefix_append _ _

theorem lexeme?_of_prefix {t u : LexemeTable} (h : t.lexemes <+: u.lexemes) {i : Nat}
    {lexeme : String} (hi : t.lexeme? i = some lexeme) : u.lexeme? i = some lexeme := by
  obtain ⟨hlt, he⟩ := List.getElem?_eq_some_iff.mp hi
  obtain ⟨rest, hr⟩ := h
  rw [lexeme?, ← hr, List.getElem?_append_left hlt]
  exact hi

theorem mem_lexemes_intern {t : LexemeTable} {lexeme w : String} :
    w ∈ (t.intern lexeme).2.lexemes ↔ w ∈ t.lexemes ∨ w = lexeme := by
  rw [lexemes_intern]
  split
  · next h =>
    refine ⟨.inl, fun hw => hw.elim id ?_⟩
    rintro rfl
    exact h
  · simp

/-- Interning lexemes in turn keeps each of them at its first place. -/
theorem lexemes_foldl_intern (xs : List String) (t : LexemeTable) :
    (xs.foldl (fun t x => (t.intern x).2) t).lexemes = (t.lexemes ++ xs).eraseDups := by
  induction xs using List.reverseRecOn with
  | nil => rw [List.foldl_nil, List.append_nil, eraseDups_of_nodup t.nodup]
  | append_singleton xs x ih =>
    rw [List.foldl_append, List.foldl_cons, List.foldl_nil, lexemes_intern, ih,
      ← List.append_assoc, eraseDups_concat]
    simp only [List.mem_eraseDups]

theorem lexemes_ofLexemes (words : List String) :
    (ofLexemes words).lexemes = words.eraseDups := lexemes_foldl_intern words empty

theorem lexemes_ofLexemes_of_nodup {words : List String} (h : words.Nodup) :
    (ofLexemes words).lexemes = words := by
  rw [lexemes_ofLexemes, eraseDups_of_nodup h]

theorem mem_lexemes_ofLexemes {words : List String} {w : String} :
    w ∈ (ofLexemes words).lexemes ↔ w ∈ words := by
  rw [lexemes_ofLexemes, List.mem_eraseDups]

end LexemeTable

namespace Lexicon

theorem isSome_lexeme?_iff {k : Lexicon} {t : Token} :
    (k.lexeme? t).isSome ↔ t.index < (k.table t.category).lexemes.length := by
  simp [lexeme?, LexemeTable.lexeme?]

theorem isReserved_iff {k : Lexicon} {w : String} :
    k.isReserved w ↔ w ∈ (k.table .keyword).lexemes := LexemeTable.isSome_get?_iff

theorem isReserved_ofReserved {words : List String} {w : String} :
    (ofReserved words).isReserved w ↔ w ∈ words := by
  rw [isReserved_iff, ofReserved, table, ByCategory.get_set, if_pos rfl]
  exact LexemeTable.mem_lexemes_ofLexemes

/-- Save for identifiers, a token is of the category it ended as. -/
theorem categoryOf_eq_category_iff {k : Lexicon} {lexeme : String} {t u : Terminal}
    (hu : u ≠ .identifierEnd) : k.categoryOf lexeme t = u.category ↔ t = u := by
  unfold categoryOf
  split
  · next h =>
    simp only [Bool.and_eq_true, decide_eq_true_eq] at h
    rw [h.1]
    cases u <;> simp_all [Terminal.category]
  · cases t <;> cases u <;> simp [Terminal.category]

theorem categoryOf_eq_illegal_iff {k : Lexicon} {lexeme : String} {t : Terminal} :
    k.categoryOf lexeme t = .illegal ↔ t = .illegal :=
  categoryOf_eq_category_iff (by simp : Terminal.illegal ≠ _)

theorem categoryOf_eq_comment_iff {k : Lexicon} {lexeme : String} {t : Terminal} :
    k.categoryOf lexeme t = .comment ↔ t = .commentEnd :=
  categoryOf_eq_category_iff (by simp : Terminal.commentEnd ≠ _)

theorem category_register (k : Lexicon) (lexeme : String) (t : Terminal) :
    (k.register lexeme t).1.category = k.categoryOf lexeme t := rfl

theorem table_register (k : Lexicon) (lexeme : String) (t : Terminal) (c : Category) :
    (k.register lexeme t).2.table c =
      if c = k.categoryOf lexeme t then ((k.table c).intern lexeme).2 else k.table c := by
  simp only [register, table, ByCategory.get_set]
  split
  · next h => rw [h]
  · rfl

theorem lexemes_prefix_register (k : Lexicon) (lexeme : String) (t : Terminal) (c : Category) :
    (k.table c).lexemes <+: ((k.register lexeme t).2.table c).lexemes := by
  rw [table_register]
  split
  · exact LexemeTable.lexemes_prefix_intern _ _
  · exact List.prefix_rfl

/-- Only a reserved word is filed as a keyword, so the keywords never change. -/
theorem table_keyword_register (k : Lexicon) (lexeme : String) (t : Terminal) :
    (k.register lexeme t).2.table .keyword = k.table .keyword := by
  rw [table_register]
  split
  · next h =>
    -- only a reserved word comes here, and that is in the table already
    refine LexemeTable.intern_of_mem (isReserved_iff.mp ?_)
    unfold categoryOf at h
    split at h
    · next hr =>
      simp only [Bool.and_eq_true] at hr
      exact hr.2
    · cases t <;> cases h
  · rfl

theorem categoryOf_register (k : Lexicon) (lexeme : String) (t : Terminal) :
    (k.register lexeme t).2.categoryOf = k.categoryOf := by
  funext w u
  have h : (k.register lexeme t).2.isReserved w = k.isReserved w := by
    rw [isReserved, table_keyword_register, isReserved]
  rw [categoryOf, h, categoryOf]

theorem lexeme?_register (k : Lexicon) (lexeme : String) (t : Terminal) :
    (k.register lexeme t).2.lexeme? (k.register lexeme t).1 = some lexeme := by
  rw [lexeme?, table_register, if_pos (category_register k lexeme t)]
  exact LexemeTable.lexeme?_intern _ _

/-- Registers lexemes in turn; the tokens they become come first. -/
def registerAll (k : Lexicon) : List (Terminal × String) → List Token × Lexicon
  | [] => ([], k)
  | (t, lexeme) :: rest =>
    let (token, next) := k.register lexeme t
    let (tokens, last) := next.registerAll rest
    (token :: tokens, last)

theorem registerAll_cons (k : Lexicon) (t : Terminal) (lexeme : String)
    (rest : List (Terminal × String)) :
    k.registerAll ((t, lexeme) :: rest) =
      ((k.register lexeme t).1 :: ((k.register lexeme t).2.registerAll rest).1,
        ((k.register lexeme t).2.registerAll rest).2) := rfl

theorem registerAll_append (k : Lexicon) (xs ys : List (Terminal × String)) :
    k.registerAll (xs ++ ys) =
      ((k.registerAll xs).1 ++ ((k.registerAll xs).2.registerAll ys).1,
        ((k.registerAll xs).2.registerAll ys).2) := by
  induction xs generalizing k with
  | nil => rfl
  | cons x xs ih =>
    obtain ⟨t, lexeme⟩ := x
    rw [List.cons_append, registerAll_cons, ih, registerAll_cons]
    rfl

theorem lexemes_prefix_registerAll (k : Lexicon) (xs : List (Terminal × String)) (c : Category) :
    (k.table c).lexemes <+: ((k.registerAll xs).2.table c).lexemes := by
  induction xs generalizing k with
  | nil => exact List.prefix_rfl
  | cons x xs ih => exact (lexemes_prefix_register k x.2 x.1 c).trans (ih _)

theorem lexeme?_registerAll {k : Lexicon} {token : Token} {lexeme : String}
    (h : k.lexeme? token = some lexeme) (xs : List (Terminal × String)) :
    (k.registerAll xs).2.lexeme? token = some lexeme :=
  LexemeTable.lexeme?_of_prefix (lexemes_prefix_registerAll k xs token.category) h

theorem registerAll_tokens (k : Lexicon) (xs : List (Terminal × String)) :
    (k.registerAll xs).1.map (fun token => (token.category, (k.registerAll xs).2.lexeme? token)) =
      xs.map fun x => (k.categoryOf x.2 x.1, some x.2) := by
  induction xs generalizing k with
  | nil => rfl
  | cons x xs ih =>
    obtain ⟨t, lexeme⟩ := x
    rw [registerAll_cons, List.map_cons, List.map_cons, ih, categoryOf_register,
      lexeme?_registerAll (lexeme?_register k lexeme t)]
    rfl

theorem exists_of_mem_registerAll {k : Lexicon} {xs : List (Terminal × String)} {token : Token}
    (h : token ∈ (k.registerAll xs).1) : ∃ x ∈ xs, k.categoryOf x.2 x.1 = token.category := by
  have hmem : (token.category, (k.registerAll xs).2.lexeme? token) ∈
      (k.registerAll xs).1.map fun token =>
        (token.category, (k.registerAll xs).2.lexeme? token) := List.mem_map_of_mem h
  rw [registerAll_tokens] at hmem
  obtain ⟨x, hx, he⟩ := List.mem_map.mp hmem
  exact ⟨x, hx, congrArg Prod.fst he⟩

theorem tokens_registerAll (k : Lexicon) (xs : List (Terminal × String)) :
    (k.registerAll xs).2.tokens.toList = k.tokens.toList ++ (k.registerAll xs).1 := by
  induction xs generalizing k with
  | nil => simp [registerAll]
  | cons x xs ih =>
    obtain ⟨t, lexeme⟩ := x
    have hpush : (k.register lexeme t).2.tokens = k.tokens.push (k.register lexeme t).1 := rfl
    rw [registerAll_cons, ih, hpush, Array.toList_push, List.append_assoc]
    rfl

end Lexicon

end TableLexer
