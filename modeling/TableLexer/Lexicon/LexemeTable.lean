import Std.Data.ExtTreeMap
namespace TableLexer

/-- Lexemes in the order they came, each new one at the end, and the index of each of them. -/
structure LexemeTable where
  lexemes : List String
  index : Std.ExtTreeMap String Nat
  index_iff : ∀ (lexeme : String) (i : Nat), index[lexeme]? = some i ↔ lexemes[i]? = some lexeme

namespace LexemeTable

def empty : LexemeTable where
  lexemes := []
  index := ∅
  index_iff := by simp

def get? (t : LexemeTable) (lexeme : String) : Option Nat := t.index[lexeme]?

def lexeme? (t : LexemeTable) (i : Nat) : Option String := t.lexemes[i]?

def size (t : LexemeTable) : Nat := t.lexemes.length

def entries (t : LexemeTable) : List (Nat × String) := t.lexemes.zipIdx.map Prod.swap

/-- The index finds a lexeme just where the list has it. -/
theorem get?_eq_some_iff {t : LexemeTable} {lexeme : String} {i : Nat} :
    t.get? lexeme = some i ↔ t.lexeme? i = some lexeme := t.index_iff lexeme i

theorem isSome_get?_iff {t : LexemeTable} {lexeme : String} :
    (t.get? lexeme).isSome ↔ lexeme ∈ t.lexemes := by
  simp only [Option.isSome_iff_exists, get?_eq_some_iff, lexeme?, List.mem_iff_getElem?]

theorem get?_eq_none_iff {t : LexemeTable} {lexeme : String} :
    t.get? lexeme = none ↔ lexeme ∉ t.lexemes := by
  rw [← isSome_get?_iff, Option.not_isSome_iff_eq_none]

/-- No lexeme has two indices. -/
theorem nodup (t : LexemeTable) : t.lexemes.Nodup := by
  rw [List.Nodup, List.pairwise_iff_getElem]
  intro i j hi hj hlt heq
  have hat_i := (t.index_iff t.lexemes[j] i).mpr (heq ▸ List.getElem?_eq_getElem hi)
  have hat_j := (t.index_iff t.lexemes[j] j).mpr (List.getElem?_eq_getElem hj)
  exact Nat.ne_of_lt hlt (Option.some.inj (hat_i.symm.trans hat_j))

/-- Tables that list the same lexemes find them at the same indices. -/
theorem ext_lexemes {t u : LexemeTable} (h : t.lexemes = u.lexemes) : t = u := by
  have hindex : t.index = u.index := by
    refine Std.ExtTreeMap.ext_getElem? fun lexeme => Option.ext fun i => ?_
    rw [t.index_iff, u.index_iff, h]
  cases t
  cases u
  simp_all

instance : DecidableEq LexemeTable := fun t u =>
  decidable_of_iff (t.lexemes = u.lexemes) ⟨ext_lexemes, congrArg lexemes⟩

instance : Repr LexemeTable := ⟨fun t n => reprPrec t.lexemes n⟩

theorem getElem?_concat_iff {xs : List String} {new lexeme : String} {i : Nat} :
    (xs ++ [new])[i]? = some lexeme ↔ xs[i]? = some lexeme ∨ i = xs.length ∧ new = lexeme := by
  grind

/-- A new lexeme is indexed by the number of those before it. -/
theorem index_insert_iff (t : LexemeTable) {new : String} (h : t.index[new]? = none)
    (lexeme : String) (i : Nat) :
    (t.index.insert new t.size)[lexeme]? = some i ↔ (t.lexemes ++ [new])[i]? = some lexeme := by
  rw [getElem?_concat_iff, ← t.index_iff, Std.ExtTreeMap.getElem?_insert]
  simp only [Std.LawfulEqCmp.compare_eq_iff_eq]
  by_cases hnew : new = lexeme
  · subst hnew
    simp [h, size, eq_comm]
  · simp [hnew]

/-- The index of a lexeme, which is added if it is new. -/
def intern (t : LexemeTable) (lexeme : String) : Nat × LexemeTable :=
  match h : t.index[lexeme]? with
  | some i => (i, t)
  | none =>
    (t.size,
      { lexemes := t.lexemes ++ [lexeme]
        index := t.index.insert lexeme t.size
        index_iff := t.index_insert_iff h })

theorem lexemes_intern (t : LexemeTable) (lexeme : String) :
    (t.intern lexeme).2.lexemes =
      if lexeme ∈ t.lexemes then t.lexemes else t.lexemes ++ [lexeme] := by
  unfold intern
  split
  · next i h => rw [if_pos (isSome_get?_iff.mp (Option.isSome_of_eq_some h))]
  · next h => rw [if_neg (get?_eq_none_iff.mp h)]

theorem lexeme?_intern (t : LexemeTable) (lexeme : String) :
    (t.intern lexeme).2.lexeme? (t.intern lexeme).1 = some lexeme := by
  unfold intern
  split
  · next h => exact get?_eq_some_iff.mp h
  · simp [lexeme?, size]

/-- A lexeme that is repeated keeps its first place. -/
def ofLexemes (lexemes : List String) : LexemeTable :=
  lexemes.foldl (fun t lexeme => (t.intern lexeme).2) empty

end LexemeTable

end TableLexer
