import TableLexer.Lexicon.History
import TableLexer.Proofs.Scan.Conservation
namespace TableLexer

theorem idxOf_eraseDups {x : String} {xs : List String} (h : x ∈ xs) :
    xs.eraseDups.idxOf x = (xs.takeWhile (· ≠ x)).eraseDups.length := by
  obtain ⟨front, rest, rfl, hx⟩ := List.eq_append_cons_of_mem h
  have hfront : ∀ y ∈ front, decide (y ≠ x) = true := by
    intro y hy
    have hne : y ≠ x := by
      rintro rfl
      exact hx hy
    exact decide_eq_true hne
  have hbefore : (front ++ x :: rest).takeWhile (· ≠ x) = front := by
    rw [List.takeWhile_append_of_pos hfront, List.takeWhile_cons_of_neg (by simp),
      List.append_nil]
  have hnew : x ∉ front.eraseDups := fun hm => hx (List.mem_eraseDups.mp hm)
  rw [hbefore, List.eraseDups_append, List.cons_removeAll, if_pos (by simpa using hx),
    List.eraseDups_cons, List.idxOf_append_of_notMem hnew, List.idxOf_cons_self, Nat.add_zero]

namespace LexemeTable

theorem idxOf_of_lexeme? {t : LexemeTable} {i : Nat} {lexeme : String}
    (h : t.lexeme? i = some lexeme) : t.lexemes.idxOf lexeme = i := by
  obtain ⟨hi, rfl⟩ := List.getElem?_eq_some_iff.mp h
  exact t.nodup.idxOf_getElem i hi

theorem get?_eq_idxOf? (t : LexemeTable) (lexeme : String) :
    t.get? lexeme = t.lexemes.idxOf? lexeme := by
  refine Option.ext fun i => ?_
  rw [get?_eq_some_iff, List.idxOf?_eq_some_iff, lexeme?, List.getElem?_eq_some_iff]
  constructor
  · rintro ⟨hi, he⟩
    refine ⟨hi, he, fun j hj hej => ?_⟩
    have hij : j = i := (List.getElem_inj t.nodup).mp (hej.trans he.symm)
    omega
  · rintro ⟨hi, he, _⟩
    exact ⟨hi, he⟩

end LexemeTable

namespace Lexicon

/-- The lexemes of the calls that go into a category, in order. -/
def filedIn (category : Terminal × String → Category) (c : Category)
    (calls : List (Terminal × String)) : List String :=
  (calls.filter fun call => category call = c).map Prod.snd

theorem table_registerAll (k : Lexicon) (calls : List (Terminal × String)) (c : Category) :
    (k.registerAll calls).2.table c =
      (filedIn (fun call => k.categoryOf call.2 call.1) c calls).foldl
        (fun t x => (t.intern x).2) (k.table c) := by
  induction calls generalizing k with
  | nil => rfl
  | cons call calls ih =>
    obtain ⟨t, lexeme⟩ := call
    rw [registerAll_cons, ih, table_register]
    simp only [filedIn, categoryOf_register, List.filter_cons]
    by_cases hc : k.categoryOf lexeme t = c
    · simp [hc]
    · simp [hc, Ne.symm hc]

/-- A token says where its lexeme stands in the table of its category in the end. -/
theorem registerAll_eq_map (k : Lexicon) (calls : List (Terminal × String)) :
    (k.registerAll calls).1 = calls.map fun call =>
      ⟨k.categoryOf call.2 call.1,
        ((k.registerAll calls).2.table (k.categoryOf call.2 call.1)).lexemes.idxOf call.2⟩ := by
  induction calls generalizing k with
  | nil => rfl
  | cons call calls ih =>
    obtain ⟨t, lexeme⟩ := call
    have hlexeme : ((k.register lexeme t).2.registerAll calls).2.lexeme?
        (k.register lexeme t).1 = some lexeme := lexeme?_registerAll (lexeme?_register k lexeme t) _
    have hindex := LexemeTable.idxOf_of_lexeme? hlexeme
    rw [registerAll_cons, List.map_cons, ih, categoryOf_register]
    dsimp only
    rw [← category_register, hindex]

end Lexicon

namespace Histogram

theorem get_foldl_consume (h : Histogram) (fed : List (Token × String)) (c : Category) :
    (fed.foldl (fun h x => h.consume x.1 x.2) h).get c =
      h.get c + fed.countP fun x => x.1.category = c := by
  induction fed generalizing h with
  | nil => rfl
  | cons x fed ih =>
    rw [List.foldl_cons, ih, consume, ByCategory.get_set, List.countP_cons]
    by_cases hc : c = x.1.category
    · simp [hc]; omega
    · simp [hc, Ne.symm hc]

end Histogram

namespace Lexicon

open Scan Scan.LongestMatch

variable (words : List String) (calls : List (Terminal × String))

/-- The reserved words without repeats, or all lexemes of another category as they were first
seen. -/
def firstSeen (c : Category) : List String :=
  if c = .keyword then words.eraseDups else (filedIn (category words) c calls).eraseDups

/-- The token of a call: its category by the reserved words, and a keyword's place among these or
the number of distinct lexemes seen in the category before it. -/
def firstSeenToken (call : Terminal × String) : Token where
  category := category words call
  index :=
    if category words call = .keyword then words.eraseDups.idxOf call.2
    else ((filedIn (category words) (category words call) calls).takeWhile
      (· ≠ call.2)).eraseDups.length

theorem lexemes_table_ofReserved (c : Category) :
    ((ofReserved words).table c).lexemes = if c = .keyword then words.eraseDups else [] := by
  rw [table, ofReserved, ByCategory.get_set]
  split
  · exact LexemeTable.lexemes_ofLexemes words
  · rw [ByCategory.get_replicate]
    rfl

theorem table_keyword_registerAll (k : Lexicon) :
    (k.registerAll calls).2.table .keyword = k.table .keyword := by
  induction calls generalizing k with
  | nil => rfl
  | cons call calls ih =>
    rw [registerAll_cons, ih, table_keyword_register]

theorem lexemes_table_registerAll (c : Category) :
    (((ofReserved words).registerAll calls).2.table c).lexemes = firstSeen words calls c := by
  have hstart := lexemes_table_ofReserved words c
  by_cases hc : c = .keyword
  · subst hc
    rw [table_keyword_registerAll, hstart, firstSeen]
    rfl
  · have hcategory : (fun call : Terminal × String =>
        (ofReserved words).categoryOf call.2 call.1) = category words := by
      funext call
      exact categoryOf_ofReserved words call.2 call.1
    rw [if_neg hc] at hstart
    rw [table_registerAll, LexemeTable.lexemes_foldl_intern, hstart, List.nil_append,
      hcategory, firstSeen, if_neg hc]

theorem idxOf_firstSeen {call : Terminal × String} (h : call ∈ calls) :
    (firstSeen words calls (category words call)).idxOf call.2 =
      (firstSeenToken words calls call).index := by
  rw [firstSeen, firstSeenToken]
  split
  · rfl
  · have hmem : call.2 ∈ filedIn (category words) (category words call) calls :=
      List.mem_map_of_mem (List.mem_filter.mpr ⟨h, by simp⟩)
    exact idxOf_eraseDups hmem

theorem registerAll_eq_map_firstSeenToken :
    ((ofReserved words).registerAll calls).1 = calls.map (firstSeenToken words calls) := by
  rw [registerAll_eq_map]
  apply List.map_congr_left
  intro call hm
  rw [categoryOf_ofReserved, lexemes_table_registerAll, idxOf_firstSeen words calls hm]
  rfl

theorem history_registerAll :
    ((ofReserved words).registerAll calls).2.history =
      ((ofReserved words).registerAll calls).1.zip (calls.map Prod.snd) := by
  have hresolved := congrArg (List.map fun lexeme? : Option String => lexeme?.getD "")
    (map_lexeme?_registerAll (ofReserved words) calls)
  rw [List.map_map, List.map_map, List.map_map] at hresolved
  have hlexemes : calls.map Prod.snd = ((ofReserved words).registerAll calls).1.map fun token =>
      (((ofReserved words).registerAll calls).2.lexeme? token).getD "" := hresolved.symm
  have hemitted : ((ofReserved words).registerAll calls).2.tokens.toList =
      ((ofReserved words).registerAll calls).1 := tokens_registerAll (ofReserved words) calls
  have hpairs := List.zip_map' (f := id) (g := fun token =>
    (((ofReserved words).registerAll calls).2.lexeme? token).getD "")
    (l := ((ofReserved words).registerAll calls).1)
  rw [List.map_id] at hpairs
  rw [history, hemitted, hlexemes]
  exact hpairs.symm

theorem get_histogram_registerAll (c : Category) :
    ((ofReserved words).registerAll calls).2.histogram.get c =
      calls.countP fun call => category words call = c := by
  rw [histogram, feed, history_registerAll, Histogram.get_foldl_consume, Histogram.empty,
    ByCategory.get_replicate, Nat.zero_add, registerAll_eq_map_firstSeenToken, List.zip_map',
    List.countP_map]
  rfl

/-- Registering is interning by first sight, with the reserved words put first: the tokens, the
tables, the history, what a consumer is given and the counts are all said by the calls. -/
theorem registerAll_eq_firstSeen :
    let tokens := ((ofReserved words).registerAll calls).1
    let k := ((ofReserved words).registerAll calls).2
    tokens = calls.map (firstSeenToken words calls) ∧
      (∀ c, (k.table c).lexemes = firstSeen words calls c ∧
        ∀ lexeme, (k.table c).get? lexeme = (firstSeen words calls c).idxOf? lexeme) ∧
      k.tokens.toList = tokens ∧
      (∀ {σ : Type} (consume : σ → Token → String → σ) (start : σ),
        k.feed consume start =
          (tokens.zip (calls.map Prod.snd)).foldl (fun s x => consume s x.1 x.2) start) ∧
      ∀ c, k.histogram.get c = calls.countP fun call => category words call = c := by
  intro tokens k
  have hlexemes (c : Category) : (k.table c).lexemes = firstSeen words calls c :=
    lexemes_table_registerAll words calls c
  refine ⟨registerAll_eq_map_firstSeenToken words calls, fun c => ⟨hlexemes c, fun lexeme => ?_⟩,
    tokens_registerAll (ofReserved words) calls, ?_, get_histogram_registerAll words calls⟩
  · rw [LexemeTable.get?_eq_idxOf?, hlexemes]
  intro σ consume start
  rw [feed, history_registerAll]

example : firstSeenToken ["if", "do", "if"] [(.identifierEnd, "x"), (.identifierEnd, "if"),
    (.strEnd, "if"), (.identifierEnd, "x"), (.identifierEnd, "y")] (.identifierEnd, "y") =
      ⟨.identifier, 1⟩ := by decide

end Lexicon

end TableLexer
