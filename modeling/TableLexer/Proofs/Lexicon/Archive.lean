import TableLexer.Lexicon.Archive
import TableLexer.Proofs.Json.Fields
import TableLexer.Proofs.Json.RoundTrip
import TableLexer.Proofs.Lexicon.Registration
namespace TableLexer

open Json

theorem Category.ofKey?_key (c : Category) : Category.ofKey? c.key = some c := by cases c <;> rfl

theorem Category.mem_all (c : Category) : c ∈ Category.all := by cases c <;> decide

theorem variant?_key (c : Category) :
    (ofText c.key).variant?.bind Category.ofKey? = some c := Category.ofKey?_key c

theorem Token.ofJson?_toJson {t : Token} (h : t.index < Token.indexBound) :
    Token.ofJson? t.toJson = some t := by
  have hr : t.toJson.record? ["category", "index"] =
      some [ofText t.category.key, ofNat t.index] := record?_ofFields (by simp)
  simp only [Token.ofJson?, hr, Option.bind_eq_bind, Option.bind_some, variant?_key,
    natBelow?_ofNat h]
  rfl

theorem ArchivedTable.ofJson?_toJson (t : ArchivedTable) :
    ArchivedTable.ofJson? t.toJson = some t := by
  have hr : t.toJson.record? ["category", "name", "entries"] =
      some [ofText t.category.key, ofText t.name, ofList ofText t.entries] :=
    record?_ofFields (by simp)
  have hl : (ofList ofText t.entries).listOf? text? = some t.entries :=
    listOf?_ofList fun s _ => text?_ofText s
  simp only [ArchivedTable.ofJson?, hr, Option.bind_eq_bind, Option.bind_some, variant?_key,
    text?_ofText, hl]
  rfl

namespace LexiconArchive

theorem ofJson?_toJson {a : LexiconArchive} (h : ∀ t ∈ a.tokens, t.index < Token.indexBound) :
    ofJson? a.toJson = some a := by
  have hr : a.toJson.record? ["tokens", "tables"] =
      some [ofList Token.toJson a.tokens, ofList ArchivedTable.toJson a.tables] :=
    record?_ofFields (by simp)
  have htokens : (ofList Token.toJson a.tokens).listOf? Token.ofJson? = some a.tokens :=
    listOf?_ofList fun t ht => Token.ofJson?_toJson (h t ht)
  have htables : (ofList ArchivedTable.toJson a.tables).listOf? ArchivedTable.ofJson? =
      some a.tables := listOf?_ofList fun t _ => ArchivedTable.ofJson?_toJson t
  simp only [ofJson?, hr, Option.bind_eq_bind, Option.bind_some, htokens, htables]
  rfl

/-- The bytes of a JSON text that says an archive load as that archive. -/
theorem load?_of_parse {a : LexiconArchive} (h : ∀ t ∈ a.tokens, t.index < Token.indexBound)
    {text : String} (hp : Json.parse text = .ok a.toJson) : load? text.toUTF8 = some a := by
  rw [load?, parseBytes_toUTF8, hp]
  exact ofJson?_toJson h

/-- What is on file for a category, which is nothing if it has no table. -/
def entriesOf (a : LexiconArchive) (c : Category) : List String :=
  ((a.tables.find? fun t => t.category = c).map ArchivedTable.entries).getD []

/-- No category and no entry of a table is there twice, and every token has a lexeme. -/
structure FitsTogether (a : LexiconArchive) : Prop where
  categories : (a.tables.map ArchivedTable.category).Nodup
  entries : ∀ t ∈ a.tables, t.entries.Nodup
  indices : ∀ t ∈ a.tokens, t.index < (a.entriesOf t.category).length

theorem bind_eq_ok_iff {α β : Type} {x : Except RestoreError α} {f : α → Except RestoreError β}
    {b : β} : (x >>= f) = .ok b ↔ ∃ a, x = .ok a ∧ f a = .ok b := by
  cases x with
  | error e => simp [bind, Except.bind]
  | ok a => simp [bind, Except.bind]

theorem contents_eq_ok_iff {taken out : List (Category × List String)}
    {tables : List ArchivedTable} (h : (taken.map Prod.fst).Nodup) :
    contents taken tables = .ok out ↔
      (taken.map Prod.fst ++ tables.map ArchivedTable.category).Nodup ∧
        out = taken ++ tables.map fun t => (t.category, t.entries) := by
  induction tables generalizing taken with
  | nil => simp [contents, h, eq_comm]
  | cons t tables ih =>
    rw [contents]
    by_cases ht : t.category ∈ taken.map Prod.fst
    · have hany : (taken.any fun x => decide (x.1 = t.category)) = true := by
        simpa [List.any_eq_true] using ht
      rw [if_pos hany]
      simp only [reduceCtorEq, false_iff]
      rintro ⟨hnodup, _⟩
      exact (List.nodup_append.mp hnodup).2.2 _ ht _ (by simp) rfl
    · have hany : ¬(taken.any fun x => decide (x.1 = t.category)) = true := by
        simpa [List.any_eq_true] using ht
      have hnext : ((taken ++ [(t.category, t.entries)]).map Prod.fst).Nodup := by
        rw [List.map_append]
        exact (List.perm_append_singleton t.category _).nodup_iff.mpr
          (List.nodup_cons.mpr ⟨ht, h⟩)
      rw [if_neg hany, ih hnext]
      simp

theorem contents_nil_eq_ok_iff {out : List (Category × List String)}
    {tables : List ArchivedTable} :
    contents [] tables = .ok out ↔ (tables.map ArchivedTable.category).Nodup ∧
      out = tables.map fun t => (t.category, t.entries) :=
  contents_eq_ok_iff List.nodup_nil

/-- Entries are taken if they can stand behind those of the table, as no table has one twice. -/
theorem internNew_eq_ok_iff {c : Category} {t u : LexemeTable} {entries : List String} :
    internNew c t entries = .ok u ↔ u.lexemes = t.lexemes ++ entries := by
  induction entries generalizing t with
  | nil =>
    rw [internNew, Except.ok.injEq, List.append_nil]
    exact ⟨fun h => congrArg LexemeTable.lexemes h.symm, fun h => LexemeTable.ext_lexemes h.symm⟩
  | cons e entries ih =>
    simp only [internNew, LexemeTable.isSome_get?_iff]
    by_cases he : e ∈ t.lexemes
    · rw [if_pos he]
      simp only [reduceCtorEq, false_iff]
      intro hu
      have hnodup := u.nodup
      rw [hu] at hnodup
      exact (List.nodup_append.mp hnodup).2.2 e he e (by simp) rfl
    · rw [if_neg he, ih, LexemeTable.lexemes_intern, if_neg he]
      simp

/-- All entries for a category, table after table. -/
def listed (tables : List (Category × List String)) (c : Category) : List String :=
  (tables.filter fun x => x.1 = c).flatMap Prod.snd

theorem listed_cons (d : Category) (entries : List String)
    (tables : List (Category × List String)) (c : Category) :
    listed ((d, entries) :: tables) c =
      if c = d then entries ++ listed tables c else listed tables c := by
  unfold listed
  by_cases hc : c = d
  · simp [hc]
  · simp [hc, Ne.symm hc]

theorem fillTables_eq_ok_iff {filled out : ByCategory LexemeTable}
    {tables : List (Category × List String)} :
    fillTables filled tables = .ok out ↔
      ∀ c, (out.get c).lexemes = (filled.get c).lexemes ++ listed tables c := by
  induction tables generalizing filled with
  | nil =>
    simp only [fillTables, Except.ok.injEq, listed, List.filter_nil, List.flatMap_nil,
      List.append_nil]
    refine ⟨fun h c => by rw [h], fun h => ByCategory.ext_get fun c => ?_⟩
    exact LexemeTable.ext_lexemes (h c).symm
  | cons x tables ih =>
    obtain ⟨d, entries⟩ := x
    simp only [fillTables, bind_eq_ok_iff, internNew_eq_ok_iff, ih, ByCategory.get_set,
      listed_cons]
    constructor
    · rintro ⟨table, htable, hout⟩ c
      rw [hout c]
      by_cases hc : c = d
      · simp [hc, htable]
      · simp [hc]
    · intro hout
      have hd := hout d
      rw [if_pos rfl, ← List.append_assoc] at hd
      have hnodup : ((filled.get d).lexemes ++ entries).Nodup :=
        (List.nodup_append.mp (hd ▸ (out.get d).nodup)).1
      refine ⟨LexemeTable.ofLexemes _, LexemeTable.lexemes_ofLexemes_of_nodup hnodup, fun c => ?_⟩
      rw [hout c]
      by_cases hc : c = d
      · simp [hc, LexemeTable.lexemes_ofLexemes_of_nodup hnodup]
      · simp [hc]

theorem withTokens_eq_ok_iff {tokens : List Token} {tables : ByCategory LexemeTable}
    {k : Lexicon} :
    withTokens tokens tables = .ok k ↔
      k = ⟨tables, tokens.toArray⟩ ∧ ∀ t ∈ tokens, (k.lexeme? t).isSome := by
  unfold withTokens
  dsimp only
  split
  · next t hfind =>
    have hdangling := List.find?_some hfind
    have hmem := List.mem_of_find?_eq_some hfind
    simp only [reduceCtorEq, false_iff]
    rintro ⟨rfl, hall⟩
    have := hall t hmem
    simp_all
  · next hfind =>
    rw [List.find?_eq_none] at hfind
    constructor
    · intro h
      cases h
      exact ⟨rfl, fun t ht => by simpa [Option.isSome_iff_ne_none] using hfind t ht⟩
    · rintro ⟨rfl, _⟩
      rfl

/-- With no category twice, a category has the entries of its one table. -/
theorem listed_contents {tables : List ArchivedTable}
    (h : (tables.map ArchivedTable.category).Nodup) (c : Category) :
    listed (tables.map fun t => (t.category, t.entries)) c =
      ((tables.find? fun t => t.category = c).map ArchivedTable.entries).getD [] := by
  induction tables with
  | nil => rfl
  | cons t tables ih =>
    obtain ⟨hnew, hrest⟩ := List.nodup_cons.mp h
    rw [List.map_cons, listed_cons, ih hrest]
    by_cases hc : t.category = c
    · subst hc
      have hnone : (tables.find? fun u => decide (u.category = t.category)) = none := by
        rw [List.find?_eq_none]
        intro u hu
        have hne : u.category ≠ t.category := fun huc => hnew (List.mem_map.mpr ⟨u, hu, huc⟩)
        simpa using hne
      simp [hnone]
    · rw [if_neg (Ne.symm hc), List.find?_cons_of_neg (by simpa using hc)]

theorem sublist_listed {tables : List (Category × List String)} {c : Category}
    {entries : List String} (h : (c, entries) ∈ tables) : entries.Sublist (listed tables c) := by
  rw [listed, List.flatMap_def]
  exact List.sublist_flatten_of_mem
    (List.mem_map_of_mem (List.mem_filter.mpr ⟨h, decide_eq_true rfl⟩))

/-- The checks on the way are passed by what fits together and by nothing else. -/
theorem restore_eq_ok_iff {a : LexiconArchive} {k : Lexicon} :
    a.restore = .ok k ↔
      a.FitsTogether ∧ k.tokens.toList = a.tokens ∧ ∀ c, (k.table c).lexemes = a.entriesOf c := by
  constructor
  · intro h
    obtain ⟨tables, hcontents, h⟩ := bind_eq_ok_iff.mp h
    obtain ⟨filled, hfilled, hlast⟩ := bind_eq_ok_iff.mp h
    obtain ⟨hcategories, rfl⟩ := contents_nil_eq_ok_iff.mp hcontents
    obtain ⟨rfl, htokens⟩ := withTokens_eq_ok_iff.mp hlast
    have hlisted (c : Category) : (filled.get c).lexemes =
        listed (a.tables.map fun t => (t.category, t.entries)) c := by
      rw [fillTables_eq_ok_iff.mp hfilled c, ByCategory.get_replicate]
      rfl
    have hlexemes (c : Category) : (filled.get c).lexemes = a.entriesOf c :=
      (hlisted c).trans (listed_contents hcategories c)
    refine ⟨⟨hcategories, fun t ht => ?_, fun t ht => ?_⟩, rfl, hlexemes⟩
    · have hnodup := (filled.get t.category).nodup
      rw [hlisted] at hnodup
      exact hnodup.sublist (sublist_listed (List.mem_map.mpr ⟨t, ht, rfl⟩))
    · rw [← hlexemes]
      exact Lexicon.isSome_lexeme?_iff.mp (htokens t ht)
  · rintro ⟨hfits, htokens, hlexemes⟩
    refine bind_eq_ok_iff.mpr ⟨_, contents_nil_eq_ok_iff.mpr ⟨hfits.categories, rfl⟩,
      bind_eq_ok_iff.mpr ⟨k.tables, fillTables_eq_ok_iff.mpr fun c => ?_,
        withTokens_eq_ok_iff.mpr ⟨?_, fun t ht => ?_⟩⟩⟩
    · rw [ByCategory.get_replicate]
      exact (hlexemes c).trans (listed_contents hfits.categories c).symm
    · rw [← htokens]
    · rw [Lexicon.isSome_lexeme?_iff, hlexemes]
      exact hfits.indices t ht

theorem entriesOf_ofLexicon (k : Lexicon) (c : Category) :
    (ofLexicon k).entriesOf c = (k.table c).lexemes := by
  cases c <;> rfl

theorem restore_ofLexicon {k : Lexicon} (h : ∀ t ∈ k.tokens, (k.lexeme? t).isSome) :
    (ofLexicon k).restore = .ok k := by
  have hcategories : (ofLexicon k).tables.map ArchivedTable.category = Category.all :=
    List.map_map.trans (List.map_id _)
  refine restore_eq_ok_iff.mpr ⟨⟨?_, fun t ht => ?_, fun t ht => ?_⟩, rfl,
    fun c => (entriesOf_ofLexicon k c).symm⟩
  · rw [hcategories]
    decide
  · obtain ⟨c, _, rfl⟩ := List.mem_map.mp ht
    exact (k.table c).nodup
  · rw [entriesOf_ofLexicon]
    exact Lexicon.isSome_lexeme?_iff.mp (h t (Array.mem_toList_iff.mp ht))

end LexiconArchive

end TableLexer
