import TableLexer.Proofs.Lexicon.FirstSeen
import TableLexer.Proofs.Scan.Joining
namespace TableLexer

open Scan

namespace Lexicon

variable {k l : Lexicon}

theorem categoryOf_congr (h : ∀ w, l.isReserved w = k.isReserved w) (lexeme : String)
    (t : Terminal) : l.categoryOf lexeme t = k.categoryOf lexeme t := by
  rw [categoryOf, h, categoryOf]

theorem isReserved_registerAll (k : Lexicon) (calls : List (Terminal × String)) (w : String) :
    (k.registerAll calls).2.isReserved w = k.isReserved w := by
  rw [isReserved, table_keyword_registerAll, isReserved]

theorem eq_of_lexeme? {t u : Token} {lexeme : String} (hc : t.category = u.category)
    (ht : k.lexeme? t = some lexeme) (hu : k.lexeme? u = some lexeme) : t = u := by
  have hi := LexemeTable.idxOf_of_lexeme? ht
  have hj := LexemeTable.idxOf_of_lexeme? hu
  rw [hc] at hi
  cases t
  cases u
  exact (Token.mk.injEq ..).mpr ⟨hc, hi.symm.trans hj⟩

theorem mem_table_registerAll {calls : List (Terminal × String)} {c : Category} {w : String} :
    w ∈ ((k.registerAll calls).2.table c).lexemes ↔
      w ∈ (k.table c).lexemes ∨ ∃ call ∈ calls, k.categoryOf call.2 call.1 = c ∧ call.2 = w := by
  rw [table_registerAll, LexemeTable.lexemes_foldl_intern, List.mem_eraseDups, List.mem_append,
    filedIn]
  simp [and_assoc]

/-- The order of registering decides the places in a table, not what is in it. -/
theorem perm_table_registerAll (k : Lexicon) (xs ys : List (Terminal × String)) (c : Category) :
    ((k.registerAll (xs ++ ys)).2.table c).lexemes.Perm
      ((k.registerAll (ys ++ xs)).2.table c).lexemes := by
  refine (List.perm_ext_iff_of_nodup (LexemeTable.nodup _) (LexemeTable.nodup _)).mpr fun w => ?_
  rw [mem_table_registerAll, mem_table_registerAll]
  simp only [List.mem_append, or_and_right, exists_or]
  exact or_congr_right or_comm

end Lexicon

/-- A diagnostic with the token's category, wherever the lexeme stands in its table. -/
def Scan.Diagnostic.unplaced (d : Diagnostic) : Rejection × Category :=
  (d.rejection, d.token.category)

namespace Scanner

/-- The categories and lexemes of the tokens in a report. -/
def Outcome.reading (o : Outcome) : List (Category × Option String) :=
  o.report.tokens.toList.map fun token => (token.category, o.lexicon.lexeme? token)

/-- Two outcomes that differ in nothing but the places of lexemes in their tables. -/
structure Outcome.Alike (o p : Outcome) : Prop where
  failure : o.failure? = p.failure?
  reading : o.reading = p.reading
  diagnostics : o.report.diagnostics.map Diagnostic.unplaced =
    p.report.diagnostics.map Diagnostic.unplaced
  traces : o.report.traces = p.report.traces
  repeats : ∀ i j : Nat, o.report.tokens[i]? = o.report.tokens[j]? ↔
    p.report.tokens[i]? = p.report.tokens[j]?

section Outcomes

variable (s : Scanner) (source : String) (k : Lexicon)

theorem reading_scan : (s.scan source k).reading =
    (s.move source).entries.map fun x => (k.categoryOf x.2 x.1, some x.2) := by
  obtain ⟨hlexicon, htokens, _⟩ := scan_registers s source k
  rw [Outcome.reading, htokens, hlexicon, Lexicon.registerAll_tokens]

theorem unplaced_scan : (s.scan source k).report.diagnostics.toList.map Diagnostic.unplaced =
    ((s.move source).findings.toList.filterMap Finding.rejection?).map (·, .illegal) := by
  rw [← rejections_scan s source k, List.map_map]
  apply List.map_congr_left
  intro d hd
  have htoken : d.token ∈ (s.scan source k).report.diagnostics.toList.map Diagnostic.token :=
    List.mem_map_of_mem hd
  rw [illegal_tokens_scan] at htoken
  have hcategory : d.token.category = .illegal := by simpa using (List.mem_filter.mp htoken).2
  rw [Diagnostic.unplaced, hcategory]
  rfl

theorem traces_scan : (s.scan source k).report.traces.toList =
    if s.options.trace then (s.move source).findings.toList.filterMap Finding.trace? else [] := by
  rw [scan, report_scanOnto]
  exact (s.wrote_recording source k Report.empty).traces

/-- Every token has a lexeme, so that two tokens are the same if they read the same. -/
theorem reading_eq_iff (i j : Nat) :
    (s.scan source k).reading[i]? = (s.scan source k).reading[j]? ↔
      (s.scan source k).report.tokens[i]? = (s.scan source k).report.tokens[j]? := by
  generalize ho : s.scan source k = o
  have hlexeme : ∀ token ∈ o.report.tokens.toList, ∃ lexeme,
      o.lexicon.lexeme? token = some lexeme := by
    intro token hm
    have hread : (token.category, o.lexicon.lexeme? token) ∈ o.reading := List.mem_map_of_mem hm
    rw [← ho, reading_scan] at hread
    obtain ⟨x, _, hx⟩ := List.mem_map.mp hread
    exact ⟨x.2, by rw [← ho, ← (Prod.mk.inj hx).2]⟩
  rw [Outcome.reading, List.getElem?_map, List.getElem?_map, Array.getElem?_toList,
    Array.getElem?_toList]
  cases hi : o.report.tokens[i]? with
  | none => cases hj : o.report.tokens[j]? <;> simp
  | some t =>
    cases hj : o.report.tokens[j]? with
    | none => simp
    | some u =>
      obtain ⟨w, hw⟩ := hlexeme t (Array.mem_toList_iff.mpr (Array.mem_of_getElem? hi))
      refine ⟨fun h => ?_, fun h => by rw [h]⟩
      obtain ⟨hc, hl⟩ := Prod.mk.inj (Option.some.inj h)
      rw [Lexicon.eq_of_lexeme? hc hw (hl.symm.trans hw)]

end Outcomes

section Independence

variable {options : ScanOptions} {s t : Scanner}

/-- What a scan recognizes depends on which words are reserved, and on nothing else that has been
interned. -/
theorem scan_alike (hs : Reachable options s) (ht : Reachable options t) (source : String)
    {k l : Lexicon} (h : ∀ w, l.isReserved w = k.isReserved w) :
    (s.scan source k).Alike (t.scan source l) := by
  have hfindings := hs.findings_unique ht source
  have hreading : (s.scan source k).reading = (t.scan source l).reading := by
    rw [reading_scan, reading_scan, hs.entries_unique ht]
    simp only [Lexicon.categoryOf_congr h]
  refine ⟨(hs.failure?_unique ht source).symm, hreading, ?_, ?_, ?_⟩
  · apply Array.toList_inj.mp
    rw [Array.toList_map, Array.toList_map, unplaced_scan, unplaced_scan, hfindings]
  · apply Array.toList_inj.mp
    rw [traces_scan, traces_scan, hfindings, hs.table_options.2, ht.table_options.2]
  · intro i j
    rw [← reading_eq_iff, ← reading_eq_iff, hreading]

theorem lexicon_scan_scan (s t : Scanner) (a b : String) (k : Lexicon) :
    (t.scan b (s.scan a k).lexicon).lexicon =
      (k.registerAll ((s.move a).entries ++ (t.move b).entries)).2 := by
  rw [(scan_registers t b _).1, (scan_registers s a k).1, Lexicon.registerAll_append]

theorem isReserved_scan (s : Scanner) (source : String) (k : Lexicon) (w : String) :
    (s.scan source k).lexicon.isReserved w = k.isReserved w := by
  rw [(scan_registers s source k).1, Lexicon.isReserved_registerAll]

/-- Scanning does not depend on what was interned before, reserved words apart. So two sources can
be scanned into one lexicon in either order: each reads the same, and the tables have the same
lexemes in the end. -/
theorem scan_independent {other : ScanOptions} {s s' t t' : Scanner} (hs : Reachable options s)
    (hs' : Reachable options s') (ht : Reachable other t) (ht' : Reachable other t')
    (a b : String) (k : Lexicon) :
    (∀ l : Lexicon, (∀ w, l.isReserved w = k.isReserved w) →
      (s.scan a k).Alike (s'.scan a l)) ∧
      let a₁ := s.scan a k
      let b₁ := t.scan b a₁.lexicon
      let b₂ := t'.scan b k
      let a₂ := s'.scan a b₂.lexicon
      a₁.Alike a₂ ∧ b₁.Alike b₂ ∧
        ∀ c, (b₁.lexicon.table c).lexemes.Perm (a₂.lexicon.table c).lexemes := by
  refine ⟨fun l => scan_alike hs hs' a, ?_, ?_, ?_⟩
  · exact scan_alike hs hs' a (isReserved_scan t' b k)
  · exact scan_alike ht ht' b fun w => (isReserved_scan s a k w).symm
  · intro c
    rw [lexicon_scan_scan, lexicon_scan_scan, hs.entries_unique hs', ht.entries_unique ht']
    exact Lexicon.perm_table_registerAll k _ _ c

/-- An identifier is known already, and a string is left open. -/
theorem scan_independent_standard :
    ∃ s, standard ⟨.recover, true⟩ = .ok s ∧
      let k := Lexicon.ofReserved ["if"]
      let known := (k.registerAll [(.identifierEnd, "b")]).2
      (s.scan "if a" k).Alike (s.scan "if a" known) ∧
        let forth := s.scan "b 'a" (s.scan "if a" k).lexicon
        let back := s.scan "if a" (s.scan "b 'a" k).lexicon
        (s.scan "if a" k).Alike back ∧ forth.Alike (s.scan "b 'a" k) ∧
          ∀ c, (forth.lexicon.table c).lexemes.Perm (back.lexicon.table c).lexemes := by
  obtain ⟨table, _, hnew⟩ := exists_standard ⟨.recover, true⟩
  generalize ofTable table ⟨.recover, true⟩ = s at hnew
  have hs := Reachable.standard hnew
  let k := Lexicon.ofReserved ["if"]
  obtain ⟨halike, hfirst, hsecond, hperm⟩ := scan_independent hs hs hs hs "if a" "b 'a" k
  exact ⟨s, hnew, halike _ (Lexicon.isReserved_registerAll k [(.identifierEnd, "b")]), hfirst,
    hsecond, hperm⟩

end Independence

end Scanner

end TableLexer
