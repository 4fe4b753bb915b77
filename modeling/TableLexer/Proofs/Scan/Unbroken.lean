import TableLexer.Proofs.Scan.Accounting
import TableLexer.Settings
namespace TableLexer

open Scan

theorem Text.isSpace_of_mem_splitWords {open? : Option (List Char)} {text : List Char}
    (hopen : ∀ word ∈ open?, ∀ c ∈ word, isSpace c = false) :
    ∀ word ∈ splitWords open? text, ∀ c ∈ word, isSpace c = false := by
  induction open?, text using splitWords.induct with
  | case1 => simp [splitWords]
  | case2 word => simpa [splitWords] using hopen
  | case3 c rest hc ih =>
    rw [splitWords, if_pos hc]
    exact ih (by simp)
  | case4 c rest hc ih =>
    rw [splitWords, if_neg hc]
    exact ih (by simpa using hc)
  | case5 word c rest hc ih =>
    rw [splitWords, if_pos hc]
    exact List.forall_mem_cons.mpr ⟨hopen word rfl, ih (by simp)⟩
  | case6 word c rest hc ih =>
    rw [splitWords, if_neg hc]
    refine ih fun longer hlonger d hd => ?_
    obtain rfl : word ++ [c] = longer := Option.some.inj hlonger
    rcases List.mem_append.mp hd with hd | hd
    · exact hopen word rfl d hd
    · obtain rfl := List.mem_singleton.mp hd
      simpa using hc

theorem Settings.lineFeed_not_mem_parseReserved {text word : String}
    (h : word ∈ parseReserved text) : '\n' ∉ word.toList := by
  obtain ⟨cs, hcs, rfl⟩ := List.mem_map.mp h
  intro hmem
  rw [String.toList_ofList] at hmem
  have hspace := Text.isSpace_of_mem_splitWords (by simp) cs hcs '\n' hmem
  revert hspace
  decide

theorem Scan.Tiles.subset {lexemes : List String} {text : List Char} (h : Tiles lexemes text) :
    ∀ lexeme ∈ lexemes, lexeme.toList ⊆ text := by
  induction h with
  | nil _ => simp
  | @cons gap lexeme lexemes behind _ _ ih =>
    refine List.forall_mem_cons.mpr ⟨?_, fun w hw => List.Subset.trans (ih w hw) ?_⟩
    · exact fun c hc => List.mem_append_left _ (List.mem_append_right _ hc)
    · exact List.subset_append_right _ _

theorem Text.lineFeed_not_mem_splitLines (text : List Char) :
    ∀ line ∈ splitLines text, '\n' ∉ line := by
  induction text using splitLines.induct with
  | case1 => simp [splitLines]
  | case2 rest ih | case3 rest ih =>
    rw [splitLines]
    exact List.forall_mem_cons.mpr ⟨List.not_mem_nil, ih⟩
  | case4 c rest hc hr hnone ih =>
    rw [splitLines.eq_4 _ _ hc hr, hnone]
    simpa using Ne.symm hc
  | case5 c rest hc hr line lines hsome ih =>
    rw [splitLines.eq_4 _ _ hc hr, hsome]
    rw [hsome] at ih
    obtain ⟨hline, hlines⟩ := List.forall_mem_cons.mp ih
    refine List.forall_mem_cons.mpr ⟨?_, hlines⟩
    exact List.not_mem_cons_of_ne_of_not_mem (Ne.symm hc) hline

namespace Scan

theorem lineFeed_not_mem_streamText (source : String) : '\n' ∉ streamText source := by
  intro h
  obtain ⟨line, hline, hmem⟩ := List.mem_flatMap.mp h
  rcases List.mem_append.mp hmem with hmem | hmem
  · exact Text.lineFeed_not_mem_splitLines _ line hline hmem
  · revert hmem
    decide

/-- A line feed ends a line wherever it stands, so no scan registers one. -/
theorem lineFeed_not_mem_entries {options : ScanOptions} {s : Scanner}
    (hs : Scanner.Reachable options s) (source : String) :
    ∀ x ∈ (s.move source).entries, '\n' ∉ x.2.toList := by
  intro x hx hmem
  have htoken := (entries_prefix_tokens hs source).subset hx
  have hsubset := (tiles_tokens (streamText source)).subset x.2 (List.mem_map_of_mem htoken)
  exact lineFeed_not_mem_streamText source (hsubset hmem)

end Scan

namespace Lexicon

/-- The lexicons that scans leave, whichever there are and however they end, from the reserved
words of a text on. -/
inductive Scanned : Lexicon → Prop where
  | reserved (text : String) : Scanned (ofReserved (Settings.parseReserved text))
  | scan {k : Lexicon} {options : ScanOptions} {s : Scanner} (source : String) (report : Report) :
      Scanner.Reachable options s → Scanned k → Scanned (s.scanOnto source k report).lexicon

/-- No lexeme has a line feed in it. -/
def Unbroken (k : Lexicon) : Prop :=
  ∀ (c : Category), ∀ lexeme ∈ (k.table c).lexemes, '\n' ∉ lexeme.toList

theorem unbroken_ofReserved {words : List String} (h : ∀ word ∈ words, '\n' ∉ word.toList) :
    (ofReserved words).Unbroken := by
  intro c lexeme hmem
  rw [table, ofReserved, ByCategory.get_set] at hmem
  split at hmem
  · exact h lexeme (LexemeTable.mem_lexemes_ofLexemes.mp hmem)
  · rw [ByCategory.get_replicate] at hmem
    cases hmem

theorem Unbroken.register {k : Lexicon} (hk : k.Unbroken) {lexeme : String}
    (h : '\n' ∉ lexeme.toList) (t : Terminal) : (k.register lexeme t).2.Unbroken := by
  intro c w hmem
  rw [table_register] at hmem
  split at hmem
  · rcases LexemeTable.mem_lexemes_intern.mp hmem with hmem | rfl
    · exact hk c w hmem
    · exact h
  · exact hk c w hmem

theorem Unbroken.registerAll {k : Lexicon} (hk : k.Unbroken) {xs : List (Terminal × String)}
    (h : ∀ x ∈ xs, '\n' ∉ x.2.toList) : (k.registerAll xs).2.Unbroken := by
  induction xs generalizing k with
  | nil => exact hk
  | cons x xs ih =>
    obtain ⟨hx, hrest⟩ := List.forall_mem_cons.mp h
    exact ih (hk.register hx x.1) hrest

theorem Unbroken.scanOnto {k : Lexicon} (hk : k.Unbroken) {options : ScanOptions} {s : Scanner}
    (hs : Scanner.Reachable options s) (source : String) (report : Report) :
    (s.scanOnto source k report).lexicon.Unbroken := by
  rw [Scanner.lexicon_scanOnto, (s.wrote_recording source k report).lexicon]
  exact hk.registerAll (lineFeed_not_mem_entries hs source)

theorem Scanned.unbroken {k : Lexicon} (h : k.Scanned) : k.Unbroken := by
  induction h with
  | reserved text =>
    exact unbroken_ofReserved fun _ hword => Settings.lineFeed_not_mem_parseReserved hword
  | scan source report hs _ ih => exact ih.scanOnto hs source report

end Lexicon

end TableLexer
