import TableLexer.Proofs.Program.Agreement
import TableLexer.Proofs.Scan.Unbroken
namespace TableLexer

open Scan

theorem append_inj_of_forall {α : Type} {p : α → Bool} {front front' behind behind' : List α}
    (hf : ∀ x ∈ front, p x) (hf' : ∀ x ∈ front', p x) (hb : ∀ x ∈ behind.head?, p x = false)
    (hb' : ∀ x ∈ behind'.head?, p x = false) (h : front ++ behind = front' ++ behind') :
    front = front' ∧ behind = behind' := by
  have htake {f b : List α} (hf : ∀ x ∈ f, p x) (hb : ∀ x ∈ b.head?, p x = false) :
      (f ++ b).takeWhile p = f := by
    rw [List.takeWhile_append_of_pos hf]
    cases b with
    | nil => simp
    | cons x b => rw [List.takeWhile_cons_of_neg (by simp [hb x rfl]), List.append_nil]
  have hfront : front = front' := by rw [← htake hf hb, h, htake hf' hb']
  subst hfront
  exact ⟨rfl, List.append_cancel_left h⟩

theorem mapIdx_injective {α β : Type} {f : Nat → α → β} (hf : ∀ i, Function.Injective (f i)) :
    Function.Injective (List.mapIdx f) := by
  intro xs ys h
  refine List.ext_getElem? fun i => ?_
  have hi := congrArg (fun zs => zs[i]?) h
  simp only [List.getElem?_mapIdx] at hi
  exact Option.map_injective (hf i) hi

namespace Text

theorem toString_injective {m n : Nat} (h : toString m = toString n) : m = n := by
  have hdigits := congrArg String.toList h
  rw [Nat.toString_eq_repr, Nat.toString_eq_repr, Nat.toList_repr, Nat.toList_repr] at hdigits
  calc m = Nat.ofDigitChars 10 (Nat.toDigits 10 m) 0 := Nat.ofDigitChars_ten_toDigits.symm
    _ = Nat.ofDigitChars 10 (Nat.toDigits 10 n) 0 := by rw [hdigits]
    _ = n := Nat.ofDigitChars_ten_toDigits

/-- Lines that are written one after the other can be told apart, also where one of them ends in a
carriage return. -/
theorem flatMap_lineFeed_inj {xs ys : List (List Char)} (hx : ∀ line ∈ xs, '\n' ∉ line)
    (hy : ∀ line ∈ ys, '\n' ∉ line)
    (h : (xs.flatMap fun line => line ++ ['\n']) = ys.flatMap fun line => line ++ ['\n']) :
    xs = ys := by
  induction xs generalizing ys with
  | nil =>
    cases ys with
    | nil => rfl
    | cons y ys => simp at h
  | cons x xs ih =>
    cases ys with
    | nil => simp at h
    | cons y ys =>
      obtain ⟨hx, hxs⟩ := List.forall_mem_cons.mp hx
      obtain ⟨hy, hys⟩ := List.forall_mem_cons.mp hy
      have hinside {line : List Char} (hl : '\n' ∉ line) : ∀ c ∈ line, (c != '\n') = true := by
        intro c hc
        exact bne_iff_ne.mpr fun he => hl (he ▸ hc)
      -- both texts have their first line up to their first line feed
      rw [List.flatMap_cons, List.flatMap_cons, List.append_assoc, List.append_assoc] at h
      obtain ⟨rfl, hbehind⟩ :=
        append_inj_of_forall (hinside hx) (hinside hy) (by simp) (by simp) h
      rw [ih hxs hys (List.append_cancel_left hbehind)]

theorem join_lineFeed_inj {xs ys : List String} (hx : ∀ line ∈ xs, '\n' ∉ line.toList)
    (hy : ∀ line ∈ ys, '\n' ∉ line.toList)
    (h : String.join (xs.map fun line => line ++ "\n") =
      String.join (ys.map fun line => line ++ "\n")) : xs = ys := by
  have htext (lines : List String) :
      (String.join (lines.map fun line => line ++ "\n")).toList =
        (lines.map String.toList).flatMap fun line => line ++ ['\n'] := by
    rw [String.toList_join, List.flatMap_map, List.flatMap_map]
    simp
  have hlines := congrArg String.toList h
  rw [htext, htext] at hlines
  refine (List.map_inj_right fun _ _ => String.toList_inj.mp).mp (flatMap_lineFeed_inj ?_ ?_ hlines)
  · simpa using hx
  · simpa using hy

end Text

theorem Category.id_injective : Function.Injective Category.id := by
  intro c d h
  have hof (c : Category) : ofId? c.id = some c := by cases c <;> rfl
  exact Option.some.inj (by rw [← hof c, h, hof d])

/-- The two numbers of a token are told apart by the comma between them. -/
theorem Token.text_injective : Function.Injective Token.text := by
  intro t u h
  have hsplit (t : Token) : t.text.toList =
      '<' :: ((toString t.category.id).toList ++
        ',' :: ((toString t.index).toList ++ ['>'])) := by
    simp [text]
  have hlist := congrArg String.toList h
  rw [hsplit, hsplit] at hlist
  have hdigits (n : Nat) : ∀ c ∈ (toString n).toList, c.isDigit :=
    fun c hc => Text.isDigit_of_mem_toString hc
  obtain ⟨hid, hbehind⟩ := append_inj_of_forall (hdigits _) (hdigits _) (by simp) (by simp)
    (List.cons.inj hlist).2
  obtain ⟨hindex, _⟩ := append_inj_of_forall (hdigits _) (hdigits _) (by simp) (by simp)
    (List.cons.inj hbehind).2
  have hcategory := Category.id_injective (Text.toString_injective (String.toList_inj.mp hid))
  have hindex := Text.toString_injective (String.toList_inj.mp hindex)
  cases t
  cases u
  simp_all

namespace Records

theorem tokenStream_injective : Function.Injective tokenStream := by
  intro ts us h
  have hlines := congrArg Text.lines h
  rw [lines_tokenStream, lines_tokenStream] at hlines
  exact List.map_injective_iff.mpr Token.text_injective hlines

def headerLine (c : Category) : String := toString c.id ++ ": " ++ c.name

def entryLine (i : Nat) (lexeme : String) : String := "    " ++ toString i ++ ": " ++ lexeme

/-- The lines of the tables, without the line feeds behind them. -/
def tableLines (k : Lexicon) : List String :=
  Category.all.flatMap fun c => headerLine c :: (k.table c).lexemes.mapIdx entryLine

theorem internedTable_eq (k : Lexicon) (c : Category) : internedTable k c =
    String.join ((headerLine c :: (k.table c).lexemes.mapIdx entryLine).map
      fun line => line ++ "\n") := by
  rw [internedTable, LexemeTable.entries, List.map_map, List.mapIdx_eq_zipIdx_map, List.map_cons,
    List.map_map, String.join_cons]
  rfl

theorem internedTables_eq (k : Lexicon) :
    internedTables k = String.join ((tableLines k).map fun line => line ++ "\n") := by
  rw [internedTables, tableLines, List.map_flatMap, funext (internedTable_eq k)]
  apply String.toList_inj.mp
  simp only [String.toList_join, List.flatMap_map, List.flatMap_assoc]

/-- The lines of entries are set in, those of headers are not. -/
def isEntryLine (line : String) : Bool := line.toList.head? = some ' '

theorem isEntryLine_headerLine (c : Category) : isEntryLine (headerLine c) = false := by
  cases c <;> decide

theorem isEntryLine_entryLine (i : Nat) (lexeme : String) : isEntryLine (entryLine i lexeme) := by
  simp [isEntryLine, entryLine]

theorem isEntryLine_of_mem_mapIdx {lexemes : List String} :
    ∀ line ∈ lexemes.mapIdx entryLine, isEntryLine line := by
  intro line hline
  obtain ⟨i, _, rfl⟩ := List.mem_mapIdx.mp hline
  exact isEntryLine_entryLine i _

theorem eq_of_sections {f g : Category → List String}
    (hf : ∀ c, ∀ line ∈ f c, isEntryLine line) (hg : ∀ c, ∀ line ∈ g c, isEntryLine line)
    {cs : List Category}
    (h : (cs.flatMap fun c => headerLine c :: f c) = cs.flatMap fun c => headerLine c :: g c) :
    ∀ c ∈ cs, f c = g c := by
  -- behind a section there is a header or nothing
  have hnext (f : Category → List String) (cs : List Category) :
      ∀ line ∈ (cs.flatMap fun c => headerLine c :: f c).head?, isEntryLine line = false := by
    cases cs with
    | nil => simp
    | cons c cs => simp [isEntryLine_headerLine]
  induction cs with
  | nil => simp
  | cons c cs ih =>
    rw [List.flatMap_cons, List.flatMap_cons, List.cons_append, List.cons_append] at h
    obtain ⟨hsection, hrest⟩ := append_inj_of_forall (hf c) (hg c) (hnext f cs) (hnext g cs)
      (List.cons.inj h).2
    exact List.forall_mem_cons.mpr ⟨hsection, ih hrest⟩

theorem entryLine_injective (i : Nat) : Function.Injective (entryLine i) := by
  intro v w h
  have hlist := congrArg String.toList h
  simp only [entryLine, String.toList_append] at hlist
  exact String.toList_inj.mp (List.append_cancel_left hlist)

theorem lineFeed_not_mem_tableLines {k : Lexicon} (hk : k.Unbroken) :
    ∀ line ∈ tableLines k, '\n' ∉ line.toList := by
  intro line hline
  obtain ⟨c, _, hline⟩ := List.mem_flatMap.mp hline
  rcases List.mem_cons.mp hline with rfl | hline
  · cases c <;> decide
  · obtain ⟨i, hi, rfl⟩ := List.mem_mapIdx.mp hline
    have hindex : '\n' ∉ (toString i).toList :=
      fun hmem => nomatch Text.isDigit_of_mem_toString hmem
    simp only [entryLine, String.toList_append, List.mem_append, not_or]
    exact ⟨⟨⟨by decide, hindex⟩, by decide⟩, hk c _ (List.getElem_mem hi)⟩

/-- The text of the tables says all that is in them. -/
theorem tables_eq_of_internedTables {j k : Lexicon} (hj : j.Unbroken) (hk : k.Unbroken)
    (h : internedTables j = internedTables k) : j.tables = k.tables := by
  rw [internedTables_eq, internedTables_eq] at h
  have hlines : tableLines j = tableLines k := Text.join_lineFeed_inj
    (lineFeed_not_mem_tableLines hj) (lineFeed_not_mem_tableLines hk) h
  have hsections := eq_of_sections (fun _ => isEntryLine_of_mem_mapIdx)
    (fun _ => isEntryLine_of_mem_mapIdx) hlines
  refine ByCategory.ext_get fun c => LexemeTable.ext_lexemes ?_
  exact mapIdx_injective entryLine_injective (hsections c c.mem_all)

end Records

/-- The text records are unambiguous. A token list can be told from its stream. So can the tables
of all lexicons that scans leave from the words of a text on, as no lexeme has a line feed in it,
whatever else there may be. -/
theorem records_unambiguous :
    (∀ ts us : List Token, Records.tokenStream ts = Records.tokenStream us → ts = us) ∧
      (∀ k : Lexicon, k.Scanned → ∀ c, ∀ lexeme ∈ (k.table c).lexemes, '\n' ∉ lexeme.toList) ∧
      ∀ j k : Lexicon, j.Scanned → k.Scanned →
        Records.internedTables j = Records.internedTables k → j.tables = k.tables :=
  ⟨fun _ _ h => Records.tokenStream_injective h, fun _ hk => hk.unbroken,
    fun _ _ hj hk h => Records.tables_eq_of_internedTables hj.unbroken hk.unbroken h⟩

/-- A string that goes on over a line end, and the same lexemes from another source. -/
theorem records_unambiguous_broken_string :
    ∃ s, Scanner.standard ⟨.recover, false⟩ = .ok s ∧
      let words (text : String) := Lexicon.ofReserved (Settings.parseReserved text)
      let j := (s.scan "x\n'y\nz" (words "if then")).lexicon
      let k := (s.scan "x x\n'y z" (words "if\tthen\nif")).lexicon
      Records.internedTables j = Records.internedTables k ∧ j.tables = k.tables ∧
        ∀ c, ∀ lexeme ∈ (j.table c).lexemes, '\n' ∉ lexeme.toList := by
  obtain ⟨s, hs, hreachable⟩ := Scanner.exists_reachable ⟨.recover, false⟩
  refine ⟨s, hs, ?_⟩
  intro words j k
  have hlexicon (source text : String) : (s.scan source (words text)).lexicon =
      ((words text).registerAll (LongestMatch.tokens (streamText source))).2 := by
    have hyields := Cursor.yields_run hreachable.lawful hreachable.policy s.cursor source
    exact (tokens_scan_of_yields hyields Report.empty).2.2
  have htext : Records.internedTables j = Records.internedTables k := by
    simp only [j, k, hlexicon]
    decide +kernel
  have hj : j.Scanned := .scan _ _ hreachable (.reserved "if then")
  have hk : k.Scanned := .scan _ _ hreachable (.reserved "if\tthen\nif")
  obtain ⟨_, hunbroken, htables⟩ := records_unambiguous
  exact ⟨htext, htables j k hj hk htext, hunbroken j hj⟩

end TableLexer
