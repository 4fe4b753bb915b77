import TableLexer.Json.Piece
import TableLexer.Proofs.Json.Scalar
namespace TableLexer.Json

open Lexer

/-- A word before the text has its end there. -/
def Stops (cs : List Char) : Prop := ∀ c ∈ cs.head?, endsWord c

theorem stops_cons {c : Char} (h : endsWord c) (cs : List Char) : Stops (c :: cs) := by
  intro d hd
  rw [← Option.some.inj hd]
  exact h

/-- A text says its pieces, with blanks anywhere between them. -/
inductive Says : List Piece → List Char → Prop where
  | nil : Says [] []
  | blank {c : Char} {ps : List Piece} {cs : List Char} :
      isBlank c → Says ps cs → Says ps (c :: cs)
  | mark {c : Char} {p : Piece} {ps : List Piece} {cs : List Char} :
      mark? c = some p → Says ps cs → Says (p :: ps) (c :: cs)
  | text (value? : Option String) {ps : List Piece} {cs : List Char} :
      Says ps cs → Says (.scalar (.text value?) :: ps) ((Scalar.text value?).print ++ cs)
  | word {s : Scalar} {ps : List Piece} {cs : List Char} :
      s.isWord → Stops cs → Says ps cs → Says (.scalar s :: ps) (s.print ++ cs)

namespace Lexer

theorem run_eq_elim (l : Lexer) (cs : List Char) :
    l.run (cs.map some) = (l.feed cs).elim .malformed finish := by
  rw [run, feed]
  cases (cs.map some).foldlM step l <;> rfl

theorem run_of_feed {l m : Lexer} {cs : List Char} (h : l.feed cs = some m) (ds : List Char) :
    l.run ((cs ++ ds).map some) = m.run (ds.map some) := by
  rw [run_eq_elim, run_eq_elim, feed_append, h, Option.bind_some]

theorem enter_mark {c : Char} {p : Piece} (h : mark? c = some p) (qs : Array Piece) :
    enter qs c = ⟨.between, qs.push p⟩ := by
  have hne : isBlank c = false ∧ c ≠ '"' := by
    unfold mark? at h
    split at h <;> first | exact ⟨rfl, by decide⟩ | cases h
  simp [enter, hne, h]

theorem enter_word {c : Char} (h : endsWord c = false) (qs : Array Piece) :
    enter qs c = ⟨.word [c], qs⟩ := by
  simp only [endsWord, Bool.or_eq_false_iff, Option.isSome_eq_false_iff,
    Option.isNone_iff_eq_none] at h
  simp [enter, h]

theorem feed_word {cs : List Char} (h : ∀ c ∈ cs, endsWord c = false) (read : List Char)
    (qs : Array Piece) : feed ⟨.word read, qs⟩ cs = some ⟨.word (read ++ cs), qs⟩ := by
  induction cs generalizing read with
  | nil => rw [feed_nil, List.append_nil]
  | cons c cs ih =>
    have hc : endsWord c = false := h c (by simp)
    have hstep : step ⟨.word read, qs⟩ (some c) = some ⟨.word (read ++ [c]), qs⟩ := by
      simp [step, hc]
    rw [feed_cons, hstep, Option.bind_some, ih fun d hd => h d (by simp [hd])]
    simp

theorem feed_print_word {s : Scalar} (h : s.isWord) (qs : Array Piece) :
    feed ⟨.between, qs⟩ s.print = some ⟨.word s.print, qs⟩ := by
  have hends : ∀ c ∈ s.print, endsWord c = false := by
    simpa using all_print h
  obtain ⟨c, cs, hp⟩ := List.exists_cons_of_ne_nil (print_ne_nil h)
  rw [hp] at hends ⊢
  have hstep : step ⟨.between, qs⟩ (some c) = some ⟨.word [c], qs⟩ :=
    congrArg some (enter_word (hends c (by simp)) qs)
  rw [feed_cons, hstep, Option.bind_some, feed_word fun d hd => hends d (by simp [hd])]
  rfl

theorem run_word {s : Scalar} (h : s.isWord) {cs : List Char} (hs : Stops cs) (qs : Array Piece) :
    run ⟨.word s.print, qs⟩ (cs.map some) = run ⟨.between, qs.push (.scalar s)⟩ (cs.map some) := by
  cases cs with
  | nil => simp [run, finish, ofWord?_print h]
  | cons c cs =>
    -- the character that ends the word is read again between two pieces
    have hc : endsWord c := hs c rfl
    have hstep : step ⟨.word s.print, qs⟩ (some c) =
        step ⟨.between, qs.push (.scalar s)⟩ (some c) := by
      simp [step, hc, ofWord?_print h]
    rw [run, run, List.map_cons, List.foldlM_cons, List.foldlM_cons, hstep]

theorem run_of_says {ps : List Piece} {cs : List Char} (h : Says ps cs) (qs : Array Piece) :
    run ⟨.between, qs⟩ (cs.map some) = .whole (qs.toList ++ ps) := by
  -- every part of the text leaves the lexer between two pieces, with more of them behind it
  induction h generalizing qs with
  | nil => simp [run, finish]
  | @blank c ps cs hc _ ih =>
    have hfeed : feed ⟨.between, qs⟩ [c] = some ⟨.between, qs⟩ := by
      simp [feed_cons, feed_nil, step, enter, hc]
    exact (run_of_feed hfeed cs).trans (ih qs)
  | @mark c p ps cs hc _ ih =>
    have hfeed : feed ⟨.between, qs⟩ [c] = some ⟨.between, qs.push p⟩ := by
      simp [feed_cons, feed_nil, step, enter_mark hc]
    rw [← List.singleton_append, run_of_feed hfeed, ih]
    simp
  | text value? _ ih =>
    rw [run_of_feed (feed_print_text qs value?), ih]
    simp
  | word hw hs _ ih =>
    rw [run_of_feed (feed_print_word hw qs), run_word hw hs, ih]
    simp

end Lexer

theorem lex_of_says {ps : List Piece} {cs : List Char} (h : Says ps cs) :
    lex (cs.map some) = .whole ps := run_of_says h #[]

theorem says_scalar (s : Scalar) {ps : List Piece} {cs : List Char} (hs : Stops cs)
    (h : Says ps cs) : Says (.scalar s :: ps) (s.print ++ cs) := by
  cases hw : s.isWord with
  | true => exact .word hw hs h
  | false =>
    cases s with
    | text value? => exact .text value? h
    | _ => cases hw

theorem says_blanks {bs : List Char} (hb : ∀ c ∈ bs, isBlank c) {ps : List Piece} {cs : List Char}
    (h : Says ps cs) : Says ps (bs ++ cs) := by
  induction bs with
  | nil => exact h
  | cons b bs ih => exact .blank (hb b (by simp)) (ih fun c hc => hb c (by simp [hc]))

theorem says_newline (depth : Nat) {ps : List Piece} {cs : List Char} (h : Says ps cs) :
    Says ps (newline depth ++ cs) := by
  refine says_blanks ?_ h
  intro c hc
  rcases List.mem_cons.mp hc with rfl | hc
  · rfl
  · rw [List.eq_of_mem_replicate hc]
    rfl

theorem stops_newline (depth : Nat) (cs : List Char) : Stops (newline depth ++ cs) :=
  stops_cons rfl _

section Separator

variable {α : Type} (rest : List α) {ps : List Piece} {cs : List Char}

theorem says_separator (h : Says ps cs) :
    Says ((if rest.isEmpty then [] else [.comma]) ++ ps)
      ((if rest.isEmpty then [] else [',']) ++ cs) := by
  cases rest with
  | nil => exact h
  | cons _ _ => exact .mark rfl h

theorem stops_separator (h : rest = [] → Stops cs) :
    Stops ((if rest.isEmpty then [] else [',']) ++ cs) := by
  cases rest with
  | nil => exact h rfl
  | cons _ _ => exact stops_cons rfl cs

end Separator

mutual

theorem says_compactChars (j : Json) {ps : List Piece} {cs : List Char} (hs : Stops cs)
    (h : Says ps cs) : Says (pieces j ++ ps) (compactChars j ++ cs) := by
  match j with
  | .scalar s => exact says_scalar s hs h
  | .array items => exact .mark rfl (says_compactItems items h)
  | .object fields => exact .mark rfl (says_compactFields fields h)

theorem says_compactItems (items : List Json) {ps : List Piece} {cs : List Char}
    (h : Says ps cs) : Says (itemPieces items ++ ps) (compactItems items ++ cs) := by
  match items with
  | [] => exact .mark rfl h
  | j :: rest =>
    have hs : rest = [] → Stops (compactItems rest ++ cs) := by
      rintro rfl
      exact stops_cons rfl cs
    simp only [itemPieces, compactItems, List.append_assoc]
    exact says_compactChars j (stops_separator rest hs)
      (says_separator rest (says_compactItems rest h))

theorem says_compactFields (fields : List (Option String × Json)) {ps : List Piece}
    {cs : List Char} (h : Says ps cs) :
    Says (fieldPieces fields ++ ps) (compactFields fields ++ cs) := by
  match fields with
  | [] => exact .mark rfl h
  | (key, j) :: rest =>
    have hs : rest = [] → Stops (compactFields rest ++ cs) := by
      rintro rfl
      exact stops_cons rfl cs
    simp only [fieldPieces, compactFields, List.append_assoc, List.cons_append]
    exact .text key (.mark rfl (says_compactChars j (stops_separator rest hs)
      (says_separator rest (says_compactFields rest h))))

end

mutual

theorem says_prettyChars (depth : Nat) (j : Json) {ps : List Piece} {cs : List Char}
    (hs : Stops cs) (h : Says ps cs) : Says (pieces j ++ ps) (prettyChars depth j ++ cs) := by
  match j with
  | .scalar s => exact says_scalar s hs h
  | .array [] => exact .mark rfl (.mark rfl h)
  | .array (j :: rest) => exact .mark rfl (says_prettyItems depth (j :: rest) h)
  | .object [] => exact .mark rfl (.mark rfl h)
  | .object (field :: rest) => exact .mark rfl (says_prettyFields depth (field :: rest) h)

theorem says_prettyItems (depth : Nat) (items : List Json) {ps : List Piece} {cs : List Char}
    (h : Says ps cs) : Says (itemPieces items ++ ps) (prettyItems depth items ++ cs) := by
  match items with
  | [] =>
    rw [prettyItems, List.append_assoc]
    exact says_newline depth (.mark rfl h)
  | j :: rest =>
    have hs : rest = [] → Stops (prettyItems depth rest ++ cs) := by
      rintro rfl
      rw [prettyItems, List.append_assoc]
      exact stops_newline depth _
    simp only [itemPieces, prettyItems, List.append_assoc]
    exact says_newline _ (says_prettyChars (depth + 1) j (stops_separator rest hs)
      (says_separator rest (says_prettyItems depth rest h)))

theorem says_prettyFields (depth : Nat) (fields : List (Option String × Json)) {ps : List Piece}
    {cs : List Char} (h : Says ps cs) :
    Says (fieldPieces fields ++ ps) (prettyFields depth fields ++ cs) := by
  match fields with
  | [] =>
    rw [prettyFields, List.append_assoc]
    exact says_newline depth (.mark rfl h)
  | (key, j) :: rest =>
    have hs : rest = [] → Stops (prettyFields depth rest ++ cs) := by
      rintro rfl
      rw [prettyFields, List.append_assoc]
      exact stops_newline depth _
    simp only [fieldPieces, prettyFields, List.append_assoc, List.cons_append]
    exact says_newline _ (.text key (.mark rfl (.blank rfl
      (says_prettyChars (depth + 1) j (stops_separator rest hs)
        (says_separator rest (says_prettyFields depth rest h))))))

end

theorem stops_nil : Stops [] := by
  intro c hc
  cases hc

theorem lex_compact (j : Json) : lex ((compactChars j).map some) = .whole (pieces j) := by
  have h := says_compactChars j stops_nil .nil
  rw [List.append_nil, List.append_nil] at h
  exact lex_of_says h

theorem lex_pretty (j : Json) : lex ((prettyChars 0 j).map some) = .whole (pieces j) := by
  have h := says_prettyChars 0 j stops_nil .nil
  rw [List.append_nil, List.append_nil] at h
  exact lex_of_says h

end TableLexer.Json
