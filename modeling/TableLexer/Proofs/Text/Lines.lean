import TableLexer.Text.Lines
namespace TableLexer.Text

theorem splitLines_ne_nil (c : Char) (rest : List Char) : splitLines (c :: rest) ≠ [] := by
  rw [splitLines.eq_def]
  split
  · simp_all
  · simp
  · simp
  · split <;> simp

theorem eq_nil_of_splitLines {text : List Char} (h : splitLines text = []) : text = [] := by
  cases text with
  | nil => rfl
  | cons c rest => exact absurd h (splitLines_ne_nil c rest)

theorem exists_splitLines_cons {c : Char} {rest : List Char} (hc : c ≠ '\n')
    (hr : ∀ behind, c = '\r' → rest = '\n' :: behind → False) (hne : rest ≠ []) :
    ∃ line lines, splitLines rest = line :: lines ∧
      splitLines (c :: rest) = (c :: line) :: lines := by
  obtain ⟨d, behind, rfl⟩ := List.exists_cons_of_ne_nil hne
  obtain ⟨line, lines, h⟩ := List.exists_cons_of_ne_nil (splitLines_ne_nil d behind)
  refine ⟨line, lines, h, ?_⟩
  rw [splitLines.eq_4 _ _ hc hr, h]

theorem splitLines_singleton {c : Char} (hc : c ≠ '\n') : splitLines [c] = [[c]] :=
  splitLines.eq_4 c [] hc (by simp)

theorem splitLines_pair {c : Char} (hc : c ≠ '\n') (hr : c ≠ '\r') (rest : List Char) :
    splitLines (c :: '\n' :: rest) = [c] :: splitLines rest := by
  rw [splitLines.eq_4 c _ hc fun _ he _ => hr he, splitLines]

section Behind

variable {c : Char} {rest : List Char}

/-- More text behind a character does not make a line end of it, unless it is the last one. -/
theorem no_lineEnd_append (hr : ∀ behind, c = '\r' → rest = '\n' :: behind → False)
    (hne : rest ≠ []) (more : List Char) :
    ∀ behind, c = '\r' → rest ++ more = '\n' :: behind → False := by
  obtain ⟨d, front, rfl⟩ := List.exists_cons_of_ne_nil hne
  intro behind hc he
  exact hr front hc (by rw [(List.cons.inj he).1])

theorem ne_nil_of_splitLines {line : List Char} {lines : List (List Char)}
    (h : splitLines rest = line :: lines) : rest ≠ [] := by
  rintro rfl
  cases h

end Behind

theorem splitLines_append_lineFeed (xs ys : List Char) :
    splitLines (xs ++ '\n' :: ys) = splitLines (xs ++ ['\n']) ++ splitLines ys := by
  induction xs using splitLines.induct with
  | case1 => rfl
  | case2 rest ih | case3 rest ih =>
    simp only [List.cons_append, splitLines]
    rw [ih]
  | case4 c rest hc hr hnil ih =>
    obtain rfl := eq_nil_of_splitLines hnil
    by_cases hreturn : c = '\r'
    · subst hreturn
      rfl
    · rw [List.singleton_append, List.singleton_append, splitLines_pair hc hreturn,
        splitLines_pair hc hreturn]
      rfl
  | case5 c rest hc hr line lines hlines ih =>
    have hne : rest ≠ [] := ne_nil_of_splitLines hlines
    obtain ⟨first, more, hfirst, hcons⟩ := exists_splitLines_cons hc
      (no_lineEnd_append hr hne ['\n']) (List.append_ne_nil_of_left_ne_nil hne _)
    obtain ⟨first', more', hfirst', hcons'⟩ := exists_splitLines_cons hc
      (no_lineEnd_append hr hne ('\n' :: ys)) (List.append_ne_nil_of_left_ne_nil hne _)
    rw [hfirst, hfirst', List.cons_append] at ih
    obtain ⟨rfl, rfl⟩ := List.cons.inj ih
    rw [List.cons_append, hcons', List.cons_append, hcons]
    rfl

theorem length_splitLines_concat (xs : List Char) :
    (splitLines (xs ++ ['\n'])).length = xs.count '\n' + 1 := by
  induction xs using splitLines.induct with
  | case1 => rfl
  | case2 rest ih => rw [List.cons_append, splitLines, List.length_cons, ih, List.count_cons_self]
  | case3 rest ih =>
    rw [List.cons_append, List.cons_append, splitLines, List.length_cons, ih,
      List.count_cons_of_ne (by decide), List.count_cons_self]
  | case4 c rest hc hr hnil ih =>
    obtain rfl := eq_nil_of_splitLines hnil
    by_cases hreturn : c = '\r'
    · subst hreturn
      rfl
    · rw [List.singleton_append, splitLines_pair hc hreturn, List.count_cons_of_ne hc]
      rfl
  | case5 c rest hc hr line lines hlines ih =>
    have hne : rest ≠ [] := ne_nil_of_splitLines hlines
    obtain ⟨first, more, hfirst, hcons⟩ := exists_splitLines_cons hc
      (no_lineEnd_append hr hne ['\n']) (List.append_ne_nil_of_left_ne_nil hne _)
    rw [hfirst] at ih
    rw [List.cons_append, hcons, List.count_cons_of_ne hc]
    exact ih

theorem splitLines_concat_of_open (xs : List Char) {d : Char} (hd : d ≠ '\n') (hr : d ≠ '\r') :
    splitLines (xs ++ [d] ++ ['\n']) = splitLines (xs ++ [d]) := by
  have hbegun {c : Char} {rest : List Char} (hc : c ≠ '\n')
      (hrest : ∀ behind, c = '\r' → rest = '\n' :: behind → False)
      (ih : splitLines (rest ++ [d] ++ ['\n']) = splitLines (rest ++ [d])) :
      splitLines (c :: rest ++ [d] ++ ['\n']) = splitLines (c :: rest ++ [d]) := by
    have hne : rest ++ [d] ≠ [] := by simp
    have hopen : ∀ behind, c = '\r' → rest ++ [d] = '\n' :: behind → False := by
      intro behind hreturn he
      rcases List.append_eq_cons_iff.mp he with ⟨_, hlast⟩ | ⟨front, hfront, _⟩
      · exact hd (List.cons.inj hlast).1
      · exact hrest front hreturn hfront
    obtain ⟨line, lines, hlines, hcons⟩ := exists_splitLines_cons hc hopen hne
    obtain ⟨line', lines', hlines', hcons'⟩ := exists_splitLines_cons hc
      (no_lineEnd_append hopen hne ['\n']) (List.append_ne_nil_of_left_ne_nil hne _)
    rw [hlines, hlines'] at ih
    obtain ⟨rfl, rfl⟩ := List.cons.inj ih
    exact hcons'.trans hcons.symm
  induction xs using splitLines.induct with
  | case1 =>
    rw [List.nil_append, List.singleton_append, splitLines_pair hd hr, splitLines_singleton hd]
    rfl
  | case2 rest ih | case3 rest ih =>
    simp only [List.cons_append, splitLines]
    rw [ih]
  | case4 c rest hc hrest _ ih => exact hbegun hc hrest ih
  | case5 c rest hc hrest _ _ _ ih => exact hbegun hc hrest ih

theorem splitLines_concat {xs : List Char} (h : xs.getLast? ≠ some '\r') :
    splitLines (xs ++ ['\n']) = splitLines xs ∨
      splitLines (xs ++ ['\n']) = splitLines xs ++ [[]] := by
  rcases xs.eq_nil_or_concat with rfl | ⟨front, d, rfl⟩
  · exact .inr rfl
  · rw [List.concat_eq_append] at h ⊢
    rw [List.getLast?_concat] at h
    by_cases hd : d = '\n'
    · subst hd
      refine .inr ?_
      rw [List.append_assoc]
      exact splitLines_append_lineFeed front ['\n']
    · exact .inl (splitLines_concat_of_open front hd fun hr => h (by rw [hr]))

theorem no_lineEnd_of_not_mem {c : Char} {rest : List Char} (h : '\n' ∉ rest) :
    ∀ behind, c = '\r' → rest = '\n' :: behind → False := by
  rintro behind _ rfl
  exact h List.mem_cons_self

theorem splitLines_of_not_mem {line : List Char} (h : '\n' ∉ line) (hne : line ≠ []) :
    splitLines line = [line] := by
  induction line with
  | nil => exact absurd rfl hne
  | cons c rest ih =>
    have hc : c ≠ '\n' := (List.ne_of_not_mem_cons h).symm
    have hrest : '\n' ∉ rest := List.not_mem_of_not_mem_cons h
    cases rest with
    | nil => exact splitLines_singleton hc
    | cons d rest =>
      obtain ⟨first, more, hfirst, hcons⟩ := exists_splitLines_cons hc
        (no_lineEnd_of_not_mem hrest) (List.cons_ne_nil d rest)
      rw [ih hrest (List.cons_ne_nil d rest)] at hfirst
      obtain ⟨rfl, rfl⟩ := List.cons.inj hfirst
      exact hcons

theorem splitLines_lineFeed {line : List Char} (h : '\n' ∉ line)
    (hr : line.getLast? ≠ some '\r') : splitLines (line ++ ['\n']) = [line] := by
  rcases line.eq_nil_or_concat with rfl | ⟨front, d, rfl⟩
  · rfl
  · rw [List.concat_eq_append] at h hr ⊢
    rw [List.getLast?_concat] at hr
    have hd : d ≠ '\n' := by
      rintro rfl
      exact h (by simp)
    rw [splitLines_concat_of_open front hd fun he => hr (by rw [he])]
    exact splitLines_of_not_mem h (by simp)

theorem splitLines_flatMap_lineFeed {lines : List (List Char)}
    (h : ∀ line ∈ lines, '\n' ∉ line ∧ line.getLast? ≠ some '\r') :
    splitLines (lines.flatMap fun line => line ++ ['\n']) = lines := by
  induction lines with
  | nil => rfl
  | cons line lines ih =>
    obtain ⟨hline, hrest⟩ := List.forall_mem_cons.mp h
    rw [List.flatMap_cons, List.append_assoc, List.singleton_append, splitLines_append_lineFeed,
      splitLines_lineFeed hline.1 hline.2, ih hrest]
    rfl

theorem lines_join {lines : List String}
    (h : ∀ line ∈ lines, '\n' ∉ line.toList ∧ line.toList.getLast? ≠ some '\r') :
    Text.lines (String.join (lines.map fun line => line ++ "\n")) = lines := by
  have htext : (String.join (lines.map fun line => line ++ "\n")).toList =
      (lines.map String.toList).flatMap fun line => line ++ ['\n'] := by
    rw [String.toList_join, List.flatMap_map, List.flatMap_map]
    simp
  rw [Text.lines, htext, splitLines_flatMap_lineFeed, List.map_map]
  · simp
  · intro line hline
    obtain ⟨s, hs, rfl⟩ := List.mem_map.mp hline
    exact h s hs

/-- A line goes on in the text behind it, unless that ends the line with its own last character. -/
theorem splitLines_append_of_not_mem {line : List Char} (h : '\n' ∉ line) (hne : line ≠ [])
    (text : List Char) :
    (∃ more lines, splitLines (line ++ text) = (line ++ more) :: lines) ∨
      ∃ front behind, line = front ++ ['\r'] ∧
        splitLines (line ++ text) = front :: splitLines behind := by
  induction line with
  | nil => exact absurd rfl hne
  | cons c rest ih =>
    have hc : c ≠ '\n' := (List.ne_of_not_mem_cons h).symm
    have hrest : '\n' ∉ rest := List.not_mem_of_not_mem_cons h
    cases rest with
    | nil =>
      by_cases hreturn : ∃ behind, c = '\r' ∧ text = '\n' :: behind
      · obtain ⟨behind, rfl, rfl⟩ := hreturn
        exact .inr ⟨[], behind, rfl, splitLines.eq_3 behind⟩
      · cases text with
        | nil => exact .inl ⟨[], [], splitLines_singleton hc⟩
        | cons d behind =>
          obtain ⟨more, lines, _, hcons⟩ := exists_splitLines_cons hc
            (fun behind hr he => hreturn ⟨behind, hr, he⟩) (List.cons_ne_nil d behind)
          exact .inl ⟨more, lines, hcons⟩
    | cons d rest =>
      have hopen : ∀ behind, c = '\r' → d :: rest ++ text = '\n' :: behind → False :=
        no_lineEnd_append (no_lineEnd_of_not_mem hrest) (List.cons_ne_nil d rest) text
      obtain ⟨first, more, hfirst, hcons⟩ := exists_splitLines_cons hc hopen (by simp)
      rcases ih hrest (List.cons_ne_nil d rest) with
        ⟨line, lines, hline⟩ | ⟨front, behind, hfront, hline⟩
      · obtain ⟨rfl, rfl⟩ := List.cons.inj (hfirst.symm.trans hline)
        exact .inl ⟨_, _, hcons⟩
      · obtain ⟨rfl, rfl⟩ := List.cons.inj (hfirst.symm.trans hline)
        exact .inr ⟨c :: first, behind, by rw [hfront]; rfl, hcons⟩

end TableLexer.Text
