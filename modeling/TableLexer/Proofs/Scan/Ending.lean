import TableLexer.Proofs.Scan.Pending
namespace TableLexer.Scan.LongestMatch

open Alphabet Lexical State

theorem takeWhile_append_stop {p : Char → Bool} {text rest : List Char} {c : Char}
    (h : ∀ d ∈ text, p d) (hc : p c = false) : (text ++ c :: rest).takeWhile p = text := by
  rw [List.takeWhile_append_of_pos h, List.takeWhile_cons_of_neg (by simp [hc]), List.append_nil]

theorem dropWhile_append_stop {p : Char → Bool} {text rest : List Char} {c : Char}
    (h : ∀ d ∈ text, p d) (hc : p c = false) :
    (text ++ c :: rest).dropWhile p = c :: rest := by
  rw [List.dropWhile_append_of_pos h, List.dropWhile_cons_of_neg (by simp [hc])]

theorem first_of_word {c d : Char} {text rest : List Char} (hc : isWordStart c)
    (h : ∀ e ∈ text, isWord e) (hd : isWord d = false) :
    first c (text ++ d :: rest) = ⟨.identifierEnd, c :: text, d :: rest⟩ := by
  rw [first, if_pos hc, word, takeWhile_append_stop h hd, dropWhile_append_stop h hd]

/-- A number with a dot, however its digits lie around the dot. -/
theorem first_of_fraction {c d : Char} {whole part rest : List Char}
    (hw : ∀ e ∈ whole, e.isDigit) (hp : ∀ e ∈ part, e.isDigit) (hne : whole ≠ [] ∨ part ≠ [])
    (hd : d.isDigit = false) (hc : c :: rest = whole ++ '.' :: part) (behind : List Char) :
    first c (rest ++ d :: behind) = endNumber true (whole ++ '.' :: part) (d :: behind) := by
  cases whole with
  | nil =>
    -- a number that begins with its dot has a digit behind it
    obtain ⟨rfl, rfl⟩ := List.cons.inj hc
    cases rest with
    | nil => simp at hne
    | cons e rest =>
      have he : e.isDigit = true := hp e (by simp)
      rw [first, if_neg (by decide), if_neg (by decide), if_pos rfl, List.cons_append, dot,
        if_pos he, fraction, ← List.cons_append, takeWhile_append_stop hp hd,
        dropWhile_append_stop hp hd]
  | cons e whole =>
    obtain ⟨rfl, hrest⟩ : c = e ∧ rest = whole ++ '.' :: part := List.cons.inj hc
    subst hrest
    have hc : c.isDigit = true := hw c (by simp)
    have hw' : ∀ e ∈ whole, e.isDigit := fun e he => hw e (by simp [he])
    have hdot : Char.isDigit '.' = false := by decide
    rw [first, if_neg (by simp [isWordStart_eq_false_of_isDigit hc]), if_pos hc, List.append_assoc,
      List.cons_append, number, takeWhile_append_stop hw' hdot, dropWhile_append_stop hw' hdot]
    change fraction (c :: whole) (part ++ d :: behind) = _
    rw [fraction, takeWhile_append_stop hp hd, dropWhile_append_stop hp hd]

theorem first_of_whole {c d : Char} {text : List Char} (hc : c.isDigit)
    (h : ∀ e ∈ text, e.isDigit) (hd : d.isDigit = false) (hdot : d ≠ '.') (behind : List Char) :
    first c (text ++ d :: behind) = endNumber false (c :: text) (d :: behind) := by
  rw [first, if_neg (by simp [isWordStart_eq_false_of_isDigit hc]), if_pos hc, number,
    takeWhile_append_stop h hd, dropWhile_append_stop h hd]
  split
  · next hb => exact absurd (List.cons.inj hb).1 hdot
  · rfl

theorem first_of_quote {c : Char} {body : List Char} (h : ∀ d ∈ body, isQuotable d)
    (hc : isQuotable c = false) (behind : List Char) :
    first '\'' (body ++ c :: behind) =
      ⟨if c = '\'' then .strEnd else .illegal, '\'' :: body ++ [c], behind⟩ := by
  rw [first, if_neg (by decide), if_neg (by decide), if_neg (by decide), if_pos rfl, quoted,
    takeWhile_append_stop h hc, dropWhile_append_stop h hc]

theorem first_of_open_quote {body : List Char} (h : ∀ d ∈ body, isQuotable d) :
    first '\'' body = ⟨.illegal, '\'' :: body, []⟩ := by
  rw [first, if_neg (by decide), if_neg (by decide), if_neg (by decide), if_pos rfl, quoted,
    Text.takeWhile_of_forall h, Text.dropWhile_of_forall h]

theorem first_of_operator {c : Char} (hc : c ∈ operators) (rest : List Char) :
    first c rest = operator c rest := by
  have hall : operators.all (fun c => !isWordStart c && !c.isDigit && c != '.' && c != '\'') := by
    decide
  obtain ⟨⟨⟨hw, hd⟩, hdot⟩, hq⟩ :
      ((isWordStart c = false ∧ c.isDigit = false) ∧ c ≠ '.') ∧ c ≠ '\'' := by
    simpa using List.all_eq_true.mp hall c hc
  rw [first, if_neg (by simp [hw]), if_neg (by simp [hd]), if_neg hdot, if_neg hq, if_pos hc]

theorem endNumber_of_stop {dotted : Bool} {lexeme rest : List Char} {c : Char}
    (hw : isWordStart c = false) (hdot : dotted = false ∨ c ≠ '.') :
    endNumber dotted lexeme (c :: rest) = ⟨.constantEnd, lexeme, c :: rest⟩ := by
  rw [endNumber, if_neg]
  rcases hdot with rfl | h <;> simp [*]

theorem first_of_operator_stop {s : State} (hs : isOperator s) {c d : Char} {text : List Char}
    (h : c :: text = s.name.toList) (hd : ∀ x ∈ compounds, ¬(x.1 = s ∧ x.2.1 = d))
    (behind : List Char) :
    first c (text ++ d :: behind) = ⟨.symbolEnd, c :: text, d :: behind⟩ := by
  rcases operator_text hs with ⟨o, ho, hn, hp⟩ | ⟨p, hp, ho, hn, _⟩
  · obtain ⟨rfl, rfl⟩ := List.cons.inj (h.trans hn)
    have hpair : (c, d) ∉ pairs := by
      intro hm
      obtain ⟨x, hx, hxs, hxd⟩ := (hp d).mp hm
      exact hd x hx ⟨hxs, hxd⟩
    rw [first_of_operator ho, List.nil_append, operator, if_neg hpair]
  · obtain ⟨rfl, rfl⟩ := List.cons.inj (h.trans hn)
    rw [first_of_operator ho, List.singleton_append, operator, if_pos hp]

theorem first_of_ends {s : State} {c d : Char} {text : List Char} {t : Terminal}
    (h : Spells s (c :: text)) (ht : (s.next d).terminal? = some t) (hl : t ≠ .illegal)
    (behind : List Char) : first c (text ++ d :: behind) = ⟨t, c :: text, d :: behind⟩ := by
  cases s with
  | initial => cases h
  | identifier =>
    obtain ⟨c', rest, he, hc, hr⟩ := h
    obtain ⟨rfl, rfl⟩ := List.cons.inj he
    rw [next_identifier] at ht
    split at ht
    · cases ht
    · next hd =>
      cases ht
      exact first_of_word hc hr (by simpa using hd)
  | constantNoDot =>
    obtain ⟨c', rest, he, hc, hr⟩ := h
    obtain ⟨rfl, rfl⟩ := List.cons.inj he
    rw [next_constantNoDot] at ht
    split at ht
    · cases ht
    split at ht
    · cases ht
    split at ht
    · cases ht
      exact absurd rfl hl
    · next hd hdot hw =>
      cases ht
      rw [first_of_whole hc hr (by simpa using hd) hdot]
      exact endNumber_of_stop (by simpa using hw) (.inl rfl)
  | constantWithDot =>
    obtain ⟨whole, part, he, hw, hp, hne⟩ := h
    rw [next_constantWithDot] at ht
    split at ht
    · cases ht
    split at ht
    · cases ht
      exact absurd rfl hl
    · next hd hwd =>
      cases ht
      simp only [Bool.or_eq_true, decide_eq_true_eq, not_or] at hwd
      rw [first_of_fraction hw hp hne (by simpa using hd) he, ← he]
      exact endNumber_of_stop (by simpa using hwd.1) (.inr hwd.2)
  | dot =>
    obtain ⟨rfl, rfl⟩ := List.cons.inj h
    rw [next_dot] at ht
    split at ht
    · cases ht
    · next hd =>
      cases ht
      rw [first, if_neg (by decide), if_neg (by decide), if_pos rfl, List.nil_append, dot,
        if_neg hd]
  | quoteOpen =>
    rw [next_quoteOpen] at ht
    split at ht <;> cases ht
  | stringBody =>
    rw [next_stringBody] at ht
    split at ht <;> cases ht
  | quoteClose =>
    obtain ⟨body, he, hb⟩ := h
    obtain ⟨rfl, htext⟩ : c = '\'' ∧ text = body ++ ['\''] := List.cons.inj he
    subst htext
    cases ht
    have hq : isQuotable '\'' = false := by decide
    rw [List.append_assoc, List.singleton_append, first_of_quote hb hq, if_pos rfl]
    rfl
  | illegal | identifierEnd | constantEnd | strEnd | symbolEnd | commentEnd =>
    exact absurd h.1 (by decide)
  | _ =>
    rcases next_operator h.1 d with hm | ⟨he, hd⟩
    · have hall : ∀ x ∈ compounds, x.2.2.terminal? = none := by decide
      rw [hall _ hm] at ht
      cases ht
    · rw [he] at ht
      cases ht
      exact first_of_operator_stop h.1 h.2 hd behind

theorem first_of_spoils {s : State} {c d : Char} {text : List Char} (h : Spells s (c :: text))
    (ht : s.next d = illegal) (behind : List Char) :
    first c (text ++ d :: behind) = ⟨.illegal, c :: text ++ [d], behind⟩ := by
  cases s with
  | initial => cases h
  | identifier =>
    rw [next_identifier] at ht
    split at ht <;> cases ht
  | constantNoDot =>
    obtain ⟨c', rest, he, hc, hr⟩ := h
    obtain ⟨rfl, rfl⟩ := List.cons.inj he
    rw [next_constantNoDot] at ht
    split at ht
    · cases ht
    split at ht
    · cases ht
    split at ht
    · next hd hdot hw =>
      rw [first_of_whole hc hr (by simpa using hd) hdot, endNumber, if_pos (by simp [hw])]
    · cases ht
  | constantWithDot =>
    obtain ⟨whole, part, he, hw, hp, hne⟩ := h
    rw [next_constantWithDot] at ht
    split at ht
    · cases ht
    split at ht
    · next hd hwd =>
      rw [first_of_fraction hw hp hne (by simpa using hd) he, ← he, endNumber,
        if_pos (by simpa using hwd)]
    · cases ht
  | dot =>
    rw [next_dot] at ht
    split at ht <;> cases ht
  | quoteOpen =>
    rw [next_quoteOpen] at ht
    split at ht <;> cases ht
  | stringBody =>
    rw [next_stringBody] at ht
    split at ht <;> cases ht
  | quoteClose => cases ht
  | illegal | identifierEnd | constantEnd | strEnd | symbolEnd | commentEnd =>
    exact absurd h.1 (by decide)
  | _ =>
    rcases next_operator h.1 d with hm | ⟨he, _⟩
    · have hall : ∀ x ∈ compounds, x.2.2 ≠ illegal := by decide
      exact absurd ht (hall _ hm)
    · rw [he] at ht
      cases ht

theorem first_of_no_start {c : Char} (h : initial.next c = illegal) (behind : List Char) :
    isBlank c = false ∧ first c behind = ⟨.illegal, [c], behind⟩ := by
  have hx : initial.exception? c = none := by
    rcases next_cases initial c with hx | ⟨hx, _⟩
    · rw [h] at hx
      cases hx with
      | symbolStart hm =>
        have hall : ∀ x ∈ symbolStarts, x.2 ≠ illegal := by decide
        exact absurd rfl (hall _ hm)
      | compound hm => exact absurd hm (not_mem_compounds_initial c illegal)
    · exact hx
  -- what is no exception to the initial state takes none of the branches of `first`
  simp only [exception?] at hx
  split at hx
  · cases hx
  split at hx
  · cases hx
  split at hx
  · cases hx
  split at hx
  · cases hx
  split at hx
  · cases hx
  · next hb hw hd hdot hq =>
    have ho : c ∉ operators := by
      intro hm
      have hm' : c ∈ symbolStarts.map Prod.fst := hm
      obtain ⟨x, hxs, rfl⟩ := List.mem_map.mp hm'
      have hn := List.lookup_eq_none_iff.mp hx x hxs
      simp at hn
    refine ⟨by simpa using hb, ?_⟩
    rw [first, if_neg hw, if_neg hd, if_neg hdot, if_neg hq, if_neg ho]

end TableLexer.Scan.LongestMatch
