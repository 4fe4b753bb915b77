import TableLexer.Proofs.Scan.Conservation
namespace TableLexer.Scan

open Lexical LongestMatch State Cursor

/-- A line feed read as the blank it stands for. -/
def unbreak (text : List Char) : List Char := text.map fun c => if c = '\n' then ' ' else c

theorem unbreak_append (xs ys : List Char) : unbreak (xs ++ ys) = unbreak xs ++ unbreak ys :=
  List.map_append

theorem unbreak_of_forall {text : List Char} (h : ∀ c ∈ text, c ≠ '\n') : unbreak text = text :=
  (List.map_congr_left fun c hc => if_neg (h c hc)).trans (List.map_id' text)

/-- Without carriage returns, a text that ends its last line is read as it stands, line feeds as
blanks. -/
theorem flatMap_splitLines_concat {text : List Char} (h : '\r' ∉ text) :
    (Text.splitLines (text ++ ['\n'])).flatMap (fun line => line ++ [' ']) =
      unbreak (text ++ ['\n']) := by
  induction text with
  | nil => rfl
  | cons c text ih =>
    obtain ⟨hc, htext⟩ : '\r' ≠ c ∧ '\r' ∉ text := by simpa using h
    have hrest := ih htext
    by_cases hn : c = '\n'
    · subst hn
      rw [List.cons_append, Text.splitLines, List.flatMap_cons, hrest]
      rfl
    · have hcons : unbreak (c :: text ++ ['\n']) = c :: unbreak (text ++ ['\n']) := by
        simp [unbreak, hn]
      rw [hcons, ← hrest, List.cons_append, Text.splitLines]
      · split
        · next hnil =>
          rw [hnil] at hrest
          simp [unbreak] at hrest
        · next hlines => simp [hlines]
      · exact hn
      · rintro _ rfl
        exact absurd rfl hc

theorem streamText_of_ends {source : String} {text : List Char}
    (hs : source.toList = text ++ ['\n']) (h : '\r' ∉ text) :
    streamText source = unbreak source.toList := by
  rw [streamText, hs, flatMap_splitLines_concat h]

theorem contains_of_spells {s : State} {text : List Char} (h : Spells s text) :
    ∀ c ∈ text, Alphabet.standard.contains c := by
  have hword {c : Char} (hc : Alphabet.isWordStart c || c.isDigit) :
      Alphabet.standard.contains c :=
    Alphabet.contains_of_isWord (by rw [Alphabet.isWord_eq]; exact hc)
  have hlisted {c : Char} (hc : Alphabet.sigma.toList.contains c) :
      Alphabet.standard.contains c := (Alphabet.contains_standard c).trans hc
  have hquote : Alphabet.standard.contains '\'' := hlisted (by decide)
  have hquotable {c : Char} (hc : isQuotable c) : Alphabet.standard.contains c :=
    (Bool.and_eq_true_iff.mp hc).2
  have hop (ho : isOperator s) (ht : text = s.name.toList) :
      ∀ c ∈ text, Alphabet.standard.contains c := by
    have hsingle : ∀ c ∈ operators, Alphabet.sigma.toList.contains c :=
      List.all_eq_true.mp (by decide)
    have hpair : ∀ p ∈ pairs, Alphabet.sigma.toList.contains p.2 := List.all_eq_true.mp (by decide)
    rw [ht]
    rcases operator_text ho with ⟨o, hm, hn, _⟩ | ⟨p, hm, ho, hn, _⟩ <;> rw [hn]
    · simpa using hlisted (hsingle o hm)
    · simpa using ⟨hlisted (hsingle p.1 ho), hlisted (hpair p hm)⟩
  cases s
  case initial =>
    cases h
    simp
  case identifier =>
    obtain ⟨d, rest, rfl, hd, hr⟩ := h
    exact List.forall_mem_cons.mpr ⟨hword (by simp [hd]),
      fun c hc => Alphabet.contains_of_isWord (hr c hc)⟩
  case constantNoDot =>
    obtain ⟨d, rest, rfl, hd, hr⟩ := h
    exact List.forall_mem_cons.mpr ⟨hword (by simp [hd]), fun c hc => hword (by simp [hr c hc])⟩
  case constantWithDot =>
    obtain ⟨whole, part, rfl, hw, hp, _⟩ := h
    refine List.forall_mem_append.mpr ⟨fun c hc => hword (by simp [hw c hc]), ?_⟩
    exact List.forall_mem_cons.mpr ⟨hlisted (by decide), fun c hc => hword (by simp [hp c hc])⟩
  case dot =>
    cases h
    simpa using hlisted (c := '.') (by decide)
  case quoteOpen =>
    cases h
    simpa using hquote
  case stringBody =>
    obtain ⟨body, rfl, hb⟩ := h
    exact List.forall_mem_cons.mpr ⟨hquote, fun c hc => hquotable (hb c hc)⟩
  case quoteClose =>
    obtain ⟨body, rfl, hb⟩ := h
    refine List.forall_mem_append.mpr ⟨List.forall_mem_cons.mpr ⟨hquote, ?_⟩, by simpa using hquote⟩
    exact fun c hc => hquotable (hb c hc)
  all_goals exact hop h.1 h.2

theorem ne_lineEnd_of_spells {s : State} {text : List Char} (h : Spells s text) :
    ∀ c ∈ text, c ≠ '\n' ∧ c ≠ '\r' := by
  intro c hc
  have hm := contains_of_spells h c hc
  rw [Alphabet.contains_standard] at hm
  constructor
  · rintro rfl
    exact absurd hm (by decide)
  · rintro rfl
    exact absurd hm (by decide)

/-- A token is read to its end in this state, and what it does not go on with makes it a legal
one. -/
structure Completes (s : State) (t : Terminal) (text : List Char) : Prop where
  spells : Spells s text
  fallback : s.fallback.terminal? = some t
  legal : t ≠ .illegal
  pending : endsPending s

variable {words : List String} {s : State} {t : Terminal} {text : List Char}

theorem completes_of_isOperator (hs : isOperator s) :
    Completes s .symbolEnd s.name.toList where
  spells := (spells_of_isOperator hs).mpr rfl
  fallback := by rw [fallback_of_isOperator hs]; rfl
  legal := by decide
  pending := by cases s <;> first | rfl | exact absurd hs (by decide)

theorem Completes.ne_nil (h : Completes s t text) : text ≠ [] :=
  ne_nil_of_spells h.spells (ne_initial_of_endsPending h.pending)

theorem Completes.lex_append (h : Completes s t text) {d : Char} (hd : s.next d = s.fallback)
    (behind : List Char) : lex words (text ++ d :: behind) =
      (category words (t, String.ofList text), String.ofList text) :: lex words (d :: behind) := by
  obtain ⟨c, text, rfl⟩ := List.exists_cons_of_ne_nil h.ne_nil
  have hend : (s.next d).terminal? = some t := by rw [hd, h.fallback]
  rw [lex, List.cons_append, tokens_of_first (isBlank_of_spells h.spells),
    first_of_ends h.spells hend h.legal, List.map_cons]
  rfl

theorem lex_append_of_isBlank {gap : List Char} (h : ∀ c ∈ gap, Alphabet.isBlank c)
    (text : List Char) : lex words (gap ++ text) = lex words text := by
  induction gap with
  | nil => rfl
  | cons c gap ih =>
    obtain ⟨hc, hgap⟩ := List.forall_mem_cons.mp h
    rw [List.cons_append, lex, tokens_of_isBlank hc]
    exact ih hgap

theorem legal_of_lex (h : ∀ x ∈ lex words text, x.1 ≠ .illegal) :
    ∀ x ∈ tokens text, x.1 ≠ .illegal := by
  rintro ⟨t, lexeme⟩ hx rfl
  exact h (.illegal, lexeme) (List.mem_map.mpr ⟨_, hx, rfl⟩) rfl

theorem next_of_isBlank (hs : endsPending s) (hf : s.isFinal = false) {c : Char}
    (hc : Alphabet.isBlank c) : s.next c = s.fallback := by
  have hall : ∀ s ∈ all.filter fun s => endsPending s && !s.isFinal,
      s.next ' ' = s.fallback ∧ s.next '\t' = s.fallback := by decide
  obtain ⟨hspace, htab⟩ := hall s (List.mem_filter.mpr ⟨mem_all s, by simp [hs, hf]⟩)
  obtain rfl | rfl : c = ' ' ∨ c = '\t' := by simpa [Alphabet.isBlank] using hc
  · exact hspace
  · exact htab

/-- A text that comes apart into these tokens, whatever is behind it, as long as that does not go
on with the last one. -/
def Parts (words : List String) (xs : List (Category × String)) (s : State)
    (text : List Char) : Prop :=
  ∀ (d : Char) (behind : List Char), s.next d = s.fallback →
    lex words (text ++ d :: behind) = xs ++ lex words (d :: behind)

theorem parts_nil (words : List String) (s : State) : Parts words [] s [] := fun _ _ _ => rfl

theorem Parts.append {xs : List (Category × String)} {front gap : List Char} {r : State}
    (h : Parts words xs r front) (hgap : ∀ c ∈ gap, Alphabet.isBlank c)
    (hstop : ∀ c ∈ (gap ++ text).head?, r.next c = r.fallback) (hs : Completes s t text) :
    Parts words (xs ++ [(category words (t, String.ofList text), String.ofList text)]) s
      (front ++ (gap ++ text)) := by
  intro d behind hd
  have hne : gap ++ text ≠ [] := fun he => hs.ne_nil (List.append_eq_nil_iff.mp he).2
  obtain ⟨c, rest, hcons⟩ := List.exists_cons_of_ne_nil hne
  have hc : r.next c = r.fallback := hstop c (by rw [hcons]; rfl)
  calc lex words (front ++ (gap ++ text) ++ d :: behind)
      = xs ++ lex words ((gap ++ text) ++ d :: behind) := by
        rw [List.append_assoc, hcons, List.cons_append]
        exact h c _ hc
    _ = xs ++ lex words (text ++ d :: behind) := by
        rw [List.append_assoc, lex_append_of_isBlank hgap]
    _ = _ := by rw [hs.lex_append hd, List.append_assoc, List.singleton_append]

end TableLexer.Scan
