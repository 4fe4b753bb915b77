import TableLexer.Proofs.Sample.Draws
namespace TableLexer.Sample

open Lexical RandomSource Scan LongestMatch

variable {ρ : Type} [RandomSource ρ]

/-- What a token of a sample is written with is read as that token. -/
theorem Writes.exists_completes {x : Category × String} {s : State} (h : Writes x s) :
    ∃ t, Completes s t x.2.toList ∧ category Lexicon.defaultReserved (t, x.2) = x.1 := by
  cases h with
  | identifier hs hn =>
    exact ⟨.identifierEnd, ⟨hs, rfl, by decide, by decide⟩, if_neg fun hm => hn hm.2⟩
  | keyword hs hm => exact ⟨.identifierEnd, ⟨hs, rfl, by decide, by decide⟩, if_pos ⟨rfl, hm⟩⟩
  | whole hs => exact ⟨.constantEnd, ⟨hs, rfl, by decide, by decide⟩, rfl⟩
  | fraction hs => exact ⟨.constantEnd, ⟨hs, rfl, by decide, by decide⟩, rfl⟩
  | quoted hs => exact ⟨.strEnd, ⟨hs, rfl, by decide, by decide⟩, rfl⟩
  | operator ho => exact ⟨.symbolEnd, completes_of_isOperator ho, rfl⟩
  | point => exact ⟨.symbolEnd, ⟨rfl, rfl, by decide, by decide⟩, rfl⟩

theorem next_of_followsAtOnce {text : String} (h : followsAtOnce (.symbol, text)) {s : State}
    (hs : s ∈ [State.identifier, .constantNoDot, .constantWithDot, .quoteClose]) :
    ∀ c ∈ text.toList.head?, s.next c = s.fallback := by
  have hall : ∀ text ∈ [",", ";", "+", "-", "(", ")", "[", "]", "\x7b", "\x7d"],
      ∀ s ∈ [State.identifier, .constantNoDot, .constantWithDot, .quoteClose],
        text.toList.head?.all fun c => s.next c = s.fallback := by decide
  intro c hc
  have hnext := hall text (of_decide_eq_true h) s hs
  rw [Option.mem_def.mp hc] at hnext
  exact of_decide_eq_true hnext

theorem next_operator_of_isWordStart {s : State} (hs : isOperator s) {c : Char}
    (hc : Alphabet.isWordStart c) : s.next c = s.fallback := by
  have hall : ∀ x ∈ compounds, Alphabet.isWordStart x.2.1 = false := by decide
  rcases next_operator hs c with hm | ⟨he, _⟩
  · rw [hall _ hm] at hc
    cases hc
  · rw [he, fallback_of_isOperator hs]

theorem eq_symbol_of_glueable {x : Category × String} {c : Category} (hx : x.1 ≠ .symbol)
    (h : glueable x c) : c = .symbol := by
  obtain ⟨category, text⟩ := x
  cases category <;> cases c <;> first | rfl | exact absurd rfl hx | cases h

/-- What is put right behind a token does not go on with it. -/
theorem Writes.next_of_glueable {last next : Category × String} {s s' : State}
    (hlast : Writes last s) (hnext : Writes next s') (hg : glueable last next.1)
    (hf : followsAtOnce next) : ∀ c ∈ next.2.toList.head?, s.next c = s.fallback := by
  have hpunctuation (hword : last.1 ≠ .symbol)
      (hs : s ∈ [State.identifier, .constantNoDot, .constantWithDot, .quoteClose]) :
      ∀ c ∈ next.2.toList.head?, s.next c = s.fallback := by
    obtain ⟨category, text⟩ := next
    have hsymbol : category = .symbol := eq_symbol_of_glueable hword hg
    subst hsymbol
    exact next_of_followsAtOnce hf hs
  have hwordBehind {text : String} (ho : isOperator s) (ht : Spells .identifier text.toList) :
      ∀ c ∈ text.toList.head?, s.next c = s.fallback := by
    obtain ⟨d, rest, hd, hstart, _⟩ := ht
    intro c hc
    rw [hd, List.head?_cons, Option.mem_some_iff] at hc
    exact next_operator_of_isWordStart ho (hc ▸ hstart)
  cases hlast with
  | identifier | keyword | whole | fraction | quoted =>
    exact hpunctuation (by simp) (by simp)
  | operator ho =>
    -- a number could be glued to no operator, so what follows is a word
    cases hnext with
    | identifier ht | keyword ht => exact hwordBehind ho ht
    | whole | fraction | quoted | operator | point => cases hg
  | point =>
    cases hnext with
    | identifier | keyword => simp [glueable] at hg
    | whole | fraction | quoted | operator | point => cases hg

theorem separator_cases (last? : Option (Category × String)) (next : Category × String) (r : ρ) :
    ((separator last? next r).1 = "" ∧
      ∀ last ∈ last?, glueable last next.1 ∧ followsAtOnce next) ∨
      (separator last? next r).1 ∈ separators := by
  have hpick (r : ρ) : (pick separators " " r).1 ∈ separators := pick_mem (by decide) " " r
  cases last? with
  | none => exact .inl ⟨rfl, by simp⟩
  | some last =>
    rw [separator]
    split
    · next hglue =>
      dsimp only
      split
      · exact .inl ⟨rfl, by simpa using hglue⟩
      · exact .inr (hpick _)
    · exact .inr (hpick r)

theorem separators_blank {gap : String} (h : gap ∈ separators) : '\r' ∉ gap.toList ∧
    (∀ c ∈ unbreak gap.toList, Alphabet.isBlank c) ∧ unbreak gap.toList ≠ [] := by
  have hall : ∀ gap ∈ separators, '\r' ∉ gap.toList ∧
      (unbreak gap.toList).all Alphabet.isBlank ∧ unbreak gap.toList ≠ [] := by decide
  obtain ⟨hreturn, hblank, hne⟩ := hall gap h
  exact ⟨hreturn, List.all_eq_true.mp hblank, hne⟩

/-- A sample whose source comes apart into what is expected of it. Before the first token there is
nothing that a character could go on with, as there is not behind a closing quote. -/
structure Sound (g : Sample) (s : State) : Prop where
  parts : Parts Lexicon.defaultReserved g.expected.toList s (unbreak g.source.toList)
  last : g.expected.back?.elim (s = .quoteClose) fun x => Writes x s
  legal : ∀ x ∈ g.expected.toList, x.1 ≠ .illegal
  noReturn : '\r' ∉ g.source.toList

theorem sound_empty : Sound ⟨"", #[]⟩ .quoteClose where
  parts := parts_nil _ _
  last := rfl
  legal := by simp
  noReturn := by decide

theorem Writes.legal {x : Category × String} {s : State} (h : Writes x s) : x.1 ≠ .illegal := by
  cases h <;> simp

theorem Sound.pending {g : Sample} {s : State} (h : g.Sound s) :
    Cursor.endsPending s ∧ s.isFinal = false := by
  have hl := h.last
  cases hlast : g.expected.back? with
  | none =>
    rw [hlast] at hl
    cases hl
    decide
  | some x =>
    rw [hlast] at hl
    obtain ⟨t, hc, _⟩ := Writes.exists_completes hl
    exact ⟨hc.pending, Cursor.not_isFinal_of_spells hc.spells⟩

theorem Sound.push {g : Sample} {s s' : State} (h : g.Sound s) {next : Category × String}
    (hnext : Writes next s') {gap : String} (hreturn : '\r' ∉ gap.toList)
    (hgap : ∀ c ∈ unbreak gap.toList, Alphabet.isBlank c)
    (hstop : ∀ c ∈ (unbreak gap.toList ++ next.2.toList).head?, s.next c = s.fallback) :
    Sound ⟨g.source ++ gap ++ next.2, g.expected.push next⟩ s' := by
  obtain ⟨t, hc, hcategory⟩ := hnext.exists_completes
  have hline := ne_lineEnd_of_spells hc.spells
  have htext : unbreak next.2.toList = next.2.toList := unbreak_of_forall fun c hc => (hline c hc).1
  exact {
    parts := by
      have hparts := h.parts.append hgap hstop hc
      rw [String.ofList_toList, hcategory] at hparts
      simpa [unbreak_append, htext] using hparts
    last := by simpa using hnext
    legal := by
      intro x hx
      rcases Array.mem_push.mp (Array.mem_toList_iff.mp hx) with hx | rfl
      · exact h.legal x (Array.mem_toList_iff.mpr hx)
      · exact hnext.legal
    noReturn := by
      intro hm
      rw [String.toList_append, String.toList_append] at hm
      rcases List.mem_append.mp hm with hm | hm
      · exact (List.mem_append.mp hm).elim h.noReturn hreturn
      · exact (hline _ hm).2 rfl }

theorem addToken_fst (g : Sample) (r : ρ) : (g.addToken r).1 =
    ⟨g.source ++ (separator g.expected.back? (token r).1 (token r).2).1 ++ (token r).1.2,
      g.expected.push (token r).1⟩ := rfl

theorem Sound.addToken {g : Sample} {s : State} (h : g.Sound s) (r : ρ) :
    ∃ s', (g.addToken r).1.Sound s' := by
  obtain ⟨s', hnext⟩ := exists_writes_token r
  have hlast := h.last
  refine ⟨s', ?_⟩
  rw [addToken_fst]
  rcases separator_cases g.expected.back? (token r).1 (token r).2 with ⟨hgap, hglue⟩ | hgap
  · have hstop : ∀ c ∈ (token r).1.2.toList.head?, s.next c = s.fallback := by
      cases hback : g.expected.back? with
      | none =>
        rw [hback] at hlast
        cases hlast
        exact fun c _ => rfl
      | some last =>
        rw [hback] at hlast
        obtain ⟨hg, hf⟩ := hglue last hback
        exact Writes.next_of_glueable hlast hnext hg hf
    rw [hgap]
    exact h.push hnext (by simp) (by simp [unbreak]) hstop
  · obtain ⟨hreturn, hblank, hne⟩ := separators_blank hgap
    refine h.push hnext hreturn hblank fun c hc => ?_
    obtain ⟨c₀, rest, hcons⟩ := List.exists_cons_of_ne_nil hne
    rw [hcons, List.cons_append, List.head?_cons, Option.mem_some_iff] at hc
    exact next_of_isBlank h.pending.1 h.pending.2 (hblank c (by simp [hcons, hc]))

theorem Sound.grow {g : Sample} {s : State} (h : g.Sound s) (length rounds : Nat) (r : ρ) :
    ∃ s', (grow length rounds g r).1.Sound s' := by
  induction rounds generalizing g s r with
  | zero => exact ⟨s, h⟩
  | succ rounds ih =>
    rw [Sample.grow]
    split
    · obtain ⟨s', h'⟩ := h.addToken r
      exact ih h' _
    · exact ⟨s, h⟩

theorem size_addToken (g : Sample) (r : ρ) :
    g.source.utf8ByteSize < (g.addToken r).1.source.utf8ByteSize := by
  obtain ⟨s, hnext⟩ := exists_writes_token r
  obtain ⟨t, hc, _⟩ := hnext.exists_completes
  have hne : (token r).1.2.utf8ByteSize ≠ 0 := by
    intro hz
    rw [String.utf8ByteSize_eq_zero_iff] at hz
    exact hc.ne_nil (by rw [hz]; rfl)
  rw [addToken_fst, String.utf8ByteSize_append, String.utf8ByteSize_append]
  omega

theorem le_size_grow (length rounds : Nat) (g : Sample) (r : ρ)
    (h : length ≤ g.source.utf8ByteSize + rounds) :
    length ≤ (grow length rounds g r).1.source.utf8ByteSize := by
  induction rounds generalizing g r with
  | zero => exact h
  | succ rounds ih =>
    rw [grow]
    split
    · have hsize := size_addToken g r
      exact ih (g.addToken r).1 (g.addToken r).2 (by omega)
    · next hlt => exact Nat.le_of_not_lt hlt

theorem grow_of_le {length : Nat} {g : Sample} (h : length ≤ g.source.utf8ByteSize) (rounds : Nat)
    (r : ρ) : grow length rounds g r = (g, r) := by
  cases rounds with
  | zero => rfl
  | succ rounds => rw [grow, if_neg (Nat.not_lt.mpr h)]

theorem grow_add (length rounds more : Nat) (g : Sample) (r : ρ)
    (h : length ≤ g.source.utf8ByteSize + rounds) :
    grow length (rounds + more) g r = grow length rounds g r := by
  induction rounds generalizing g r with
  | zero => rw [grow_of_le h, grow_of_le h]
  | succ rounds ih =>
    rw [Nat.succ_add, grow, grow]
    split
    · have hsize := size_addToken g r
      exact ih (g.addToken r).1 (g.addToken r).2 (by omega)
    · rfl

theorem toList_source_generate (length : Nat) (r : ρ) :
    (generate length r).1.source.toList =
      (grow length length ⟨"", #[]⟩ r).1.source.toList ++ ['\n'] := by
  rw [generate, String.toList_append]
  rfl

/-- The longest match takes the source of a sample apart into what is expected. -/
theorem lex_generate (length : Nat) (r : ρ) :
    lex Lexicon.defaultReserved (streamText (generate length r).1.source) =
      (generate length r).1.expected.toList := by
  obtain ⟨s, h⟩ := sound_empty.grow length length r
  have hblank : s.next ' ' = s.fallback := next_of_isBlank h.pending.1 h.pending.2 (by decide)
  have hend : lex Lexicon.defaultReserved [' '] = [] := by
    rw [lex, tokens_of_isBlank (by decide), tokens_nil]
    rfl
  rw [streamText_of_ends (toList_source_generate length r) h.noReturn, toList_source_generate,
    unbreak_append]
  exact (h.parts ' ' [] hblank).trans (by rw [hend, List.append_nil]; rfl)

theorem legal_generate (length : Nat) (r : ρ) :
    ∀ x ∈ tokens (streamText (generate length r).1.source), x.1 ≠ .illegal := by
  obtain ⟨s, h⟩ := sound_empty.grow length length r
  have hlegal : ∀ x ∈ lex Lexicon.defaultReserved (streamText (generate length r).1.source),
      x.1 ≠ .illegal := by
    rw [lex_generate]
    exact h.legal
  exact legal_of_lex hlegal

/-- Whatever the draws, a sample is as long as asked for, and a scan of its source that gives up at
what is illegal does not, but yields just the tokens that are expected. The sample is done within
its rounds: more of them would not change it. -/
theorem scan_generate (length : Nat) (r : ρ) (trace : Bool) :
    let sample := (generate length r).1
    length ≤ sample.source.utf8ByteSize ∧
      (∀ more, grow length (length + more) ⟨"", #[]⟩ r = grow length length ⟨"", #[]⟩ r) ∧
      ∃ s, Scanner.standard ⟨.failFast, trace⟩ = .ok s ∧
        let outcome := s.scan sample.source (Lexicon.ofReserved Lexicon.defaultReserved)
        outcome.failure? = none ∧
          outcome.report.tokens.toList.map
              (fun token => (token.category, outcome.lexicon.lexeme? token)) =
            sample.expected.toList.map fun x => (x.1, some x.2) := by
  intro sample
  have hrounds : length ≤ (Sample.mk "" #[]).source.utf8ByteSize + length := Nat.le_add_left _ _
  have hsize : length ≤ sample.source.utf8ByteSize := by
    have hgrown := le_size_grow length length ⟨"", #[]⟩ r hrounds
    change length ≤ (_ ++ "\n").utf8ByteSize
    rw [String.utf8ByteSize_append]
    omega
  obtain ⟨_, _, hs⟩ := Scanner.exists_standard ⟨.failFast, trace⟩
  obtain ⟨hok, htokens⟩ := map_tokens_scan_of_yields
    (yields_of_legal (.standard hs) (legal_generate length r)) Lexicon.defaultReserved
  refine ⟨hsize, fun more => grow_add length length more _ r hrounds, _, hs, hok, ?_⟩
  rw [htokens, ← lex_generate, lex, List.map_map]
  rfl

end TableLexer.Sample
