import TableLexer.Proofs.Automaton.Resolution
import TableLexer.Proofs.Lexical.NextState
namespace TableLexer.Lexical

open Alphabet State

variable (a : Alphabet)

/-- A rule of one of two kinds: the fallback of a state, or one of its exceptions. -/
def Fits (r : Rule) : Prop :=
  (∃ s, r = general s s.fallback a.symbols) ∨
    ∃ s t cs, r = specific s t cs ∧ ∀ c ∈ cs, s.exception? c = some t

theorem fits_general (s : State) : Fits a (general s s.fallback a.symbols) := .inl ⟨s, rfl⟩

theorem fits_specific {s t : State} {cs : List Char} (h : ∀ c ∈ cs, s.exception? c = some t) :
    Fits a (specific s t cs) := .inr ⟨s, t, cs, rfl, h⟩

theorem fits_specific_singleton {s t : State} {c : Char} (h : s.exception? c = some t) :
    Fits a (specific s t [c]) := fits_specific a (by simpa using h)

theorem fallback_of_mem_symbolStarts : ∀ x ∈ symbolStarts, x.2.fallback = symbolEnd := by decide

theorem fallback_of_mem_compounds : ∀ x ∈ compounds, x.2.2.fallback = symbolEnd := by decide

theorem fits_initialRules {r : Rule} (hr : r ∈ initialRules a) : Fits a r := by
  simp only [initialRules, List.mem_append, List.mem_cons, List.not_mem_nil, or_false,
    List.mem_map] at hr
  rcases hr with (rfl | rfl | rfl | rfl | rfl | rfl) | ⟨x, hx, rfl⟩
  · exact fits_general a initial
  · apply fits_specific
    intro c hc
    simp [exception?, (List.mem_filter.mp hc).2]
  · apply fits_specific
    intro c hc
    have hw := (List.mem_filter.mp hc).2
    have hb : isBlank c = false := isBlank_eq_false_of_isWord (by simp [isWord_eq, hw])
    simp [exception?, hb, hw]
  · apply fits_specific
    intro c hc
    have hd : c.isDigit = true := (List.mem_filter.mp hc).2
    have hb : isBlank c = false := isBlank_eq_false_of_isWord (by simp [isWord_eq, hd])
    simp [exception?, hb, isWordStart_eq_false_of_isDigit hd, hd]
  · exact fits_specific_singleton a (by decide)
  · exact fits_specific_singleton a (by decide)
  · exact fits_specific_singleton a (exception?_of_mem_symbolStarts x hx)

theorem fits_identifierRules {r : Rule} (hr : r ∈ identifierRules a) : Fits a r := by
  simp only [identifierRules, List.mem_cons, List.not_mem_nil, or_false] at hr
  rcases hr with rfl | rfl
  · exact fits_general a identifier
  · apply fits_specific
    intro c hc
    simp [exception?, (List.mem_filter.mp hc).2]

theorem fits_constantRules {r : Rule} (hr : r ∈ constantRules a) : Fits a r := by
  simp only [constantRules, List.mem_cons, List.not_mem_nil, or_false] at hr
  rcases hr with rfl | rfl | rfl | rfl | rfl | rfl | rfl | rfl | rfl
  · exact fits_general a constantNoDot
  · apply fits_specific
    intro c hc
    simp [exception?, show c.isDigit = true from (List.mem_filter.mp hc).2]
  · exact fits_specific_singleton a (by decide)
  · apply fits_specific
    intro c hc
    have hw := (List.mem_filter.mp hc).2
    have hd : c ≠ '.' := by rintro rfl; exact absurd hw (by decide)
    simp [exception?, isDigit_eq_false_of_isWordStart hw, hw, hd]
  · exact fits_general a constantWithDot
  · apply fits_specific
    intro c hc
    simp [exception?, show c.isDigit = true from (List.mem_filter.mp hc).2]
  · apply fits_specific
    intro c hc
    rcases List.mem_append.mp hc with hc | hc
    · have hw := (List.mem_filter.mp hc).2
      simp [exception?, isDigit_eq_false_of_isWordStart hw, hw]
    · rw [List.mem_singleton.mp hc]
      decide
  · exact fits_general a dot
  · apply fits_specific
    intro c hc
    simp [exception?, show c.isDigit = true from (List.mem_filter.mp hc).2]

theorem fits_stringRules {r : Rule} (hr : r ∈ stringRules a) : Fits a r := by
  simp only [stringRules, List.mem_cons, List.not_mem_nil, or_false] at hr
  rcases hr with rfl | rfl | rfl | rfl | rfl
  · exact fits_general a quoteOpen
  · exact fits_specific_singleton a (by decide)
  · exact fits_general a stringBody
  · exact fits_specific_singleton a (by decide)
  · exact fits_general a quoteClose

theorem fits_symbolRules {r : Rule} (hr : r ∈ symbolRules a) : Fits a r := by
  simp only [symbolRules, List.mem_append, List.mem_map, List.mem_flatMap, List.mem_cons,
    List.not_mem_nil, or_false] at hr
  rcases hr with ⟨x, hx, rfl⟩ | ⟨x, hx, rfl | rfl⟩
  · exact .inl ⟨x.2, by rw [fallback_of_mem_symbolStarts x hx]⟩
  · exact fits_specific_singleton a (exception?_of_mem_compounds x hx)
  · exact .inl ⟨x.2.2, by rw [fallback_of_mem_compounds x hx]⟩

theorem fits_finalRules {r : Rule} (hr : r ∈ finalRules a) : Fits a r := by
  obtain ⟨s, hs, rfl⟩ := List.mem_map.mp hr
  exact .inl ⟨s, by rw [fallback_of_isFinal s hs]⟩

theorem fits_of_mem_rules {r : Rule} (hr : r ∈ rules a) : Fits a r := by
  simp only [rules, List.mem_append] at hr
  rcases hr with ((((hr | hr) | hr) | hr) | hr) | hr
  · exact fits_initialRules a hr
  · exact fits_identifierRules a hr
  · exact fits_constantRules a hr
  · exact fits_stringRules a hr
  · exact fits_symbolRules a hr
  · exact fits_finalRules a hr

theorem general_mem_rules (s : State) : general s s.fallback a.symbols ∈ rules a := by
  simp only [rules, List.mem_append]
  -- the kinds of states are the groups of the rules
  rcases mem_states s with hs | ⟨x, hx, rfl⟩ | ⟨x, hx, rfl⟩ | hs
  · simp only [plainStates, List.mem_cons, List.not_mem_nil, or_false] at hs
    rcases hs with rfl | rfl | rfl | rfl | rfl | rfl | rfl | rfl
    · simp [initialRules, fallback]
    · simp [identifierRules, fallback]
    all_goals simp [constantRules, stringRules, fallback]
  · refine .inl (.inr (List.mem_append_left _ ?_))
    rw [fallback_of_mem_symbolStarts x hx]
    exact List.mem_map_of_mem hx
  · refine .inl (.inr (List.mem_append_right _ (List.mem_flatMap.mpr ⟨x, hx, ?_⟩)))
    simp [fallback_of_mem_compounds x hx]
  · refine .inr (List.mem_map.mpr ⟨s, hs, ?_⟩)
    rw [fallback_of_isFinal s hs]

/-- A specific rule leads from one state to another on a symbol. -/
def States (s t : State) (c : Char) : Prop := ∃ cs, specific s t cs ∈ rules a ∧ c ∈ cs

theorem states_of_select {s t : State} {c : Char} {p : Char → Bool} (hc : c ∈ a.symbols)
    (hp : p c = true) (h : specific s t (a.select p) ∈ rules a) : States a s t c :=
  ⟨_, h, List.mem_filter.mpr ⟨hc, hp⟩⟩

theorem states_of_singleton {s t : State} {c : Char} (h : specific s t [c] ∈ rules a) :
    States a s t c := ⟨_, h, List.mem_singleton_self c⟩

theorem states_of_exceptional {s t : State} {c : Char} (hc : c ∈ a.symbols)
    (h : Exceptional s c t) : States a s t c := by
  have hi {r : Rule} (hr : r ∈ initialRules a) : r ∈ rules a := by simp [rules, hr]
  have hn {r : Rule} (hr : r ∈ constantRules a) : r ∈ rules a := by simp [rules, hr]
  cases h with
  | blank hp => exact states_of_select a hc hp (hi (by simp [initialRules]))
  | wordStart hp => exact states_of_select a hc hp (hi (by simp [initialRules]))
  | digitStart hp => exact states_of_select a hc hp (hi (by simp [initialRules]))
  | dotStart => exact states_of_singleton a (hi (by simp [initialRules]))
  | quoteStart => exact states_of_singleton a (hi (by simp [initialRules]))
  | symbolStart hm =>
    exact states_of_singleton a (hi (List.mem_append_right _ (List.mem_map.mpr ⟨(c, t), hm, rfl⟩)))
  | inWord hp => exact states_of_select a hc hp (by simp [rules, identifierRules])
  | inWhole hp => exact states_of_select a hc hp (hn (by simp [constantRules]))
  | point => exact states_of_singleton a (hn (by simp [constantRules]))
  | wholeSpoilt hp => exact states_of_select a hc hp (hn (by simp [constantRules]))
  | inFraction hp => exact states_of_select a hc hp (hn (by simp [constantRules]))
  | fractionSpoilt hp =>
    refine ⟨a.select isWordStart ++ ['.'], hn (by simp [constantRules]), ?_⟩
    rw [List.mem_append, List.mem_singleton]
    exact hp.imp_left fun hw => List.mem_filter.mpr ⟨hc, hw⟩
  | pointStart hp => exact states_of_select a hc hp (hn (by simp [constantRules]))
  | quoteEnd => exact states_of_singleton a (by simp [rules, stringRules])
  | stringEnd => exact states_of_singleton a (by simp [rules, stringRules])
  | compound hm =>
    apply states_of_singleton
    simp only [rules, symbolRules, List.mem_append, List.mem_flatMap]
    exact .inl (.inr (.inr ⟨_, hm, by simp⟩))

/-- What the rules declare, one symbol at a time. -/
abbrev declared : List Rule.Declaration := (rules a).flatMap Rule.declarations

theorem State.ofName?_name (s : State) : ofName? s.name = some s := by cases s <;> rfl

theorem State.name_injective {s t : State} (h : s.name = t.name) : s = t := by
  have hs := ofName?_name s
  rw [h, ofName?_name] at hs
  exact (Option.some.inj hs).symm

theorem mem_declared {d : Rule.Declaration} (hd : d ∈ declared a) :
    (∃ (s : State) (c : Char), d = ⟨.general, (s.name, c), s.fallback.name⟩) ∨
      ∃ (s t : State) (c : Char), s.exception? c = some t ∧
        d = ⟨.specific, (s.name, c), t.name⟩ := by
  obtain ⟨r, hr, hd⟩ := List.mem_flatMap.mp hd
  obtain ⟨c, hc, rfl⟩ := List.mem_map.mp hd
  rcases fits_of_mem_rules a hr with ⟨s, rfl⟩ | ⟨s, t, cs, rfl, hcs⟩
  · exact .inl ⟨s, c, rfl⟩
  · exact .inr ⟨s, t, c, hcs c hc, rfl⟩

/-- The rules never contradict each other, whatever the alphabet. -/
theorem consistent_declared : Rule.Consistent (declared a) := by
  intro d hd e he hl hc
  -- in one layer both targets are a function of the state and the symbol
  rcases mem_declared a hd with ⟨s, c, rfl⟩ | ⟨s, t, c, ht, rfl⟩ <;>
    rcases mem_declared a he with ⟨s', c', rfl⟩ | ⟨s', t', c', ht', rfl⟩
  · obtain ⟨hn, rfl⟩ := Prod.mk.inj hc
    rw [State.name_injective hn]
  · cases hl
  · cases hl
  · obtain ⟨hn, rfl⟩ := Prod.mk.inj hc
    cases State.name_injective hn
    rw [ht] at ht'
    cases ht'
    rfl

theorem declared?_general {s : State} {c : Char} (hc : c ∈ a.symbols) :
    Rule.declared? (declared a) .general (s.name, c) = some s.fallback.name := by
  refine Rule.declared?_of_mem (consistent_declared a)
    (d := ⟨.general, (s.name, c), s.fallback.name⟩) ?_
  exact List.mem_flatMap.mpr ⟨_, general_mem_rules a s, List.mem_map.mpr ⟨c, hc, rfl⟩⟩

theorem declared?_specific {s : State} {c : Char} (hc : c ∈ a.symbols) :
    Rule.declared? (declared a) .specific (s.name, c) = (s.exception? c).map State.name := by
  cases he : s.exception? c with
  | some t =>
    obtain ⟨cs, hr, hcs⟩ := states_of_exceptional a hc (exceptional_of_exception? he)
    refine Rule.declared?_of_mem (consistent_declared a)
      (d := ⟨.specific, (s.name, c), t.name⟩) ?_
    exact List.mem_flatMap.mpr ⟨_, hr, List.mem_map.mpr ⟨c, hcs, rfl⟩⟩
  | none =>
    -- a specific declaration would make the symbol an exception
    apply Option.not_isSome_iff_eq_none.mp
    intro h
    obtain ⟨d, hd, hl, hdc⟩ := Rule.declared?_isSome_iff.mp h
    rcases mem_declared a hd with ⟨s', c', rfl⟩ | ⟨s', t, c', ht, rfl⟩
    · cases hl
    · obtain ⟨hn, rfl⟩ := Prod.mk.inj hdc
      cases State.name_injective hn
      rw [he] at ht
      cases ht

/-- On the symbols of the alphabet the rules come to `State.next`. -/
theorem resolved?_declared {s : State} {c : Char} (hc : c ∈ a.symbols) :
    Rule.resolved? (declared a) (s.name, c) = some (s.next c).name := by
  rw [Rule.resolved?, declared?_specific a hc, declared?_general a hc, State.next]
  cases s.exception? c <;> rfl

theorem leads_of_mem_entries {source target : String} {c : Char}
    (he : (source, c, target) ∈ (Rule.resolution (declared a)).entries) :
    ∃ s t, source = State.name s ∧ target = State.name t ∧
      (s.fallback = t ∨ s.exception? c = some t) := by
  obtain ⟨layer, hl⟩ : ∃ layer, ⟨layer, (source, c), target⟩ ∈ declared a := by
    rcases Option.or_eq_some_iff.mp (Rule.mem_entries_iff.mp he) with h | ⟨_, h⟩
    · exact ⟨_, Rule.exists_of_declared? h⟩
    · exact ⟨_, Rule.exists_of_declared? h⟩
  rcases mem_declared a hl with ⟨s, d, hd⟩ | ⟨s, t, d, ht, hd⟩
  · cases hd
    exact ⟨s, s.fallback, rfl, rfl, .inl rfl⟩
  · cases hd
    exact ⟨s, t, rfl, rfl, .inr ht⟩

theorem names_of_mem_entries {source target : String} {c : Char}
    (he : (source, c, target) ∈ (Rule.resolution (declared a)).entries) :
    ∃ s t, source = State.name s ∧ target = State.name t := by
  obtain ⟨s, t, hs, ht, _⟩ := leads_of_mem_entries a he
  exact ⟨s, t, hs, ht⟩

end TableLexer.Lexical
