import TableLexer.Proofs.Scan.Policies
import TableLexer.Proofs.Scan.Recognition
namespace TableLexer.Scan

open Lexical

/-- A text made up of lexemes in order, with nothing but blanks around them. -/
inductive Tiles : List String → List Char → Prop where
  | nil {gap : List Char} : (∀ c ∈ gap, Alphabet.isBlank c) → Tiles [] gap
  | cons {gap : List Char} (lexeme : String) {lexemes : List String} {behind : List Char} :
      (∀ c ∈ gap, Alphabet.isBlank c) → Tiles lexemes behind →
      Tiles (lexeme :: lexemes) (gap ++ lexeme.toList ++ behind)

theorem Tiles.blank {c : Char} {lexemes : List String} {text : List Char}
    (hc : Alphabet.isBlank c) (h : Tiles lexemes text) : Tiles lexemes (c :: text) := by
  have hgap {gap : List Char} (hg : ∀ d ∈ gap, Alphabet.isBlank d) :
      ∀ d ∈ c :: gap, Alphabet.isBlank d := List.forall_mem_cons.mpr ⟨hc, hg⟩
  cases h with
  | nil hg => exact .nil (hgap hg)
  | cons lexeme hg h => exact .cons lexeme (hgap hg) h

/-- The longest match takes every character but the blanks, each in one token. -/
theorem tiles_tokens (text : List Char) :
    Tiles ((LongestMatch.tokens text).map Prod.snd) text := by
  induction text using LongestMatch.tokens.induct with
  | case1 =>
    rw [LongestMatch.tokens_nil]
    exact .nil (by simp)
  | case2 c rest hb ih =>
    rw [LongestMatch.tokens_of_isBlank hb]
    exact ih.blank hb
  | case3 c rest hb ih =>
    have hsplit := LongestMatch.first_split c rest
    have hgap : ∀ d ∈ ([] : List Char), Alphabet.isBlank d := by simp
    have htile := Tiles.cons (String.ofList (LongestMatch.first c rest).lexeme) hgap ih
    rw [List.nil_append, String.toList_ofList, hsplit] at htile
    rw [LongestMatch.tokens_of_first (by simpa using hb)]
    exact htile

/-- The move of a scan beside that of one that recovers, which finds the longest match. -/
theorem exists_recovering {options : ScanOptions} {s : Scanner}
    (hs : Scanner.Reachable options s) (source : String) :
    ∃ m : Move, m.Yields (LongestMatch.tokens (streamText source)) ∧
      match options.policy with
      | .recover => s.move source = m
      | .failFast => Agree (s.move source) m := by
  refine ⟨_, Cursor.yields_run (hs.lawful.under .recover) rfl s.cursor source, ?_⟩
  have hbasis : s.basis.under options.policy = s.basis := (hs.basis_eq hs).symm
  cases hp : options.policy with
  | recover =>
    rw [hp] at hbasis
    rw [hbasis]
    rfl
  | failFast =>
    have ha := Cursor.agree_run hs.lawful s.cursor (stream source)
    rw [← hp, hbasis] at ha
    exact ha

theorem yields_of_ok {options : ScanOptions} {s : Scanner} (hs : Scanner.Reachable options s)
    (source : String) (h : (s.move source).failure? = none) :
    (s.move source).Yields (LongestMatch.tokens (streamText source)) := by
  obtain ⟨m, hm, hrel⟩ := exists_recovering hs source
  cases hp : options.policy with
  | recover =>
    rw [hp] at hrel
    exact hrel ▸ hm
  | failFast =>
    rw [hp] at hrel
    -- a scan that did not give up moved as under recovery
    cases hrel with
    | alike he _ _ _ => exact he ▸ hm
    | parted e _ _ _ hsome => exact absurd (h.symm.trans hsome) (by simp)

theorem yields_of_legal {options : ScanOptions} {s : Scanner}
    (hs : Scanner.Reachable options s) {source : String}
    (h : ∀ x ∈ LongestMatch.tokens (streamText source), x.1 ≠ .illegal) :
    (s.move source).Yields (LongestMatch.tokens (streamText source)) := by
  obtain ⟨m, hm, hrel⟩ := exists_recovering hs source
  cases hp : options.policy with
  | recover =>
    rw [hp] at hrel
    exact hrel ▸ hm
  | failFast =>
    rw [hp] at hrel
    cases hrel with
    | alike he _ _ _ => exact he ▸ hm
    | parted e pending rejection behind _ _ _ _ hfind =>
      -- recovering would have found something illegal
      have hmem : (.illegal, rejection.lexeme) ∈ m.entries := by
        rw [Move.entries, hfind, List.filterMap_append]
        exact List.mem_append_right _ (List.mem_filterMap.mpr ⟨_, List.mem_cons_self, rfl⟩)
      rw [hm.2] at hmem
      exact absurd rfl (h _ hmem)

theorem map_lexeme?_registerAll (k : Lexicon) (xs : List (Terminal × String)) :
    (k.registerAll xs).1.map (k.registerAll xs).2.lexeme? = (xs.map Prod.snd).map some := by
  have h := congrArg (List.map Prod.snd) (Lexicon.registerAll_tokens k xs)
  rw [List.map_map, List.map_map] at h
  rw [List.map_map]
  exact h

/-- No text is lost, doubled or moved: the lexemes of the tokens that a scan adds make up its
source, blanks apart. Recovery never gives up, so there this holds of every scan. -/
theorem scanOnto_tiles {options : ScanOptions} {s : Scanner} (hs : Scanner.Reachable options s)
    (source : String) (k : Lexicon) (report : Report) :
    let outcome := s.scanOnto source k report
    (options.policy = .recover → outcome.failure? = none) ∧
      (outcome.failure? = none → ∃ tokens lexemes,
        outcome.report.tokens.toList = report.tokens.toList ++ tokens ∧
          tokens.map outcome.lexicon.lexeme? = lexemes.map some ∧
          Tiles lexemes (streamText source)) := by
  intro outcome
  constructor
  · intro hp
    exact (Cursor.yields_run hs.lawful (hs.policy.trans hp) s.cursor source).1
  · intro h
    obtain ⟨_, htokens, hlexicon⟩ :=
      tokens_scan_of_yields (k := k) (yields_of_ok hs source h) report
    refine ⟨_, _, htokens, ?_, tiles_tokens (streamText source)⟩
    rw [hlexicon]
    exact map_lexeme?_registerAll k _

theorem scanOnto_tiles_standard :
    ∃ s, Scanner.standard ⟨.recover, true⟩ = .ok s ∧
      let outcome := s.scanOnto "x:=1y\n'~" (Lexicon.ofReserved ["x"]) Report.empty
      ∃ tokens lexemes, outcome.report.tokens.toList = tokens ∧
        tokens.map outcome.lexicon.lexeme? = lexemes.map some ∧
        Tiles lexemes "x:=1y '~ ".toList := by
  obtain ⟨table, _, hs⟩ := Scanner.exists_standard ⟨.recover, true⟩
  obtain ⟨hok, htiles⟩ := scanOnto_tiles (.standard hs) "x:=1y\n'~" (Lexicon.ofReserved ["x"])
    Report.empty
  have hstream : streamText "x:=1y\n'~" = "x:=1y '~ ".toList := by decide
  rw [hstream] at htiles
  exact ⟨_, hs, htiles (hok rfl)⟩

end TableLexer.Scan
