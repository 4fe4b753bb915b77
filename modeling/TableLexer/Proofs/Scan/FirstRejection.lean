import TableLexer.Proofs.Scan.Policies
import TableLexer.Proofs.Scan.Recognition
namespace TableLexer.Scan

open Lexical

/-- The tokens in front of the first illegal one. -/
def beforeIllegal (tokens : List Token) : List Token :=
  tokens.takeWhile fun token => token.category ≠ .illegal

theorem beforeIllegal_append {xs ys : List Token} (h : ∀ token ∈ xs, token.category ≠ .illegal) :
    beforeIllegal (xs ++ ys) = xs ++ beforeIllegal ys :=
  List.takeWhile_append_of_pos (by simpa using h)

theorem beforeIllegal_cons {token : Token} (h : token.category = .illegal) (ys : List Token) :
    beforeIllegal (token :: ys) = [] := List.takeWhile_cons_of_neg (by simp [h])

theorem category_ne_illegal_of_mem_registerAll {k : Lexicon} {xs : List (Terminal × String)}
    (h : ∀ x ∈ xs, x.1 ≠ .illegal) :
    ∀ token ∈ (k.registerAll xs).1, token.category ≠ .illegal := by
  intro token hm hc
  obtain ⟨x, hx, he⟩ := Lexicon.exists_of_mem_registerAll hm
  exact h x hx (Lexicon.categoryOf_eq_illegal_iff.mp (he.trans hc))

theorem NoRejection.legal {fs : Array Finding} (h : NoRejection fs) :
    ∀ x ∈ fs.toList.filterMap Finding.filed?, x.1 ≠ .illegal := by
  intro x hx
  obtain ⟨f, hf, he⟩ := List.mem_filterMap.mp hx
  cases f with
  | reached trace =>
    rw [Finding.filed?] at he
    split at he
    · cases he
    · next ht =>
      rw [← Option.some.inj he]
      exact ht
  | rejected r => exact absurd (List.filterMap_eq_nil_iff.mp h _ hf) (by simp [Finding.rejection?])

theorem noRejection_of_legal {m : Move} (h : ∀ x ∈ m.entries, x.1 ≠ .illegal) :
    NoRejection m.findings := by
  refine List.filterMap_eq_nil_iff.mpr fun f hf => ?_
  cases f with
  | reached trace => rfl
  | rejected rejection =>
    have hmem : (Terminal.illegal, rejection.lexeme) ∈ m.entries :=
      List.mem_filterMap.mpr ⟨_, hf, rfl⟩
    exact absurd rfl (h _ hmem)

theorem beforeIllegal_registerAll (k : Lexicon) {xs : List (Terminal × String)}
    (h : ∀ x ∈ xs, x.1 ≠ .illegal) (lexeme : String) (ys : List (Terminal × String)) :
    beforeIllegal (k.registerAll (xs ++ (.illegal, lexeme) :: ys)).1 = (k.registerAll xs).1 := by
  have hc : ((k.registerAll xs).2.register lexeme .illegal).1.category = .illegal := by
    rw [Lexicon.category_register, Lexicon.categoryOf_eq_illegal_iff]
  rw [Lexicon.registerAll_append, Lexicon.registerAll_cons,
    beforeIllegal_append (category_ne_illegal_of_mem_registerAll h), beforeIllegal_cons hc,
    List.append_nil]

/-- Registering one more lexeme adds one token, which keeps its lexeme. -/
theorem exists_token_registerAll_concat (k : Lexicon) (xs : List (Terminal × String))
    (x : Terminal × String) :
    ∃ token, (k.registerAll (xs ++ [x])).1 = (k.registerAll xs).1 ++ [token] ∧
      ∀ ys, (k.registerAll (xs ++ [x] ++ ys)).2.lexeme? token = some x.2 := by
  obtain ⟨t, lexeme⟩ := x
  refine ⟨((k.registerAll xs).2.register lexeme t).1, ?_, fun ys => ?_⟩
  · rw [Lexicon.registerAll_append]
    rfl
  · have hlast : (k.registerAll (xs ++ [(t, lexeme)])).2 =
        ((k.registerAll xs).2.register lexeme t).2 := by
      rw [Lexicon.registerAll_append]
      rfl
    rw [Lexicon.registerAll_append, hlast]
    exact Lexicon.lexeme?_registerAll (Lexicon.lexeme?_register _ _ _) ys

theorem Finishes.filterMap_rejection? {e : LexError} {k : Cursor} {pending : List Finding}
    (h : Finishes e k pending) : pending.filterMap Finding.rejection? = [] := by
  cases hl : leavesPending e k.state with
  | true =>
    obtain ⟨trace, rfl, _⟩ := (finishes_of_leaves hl).mp h
    rfl
  | false =>
    rw [(finishes_of_not_leaves hl).mp h]
    rfl

section Outcomes

variable {trace : Bool} {failing recovering : Scanner} {source : String}

theorem exists_agree (hf : Scanner.Reachable ⟨.failFast, trace⟩ failing)
    (hr : Scanner.Reachable ⟨.recover, trace⟩ recovering) (source : String) :
    ∃ m, Agree (failing.move source) m ∧ (recovering.move source).findings = m.findings := by
  have hpf : failing.basis.under .failFast = failing.basis := (hf.basis_eq hf).symm
  have hpr : recovering.basis = failing.basis.under .recover := hf.basis_eq hr
  have ha := Cursor.agree_run hf.lawful failing.cursor (stream source)
  rw [hpf, ← hpr] at ha
  exact ⟨_, ha, Cursor.findings_run hr.lawful _ _ _⟩

theorem failure?_recover (hr : Scanner.Reachable ⟨.recover, trace⟩ recovering) (source : String)
    (k : Lexicon) (report : Report) :
    (recovering.scanOnto source k report).failure? = none :=
  (Cursor.yields_run hr.lawful hr.policy recovering.cursor source).1

theorem recording_of_findings_eq {s t : Scanner} (ho : t.options.trace = s.options.trace)
    (hm : (t.move source).findings = (s.move source).findings) (k : Lexicon) (report : Report) :
    t.recording source k report = s.recording source k report := by
  rw [Scanner.recording, ho, hm, Scanner.recording]

theorem diagnostics_recording {s : Scanner} (h : NoRejection (s.move source).findings)
    (k : Lexicon) : (s.recording source k Report.empty).report.diagnostics = #[] := by
  obtain ⟨_, _, hw⟩ := (s.wrote_recording source k Report.empty).of_empty
  rw [h] at hw
  exact Array.toList_eq_nil_iff.mp (List.map_eq_nil_iff.mp hw)

theorem diagnostics_scan {s : Scanner} (h : NoRejection (s.move source).findings) (k : Lexicon) :
    (s.scan source k).report.diagnostics = #[] := by
  rw [Scanner.scan, Scanner.report_scanOnto]
  exact diagnostics_recording h k

theorem diagnostics_of_parted {r : Scanner} {found pending behind : List Finding}
    {rejection : Rejection} (hfound : found.filterMap Finding.rejection? = [])
    (hpending : pending.filterMap Finding.rejection? = [])
    (hfind : (r.move source).findings.toList = found ++ pending ++ .rejected rejection :: behind)
    (k : Lexicon) :
    ∃ d rest, (r.recording source k Report.empty).report.diagnostics.toList = d :: rest ∧
      d.rejection = rejection := by
  obtain ⟨_, _, hd⟩ := (r.wrote_recording source k Report.empty).of_empty
  rw [hfind, List.filterMap_append, List.filterMap_append, hfound, hpending] at hd
  obtain ⟨d, rest, hdr, hde, _⟩ := List.map_eq_cons_iff.mp hd
  exact ⟨d, rest, hdr, hde⟩

/-- Where giving up stops, recovering has registered the same tokens, and goes on with the token
that was being read, if there is one, and with an illegal one. -/
theorem tokens_of_parted {f r : Scanner} {pending behind : List Finding} {rejection : Rejection}
    {e : LexError} (hrej : NoRejection (f.move source).findings)
    (hfin : Finishes e (f.move source).cursor pending)
    (hfind : (r.move source).findings.toList =
      (f.move source).findings.toList ++ pending ++ .rejected rejection :: behind) (k : Lexicon) :
    if leavesPending e (f.move source).cursor.state then
      ∃ token, beforeIllegal (r.recording source k Report.empty).report.tokens.toList =
          (f.recording source k Report.empty).report.tokens.toList ++ [token] ∧
        (r.recording source k Report.empty).lexicon.lexeme? token =
          some (f.move source).cursor.lexeme
    else beforeIllegal (r.recording source k Report.empty).report.tokens.toList =
      (f.recording source k Report.empty).report.tokens.toList := by
  let found := (f.move source).findings.toList.filterMap Finding.filed?
  let later := behind.filterMap Finding.filed?
  have hlegal : ∀ x ∈ found, x.1 ≠ .illegal := hrej.legal
  obtain ⟨hff, _⟩ := (f.wrote_recording source k Report.empty).of_empty
  obtain ⟨hrf, hrl, _⟩ := (r.wrote_recording source k Report.empty).of_empty
  -- both lexicons have taken in `found`, and recovering then at most one pending token
  have hall : (r.move source).findings.toList.filterMap Finding.filed? =
      found ++ pending.filterMap Finding.filed? ++ (.illegal, rejection.lexeme) :: later := by
    simp [hfind, found, later, Finding.filed?]
  rw [hall] at hrf hrl
  rw [hff, hrf, hrl]
  cases hleaves : leavesPending e (f.move source).cursor.state with
  | true =>
    obtain ⟨trace, rfl, ht, hl⟩ := (finishes_of_leaves hleaves).mp hfin
    have hp : [Finding.reached trace].filterMap Finding.filed? =
        [(trace.terminal, trace.lexeme)] := by
      rw [List.filterMap_cons, Finding.filed?_reached ht]
      rfl
    have hlegal' : ∀ x ∈ found ++ [(trace.terminal, trace.lexeme)], x.1 ≠ .illegal := by
      intro x hx
      rcases List.mem_append.mp hx with hx | hx
      · exact hlegal x hx
      · rw [List.mem_singleton.mp hx]
        exact ht
    obtain ⟨token, htok, hlex⟩ :=
      exists_token_registerAll_concat k found (trace.terminal, trace.lexeme)
    rw [hp]
    refine ⟨token, ?_, ?_⟩
    · rw [← htok]
      exact beforeIllegal_registerAll k hlegal' rejection.lexeme later
    · rw [← hl]
      exact hlex _
  | false =>
    have hp := (finishes_of_not_leaves hleaves).mp hfin
    subst hp
    rw [if_neg Bool.false_ne_true, List.filterMap_nil, List.append_nil]
    exact beforeIllegal_registerAll k hlegal rejection.lexeme later

/-- Giving up and recovering agree up to the first illegal input. What giving up lacks there is at
most the token that was being read when a foreign character came. -/
theorem failFast_recover (hf : Scanner.Reachable ⟨.failFast, trace⟩ failing)
    (hr : Scanner.Reachable ⟨.recover, trace⟩ recovering) (source : String) (k : Lexicon) :
    let f := failing.scan source k
    let r := recovering.scan source k
    r.failure? = none ∧
      match f.failure? with
      | none => r.report = f.report ∧ r.report.diagnostics = #[] ∧ r.lexicon = f.lexicon
      | some e =>
        (∃ d rest, r.report.diagnostics.toList = d :: rest ∧ Reports d.rejection e) ∧
          if leavesPending e f.scanner.cursor.state then
            ∃ token, beforeIllegal r.report.tokens.toList = f.report.tokens.toList ++ [token] ∧
              r.lexicon.lexeme? token = some f.scanner.cursor.lexeme
          else beforeIllegal r.report.tokens.toList = f.report.tokens.toList := by
  obtain ⟨m, ha, hm⟩ := exists_agree hf hr source
  intro f r
  refine ⟨failure?_recover hr source k _, ?_⟩
  simp only [f, r, Scanner.scan, Scanner.failure?_scanOnto, Scanner.report_scanOnto,
    Scanner.lexicon_scanOnto, Scanner.cursor_scanOnto]
  cases ha with
  | alike he hnone hrej _ =>
    have ho : recovering.options.trace = failing.options.trace := by
      rw [hr.table_options.2, hf.table_options.2]
    have hfind : (recovering.move source).findings = (failing.move source).findings := by
      rw [hm, he]
    rw [hnone, recording_of_findings_eq ho hfind]
    exact ⟨rfl, diagnostics_recording hrej k, rfl⟩
  | parted e pending rejection behind hsome hrej hrep hfin hfind =>
    rw [← hm] at hfind
    obtain ⟨d, rest, hdr, hd⟩ := diagnostics_of_parted hrej hfin.filterMap_rejection? hfind k
    rw [hsome]
    exact ⟨⟨d, rest, hdr, hd ▸ hrep⟩, tokens_of_parted hrej hfin hfind k⟩

/-- Giving up within a word: its letter has been read, the foreign character behind it has not. -/
theorem move_letter_foreign
    (hf : Scanner.Reachable ⟨.failFast, trace⟩ failing) :
    (failing.move "aä").failure? = some (.outsideAlphabet ⟨1, 2⟩ 'ä') ∧
      (failing.move "aä").cursor.state = .identifier ∧
      (failing.move "aä").cursor.lexeme = "a" := by
  have hg := hf.lawful
  have hp : failing.basis.policy = .failFast := hf.policy
  let k := failing.cursor.restart failing.basis
  let j := k.moved ⟨1, 1⟩ 'a'
  have hk : k.state = .initial := Cursor.state_restart hg _
  have hstream : stream "aä" = [(⟨1, 1⟩, 'a'), (⟨1, 2⟩, 'ä'), (⟨1, 3⟩, ' ')] := by decide
  have ha : failing.basis.alphabet.contains 'a' := by
    rw [hg.alphabet, Alphabet.contains_standard]
    decide
  have hä : failing.basis.alphabet.contains 'ä' = false := by
    rw [hg.alphabet, Alphabet.contains_standard]
    decide
  have hletter : k.feed failing.basis (⟨1, 1⟩, 'a') = Move.stay j := by
    rw [Cursor.feed_of_contains ha, Cursor.feedSymbol_of_open hg ha]
    rw [hk]
    decide
  have hforeign : j.feed failing.basis (⟨1, 2⟩, 'ä') =
      Move.fail (j.mark ⟨1, 2⟩) (.outsideAlphabet ⟨1, 2⟩ 'ä') := by
    rw [Cursor.feed_of_foreign hä, Cursor.feedForeign, hp]
  have hmove : failing.move "aä" = Move.fail (j.mark ⟨1, 2⟩) (.outsideAlphabet ⟨1, 2⟩ 'ä') := by
    rw [Scanner.move, Cursor.run_eq_finish, hstream, Cursor.finish_cons, hletter,
      Move.stay_andThen, Cursor.finish_cons, hforeign]
    rfl
  have hj : j.state = .identifier := by
    rw [Cursor.state_moved, hk]
    decide
  have hl : j.lexeme = "a" := by
    rw [Cursor.lexeme_moved_of_open, Cursor.lexeme_restart]
    · decide
    · rw [hk]; decide
    · rw [hk]; decide
  rw [hmove]
  exact ⟨rfl, (Cursor.state_mark _ _).trans hj, (Cursor.lexeme_mark _ _).trans hl⟩

theorem failFast_recover_standard :
    ∃ failing recovering, Scanner.standard ⟨.failFast, true⟩ = .ok failing ∧
      Scanner.standard ⟨.recover, true⟩ = .ok recovering ∧
      let f := failing.scan "aä" (Lexicon.ofReserved ["if"])
      let r := recovering.scan "aä" (Lexicon.ofReserved ["if"])
      f.failure? = some (.outsideAlphabet ⟨1, 2⟩ 'ä') ∧ r.failure? = none ∧
        (∃ d rest, r.report.diagnostics.toList = d :: rest ∧
          d.rejection.position = ⟨1, 2⟩ ∧ d.rejection.cause = .outsideAlphabet) ∧
        ∃ token, beforeIllegal r.report.tokens.toList = f.report.tokens.toList ++ [token] ∧
          r.lexicon.lexeme? token = some "a" := by
  obtain ⟨_, _, hf⟩ := Scanner.exists_standard ⟨.failFast, true⟩
  obtain ⟨_, _, hr⟩ := Scanner.exists_standard ⟨.recover, true⟩
  obtain ⟨hfail, hstate, hlexeme⟩ := move_letter_foreign (.standard hf)
  obtain ⟨hok, h⟩ := failFast_recover (.standard hf) (.standard hr) "aä"
    (Lexicon.ofReserved ["if"])
  rw [Scanner.scan, Scanner.failure?_scanOnto, hfail] at h
  simp only [Scanner.scan, Scanner.cursor_scanOnto, hstate, hlexeme] at h hok
  obtain ⟨⟨d, rest, hd, hposition, hcause, _⟩, htokens⟩ := h
  exact ⟨_, _, hf, hr, hfail, hok, ⟨d, rest, hd, hposition, hcause⟩, htokens⟩

end Outcomes

end TableLexer.Scan
