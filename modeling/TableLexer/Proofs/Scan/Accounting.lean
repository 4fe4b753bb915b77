import TableLexer.Proofs.Scan.Conservation
import TableLexer.Proofs.Scan.FirstRejection
namespace TableLexer.Scan

namespace LongestMatch

theorem endNumber_terminal_ne_commentEnd (dotted : Bool) (lexeme rest : List Char) :
    (endNumber dotted lexeme rest).terminal ≠ .commentEnd := by
  unfold endNumber
  repeat' split
  all_goals simp

theorem first_terminal_ne_commentEnd (c : Char) (rest : List Char) :
    (first c rest).terminal ≠ .commentEnd := by
  unfold first
  split
  · simp [word]
  split
  · unfold number
    dsimp only
    split <;> exact endNumber_terminal_ne_commentEnd _ _ _
  split
  · unfold dot
    repeat' split
    · simp
    · exact endNumber_terminal_ne_commentEnd _ _ _
    · simp
  split
  · unfold quoted
    dsimp only
    repeat' split
    all_goals simp
  split
  · unfold operator
    repeat' split
    all_goals simp
  · simp

theorem terminal_ne_commentEnd_of_mem_tokens {text : List Char} :
    ∀ x ∈ tokens text, x.1 ≠ .commentEnd := by
  induction text using tokens.induct with
  | case1 => simp [tokens_nil]
  | case2 c rest hb ih => rwa [tokens_of_isBlank hb]
  | case3 c rest hb ih =>
    rw [tokens_of_first (by simpa using hb)]
    exact List.forall_mem_cons.mpr ⟨first_terminal_ne_commentEnd c rest, ih⟩

end LongestMatch

namespace Recording

/-- The recording `after` says of `before` that these tokens and diagnostics are new: the report,
whoever watched and the history gained the same tokens, and the diagnostics are those of the
illegal ones among them. Nothing is lost or changed. -/
structure Accounts (before after : Recording) (tokens : List Token)
    (diagnostics : List Diagnostic) : Prop where
  reported : after.report.tokens.toList = before.report.tokens.toList ++ tokens
  observed : after.observed.toList = before.observed.toList ++ tokens
  emitted : after.lexicon.tokens.toList = before.lexicon.tokens.toList ++ tokens
  diagnosed : after.report.diagnostics.toList = before.report.diagnostics.toList ++ diagnostics
  traced : before.report.traces.toList <+: after.report.traces.toList
  resolved : ∀ token lexeme, before.lexicon.lexeme? token = some lexeme →
    after.lexicon.lexeme? token = some lexeme
  illegal : diagnostics.map Diagnostic.token = tokens.filter fun token => token.category = .illegal
  lexemes : ∀ d ∈ diagnostics, after.lexicon.lexeme? d.token = some d.rejection.lexeme

theorem accounts_refl (r : Recording) : Accounts r r [] [] where
  reported := by simp
  observed := by simp
  emitted := by simp
  diagnosed := by simp
  traced := List.prefix_rfl
  resolved _ _ h := h
  illegal := rfl
  lexemes := by simp

theorem Accounts.trans {r s t : Recording} {ts us : List Token} {ds es : List Diagnostic}
    (h₁ : Accounts r s ts ds) (h₂ : Accounts s t us es) : Accounts r t (ts ++ us) (ds ++ es) where
  reported := by rw [h₂.reported, h₁.reported, List.append_assoc]
  observed := by rw [h₂.observed, h₁.observed, List.append_assoc]
  emitted := by rw [h₂.emitted, h₁.emitted, List.append_assoc]
  diagnosed := by rw [h₂.diagnosed, h₁.diagnosed, List.append_assoc]
  traced := h₁.traced.trans h₂.traced
  resolved token lexeme h := h₂.resolved token lexeme (h₁.resolved token lexeme h)
  illegal := by rw [List.map_append, h₁.illegal, h₂.illegal, List.filter_append]
  lexemes d hd := by
    rcases List.mem_append.mp hd with hd | hd
    · exact h₂.resolved _ _ (h₁.lexemes d hd)
    · exact h₂.lexemes d hd

theorem accounts_addTrace (r : Recording) (trace : TokenTrace) :
    Accounts r (r.addTrace trace) [] [] where
  reported := by simp [addTrace]
  observed := by simp [addTrace]
  emitted := by simp [addTrace]
  diagnosed := by simp [addTrace]
  traced := by simp [addTrace]
  resolved _ _ h := h
  illegal := rfl
  lexemes := by simp

theorem resolved_addToken (r : Recording) (lexeme : String) (t : Terminal) {token : Token}
    {w : String} (h : r.lexicon.lexeme? token = some w) :
    (r.addToken lexeme t).2.lexicon.lexeme? token = some w :=
  LexemeTable.lexeme?_of_prefix
    (Lexicon.lexemes_prefix_register r.lexicon lexeme t token.category) h

theorem accounts_addToken (r : Recording) (lexeme : String) {t : Terminal} (ht : t ≠ .illegal) :
    Accounts r (r.addToken lexeme t).2 [(r.addToken lexeme t).1] [] where
  reported := by simp [addToken]
  observed := by simp [addToken]
  emitted := by simp [addToken, Lexicon.register]
  diagnosed := by simp [addToken]
  traced := List.prefix_rfl
  resolved _ _ h := resolved_addToken r lexeme t h
  illegal := by
    have hcategory : (r.addToken lexeme t).1.category ≠ .illegal := by
      intro h
      exact ht (Lexicon.categoryOf_eq_illegal_iff.mp h)
    simp [hcategory]
  lexemes := by simp

theorem accounts_rejected (tracing : Bool) (r : Recording) (rejection : Rejection) :
    let token := (r.addToken rejection.lexeme .illegal).1
    Accounts r (r.add tracing (.rejected rejection)) [token] [⟨rejection, token⟩] := by
  intro token
  have hillegal : r.lexicon.categoryOf rejection.lexeme .illegal = .illegal :=
    Lexicon.categoryOf_eq_illegal_iff.mpr rfl
  have hcategory : token.category = .illegal := hillegal
  exact {
    reported := by simp [add, addToken, addDiagnostic, token]
    observed := by simp [add, addToken, addDiagnostic, token]
    emitted := by simp [add, addToken, addDiagnostic, Lexicon.register, token]
    diagnosed := by simp [add, addToken, addDiagnostic, token]
    traced := List.prefix_rfl
    resolved := fun _ _ h => resolved_addToken r rejection.lexeme .illegal h
    illegal := by simp [hcategory]
    lexemes := by
      intro d hd
      rw [List.mem_singleton.mp hd]
      exact Lexicon.lexeme?_register r.lexicon rejection.lexeme .illegal }

theorem exists_accounts_add (tracing : Bool) (r : Recording) (f : Finding) :
    ∃ tokens diagnostics, Accounts r (r.add tracing f) tokens diagnostics := by
  cases f with
  | rejected rejection => exact ⟨_, _, accounts_rejected tracing r rejection⟩
  | reached trace =>
    let traced := if tracing then r.addTrace trace else r
    have htraced : Accounts r traced [] [] := by
      cases tracing with
      | true => exact accounts_addTrace r trace
      | false => exact accounts_refl r
    by_cases ht : trace.terminal = .illegal
    · have hadd : r.add tracing (.reached trace) = traced := if_pos ht
      exact ⟨_, _, hadd ▸ htraced⟩
    · have hadd : r.add tracing (.reached trace) =
          (traced.addToken trace.lexeme trace.terminal).2 := if_neg ht
      exact ⟨_, _, hadd ▸ htraced.trans (accounts_addToken traced trace.lexeme ht)⟩

/-- Whatever is found, and wherever the findings end, the books agree. -/
theorem exists_accounts_addAll (tracing : Bool) (r : Recording) (fs : Array Finding) :
    ∃ tokens diagnostics, Accounts r (r.addAll tracing fs) tokens diagnostics := by
  rw [addAll, ← Array.foldl_toList]
  induction fs.toList generalizing r with
  | nil => exact ⟨_, _, accounts_refl r⟩
  | cons f fs ih =>
    obtain ⟨ts, ds, h⟩ := exists_accounts_add tracing r f
    obtain ⟨us, es, hrest⟩ := ih (r.add tracing f)
    exact ⟨_, _, h.trans hrest⟩

end Recording

/-- What a scan registers is the beginning of the longest match, wherever it stops. -/
theorem entries_prefix_tokens {options : ScanOptions} {s : Scanner}
    (hs : Scanner.Reachable options s) (source : String) :
    (s.move source).entries <+: LongestMatch.tokens (streamText source) := by
  obtain ⟨m, ⟨_, hm⟩, hrel⟩ := exists_recovering hs source
  rw [← hm]
  cases hp : options.policy with
  | recover =>
    rw [hp] at hrel
    subst hrel
    exact List.prefix_rfl
  | failFast =>
    rw [hp] at hrel
    cases hrel with
    | alike he _ _ _ =>
      subst he
      exact List.prefix_rfl
    | parted e pending rejection behind _ _ _ _ hfind =>
      rw [Move.entries, Move.entries, hfind, List.append_assoc, List.filterMap_append]
      exact List.prefix_append _ _

theorem noRejection_of_failFast {options : ScanOptions} {s : Scanner}
    (hs : Scanner.Reachable options s) (hp : options.policy = .failFast) (source : String) :
    NoRejection (s.move source).findings := by
  obtain ⟨m, _, hrel⟩ := exists_recovering hs source
  rw [hp] at hrel
  cases hrel with
  | alike _ _ hrej _ => exact hrej
  | parted _ _ _ _ _ hrej _ _ _ => exact hrej

/-- The books of a scan agree, also if it gives up: it only adds to the report and the lexicon, and
the report, whoever watches and the history gain the same tokens. The diagnostics it adds are those
of the illegal tokens, one for each in their order, and giving up adds neither. No token is a
comment. -/
theorem scanOnto_accounts {options : ScanOptions} {s : Scanner}
    (hs : Scanner.Reachable options s) (source : String) (k : Lexicon) (report : Report) :
    let outcome := s.scanOnto source k report
    ∃ tokens diagnostics traces,
      outcome.report.tokens.toList = report.tokens.toList ++ tokens ∧
        outcome.observed = tokens ∧
        outcome.lexicon.tokens.toList = k.tokens.toList ++ tokens ∧
        outcome.report.diagnostics.toList = report.diagnostics.toList ++ diagnostics ∧
        outcome.report.traces.toList = report.traces.toList ++ traces ∧
        (diagnostics.map Diagnostic.token =
          tokens.filter fun token => token.category = .illegal) ∧
        (∀ d ∈ diagnostics, outcome.lexicon.lexeme? d.token = some d.rejection.lexeme) ∧
        (options.policy = .failFast →
          diagnostics = [] ∧ ∀ token ∈ tokens, token.category ≠ .illegal) ∧
        ∀ token ∈ tokens, token.category ≠ .comment := by
  intro outcome
  obtain ⟨tokens, diagnostics, h⟩ := Recording.exists_accounts_addAll s.options.trace
    ⟨k, report, #[], #[]⟩ (s.move source).findings
  change Recording.Accounts _ (s.recording source k report) _ _ at h
  obtain ⟨traces, htraces⟩ := h.traced
  have hobserved : (s.recording source k report).observed.toList = tokens := by
    rw [h.observed, List.nil_append]
  have hw := s.wrote_recording source k report
  simp only [outcome, Scanner.report_scanOnto, Scanner.lexicon_scanOnto,
    Scanner.observed_scanOnto]
  refine ⟨tokens, diagnostics, traces, h.reported, hobserved, h.emitted, h.diagnosed,
    htraces.symm, h.illegal, h.lexemes, ?_, ?_⟩
  · intro hp
    have hnone : diagnostics = [] := by
      have hrejections := hw.rejections
      rw [noRejection_of_failFast hs hp source, List.append_nil] at hrejections
      have hdiagnosed := congrArg (List.map Diagnostic.rejection) h.diagnosed
      rw [List.map_append] at hdiagnosed
      have hempty := hrejections.symm.trans hdiagnosed
      simpa using hempty
    have hfilter := h.illegal
    rw [hnone, List.map_nil, eq_comm, List.filter_eq_nil_iff] at hfilter
    exact ⟨hnone, fun token hm => by simpa using hfilter token hm⟩
  · have htokens : tokens = (k.registerAll (s.move source).entries).1 :=
      List.append_cancel_left (h.reported.symm.trans hw.tokens)
    intro token hm hc
    rw [htokens] at hm
    obtain ⟨x, hx, hcategory⟩ := Lexicon.exists_of_mem_registerAll hm
    have hx' := (entries_prefix_tokens hs source).subset hx
    exact LongestMatch.terminal_ne_commentEnd_of_mem_tokens x hx'
      (Lexicon.categoryOf_eq_comment_iff.mp (hcategory.trans hc))

theorem scanOnto_accounts_standard :
    ∃ s, Scanner.standard ⟨.failFast, true⟩ = .ok s ∧
      let k := (Lexicon.ofReserved ["if"]).registerAll [(.identifierEnd, "if")]
      let outcome := s.scanOnto "if x:=1a" k.2 ⟨k.1.toArray, #[], #[]⟩
      ∃ tokens, outcome.report.tokens.toList = ⟨.keyword, 0⟩ :: tokens ∧
        outcome.observed = tokens ∧
        outcome.lexicon.tokens.toList = ⟨.keyword, 0⟩ :: tokens ∧
        outcome.report.diagnostics.toList = [] ∧
        ∀ token ∈ tokens, token.category ≠ .illegal ∧ token.category ≠ .comment := by
  obtain ⟨_, _, hs⟩ := Scanner.exists_standard ⟨.failFast, true⟩
  let k := (Lexicon.ofReserved ["if"]).registerAll [(.identifierEnd, "if")]
  have hone : k.1 = [⟨.keyword, 0⟩] := by decide
  have hhistory : k.2.tokens.toList = [⟨.keyword, 0⟩] := by decide
  obtain ⟨tokens, diagnostics, _, hreported, hobserved, hemitted, hdiagnosed, _, _, _, hfail,
    hcomment⟩ := scanOnto_accounts (.standard hs) "if x:=1a" k.2 ⟨k.1.toArray, #[], #[]⟩
  obtain ⟨hnone, hlegal⟩ := hfail rfl
  rw [List.toList_toArray, hone] at hreported
  rw [hhistory] at hemitted
  rw [hnone] at hdiagnosed
  exact ⟨_, hs, tokens, hreported, hobserved, hemitted, hdiagnosed,
    fun token hm => ⟨hlegal token hm, hcomment token hm⟩⟩

end TableLexer.Scan
