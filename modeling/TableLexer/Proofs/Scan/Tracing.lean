import TableLexer.Proofs.Automaton.Log
import TableLexer.Proofs.Scan.Accounting
import TableLexer.Proofs.Scan.Simulation
namespace TableLexer

open Scan Lexical

/-- The text that a scan gave up at for a symbol in it. -/
def LexError.spoilt? : LexError → Option String
  | illegal _ lexeme => some lexeme
  | _ => none

namespace Scan

/-- A trace of a whole run of a machine: from the initial state by its transitions, into a final one
for the first time, with the text that was read on the way. -/
structure TokenTrace.Genuine (m : Machine State) (t : TokenTrace) : Prop where
  run : ∃ front last, t.steps.toList = front ++ [last] ∧
    Leads m.initial (front ++ [last]) last.target ∧ (∀ x ∈ front, m.isFinal x.target = false) ∧
    m.isFinal last.target = true ∧ last.target.terminal? = some t.terminal
  follows : ∀ x ∈ t.steps.toList, m.next? x.source x.symbol = some x.target
  spelt : m.Spelt t.steps.toList
  lexeme : t.lexeme = m.spelling t.steps.toList

def TokenTrace.isIllegal (t : TokenTrace) : Bool := t.terminal = .illegal

/-- The lexeme with the symbol behind it that led into the final state. -/
def TokenTrace.spoilt (t : TokenTrace) : String :=
  match t.steps.back? with
  | some x => t.lexeme.push x.symbol
  | none => t.lexeme

def Rejection.isIllegal (r : Rejection) : Bool := r.cause = .illegal

namespace Cursor

variable {g : Basis} {k : Cursor} {position : Position} {c : Char}

/-- The steps up to here are a run that follows the table and has not ended yet. -/
structure Logs (g : Basis) (k : Cursor) : Prop where
  logged : k.session.Logged g.machine
  follows : ∀ x ∈ k.session.steps.toList, g.machine.next? x.source x.symbol = some x.target
  unended : ∀ x ∈ k.session.steps.toList, g.machine.isFinal x.target = false

theorem logs_restart (g : Basis) (k : Cursor) : (k.restart g).Logs g where
  logged := Session.logged_start g.machine
  follows := by
    intro x hx
    cases hx
  unended := by
    intro x hx
    cases hx

theorem steps_moved (position : Position) (c : Char) (k : Cursor) :
    (k.moved position c).session.steps.toList = k.session.steps.toList ++
      [⟨k.state, c, k.state.next c, (k.moved position c).lexeme⟩] := Array.toList_push

theorem logged_moved (hg : g.Lawful) (hc : g.alphabet.contains c) (hk : k.Logs g)
    (position : Position) : (k.moved position c).session.Logged g.machine :=
  hk.logged.advance? (advance?_session hg hc position)

theorem follows_moved (hg : g.Lawful) (hc : g.alphabet.contains c) (hk : k.Logs g)
    (position : Position) : ∀ x ∈ (k.moved position c).session.steps.toList,
      g.machine.next? x.source x.symbol = some x.target := by
  intro x hx
  rw [steps_moved] at hx
  rcases List.mem_append.mp hx with hx | hx
  · exact hk.follows x hx
  · rw [List.mem_singleton.mp hx]
    exact hg.next? k.state c hc

theorem logs_moved (hg : g.Lawful) (hc : g.alphabet.contains c) (hk : k.Logs g)
    (hn : (k.state.next c).terminal? = none) : (k.moved position c).Logs g where
  logged := logged_moved hg hc hk position
  follows := follows_moved hg hc hk position
  unended := by
    intro x hx
    rw [steps_moved] at hx
    rcases List.mem_append.mp hx with hx | hx
    · exact hk.unended x hx
    · rw [List.mem_singleton.mp hx, hg.isFinal, State.isFinal, hn]
      rfl

theorem genuine_moved (hg : g.Lawful) (hc : g.alphabet.contains c) (hk : k.Logs g) {t : Terminal}
    (hn : (k.state.next c).terminal? = some t) :
    ((k.moved position c).trace t).Genuine g.machine := by
  have hlogged := logged_moved hg hc hk position
  refine ⟨⟨k.session.steps.toList, _, steps_moved position c k, ?_, hk.unended, ?_, hn⟩,
    follows_moved hg hc hk position, hlogged.spelt, hlogged.lexeme⟩
  · rw [← steps_moved position c k]
    exact hlogged.leads
  · rw [hg.isFinal, State.isFinal, hn]
    rfl

theorem spoilt_moved (position : Position) (c : Char) (k : Cursor) (t : Terminal) :
    ((k.moved position c).trace t).spoilt = (k.moved position c).lexeme.push c := by
  have hback : (k.moved position c).session.steps.back? =
      some ⟨k.state, c, k.state.next c, (k.moved position c).lexeme⟩ := Array.back?_push
  rw [TokenTrace.spoilt, trace, hback]

end Cursor

namespace Move

variable {g : Basis} {m : Move}

def traces (m : Move) : List TokenTrace := m.findings.toList.filterMap Finding.trace?

def rejections (m : Move) : List Rejection := m.findings.toList.filterMap Finding.rejection?

/-- The texts that were rejected, or given up at, for a symbol in them. -/
def refused (m : Move) : List String :=
  (m.rejections.filter Rejection.isIllegal).map Rejection.lexeme ++
    (m.failure?.bind LexError.spoilt?).toList

/-- All traces are genuine, those into the illegal state are of what is refused for a symbol, and
what has been read of the next token is logged. -/
structure Traced (g : Basis) (m : Move) : Prop where
  genuine : ∀ t ∈ m.traces, t.Genuine g.machine
  refused : (m.traces.filter TokenTrace.isIllegal).map TokenTrace.spoilt = m.refused
  logs : m.failure? = none → m.cursor.Logs g

theorem Traced.andThen (h : m.Traced g) {f : Cursor → Move}
    (hf : m.failure? = none → (f m.cursor).Traced g) : (m.andThen f).Traced g := by
  cases hm : m.failure? with
  | some e =>
    rw [andThen_of_failure hm]
    exact h
  | none =>
    have hnext := hf hm
    have hrefused := h.refused
    rw [Move.refused, hm, Option.bind_none, Option.toList_none, List.append_nil] at hrefused
    rw [andThen_of_none hm]
    refine ⟨?_, ?_, hnext.logs⟩
    · intro t ht
      rw [traces, Array.toList_append, List.filterMap_append] at ht
      exact (List.mem_append.mp ht).elim (h.genuine t) (hnext.genuine t)
    · rw [traces, Move.refused, rejections, Array.toList_append, List.filterMap_append,
        List.filterMap_append, List.filter_append, List.filter_append, List.map_append,
        List.map_append, List.append_assoc, ← rejections, ← traces, hrefused]
      exact congrArg (_ ++ ·) hnext.refused

theorem traced_stay {k : Cursor} (hk : k.Logs g) : (stay k).Traced g :=
  ⟨by simp [stay, traces], rfl, fun _ => hk⟩

theorem traced_reached {t : TokenTrace} (ht : t.Genuine g.machine) (hl : t.terminal ≠ .illegal)
    {k : Cursor} (hk : k.Logs g) : (Move.mk #[.reached t] k none).Traced g where
  genuine := by simpa [traces, Finding.trace?] using ht
  refused := by
    simp [traces, Finding.trace?, TokenTrace.isIllegal, hl, Move.refused, rejections,
      Finding.rejection?]
  logs _ := hk

end Move

namespace Cursor

variable {g : Basis} {k : Cursor} {position : Position} {c : Char}

theorem traced_refuse {error : LexError} (he : error.spoilt? = none) {rejection : Rejection}
    (hr : rejection.cause ≠ .illegal) : (k.refuse g error rejection).Traced g := by
  unfold refuse
  cases g.policy with
  | failFast =>
    refine ⟨?_, ?_, ?_⟩
    · intro t ht
      cases ht
    · simp [Move.fail, Move.traces, Move.refused, Move.rejections, he]
    · intro hok
      cases hok
  | recover =>
    refine ⟨?_, ?_, fun _ => logs_restart g k⟩
    · intro t ht
      cases ht
    · simp [reject, Move.traces, Finding.trace?, Move.refused, Move.rejections,
        Finding.rejection?, Rejection.isIllegal, hr]

theorem traced_feedSymbol_of_open (hg : g.Lawful) (hc : g.alphabet.contains c) (hk : k.Logs g)
    (hn : (k.state.next c).terminal? = none) : (k.feedSymbol g position c).Traced g := by
  rw [feedSymbol_of_open hg hc hn]
  exact Move.traced_stay (logs_moved hg hc hk hn)

theorem traced_feedSymbol_of_spoils (hg : g.Lawful) (hc : g.alphabet.contains c) (hk : k.Logs g)
    (hn : k.state.next c = .illegal) : (k.feedSymbol g position c).Traced g := by
  have hgenuine : ((k.moved position c).trace .illegal).Genuine g.machine :=
    genuine_moved hg hc hk (by rw [hn]; rfl)
  have hspoilt := congrArg (fun text => [text]) (spoilt_moved position c k .illegal)
  rw [feedSymbol_of_spoils hg hc hn, Move.mk_andThen, meetIllegal]
  cases g.policy with
  | failFast =>
    refine ⟨?_, hspoilt, ?_⟩
    · simpa [Move.fail, Move.traces, Finding.trace?] using hgenuine
    · intro hok
      cases hok
  | recover =>
    refine ⟨?_, hspoilt, fun _ => logs_restart g _⟩
    simpa [reject, Move.traces, Finding.trace?] using hgenuine

theorem traced_feedSymbol_of_initial (hg : g.Lawful) (hc : g.alphabet.contains c) (hk : k.Logs g)
    (hi : k.state = .initial) : (k.feedSymbol g position c).Traced g := by
  rcases LongestMatch.terminal?_next_initial c with hn | hn
  · exact traced_feedSymbol_of_open hg hc hk (by rw [hi]; exact hn)
  · exact traced_feedSymbol_of_spoils hg hc hk (by rw [hi]; exact hn)

theorem traced_feedSymbol (hg : g.Lawful) (hc : g.alphabet.contains c) (hk : k.Logs g) :
    (k.feedSymbol g position c).Traced g := by
  cases hn : (k.state.next c).terminal? with
  | none => exact traced_feedSymbol_of_open hg hc hk hn
  | some t =>
    by_cases ht : t = .illegal
    · exact traced_feedSymbol_of_spoils hg hc hk (State.eq_illegal_of_terminal? (ht ▸ hn))
    · -- the symbol that ends a token begins the log of the next one
      rw [feedSymbol_of_ends hg hc hn ht]
      have hlogs : ((k.moved position c).restart g).Logs g := logs_restart g _
      exact (Move.traced_reached (genuine_moved hg hc hk hn) ht hlogs).andThen fun _ =>
        traced_feedSymbol_of_initial hg hc hlogs (state_restart hg _)

theorem traced_feedForeign (hg : g.Lawful) (hk : k.Logs g) :
    (k.feedForeign g position c).Traced g := by
  by_cases halone : g.policy = .recover → endsPending k.state = false
  · rw [feedForeign_of_not_ends halone]
    exact traced_refuse rfl (by simp)
  · obtain ⟨hp, hpend⟩ := Classical.not_imp.mp halone
    rw [feedForeign_of_ends hp (by simpa using hpend)]
    refine (traced_feedSymbol hg hg.contains_blank hk).andThen fun _ => ?_
    have hrefuse (j : Cursor) : (j.refuse g (.outsideAlphabet position c)
        ⟨position, j.lexeme.push c, .outsideAlphabet⟩).Traced g := traced_refuse rfl (by simp)
    simp only [refuse, hp] at hrefuse
    exact hrefuse _

theorem traced_feed (hg : g.Lawful) (hk : k.Logs g) (i : Position × Char) :
    (k.feed g i).Traced g := by
  obtain ⟨position, c⟩ := i
  cases hc : g.alphabet.contains c with
  | true =>
    rw [feed_of_contains hc]
    exact traced_feedSymbol hg hc hk
  | false =>
    rw [feed_of_foreign hc]
    exact traced_feedForeign hg hk

theorem traced_close (hk : k.Logs g) : (k.close g).Traced g := by
  by_cases hi : k.state = .initial
  · rw [close, if_pos hi]
    exact Move.traced_stay hk
  · rw [close_of_ne_initial g hi]
    exact traced_refuse rfl (by simp)

theorem traced_finish (hg : g.Lawful) (hk : k.Logs g) (input : List (Position × Char)) :
    (k.finish g input).Traced g := by
  induction input generalizing k with
  | nil =>
    rw [finish_nil]
    exact traced_close hk
  | cons i rest ih =>
    rw [finish_cons]
    have hfeed := traced_feed hg hk i
    exact hfeed.andThen fun hok => ih (hfeed.logs hok)

end Cursor

theorem Move.filter_entries (m : Move) :
    (m.entries.filter fun x => x.1 ≠ .illegal) =
      (m.traces.filter fun t => !t.isIllegal).map fun t => (t.terminal, t.lexeme) := by
  rw [entries, traces]
  induction m.findings.toList with
  | nil => rfl
  | cons f fs ih =>
    cases f with
    | rejected r => exact ih
    | reached t =>
      by_cases ht : t.terminal = .illegal
      · simpa [Finding.filed?, Finding.trace?, TokenTrace.isIllegal, ht] using ih
      · simpa [Finding.filed?, Finding.trace?, TokenTrace.isIllegal, ht] using ih

end Scan

namespace Scan.Recording.Accounts

variable {tracing : Bool} {before after : Recording} {tokens : List Token}
  {diagnostics : List Diagnostic} {fs : List Finding}

theorem tokens_eq (h : Accounts before after tokens diagnostics)
    (hw : Wrote tracing before fs after) :
    tokens = (before.lexicon.registerAll (fs.filterMap Finding.filed?)).1 :=
  List.append_cancel_left (h.reported.symm.trans hw.tokens)

theorem rejections_eq (h : Accounts before after tokens diagnostics)
    (hw : Wrote tracing before fs after) :
    diagnostics.map Diagnostic.rejection = fs.filterMap Finding.rejection? := by
  have hd := congrArg (List.map Diagnostic.rejection) h.diagnosed
  rw [List.map_append] at hd
  exact List.append_cancel_left (hd.symm.trans hw.rejections)

end Scan.Recording.Accounts

namespace Lexicon

theorem filter_registerAll (k : Lexicon) (xs : List (Terminal × String)) :
    ((k.registerAll xs).1.filter fun token => token.category ≠ .illegal).map
        (fun token => (token.category, (k.registerAll xs).2.lexeme? token)) =
      (xs.filter fun x => x.1 ≠ .illegal).map fun x => (k.categoryOf x.2 x.1, some x.2) := by
  have htokens := congrArg (List.filter fun x => x.1 ≠ .illegal) (registerAll_tokens k xs)
  rw [List.filter_map, List.filter_map] at htokens
  refine htokens.trans ?_
  congr 1
  apply List.filter_congr
  intro x _
  simp [categoryOf_eq_illegal_iff]

end Lexicon

namespace Scan

variable {policy : Policy} {s : Scanner}

theorem traced_move (hs : Scanner.Reachable ⟨policy, true⟩ s) (source : String) :
    (s.move source).Traced s.basis := by
  rw [Scanner.move, Cursor.run_eq_finish]
  exact Cursor.traced_finish hs.lawful (Cursor.logs_restart _ _) _

theorem traces_scanOnto (hs : Scanner.Reachable ⟨policy, true⟩ s) (source : String) (k : Lexicon)
    (report : Report) :
    (s.scanOnto source k report).report.traces.toList =
      report.traces.toList ++ (s.move source).traces := by
  have hw := s.wrote_recording source k report
  rw [hs.table_options.2] at hw
  exact hw.traces

/-- With tracing on, every trace that a scan adds is a whole run of its table, also if the scan
gives up. The traces of tokens are one for each legal token, in their order. Those into the illegal
state are one for each illegal token that was spoilt by a symbol, or the one for the symbol that the
scan gave up at. -/
theorem scanOnto_traces (hs : Scanner.Reachable ⟨policy, true⟩ s) (source : String) (k : Lexicon)
    (report : Report) :
    let outcome := s.scanOnto source k report
    ∃ tokens diagnostics traces,
      outcome.report.tokens.toList = report.tokens.toList ++ tokens ∧
        outcome.report.diagnostics.toList = report.diagnostics.toList ++ diagnostics ∧
        outcome.report.traces.toList = report.traces.toList ++ traces ∧
        (∀ t ∈ traces, t.Genuine s.table.machine) ∧
        ((tokens.filter fun token => token.category ≠ .illegal).map
            (fun token => (token.category, outcome.lexicon.lexeme? token)) =
          (traces.filter fun t => !t.isIllegal).map
            fun t => (k.categoryOf t.lexeme t.terminal, some t.lexeme)) ∧
        (diagnostics.map Diagnostic.token =
          tokens.filter fun token => token.category = .illegal) ∧
        ((traces.filter TokenTrace.isIllegal).map (fun t => some t.spoilt) =
          (diagnostics.filter fun d => d.rejection.isIllegal).map
              (fun d => outcome.lexicon.lexeme? d.token) ++
            (outcome.failure?.bind LexError.spoilt?).toList.map some) ∧
        match policy with
        | .failFast => diagnostics = []
        | .recover => outcome.failure? = none := by
  intro outcome
  have htraced := traced_move hs source
  have hw := s.wrote_recording source k report
  obtain ⟨tokens, diagnostics, h⟩ := Recording.exists_accounts_addAll s.options.trace
    ⟨k, report, #[], #[]⟩ (s.move source).findings
  rw [← Scanner.recording] at h
  rw [hs.table_options.2] at hw
  have htokens := h.tokens_eq hw
  have hrejections := h.rejections_eq hw
  simp only [outcome, Scanner.report_scanOnto, Scanner.lexicon_scanOnto, Scanner.failure?_scanOnto]
  refine ⟨tokens, diagnostics, (s.move source).traces, h.reported, h.diagnosed, hw.traces,
    htraced.genuine, ?_, h.illegal, ?_, ?_⟩
  · rw [htokens, hw.lexicon, ← Move.entries, Lexicon.filter_registerAll, Move.filter_entries,
      List.map_map]
    rfl
  · have hlexeme : (diagnostics.filter fun d => d.rejection.isIllegal).map
        (fun d => (s.recording source k report).lexicon.lexeme? d.token) =
          ((diagnostics.map Diagnostic.rejection).filter Rejection.isIllegal).map
            fun r => some r.lexeme := by
      rw [List.filter_map, List.map_map]
      apply List.map_congr_left
      intro d hd
      exact h.lexemes d (List.mem_filter.mp hd).1
    have hspoilt := congrArg (List.map some) htraced.refused
    rw [Move.refused, List.map_append, List.map_map, List.map_map] at hspoilt
    rw [hlexeme, hrejections]
    exact hspoilt
  · cases policy with
    | failFast =>
      rw [noRejection_of_failFast hs rfl source] at hrejections
      exact List.map_eq_nil_iff.mp hrejections
    | recover => exact failure?_recover hs source k report

/-- A number with a letter behind it is rejected. -/
theorem scanOnto_traces_standard :
    ∃ s, Scanner.standard ⟨.recover, true⟩ = .ok s ∧
      ∃ traces,
        (s.scan "x 12a" (Lexicon.ofReserved ["x"])).report.traces.toList = traces ∧
          (∀ t ∈ traces, t.Genuine s.table.machine) ∧
          (traces.filter fun t => !t.isIllegal).map TokenTrace.lexeme = ["x"] := by
  obtain ⟨table, _, hnew⟩ := Scanner.exists_standard ⟨.recover, true⟩
  generalize Scanner.ofTable table ⟨.recover, true⟩ = s at hnew
  have hs := Scanner.Reachable.standard hnew
  obtain ⟨tokens, _, traces, htokens, _, htraces, hgenuine, hlegal, _⟩ :=
    scanOnto_traces hs "x 12a" (Lexicon.ofReserved ["x"]) Report.empty
  have htext : LongestMatch.tokens (streamText "x 12a") =
      [(.identifierEnd, "x"), (.illegal, "12a")] := by decide +kernel
  have hyields := Cursor.yields_run hs.lawful hs.policy s.cursor "x 12a"
  rw [htext] at hyields
  obtain ⟨_, hread⟩ := map_tokens_scan_of_yields hyields ["x"]
  simp only [Scanner.scan, htokens] at hread
  have hfirst := congrArg (List.filter fun x => x.1 ≠ .illegal) hread
  rw [List.filter_map] at hfirst
  have hlexemes := congrArg (List.map Prod.snd) (hlegal.symm.trans hfirst)
  rw [List.map_map] at hlexemes
  refine ⟨_, hnew, traces, htraces, hgenuine,
    (List.map_inj_right fun _ _ => Option.some.inj).mp ?_⟩
  rw [List.map_map]
  exact hlexemes

end Scan

end TableLexer
