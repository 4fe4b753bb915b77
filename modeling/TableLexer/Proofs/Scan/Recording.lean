import TableLexer.Proofs.Lexicon.Registration
import TableLexer.Scan.Scanner
namespace TableLexer.Scan

namespace Finding

/-- What is registered for a finding. -/
def filed? : Finding → Option (Terminal × String)
  | reached trace =>
    if trace.terminal = .illegal then none else some (trace.terminal, trace.lexeme)
  | rejected rejection => some (.illegal, rejection.lexeme)

def trace? : Finding → Option TokenTrace
  | reached trace => some trace
  | rejected _ => none

def rejection? : Finding → Option Rejection
  | reached _ => none
  | rejected rejection => some rejection

theorem filed?_reached {trace : TokenTrace} (h : trace.terminal ≠ .illegal) :
    (reached trace).filed? = some (trace.terminal, trace.lexeme) := if_neg h

theorem filed?_reached_illegal {trace : TokenTrace} (h : trace.terminal = .illegal) :
    (reached trace).filed? = none := if_pos h

end Finding

namespace Recording

/-- What recording some findings came to. -/
structure Wrote (tracing : Bool) (r : Recording) (fs : List Finding) (last : Recording) : Prop where
  lexicon : last.lexicon = (r.lexicon.registerAll (fs.filterMap Finding.filed?)).2
  tokens : last.report.tokens.toList =
    r.report.tokens.toList ++ (r.lexicon.registerAll (fs.filterMap Finding.filed?)).1
  observed : last.observed.toList =
    r.observed.toList ++ (r.lexicon.registerAll (fs.filterMap Finding.filed?)).1
  traces : last.report.traces.toList =
    r.report.traces.toList ++ if tracing then fs.filterMap Finding.trace? else []
  rejections : last.report.diagnostics.toList.map Diagnostic.rejection =
    r.report.diagnostics.toList.map Diagnostic.rejection ++ fs.filterMap Finding.rejection?

variable {tracing : Bool}

theorem wrote_nil (r : Recording) : Wrote tracing r [] r := by
  refine ⟨rfl, ?_, ?_, ?_, ?_⟩ <;> simp [Lexicon.registerAll]

theorem wrote_add (r : Recording) (f : Finding) : Wrote tracing r [f] (r.add tracing f) := by
  cases f with
  | reached trace =>
    by_cases ht : trace.terminal = .illegal
    · have he : [Finding.reached trace].filterMap Finding.filed? = [] := by
        simp [Finding.filed?_reached_illegal ht]
      refine ⟨?_, ?_, ?_, ?_, ?_⟩ <;>
        cases tracing <;>
        simp [add, ht, he, addTrace, Lexicon.registerAll, Finding.trace?, Finding.rejection?]
    · have he : [Finding.reached trace].filterMap Finding.filed? =
          [(trace.terminal, trace.lexeme)] := by
        simp [Finding.filed?_reached ht]
      refine ⟨?_, ?_, ?_, ?_, ?_⟩ <;>
        cases tracing <;>
        simp [add, ht, he, addTrace, addToken, Lexicon.registerAll, Finding.trace?,
          Finding.rejection?]
  | rejected rejection =>
    have he : [Finding.rejected rejection].filterMap Finding.filed? =
        [(.illegal, rejection.lexeme)] := rfl
    refine ⟨?_, ?_, ?_, ?_, ?_⟩ <;>
      simp [add, he, addToken, addDiagnostic, Lexicon.registerAll, Finding.trace?,
        Finding.rejection?]

theorem Wrote.append {r s t : Recording} {fs gs : List Finding} (h₁ : Wrote tracing r fs s)
    (h₂ : Wrote tracing s gs t) : Wrote tracing r (fs ++ gs) t := by
  refine ⟨?_, ?_, ?_, ?_, ?_⟩
  · rw [h₂.lexicon, h₁.lexicon, List.filterMap_append, Lexicon.registerAll_append]
  · rw [h₂.tokens, h₁.tokens, h₁.lexicon, List.filterMap_append, Lexicon.registerAll_append,
      List.append_assoc]
  · rw [h₂.observed, h₁.observed, h₁.lexicon, List.filterMap_append, Lexicon.registerAll_append,
      List.append_assoc]
  · rw [h₂.traces, h₁.traces]
    cases tracing <;> simp
  · rw [h₂.rejections, h₁.rejections, List.filterMap_append, List.append_assoc]

theorem wrote_addAll (tracing : Bool) (r : Recording) (fs : Array Finding) :
    Wrote tracing r fs.toList (r.addAll tracing fs) := by
  rw [addAll, ← Array.foldl_toList]
  induction fs.toList generalizing r with
  | nil => exact wrote_nil r
  | cons f fs ih => exact (wrote_add r f).append (ih (r.add tracing f))

theorem Wrote.of_empty {k : Lexicon} {fs : List Finding} {last : Recording}
    (h : Wrote tracing ⟨k, Report.empty, #[], #[]⟩ fs last) :
    last.report.tokens.toList = (k.registerAll (fs.filterMap Finding.filed?)).1 ∧
      last.lexicon = (k.registerAll (fs.filterMap Finding.filed?)).2 ∧
      last.report.diagnostics.toList.map Diagnostic.rejection =
        fs.filterMap Finding.rejection? :=
  ⟨h.tokens, h.lexicon, h.rejections⟩

end Recording

end TableLexer.Scan

namespace TableLexer.Scanner

open Scan

variable (s : Scanner) (source : String) (k : Lexicon) (report : Report)

/-- All that a scan writes down. -/
def recording : Recording :=
  (Recording.mk k report #[] #[]).addAll s.options.trace (s.move source).findings

theorem wrote_recording : Recording.Wrote s.options.trace ⟨k, report, #[], #[]⟩
    (s.move source).findings.toList (s.recording source k report) :=
  Recording.wrote_addAll _ _ _

theorem lexicon_scanOnto :
    (s.scanOnto source k report).lexicon = (s.recording source k report).lexicon := rfl

theorem report_scanOnto :
    (s.scanOnto source k report).report = (s.recording source k report).report := rfl

theorem observed_scanOnto :
    (s.scanOnto source k report).observed = (s.recording source k report).observed.toList := rfl

theorem failure?_scanOnto : (s.scanOnto source k report).failure? = (s.move source).failure? := rfl

theorem cursor_scanOnto :
    (s.scanOnto source k report).scanner.cursor = (s.move source).cursor := rfl

end TableLexer.Scanner
