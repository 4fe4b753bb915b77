import TableLexer.Proofs.Scan.Progress
namespace TableLexer

open Scan

namespace Scan.Cursor

variable {g : Basis}

/-- The machine ends a scan as it would have without the scans before it. Only where the last token
started can be left over, if there was nothing to read. -/
theorem session_run (hg : g.Lawful) (j k : Cursor) (input : List (Position × Char)) :
    (j.run g input).cursor.session = (k.run g input).cursor.session := by
  cases input with
  | nil => rw [run_nil hg, run_nil hg]; rfl
  | cons i rest => rw [run_of_ne_nil hg j k (by simp)]

end Scan.Cursor

namespace Scanner

variable {options : ScanOptions} {s t : Scanner}

theorem Reachable.basis_unique (hs : Reachable options s) (ht : Reachable options t) :
    t.basis = s.basis := by
  rw [hs.basis_eq ht, ← hs.policy]

section SameMoves

variable (hs : Reachable options s) (ht : Reachable options t) (source : String)
include hs ht

theorem Reachable.findings_unique : (t.move source).findings = (s.move source).findings := by
  rw [move, hs.basis_unique ht]
  exact Cursor.findings_run hs.lawful _ _ _

theorem Reachable.entries_unique : (t.move source).entries = (s.move source).entries := by
  rw [Move.entries, hs.findings_unique ht, Move.entries]

theorem Reachable.failure?_unique : (t.move source).failure? = (s.move source).failure? := by
  rw [move, hs.basis_unique ht]
  exact Cursor.failure?_run hs.lawful _ _ _

theorem Reachable.session_unique :
    (t.move source).cursor.session = (s.move source).cursor.session := by
  rw [move, hs.basis_unique ht]
  exact Cursor.session_run hs.lawful _ _ _

theorem Reachable.recording_unique (k : Lexicon) (report : Report) :
    t.recording source k report = s.recording source k report := by
  rw [recording, ht.table_options.2, hs.findings_unique ht, ← hs.table_options.2, recording]

end SameMoves

theorem journal_scanOnto (s : Scanner) (source : String) (k : Lexicon) (report : Report) :
    (s.scanOnto source k report).journal = (s.recording source k report).journal.toList ++
      if (s.move source).failure?.isSome then []
      else [doneRemark (s.recording source k report).report] := rfl

/-- A scanner carries nothing over: whatever was scanned with it, however those scans ended, the
next scan comes to what it comes to with a new scanner, and leaves the table as that does. -/
theorem scanOnto_eq_new (hs : Reachable options s) (source : String) (k : Lexicon)
    (report : Report) :
    ∃ new, standard options = .ok new ∧
      let used := s.scanOnto source k report
      let fresh := new.scanOnto source k report
      used.failure? = fresh.failure? ∧ used.report = fresh.report ∧
        used.observed = fresh.observed ∧ used.lexicon = fresh.lexicon ∧
        used.journal = fresh.journal ∧ used.scanner.table = fresh.scanner.table ∧
        used.scanner.cursor.session = fresh.scanner.cursor.session := by
  obtain ⟨table, ht, hnew⟩ := exists_standard options
  have hn : Reachable options (ofTable table options) := .standard hnew
  have hfailure := hn.failure?_unique hs source
  have hrecording := hn.recording_unique hs source k report
  have htable : s.table = table := Except.ok.inj (hs.table_options.1.symm.trans ht)
  refine ⟨_, hnew, hfailure, ?_, ?_, ?_, ?_, htable, hn.session_unique hs source⟩
  · rw [report_scanOnto, report_scanOnto, hrecording]
  · rw [observed_scanOnto, observed_scanOnto, hrecording]
  · rw [lexicon_scanOnto, lexicon_scanOnto, hrecording]
  · rw [journal_scanOnto, journal_scanOnto, hrecording, hfailure]

/-- Giving up in a string leaves no trace of it. -/
theorem scanOnto_eq_new_standard :
    ∃ new, standard ⟨.failFast, true⟩ = .ok new ∧
      let k := Lexicon.ofReserved ["if"]
      let first := new.scanOnto "'" k Report.empty
      let used := first.scanner.scanOnto "x:='" first.lexicon first.report
      let fresh := new.scanOnto "x:='" first.lexicon first.report
      first.failure? = some (.unterminated ⟨1, 1⟩ "' " "string_body") ∧
        used.failure? = fresh.failure? ∧ used.report = fresh.report ∧
        used.lexicon = fresh.lexicon ∧
        used.scanner.cursor.session = fresh.scanner.cursor.session := by
  obtain ⟨table, _, hnew⟩ := exists_standard ⟨.failFast, true⟩
  generalize ofTable table ⟨.failFast, true⟩ = new at hnew
  let k := Lexicon.ofReserved ["if"]
  let first := new.scanOnto "'" k Report.empty
  obtain ⟨new', hnew', hfailure, hreport, _, hlexicon, _, _, hsession⟩ :=
    scanOnto_eq_new (.scanOnto "'" k Report.empty (.standard hnew)) "x:='" first.lexicon
      first.report
  obtain rfl : new = new' := Except.ok.inj (hnew.symm.trans hnew')
  exact ⟨new, hnew, failure?_move_quote (.standard hnew) rfl, hfailure, hreport, hlexicon,
    hsession⟩

end Scanner

end TableLexer
