import TableLexer.Proofs.Scan.Feed
namespace TableLexer

open Scan Lexical

namespace Scan

/-- What a scan reads, positions apart. -/
def streamText (source : String) : List Char :=
  (Text.splitLines source.toList).flatMap fun line => line ++ [' ']

theorem map_snd_placeLine (line : Nat) (cs : List Char) :
    (placeLine line cs).map Prod.snd = cs := by
  rw [placeLine, List.map_map]
  exact List.zipIdx_map_fst 0 cs

theorem map_snd_stream (source : String) : (stream source).map Prod.snd = streamText source := by
  rw [stream, streamText, List.map_flatMap]
  simp only [map_snd_placeLine]
  generalize Text.splitLines source.toList = lines
  have h := List.flatMap_map Prod.fst (fun line => line ++ [' ']) lines.zipIdx
  rw [← h, List.zipIdx_map_fst]

theorem getLast?_streamText (source : String) :
    ∀ c ∈ (streamText source).getLast?, c = ' ' := by
  rw [streamText]
  generalize Text.splitLines source.toList = lines
  intro c hc
  rcases lines.eq_nil_or_concat with rfl | ⟨front, line, rfl⟩
  · cases hc
  · rw [List.concat_eq_append, List.flatMap_append, List.flatMap_singleton, ← List.append_assoc,
      List.getLast?_concat] at hc
    exact (Option.mem_some.mp hc).symm

namespace Cursor

variable {g : Basis}

theorem feed_of_session_eq (hg : g.Lawful) {j k : Cursor} (hs : j.session = k.session)
    (hk : k.state = .initial) (i : Position × Char) : j.feed g i = k.feed g i := by
  have hj : j.state = .initial := by rw [state, hs]; exact hk
  have hm : j.mark i.1 = k.mark i.1 := by
    rw [mark, if_pos hj, mark, if_pos hk, hs]
  unfold feed
  split
  · next hc =>
    rw [feedSymbol_of_initial hg hc hj, feedSymbol_of_initial hg hc hk, take, take, hm]
  · rw [feedForeign, feedForeign, hm]

theorem run_of_ne_nil (hg : g.Lawful) (j k : Cursor) {input : List (Position × Char)}
    (h : input ≠ []) : j.run g input = k.run g input := by
  cases input with
  | nil => exact absurd rfl h
  | cons i rest =>
    -- the first character marks where its token starts, and nothing is left to tell the two apart
    have hs : (j.restart g).session = (k.restart g).session := rfl
    rw [run, run, feedAll_cons, feedAll_cons, feed_of_session_eq hg hs (state_restart hg k)]

theorem run_nil (hg : g.Lawful) (k : Cursor) : k.run g [] = Move.stay (k.restart g) := by
  rw [run, feedAll, List.foldl_nil, Move.stay_andThen, close, if_pos (state_restart hg k)]

/-- What a scan finds does not depend on the scans before it. -/
theorem findings_run (hg : g.Lawful) (j k : Cursor) (input : List (Position × Char)) :
    (j.run g input).findings = (k.run g input).findings := by
  cases input with
  | nil => rw [run_nil hg, run_nil hg]; rfl
  | cons i rest => rw [run_of_ne_nil hg j k (by simp)]

theorem failure?_run (hg : g.Lawful) (j k : Cursor) (input : List (Position × Char)) :
    (j.run g input).failure? = (k.run g input).failure? := by
  cases input with
  | nil => rw [run_nil hg, run_nil hg]; rfl
  | cons i rest => rw [run_of_ne_nil hg j k (by simp)]

end Cursor

end Scan

namespace Scanner

/-- The scanners there are: a new one, and what a scan leaves of one, however it ended. -/
inductive Reachable (options : ScanOptions) : Scanner → Prop where
  | standard {s : Scanner} : standard options = .ok s → Reachable options s
  | scanOnto {s : Scanner} (source : String) (k : Lexicon) (report : Report) :
      Reachable options s → Reachable options (s.scanOnto source k report).scanner

theorem exists_standard (options : ScanOptions) :
    ∃ table, Table.standard.result = .ok table ∧
      standard options = .ok (ofTable table options) := by
  obtain ⟨table, ht, _⟩ := Table.exists_build Alphabet.standard
  refine ⟨table, ht, ?_⟩
  rw [standard, Table.standard, ht]
  rfl

theorem exists_reachable (options : ScanOptions) :
    ∃ s, standard options = .ok s ∧ Reachable options s := by
  obtain ⟨_, _, hnew⟩ := exists_standard options
  exact ⟨_, hnew, .standard hnew⟩

theorem Reachable.table_options {options : ScanOptions} {s : Scanner} (h : Reachable options s) :
    Table.standard.result = .ok s.table ∧ s.options = options := by
  induction h with
  | standard hs =>
    obtain ⟨table, ht, hnew⟩ := exists_standard options
    rw [hnew] at hs
    cases hs
    exact ⟨ht, rfl⟩
  | scanOnto source k report _ ih => exact ih

theorem Reachable.policy {options : ScanOptions} {s : Scanner} (h : Reachable options s) :
    s.basis.policy = options.policy := by
  rw [basis, h.table_options.2]

/-- The table is as it was built. -/
theorem Reachable.table_built {options : ScanOptions} {s : Scanner} (h : Reachable options s) :
    s.table.alphabet = Alphabet.standard ∧ s.table.Follows ∧
      s.table.automaton.states.toList = State.all.map State.named ∧
      s.table.automaton.session = ⟨StateId.initial, "", #[]⟩ := by
  obtain ⟨table, ht, hbuilt⟩ := Table.exists_build Alphabet.standard
  have hs : s.table = table := Except.ok.inj (h.table_options.1.symm.trans ht)
  rw [hs]
  exact hbuilt

theorem Reachable.lawful {options : ScanOptions} {s : Scanner} (h : Reachable options s) :
    s.basis.Lawful := by
  obtain ⟨ha, hf, _⟩ := h.table_built
  exact Basis.lawful_of_table hf ha s.options.policy

theorem Reachable.basis_eq {options : ScanOptions} {s : Scanner} (h : Reachable options s)
    {other : ScanOptions} {t : Scanner} (ht : Reachable other t) :
    t.basis = { s.basis with policy := other.policy } := by
  have he : t.table = s.table :=
    Except.ok.inj (ht.table_options.1.symm.trans h.table_options.1)
  rw [basis, basis, he, ht.table_options.2]

end Scanner

end TableLexer
