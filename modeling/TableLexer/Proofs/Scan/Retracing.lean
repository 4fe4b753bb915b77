import Mathlib.Data.List.Chain
import TableLexer.Proofs.Scan.Tracing
namespace TableLexer.Scan

open Lexical

namespace TokenTrace

/-- The symbols that were read for a token, the one that ended it included. -/
def symbols (t : TokenTrace) : List Char := t.steps.toList.map Step.symbol

/-- The next token was begun with the symbol that ended this one. -/
def HandsOn (t u : TokenTrace) : Prop :=
  ∃ c, t.symbols.getLast? = some c ∧ u.symbols.head? = some c

end TokenTrace

/-- Traces that go over a text from one token to the next, back by one symbol each time, with only
blanks left behind the last of them. -/
inductive Retraces : List TokenTrace → List Char → Prop where
  | done {rest : List Char} : (∀ c ∈ rest, Alphabet.isBlank c) → Retraces [] rest
  | token {t : TokenTrace} {ts : List TokenTrace} {front rest : List Char} {c : Char} :
      t.symbols = front ++ [c] → Retraces ts (c :: rest) → Retraces (t :: ts) (front ++ c :: rest)

namespace Retraces

variable {t : TokenTrace} {ts : List TokenTrace} {text rest : List Char} {c : Char}

theorem head?_symbols (h : Retraces (t :: ts) (c :: rest)) : t.symbols.head? = some c := by
  generalize htext : c :: rest = text at h
  cases h with
  | @token _ _ front behind d hsymbols _ =>
    rw [hsymbols]
    cases front with
    | nil => rw [(List.cons.inj htext).1]; rfl
    | cons e front => rw [(List.cons.inj htext).1]; rfl

theorem isChain (h : Retraces ts text) : ts.IsChain TokenTrace.HandsOn := by
  induction h with
  | done _ => exact List.isChain_nil
  | @token t ts front rest c hsymbols hrest ih =>
    cases ts with
    | nil => exact List.isChain_singleton t
    | cons u ts =>
      refine List.isChain_cons_cons.mpr ⟨⟨c, ?_, hrest.head?_symbols⟩, ih⟩
      rw [hsymbols, List.getLast?_concat]

theorem exists_rest (h : Retraces ts text) :
    ∃ rest, text = (ts.flatMap fun t => t.symbols.dropLast) ++ rest ∧
      ∀ c ∈ rest, Alphabet.isBlank c := by
  induction h with
  | @done rest hblank => exact ⟨rest, rfl, hblank⟩
  | @token t ts front rest c hsymbols _ ih =>
    obtain ⟨last, hlast, hblank⟩ := ih
    refine ⟨last, ?_, hblank⟩
    rw [List.flatMap_cons, hsymbols, List.dropLast_concat, List.append_assoc, ← hlast]

end Retraces

namespace Cursor

variable {g : Basis} {k : Cursor} {position : Position} {c : Char}

/-- The symbols that have been read since the last token. -/
def symbols (k : Cursor) : List Char := k.session.steps.toList.map Step.symbol

theorem symbols_moved (position : Position) (c : Char) (k : Cursor) :
    (k.moved position c).symbols = k.symbols ++ [c] := by
  rw [symbols, steps_moved, List.map_append]
  rfl

/-- Between two tokens nothing but blanks has been read. -/
def Idles (k : Cursor) : Prop := k.state = .initial → ∀ c ∈ k.symbols, Alphabet.isBlank c

theorem idles_restart (g : Basis) (k : Cursor) : (k.restart g).Idles := by
  intro _ c hc
  cases hc

theorem idles_moved (hk : k.Idles) (position : Position) (c : Char) :
    (k.moved position c).Idles := by
  intro hi d hd
  obtain ⟨hstate, hblank⟩ := State.next_eq_initial hi
  rw [symbols_moved] at hd
  rcases List.mem_append.mp hd with hd | hd
  · exact hk hstate d hd
  · rw [List.mem_singleton.mp hd]
    exact hblank

section FailFast

variable (hp : g.policy = .failFast)
include hp

theorem retraces_close (hk : k.Idles) (hok : (k.close g).failure? = none) :
    Retraces (k.close g).traces k.symbols := by
  by_cases hi : k.state = .initial
  · rw [close, if_pos hi]
    exact .done (hk hi)
  · rw [close_of_ne_initial g hi, refuse, hp] at hok
    cases hok

variable (hg : g.Lawful)
include hg

theorem failure?_of_spoils (hc : g.alphabet.contains c) (hn : k.state.next c = .illegal) :
    (k.feedSymbol g position c).failure? ≠ none := by
  rw [feedSymbol_of_spoils hg hc hn, Move.mk_andThen, meetIllegal_eq_refuse, refuse, hp]
  simp [Move.fail]

/-- What can come of a character if a scan that is to give up goes on behind it: it is logged, or it
ends a token and begins the log of the next one. -/
theorem feed_cases (hok : (k.feed g (position, c)).failure? = none) :
    k.feed g (position, c) = Move.stay (k.moved position c) ∨
      ∃ t, k.feed g (position, c) = ⟨#[.reached ((k.moved position c).trace t)],
        ((k.moved position c).restart g).moved position c, none⟩ := by
  cases hc : g.alphabet.contains c with
  | false =>
    rw [feed_of_foreign hc, feedForeign, hp] at hok
    cases hok
  | true =>
    rw [feed_of_contains hc] at hok ⊢
    cases hn : (k.state.next c).terminal? with
    | none => exact .inl (feedSymbol_of_open hg hc hn)
    | some t =>
      by_cases ht : t = .illegal
      · have hspoils : k.state.next c = .illegal := State.eq_illegal_of_terminal? (ht ▸ hn)
        exact absurd hok (failure?_of_spoils hp hg hc hspoils)
      · let j := (k.moved position c).restart g
        have hj : j.state = .initial := state_restart hg _
        rw [feedSymbol_of_ends hg hc hn ht, Move.mk_andThen] at hok ⊢
        rcases LongestMatch.terminal?_next_initial c with hopen | hspoils
        · have hagain : j.feedSymbol g position c = Move.stay (j.moved position c) :=
            feedSymbol_of_open hg hc (by rw [hj]; exact hopen)
          refine .inr ⟨t, ?_⟩
          rw [hagain]
          rfl
        · exact absurd hok (failure?_of_spoils hp hg hc (by rw [hj]; exact hspoils))

/-- What has been logged so far belongs to the first trace that is found from here on. -/
theorem retraces_finish (hk : k.Idles) {input : List (Position × Char)}
    (hok : (k.finish g input).failure? = none) :
    Retraces (k.finish g input).traces (k.symbols ++ input.map Prod.snd) := by
  induction input generalizing k with
  | nil =>
    rw [finish_nil] at hok ⊢
    rw [List.map_nil, List.append_nil]
    exact retraces_close hp hk hok
  | cons i rest ih =>
    obtain ⟨position, c⟩ := i
    rw [finish_cons] at hok ⊢
    cases hfeed : (k.feed g (position, c)).failure? with
    | some e =>
      rw [Move.andThen_of_failure hfeed, hfeed] at hok
      cases hok
    | none =>
      have hmoved := idles_moved hk position c
      rcases feed_cases hp hg hfeed with hopen | ⟨t, hends⟩
      · rw [hopen, Move.stay_andThen] at hok ⊢
        have hrest := ih hmoved hok
        rw [symbols_moved, List.append_assoc] at hrest
        exact hrest
      · let j := ((k.moved position c).restart g).moved position c
        have hj : j.Idles := idles_moved (idles_restart g _) position c
        have hsymbols : j.symbols = [c] := symbols_moved position c _
        rw [hends, Move.mk_andThen] at hok ⊢
        have hrest := ih hj hok
        rw [hsymbols] at hrest
        have htrace : ((k.moved position c).trace t).symbols = k.symbols ++ [c] :=
          symbols_moved position c k
        have htraces : Move.traces ⟨#[.reached ((k.moved position c).trace t)] ++
            (j.finish g rest).findings, (j.finish g rest).cursor, (j.finish g rest).failure?⟩ =
              (k.moved position c).trace t :: (j.finish g rest).traces := by
          simp [Move.traces, Finding.trace?]
        rw [htraces]
        exact .token htrace hrest

end FailFast

end Cursor

variable {s : Scanner}

theorem retraces_move (hs : Scanner.Reachable ⟨.failFast, true⟩ s) {source : String}
    (hok : (s.move source).failure? = none) :
    Retraces (s.move source).traces (streamText source) := by
  rw [Scanner.move, Cursor.run_eq_finish] at hok ⊢
  have h := Cursor.retraces_finish hs.policy hs.lawful (Cursor.idles_restart _ _) hok
  rwa [map_snd_stream] at h

theorem entries_of_failFast (hs : Scanner.Reachable ⟨.failFast, true⟩ s) {source : String}
    (hok : (s.move source).failure? = none) :
    (s.move source).entries = (s.move source).traces.map fun t => (t.terminal, t.lexeme) := by
  have hrejection : (s.move source).rejections = [] := noRejection_of_failFast hs rfl source
  have hentries : ((s.move source).entries.filter fun x => x.1 ≠ .illegal) =
      (s.move source).entries := by
    have hlegal := (noRejection_of_failFast hs rfl source).legal
    exact List.filter_eq_self.mpr fun x hx => decide_eq_true (hlegal x hx)
  have hrefused := (traced_move hs source).refused
  rw [Move.refused, hrejection, hok] at hrefused
  have hillegal : (s.move source).traces.filter TokenTrace.isIllegal = [] :=
    List.map_eq_nil_iff.mp hrefused
  have htraces : ((s.move source).traces.filter fun t => !t.isIllegal) =
      (s.move source).traces := by
    refine List.filter_eq_self.mpr fun t ht => ?_
    simpa using List.filter_eq_nil_iff.mp hillegal t ht
  rw [← hentries, Move.filter_entries, htraces]

/-- What a scan that ends well has read again is exactly the symbols that ended its tokens. There is
one trace for each token, each one begins with the symbol that the one before it ends with, and
without those last symbols they are the text from its start, up to blanks at its end. -/
theorem scanOnto_retraces (hs : Scanner.Reachable ⟨.failFast, true⟩ s) (source : String)
    (k : Lexicon) (report : Report) (hok : (s.scanOnto source k report).failure? = none) :
    let outcome := s.scanOnto source k report
    ∃ tokens traces,
      outcome.report.tokens.toList = report.tokens.toList ++ tokens ∧
        outcome.report.traces.toList = report.traces.toList ++ traces ∧
        traces.length = tokens.length ∧
        tokens.map outcome.lexicon.lexeme? = traces.map (fun t => some t.lexeme) ∧
        traces.IsChain TokenTrace.HandsOn ∧
        ∃ rest, streamText source = (traces.flatMap fun t => t.symbols.dropLast) ++ rest ∧
          ∀ c ∈ rest, Alphabet.isBlank c := by
  intro outcome
  have hentries := entries_of_failFast hs hok
  have hretraces := retraces_move hs hok
  have hw := s.wrote_recording source k report
  have hlexemes : ((k.registerAll (s.move source).entries).1.map
      (k.registerAll (s.move source).entries).2.lexeme?) =
        (s.move source).traces.map fun t => some t.lexeme := by
    rw [map_lexeme?_registerAll, hentries, List.map_map, List.map_map]
    rfl
  simp only [outcome, Scanner.report_scanOnto, Scanner.lexicon_scanOnto, hw.lexicon]
  refine ⟨_, (s.move source).traces, hw.tokens, traces_scanOnto hs source k report, ?_, hlexemes,
    hretraces.isChain, hretraces.exists_rest⟩
  have hlength := congrArg List.length hlexemes
  rw [List.length_map, List.length_map] at hlength
  exact hlength.symm

/-- The blanks in front of a token are logged with it. -/
theorem scanOnto_retraces_standard :
    ∃ s, Scanner.standard ⟨.failFast, true⟩ = .ok s ∧
      ∃ traces, (s.scan "x  12\n'a'\t" (Lexicon.ofReserved [])).report.traces.toList = traces ∧
        traces.map TokenTrace.lexeme = ["x", "12", "'a'"] ∧
        traces.IsChain TokenTrace.HandsOn ∧
        ∃ rest, "x  12 'a'\t ".toList = (traces.flatMap fun t => t.symbols.dropLast) ++ rest ∧
          ∀ c ∈ rest, Alphabet.isBlank c := by
  obtain ⟨s, hnew, hs⟩ := Scanner.exists_reachable ⟨.failFast, true⟩
  have htext : LongestMatch.tokens (streamText "x  12\n'a'\t") =
      [(.identifierEnd, "x"), (.constantEnd, "12"), (.strEnd, "'a'")] := by decide +kernel
  have hlegal : ∀ x ∈ LongestMatch.tokens (streamText "x  12\n'a'\t"), x.1 ≠ .illegal := by
    rw [htext]
    simp
  have hyields := yields_of_legal hs hlegal
  have hread := map_lexeme?_scan_of_yields hyields []
  obtain ⟨tokens, traces, htokens, htraces, _, hlexemes, hchain, rest, hrest, hblank⟩ :=
    scanOnto_retraces hs "x  12\n'a'\t" (Lexicon.ofReserved []) Report.empty hyields.1
  have hspelt : traces.map TokenTrace.lexeme = ["x", "12", "'a'"] := by
    refine (List.map_inj_right fun _ _ => Option.some.inj).mp ?_
    simp only [Scanner.scan, htokens, htext] at hread
    rw [List.map_map]
    exact hlexemes.symm.trans hread
  have hstream : streamText "x  12\n'a'\t" = "x  12 'a'\t ".toList := by decide +kernel
  exact ⟨s, hnew, traces, htraces, hspelt, hchain, rest, hstream ▸ hrest, hblank⟩

end TableLexer.Scan
