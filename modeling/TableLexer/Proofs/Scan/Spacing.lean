import Mathlib.Data.List.TakeWhile
import TableLexer.Proofs.Scan.Accounting
import TableLexer.Proofs.Scan.Assembly
import TableLexer.Proofs.Text.Lines
namespace TableLexer.Scan

open Lexical LongestMatch

namespace LongestMatch

variable {c : Char} {rest : List Char}

/-- A match that reads the same with something else behind it, if that does not go on with it. -/
def Match.Completed (m : Match) : Prop := ∃ s, Completes s m.terminal m.lexeme

theorem completed_word (hc : Alphabet.isWordStart c) : (word c rest).Completed :=
  ⟨.identifier, ⟨c, _, rfl, hc, fun _ hd => List.mem_takeWhile_imp hd⟩, rfl, by simp [word], rfl⟩

theorem endNumber_of_legal {dotted : Bool} {lexeme : List Char}
    (h : (endNumber dotted lexeme rest).terminal ≠ .illegal) :
    (endNumber dotted lexeme rest).terminal = .constantEnd ∧
      (endNumber dotted lexeme rest).lexeme = lexeme := by
  cases rest with
  | nil => exact ⟨rfl, rfl⟩
  | cons c rest =>
    rw [endNumber] at h ⊢
    split at h
    · exact absurd rfl h
    · next hn =>
      rw [if_neg hn]
      exact ⟨rfl, rfl⟩

theorem completed_fraction {whole : List Char} (hw : ∀ d ∈ whole, d.isDigit)
    (hne : whole ≠ [] ∨ rest.takeWhile Char.isDigit ≠ [])
    (h : (fraction whole rest).terminal ≠ .illegal) : (fraction whole rest).Completed := by
  obtain ⟨hterminal, hlexeme⟩ := endNumber_of_legal h
  refine ⟨.constantWithDot, ?_⟩
  rw [fraction, hterminal, hlexeme]
  exact ⟨⟨whole, _, rfl, hw, fun _ hd => List.mem_takeWhile_imp hd, hne⟩, rfl, by decide, rfl⟩

theorem completed_number (hc : c.isDigit) (h : (number c rest).terminal ≠ .illegal) :
    (number c rest).Completed := by
  have htail : ∀ d ∈ rest.takeWhile Char.isDigit, d.isDigit :=
    fun _ hd => List.mem_takeWhile_imp hd
  unfold number at h ⊢
  dsimp only at h ⊢
  split at h
  · exact completed_fraction (List.forall_mem_cons.mpr ⟨hc, htail⟩) (.inl (by simp)) h
  · obtain ⟨hterminal, hlexeme⟩ := endNumber_of_legal h
    refine ⟨.constantNoDot, ?_⟩
    rw [hterminal, hlexeme]
    exact ⟨⟨c, _, rfl, hc, htail⟩, rfl, by decide, rfl⟩

theorem completed_dot (h : (dot rest).terminal ≠ .illegal) : (dot rest).Completed := by
  have hpoint : Completes .dot .symbolEnd ['.'] := ⟨rfl, rfl, by decide, rfl⟩
  cases rest with
  | nil => exact ⟨_, hpoint⟩
  | cons c rest =>
    rw [dot] at h ⊢
    split
    · next hc =>
      rw [if_pos hc] at h
      exact completed_fraction (by simp) (.inr (by simp [hc])) h
    · exact ⟨_, hpoint⟩

theorem completed_quoted (h : (quoted rest).terminal ≠ .illegal) : (quoted rest).Completed := by
  unfold quoted at h ⊢
  dsimp only at h ⊢
  split
  · next hopen =>
    rw [hopen] at h
    exact absurd rfl h
  · next c behind hbehind =>
    rw [hbehind] at h
    obtain rfl : c = '\'' := by
      by_contra hc
      exact h (if_neg hc)
    exact ⟨.quoteClose, ⟨_, rfl, fun _ hd => List.mem_takeWhile_imp hd⟩, rfl, by simp, rfl⟩

theorem completed_operator (hc : c ∈ operators) : (operator c rest).Completed := by
  have hsingle : ∀ c ∈ operators,
      symbolStarts.any fun x => isOperator x.2 && x.2.name.toList == [c] :=
    List.all_eq_true.mp (by decide)
  have hpair : ∀ p ∈ pairs, ∃ x ∈ compounds, isOperator x.2.2 ∧
      x.2.2.name.toList = [p.1, p.2] := by decide
  have halone : ∃ s, Completes s .symbolEnd [c] := by
    obtain ⟨x, _, hx⟩ := List.any_eq_true.mp (hsingle c hc)
    obtain ⟨ho, hname⟩ : isOperator x.2 ∧ x.2.name.toList = [c] := by simpa using hx
    exact ⟨x.2, hname ▸ completes_of_isOperator ho⟩
  cases rest with
  | nil => exact halone
  | cons d rest =>
    rw [operator]
    split
    · next hm =>
      obtain ⟨x, _, ho, hname⟩ := hpair (c, d) hm
      exact ⟨x.2.2, hname ▸ completes_of_isOperator ho⟩
    · exact halone

theorem completed_first (h : (first c rest).terminal ≠ .illegal) : (first c rest).Completed := by
  revert h
  unfold first
  split
  · next hw => exact fun _ => completed_word hw
  split
  · next hd => exact completed_number hd
  split
  · exact completed_dot
  split
  · exact completed_quoted
  split
  · next ho => exact fun _ => completed_operator ho
  · exact fun h => absurd rfl h

theorem exists_completes_of_mem_tokens {text : List Char} {x : Terminal × String}
    (hx : x ∈ tokens text) (h : x.1 ≠ .illegal) : ∃ s, Completes s x.1 x.2.toList := by
  induction text using tokens.induct with
  | case1 => simp [tokens_nil] at hx
  | case2 c rest hb ih =>
    rw [tokens_of_isBlank hb] at hx
    exact ih hx
  | case3 c rest hb ih =>
    rw [tokens_of_first (by simpa using hb)] at hx
    rcases List.mem_cons.mp hx with rfl | hx
    · rw [String.toList_ofList]
      exact completed_first h
    · exact ih hx

end LongestMatch

/-- Without carriage returns, a text is read as it stands, with a blank for the end of its last line
if that has none. -/
theorem streamText_of_concat {source : String} {text : List Char} {d : Char}
    (hs : source.toList = text ++ [d]) (h : '\r' ∉ source.toList) :
    streamText source = unbreak source.toList ++ if d = '\n' then [] else [' '] := by
  by_cases hd : d = '\n'
  · subst hd
    have htext : '\r' ∉ text := fun hm => h (by rw [hs]; exact List.mem_append_left _ hm)
    rw [if_pos rfl, List.append_nil, streamText_of_ends hs htext]
  · have hr : d ≠ '\r' := fun hr => h (by rw [hs, hr]; simp)
    rw [hs] at h
    rw [if_neg hd, streamText, hs, ← Text.splitLines_concat_of_open text hd hr,
      flatMap_splitLines_concat h, unbreak_append]
    rfl

/-- Lexemes in their order, each behind its gap. -/
def spaced : List (String × String) → String → String
  | [], behind => behind
  | (gap, lexeme) :: parts, behind => gap ++ lexeme ++ spaced parts behind

/-- What gaps are made of. -/
def isSpacing (c : Char) : Bool := c ∈ [' ', '\t', '\n']

/-- Only the first gap and the last one may be empty. -/
structure Separated (parts : List (String × String)) (behind : String) : Prop where
  gaps : ∀ p ∈ parts, p.1.toList.all isSpacing
  between : ∀ p ∈ parts.tail, p.1 ≠ ""
  behind : behind.toList.all isSpacing

namespace Separated

variable {words : List String} {ts : List (Terminal × String)}
  {p : String × String} {parts : List (String × String)} {behind : String}

/-- All that is spaced out in front of what is behind. -/
def body (parts : List (String × String)) : List Char :=
  parts.flatMap fun p => p.1.toList ++ p.2.toList

theorem body_cons (p : String × String) (parts : List (String × String)) :
    body (p :: parts) = p.1.toList ++ (p.2.toList ++ body parts) := by
  rw [body, List.flatMap_cons, List.append_assoc]
  rfl

theorem toList_spaced (parts : List (String × String)) (behind : String) :
    (spaced parts behind).toList = body parts ++ behind.toList := by
  induction parts with
  | nil => rfl
  | cons p parts ih =>
    rw [spaced, String.toList_append, String.toList_append, ih, body_cons, List.append_assoc,
      List.append_assoc, List.append_assoc]

theorem isBlank_unbreak {gap : List Char} (h : gap.all isSpacing) :
    ∀ c ∈ unbreak gap, Alphabet.isBlank c := by
  have hall : ∀ c ∈ [' ', '\t', '\n'], Alphabet.isBlank (if c = '\n' then ' ' else c) :=
    List.all_eq_true.mp (by decide)
  intro c hc
  obtain ⟨d, hd, rfl⟩ := List.mem_map.mp hc
  exact hall d (of_decide_eq_true (List.all_eq_true.mp h d hd))

theorem tail (h : Separated (p :: parts) behind) : Separated parts behind where
  gaps q hq := h.gaps q (List.mem_cons_of_mem p hq)
  between q hq := h.between q (List.mem_of_mem_tail hq)
  behind := h.behind

theorem exists_isBlank_cons {gap : List Char} (h : ∀ c ∈ gap, Alphabet.isBlank c) (hne : gap ≠ [])
    (text : List Char) : ∃ d rest, gap ++ text = d :: rest ∧ Alphabet.isBlank d := by
  obtain ⟨d, rest, rfl⟩ := List.exists_cons_of_ne_nil hne
  exact ⟨d, rest ++ text, rfl, h d List.mem_cons_self⟩

theorem exists_body_cons (h : Separated (p :: parts) behind) {last : List Char}
    (hlast : ∀ c ∈ last, Alphabet.isBlank c) (hne : last ≠ []) :
    ∃ d rest, unbreak (body parts) ++ last = d :: rest ∧ Alphabet.isBlank d := by
  cases parts with
  | nil =>
    obtain ⟨d, rest, hcons, hd⟩ := exists_isBlank_cons hlast hne []
    exact ⟨d, rest, by rw [← hcons, List.append_nil]; rfl, hd⟩
  | cons q parts =>
    have hgap : unbreak q.1.toList ≠ [] := by
      have hq := h.between q List.mem_cons_self
      simpa [unbreak] using hq
    rw [body_cons, unbreak_append, List.append_assoc]
    exact exists_isBlank_cons (isBlank_unbreak (h.gaps q (by simp))) hgap _

/-- Spaced out, tokens that can stand alone are found again. -/
theorem lex_body (h : Separated parts behind) (hts : ∀ x ∈ ts, ∃ s, Completes s x.1 x.2.toList)
    (hlexemes : parts.map Prod.snd = ts.map Prod.snd) {last : List Char}
    (hlast : ∀ c ∈ last, Alphabet.isBlank c) (hne : parts ≠ [] → last ≠ []) :
    lex words (unbreak (body parts) ++ last) = ts.map fun x => (category words x, x.2) := by
  induction parts generalizing ts with
  | nil =>
    obtain rfl : ts = [] := List.map_eq_nil_iff.mp hlexemes.symm
    have hlex : lex words (last ++ []) = lex words [] := lex_append_of_isBlank hlast []
    rw [List.append_nil] at hlex
    exact hlex.trans (by rw [lex, tokens_nil])
  | cons p parts ih =>
    obtain ⟨⟨t, lexeme⟩, ts, rfl, hx, hrest⟩ := List.map_eq_cons_iff.mp hlexemes.symm
    obtain rfl : lexeme = p.2 := hx
    obtain ⟨⟨s, hc⟩, hts⟩ := List.forall_mem_cons.mp hts
    have htext : unbreak p.2.toList = p.2.toList :=
      unbreak_of_forall fun c hm => (ne_lineEnd_of_spells hc.spells c hm).1
    obtain ⟨d, behind, hcons, hd⟩ := h.exists_body_cons hlast (hne (by simp))
    have hstop : s.next d = s.fallback :=
      next_of_isBlank hc.pending (Cursor.not_isFinal_of_spells hc.spells) hd
    calc lex words (unbreak (body (p :: parts)) ++ last)
        = lex words (p.2.toList ++ (unbreak (body parts) ++ last)) := by
          rw [body_cons, unbreak_append, unbreak_append, htext, List.append_assoc,
            List.append_assoc, lex_append_of_isBlank (isBlank_unbreak (h.gaps p (by simp)))]
      _ = (category words (t, p.2), p.2) :: lex words (unbreak (body parts) ++ last) := by
          rw [hcons, hc.lex_append hstop, String.ofList_toList]
      _ = _ := by
          rw [ih h.tail hts hrest.symm fun _ => hne (by simp)]
          rfl

theorem return_not_mem_spaced (h : Separated parts behind)
    (hlexemes : ∀ p ∈ parts, '\r' ∉ p.2.toList) : '\r' ∉ (spaced parts behind).toList := by
  have hgap {gap : List Char} (h : gap.all isSpacing) : '\r' ∉ gap :=
    fun hm => absurd (List.all_eq_true.mp h _ hm) (by decide)
  rw [toList_spaced]
  intro hm
  rcases List.mem_append.mp hm with hm | hm
  · obtain ⟨p, hp, hm⟩ := List.mem_flatMap.mp hm
    rcases List.mem_append.mp hm with hm | hm
    · exact hgap (h.gaps p hp) hm
    · exact hlexemes p hp hm
  · exact hgap h.behind hm

/-- A source that is spaced out is read as it stands, and with a blank at its end. -/
theorem exists_streamText_spaced (h : Separated parts behind)
    (hlexemes : ∀ p ∈ parts, ∃ s t, Completes s t p.2.toList) :
    ∃ last, streamText (spaced parts behind) = unbreak (body parts) ++ last ∧
      (∀ c ∈ last, Alphabet.isBlank c) ∧ (parts ≠ [] → last ≠ []) := by
  have hline : ∀ p ∈ parts, ∀ c ∈ p.2.toList, c ≠ '\n' ∧ c ≠ '\r' := by
    intro p hp
    obtain ⟨s, t, hc⟩ := hlexemes p hp
    exact ne_lineEnd_of_spells hc.spells
  have hreturn := h.return_not_mem_spaced fun p hp hm => (hline p hp _ hm).2 rfl
  rcases behind.toList.eq_nil_or_concat with hb | ⟨front, d, hb⟩
  · -- nothing behind the last lexeme: its line is still open there
    rcases parts.eq_nil_or_concat with rfl | ⟨front, p, rfl⟩
    · exact ⟨[], by rw [streamText, spaced, hb]; rfl, by simp, absurd rfl⟩
    · obtain ⟨s, t, hc⟩ := hlexemes p (by simp)
      obtain ⟨text, d, hp⟩ := (List.eq_nil_or_concat p.2.toList).resolve_left hc.ne_nil
      have hd : d ≠ '\n' := (hline p (by simp) d (by simp [hp])).1
      have hsource : (spaced (front.concat p) behind).toList =
          body front ++ (p.1.toList ++ text) ++ [d] := by
        rw [toList_spaced, hb, List.append_nil, List.concat_eq_append]
        simp [body, hp]
      refine ⟨[' '], ?_, List.forall_mem_singleton.mpr rfl, fun _ => by simp⟩
      rw [streamText_of_concat hsource hreturn, if_neg hd, toList_spaced, hb, List.append_nil]
  · have hsource : (spaced parts behind).toList = body parts ++ front ++ [d] := by
      rw [toList_spaced, hb, List.concat_eq_append, List.append_assoc]
    refine ⟨unbreak behind.toList ++ if d = '\n' then [] else [' '], ?_, ?_, ?_⟩
    · rw [streamText_of_concat hsource hreturn, toList_spaced, unbreak_append, List.append_assoc]
    · refine List.forall_mem_append.mpr ⟨isBlank_unbreak h.behind, ?_⟩
      split
      · simp
      · exact List.forall_mem_singleton.mpr rfl
    · simp [hb, unbreak]

theorem lex_spaced (h : Separated parts behind)
    (hts : ∀ x ∈ ts, ∃ s, Completes s x.1 x.2.toList)
    (hlexemes : parts.map Prod.snd = ts.map Prod.snd) :
    lex words (streamText (spaced parts behind)) = ts.map fun x => (category words x, x.2) := by
  have hparts : ∀ p ∈ parts, ∃ s t, Completes s t p.2.toList := by
    intro p hp
    obtain ⟨x, hx, hxp⟩ := List.mem_map.mp (hlexemes ▸ List.mem_map_of_mem hp)
    obtain ⟨s, hc⟩ := hts x hx
    exact ⟨s, x.1, hxp ▸ hc⟩
  obtain ⟨last, hstream, hlast, hne⟩ := h.exists_streamText_spaced hparts
  rw [hstream, h.lex_body hts hlexemes hlast hne]

end Separated

theorem category_ne_illegal {words : List String} {x : Terminal × String} (h : x.1 ≠ .illegal) :
    category words x ≠ .illegal := by
  rw [← categoryOf_ofReserved]
  exact fun hc => h (Lexicon.categoryOf_eq_illegal_iff.mp hc)

/-- Printing the tokens of a source and scanning them again gives the tokens back, whatever blanks
and line feeds are put between them and whatever the second scan would do about illegal text. -/
theorem scan_spaced {trace : Bool} {s : Scanner} (hs : Scanner.Reachable ⟨.failFast, trace⟩ s)
    (source : String) (words : List String)
    (hok : (s.scan source (Lexicon.ofReserved words)).failure? = none) :
    let first := s.scan source (Lexicon.ofReserved words)
    ∃ lexemes, first.report.tokens.toList.map first.lexicon.lexeme? = lexemes.map some ∧
      ∀ {options : ScanOptions} {t : Scanner}, Scanner.Reachable options t →
        ∀ parts behind, parts.map Prod.snd = lexemes → Separated parts behind →
          let again := t.scan (spaced parts behind) (Lexicon.ofReserved words)
          again.failure? = none ∧ again.report.diagnostics = #[] ∧
            again.report.tokens.toList.map
                (fun token => (token.category, again.lexicon.lexeme? token)) =
              first.report.tokens.toList.map
                (fun token => (token.category, first.lexicon.lexeme? token)) := by
  have hyields := yields_of_ok hs source hok
  obtain ⟨_, hfirst⟩ := map_tokens_scan_of_yields hyields words
  have hlegal : ∀ x ∈ tokens (streamText source), x.1 ≠ .illegal := by
    rw [← hyields.2]
    exact (noRejection_of_failFast hs rfl source).legal
  refine ⟨_, map_lexeme?_scan_of_yields hyields words, ?_⟩
  intro options t ht parts behind hparts hseparated
  have hlex : lex words (streamText (spaced parts behind)) = lex words (streamText source) :=
    hseparated.lex_spaced (fun x hx => exists_completes_of_mem_tokens hx (hlegal x hx)) hparts
  have hcategories : ∀ x ∈ lex words (streamText (spaced parts behind)), x.1 ≠ .illegal := by
    rw [hlex]
    intro x hx
    obtain ⟨y, hy, rfl⟩ := List.mem_map.mp hx
    exact category_ne_illegal (hlegal y hy)
  have hlegal' := legal_of_lex hcategories
  have hyields' := yields_of_legal ht hlegal'
  obtain ⟨hok', hagain⟩ := map_tokens_scan_of_yields hyields' words
  have hrejection : NoRejection (t.move (spaced parts behind)).findings :=
    noRejection_of_legal (by rw [hyields'.2]; exact hlegal')
  refine ⟨hok', diagnostics_scan hrejection _, ?_⟩
  have hpairs := congrArg (List.map fun x => (x.1, some x.2)) hlex
  simp only [lex, List.map_map, Function.comp_def] at hpairs
  rw [hagain, hpairs, hfirst]

/-- Tokens that stood close are put on lines of their own. -/
theorem scan_spaced_standard :
    ∃ s t, Scanner.standard ⟨.failFast, true⟩ = .ok s ∧
      Scanner.standard ⟨.recover, false⟩ = .ok t ∧
      let parts := [("\n", "if"), ("\t\n", ".5"), (" ", ":="), ("\n", "x")]
      let first := s.scan "if.5:=x" (Lexicon.ofReserved ["if"])
      let again := t.scan (spaced parts "") (Lexicon.ofReserved ["if"])
      first.report.tokens.toList.map first.lexicon.lexeme? =
          [some "if", some ".5", some ":=", some "x"] ∧
        again.failure? = none ∧ again.report.diagnostics = #[] ∧
        again.report.tokens.toList.map
            (fun token => (token.category, again.lexicon.lexeme? token)) =
          first.report.tokens.toList.map
            (fun token => (token.category, first.lexicon.lexeme? token)) := by
  obtain ⟨_, _, hs⟩ := Scanner.exists_standard ⟨.failFast, true⟩
  obtain ⟨_, _, ht⟩ := Scanner.exists_standard ⟨.recover, false⟩
  have htext : tokens (streamText "if.5:=x") =
      [(.identifierEnd, "if"), (.constantEnd, ".5"), (.symbolEnd, ":="),
        (.identifierEnd, "x")] := by
    decide +kernel
  have hlegal : ∀ x ∈ tokens (streamText "if.5:=x"), x.1 ≠ .illegal := by
    rw [htext]
    simp
  have hyields := yields_of_legal (.standard hs) hlegal
  have hfirst := map_lexeme?_scan_of_yields hyields ["if"]
  obtain ⟨lexemes, hlexemes, hagain⟩ := scan_spaced (.standard hs) "if.5:=x" ["if"] hyields.1
  obtain rfl : lexemes = (tokens (streamText "if.5:=x")).map Prod.snd :=
    (List.map_inj_right fun _ _ => Option.some.inj).mp (hlexemes.symm.trans hfirst)
  rw [htext] at hfirst hagain
  exact ⟨_, _, hs, ht, hfirst, hagain (.standard ht) _ "" rfl ⟨by decide, by decide, by decide⟩⟩

end TableLexer.Scan
