import TableLexer.Proofs.Scan.Delivery
namespace TableLexer.Scan

open Text

/-- The order of reading. -/
def Position.Before (p q : Position) : Prop :=
  p.line < q.line ∨ p.line = q.line ∧ p.column < q.column

/-- The lines have this character at a position. -/
def Located (lines : List (List Char)) (p : Position) (c : Char) : Prop :=
  0 < p.line ∧ 0 < p.column ∧
    ∃ cs, lines[p.line - 1]? = some cs ∧ p.column ≤ cs.length ∧ cs[p.column - 1]? = some c

/-- What is read of some lines in front of a position. -/
def textBefore (lines : List (List Char)) (p : Position) : List Char :=
  ((lines.take (p.line - 1)).flatMap fun line => line ++ [' ']) ++
    (lines[p.line - 1]?.getD []).take (p.column - 1)

variable {line : List Char} {lines : List (List Char)} {p : Position} {c : Char}

section Order

theorem map_fst_placeLine (n : Nat) (cs : List Char) :
    (placeLine n cs).map Prod.fst = (List.range' 0 cs.length).map fun i => ⟨n, i + 1⟩ := by
  rw [← List.zipIdx_map_snd, placeLine, List.map_map, List.map_map]
  rfl

theorem map_fst_lower (n : Nat) (xs : List (Position × Char)) :
    (lower n xs).map Prod.fst = (xs.map Prod.fst).map (Position.below n) := by
  rw [lower, List.map_map, List.map_map]
  rfl

theorem map_snd_lower (n : Nat) (xs : List (Position × Char)) :
    (lower n xs).map Prod.snd = xs.map Prod.snd := by
  rw [lower, List.map_map]
  rfl

theorem pairwise_placeLine (n : Nat) (cs : List Char) :
    ((placeLine n cs).map Prod.fst).Pairwise Position.Before := by
  rw [map_fst_placeLine, List.pairwise_map]
  have hlt : (List.range' 0 cs.length).Pairwise (· < ·) := List.pairwise_lt_range' 1
  exact hlt.imp fun h => .inr ⟨rfl, Nat.succ_lt_succ h⟩

theorem line_of_mem_placeLine {n : Nat} {cs : List Char}
    (h : p ∈ (placeLine n cs).map Prod.fst) : p.line = n := by
  rw [map_fst_placeLine] at h
  obtain ⟨i, _, rfl⟩ := List.mem_map.mp h
  rfl

theorem line_pos_of_mem_placeLines (h : p ∈ (placeLines lines).map Prod.fst) : 0 < p.line := by
  rw [placeLines, List.map_flatMap] at h
  obtain ⟨i, _, hp⟩ := List.mem_flatMap.mp h
  rw [line_of_mem_placeLine hp]
  exact Nat.succ_pos i.2

theorem pairwise_placeLines (lines : List (List Char)) :
    ((placeLines lines).map Prod.fst).Pairwise Position.Before := by
  induction lines with
  | nil => exact List.Pairwise.nil
  | cons line lines ih =>
    rw [placeLines_cons, List.map_append, map_fst_lower]
    refine List.pairwise_append.mpr ⟨pairwise_placeLine 1 _, ?_, fun p hp q hq => .inl ?_⟩
    · refine List.pairwise_map.mpr (ih.imp fun hlt => ?_)
      exact hlt.imp Nat.succ_lt_succ fun ⟨hline, hcolumn⟩ => ⟨congrArg Nat.succ hline, hcolumn⟩
    · obtain ⟨q, hmem, rfl⟩ := List.mem_map.mp hq
      rw [line_of_mem_placeLine hp]
      exact Nat.succ_lt_succ (line_pos_of_mem_placeLines hmem)

end Order

section Split

variable {front behind : List (Position × Char)}

theorem located_first (front : List Char) (c : Char) (behind : List Char)
    (lines : List (List Char)) :
    Located ((front ++ c :: behind) :: lines) ⟨1, front.length + 1⟩ c ∧
      textBefore ((front ++ c :: behind) :: lines) ⟨1, front.length + 1⟩ = front := by
  constructor
  · exact ⟨Nat.one_pos, Nat.succ_pos _, _, rfl, by simp, by simp⟩
  · simp [textBefore]

theorem Located.below (h : Located lines p c) (line : List Char) :
    Located (line :: lines) (p.below 1) c := by
  obtain ⟨hline, hcolumn, text, htext, hlength, hc⟩ := h
  refine ⟨Nat.succ_pos _, hcolumn, text, ?_, hlength, hc⟩
  obtain ⟨n, hn⟩ := Nat.exists_eq_add_of_lt hline
  rw [hn] at htext
  simpa [Position.below, hn] using htext

theorem textBefore_below (h : 0 < p.line) (line : List Char) (lines : List (List Char)) :
    textBefore (line :: lines) (p.below 1) = line ++ [' '] ++ textBefore lines p := by
  obtain ⟨n, hn⟩ := Nat.exists_eq_add_of_lt h
  simp [textBefore, Position.below, hn]

theorem placeLine_split {n : Nat} {cs : List Char}
    (h : placeLine n cs = front ++ (p, c) :: behind) :
    p = ⟨n, front.length + 1⟩ ∧ cs = front.map Prod.snd ++ c :: behind.map Prod.snd := by
  constructor
  · have hat := congrArg (fun xs => xs[front.length]?) (congrArg (List.map Prod.fst) h)
    have hlength : front.length < cs.length := by
      have hlen := congrArg List.length (congrArg (List.map Prod.snd) h)
      rw [map_snd_placeLine] at hlen
      simp at hlen
      omega
    simp [map_fst_placeLine, hlength] at hat
    exact hat.symm
  · have htext := congrArg (List.map Prod.snd) h
    rwa [map_snd_placeLine, List.map_append] at htext

theorem lower_split {n : Nat} {xs : List (Position × Char)}
    (h : lower n xs = front ++ (p, c) :: behind) :
    ∃ above q rest, xs = above ++ (q, c) :: rest ∧ front = lower n above ∧ p = q.below n := by
  obtain ⟨above, tail, rfl, habove, htail⟩ := List.map_eq_append_iff.mp h
  obtain ⟨⟨q, d⟩, rest, rfl, hq, _⟩ := List.map_eq_cons_iff.mp htail
  obtain ⟨rfl, rfl⟩ := Prod.mk.inj hq
  exact ⟨above, q, rest, rfl, habove.symm, rfl⟩

theorem exists_of_concat_blank {front behind : List Char}
    (h : line ++ [' '] = front ++ c :: behind) (hc : c ≠ ' ') :
    ∃ more, line = front ++ c :: more := by
  rcases List.append_eq_append_iff.mp h with ⟨as, _, hblank⟩ | ⟨bs, rfl, hbehind⟩
  · cases as with
    | nil => exact absurd (List.cons.inj hblank).1.symm hc
    | cons d as => simp at hblank
  · cases bs with
    | nil => exact absurd (List.cons.inj hbehind).1 hc
    | cons d more =>
      obtain ⟨rfl, _⟩ := List.cons.inj hbehind
      exact ⟨more, rfl⟩

/-- What is read has its place in the lines, unless it is a blank, as at the end of each of them. -/
theorem placeLines_split (h : placeLines lines = front ++ (p, c) :: behind) (hc : c ≠ ' ') :
    Located lines p c ∧ front.map Prod.snd = textBefore lines p := by
  induction lines generalizing front behind p with
  | nil => simp [placeLines] at h
  | cons line lines ih =>
    have hbelow (as : List (Position × Char))
        (has : lower 1 (placeLines lines) = as ++ (p, c) :: behind) :
        Located (line :: lines) p c ∧
          (placeLine 1 (line ++ [' ']) ++ as).map Prod.snd = textBefore (line :: lines) p := by
      obtain ⟨above, q, rest, hlines, rfl, rfl⟩ := lower_split has
      obtain ⟨hlocated, habove⟩ := ih hlines
      refine ⟨hlocated.below line, ?_⟩
      rw [textBefore_below hlocated.1, List.map_append, map_snd_placeLine, map_snd_lower, habove]
    rw [placeLines_cons] at h
    rcases List.append_eq_append_iff.mp h with ⟨as, rfl, has⟩ | ⟨bs, hfirst, hbehind⟩
    · exact hbelow as has
    · cases bs with
      | nil =>
        rw [List.append_nil] at hfirst
        rw [← hfirst, ← List.append_nil (placeLine 1 _)]
        exact hbelow [] hbehind.symm
      | cons i bs =>
        obtain ⟨rfl, _⟩ := List.cons.inj hbehind
        obtain ⟨rfl, htext⟩ := placeLine_split hfirst
        obtain ⟨more, rfl⟩ := exists_of_concat_blank htext hc
        have hfirst := located_first (front.map Prod.snd) c more lines
        rw [List.length_map] at hfirst
        exact ⟨hfirst.1, hfirst.2.symm⟩

end Split

end TableLexer.Scan
