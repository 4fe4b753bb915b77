import TableLexer.Automaton.Session
namespace TableLexer

variable {σ : Type}

/-- Steps that lead from one state to another, each one from where the one before it led. -/
def Leads : σ → List (Step σ) → σ → Prop
  | s, [], t => s = t
  | s, x :: rest, t => x.source = s ∧ Leads x.target rest t

theorem leads_concat {s t : σ} {steps : List (Step σ)} {x : Step σ} :
    Leads s (steps ++ [x]) t ↔ Leads s steps x.source ∧ x.target = t := by
  induction steps generalizing s with
  | nil => simp only [List.nil_append, Leads, eq_comm (a := s)]
  | cons y steps ih => simp only [List.cons_append, Leads, ih, and_assoc]

theorem Leads.eq_or_mem {s t : σ} {steps : List (Step σ)} (h : Leads s steps t) :
    t = s ∨ ∃ x ∈ steps, x.target = t := by
  rcases steps.eq_nil_or_concat with rfl | ⟨front, x, rfl⟩
  · exact .inl h.symm
  · rw [List.concat_eq_append, leads_concat] at h
    exact .inr ⟨x, by simp, h.2⟩

variable [DecidableEq σ]

namespace Machine

variable {m : Machine σ} {steps : List (Step σ)}

/-- Whether a state is one within a token, neither where one begins nor where one has ended. -/
def isWithin (m : Machine σ) (s : σ) : Bool := !m.isFinal s && s ≠ m.initial

/-- The symbols of the steps that led into a token or on in it. -/
def spelling (m : Machine σ) (steps : List (Step σ)) : String :=
  String.ofList ((steps.filter fun x => m.isWithin x.target).map Step.symbol)

/-- Every step has the lexeme that it and the steps before it spell. -/
def Spelt (m : Machine σ) (steps : List (Step σ)) : Prop :=
  ∀ i x, steps[i]? = some x → x.lexeme = m.spelling (steps.take (i + 1))

theorem spelling_concat (m : Machine σ) (steps : List (Step σ)) (x : Step σ) :
    m.spelling (steps ++ [x]) =
      if m.isWithin x.target then (m.spelling steps).push x.symbol else m.spelling steps := by
  apply String.toList_inj.mp
  unfold spelling
  split
  · next h => simp [h]
  · next h => simp [h]

theorem Spelt.concat (h : m.Spelt steps) {x : Step σ}
    (hx : x.lexeme = m.spelling (steps ++ [x])) : m.Spelt (steps ++ [x]) := by
  intro i y hy
  by_cases hi : i < steps.length
  · rw [List.getElem?_append_left hi] at hy
    rw [List.take_append_of_le_length hi]
    exact h i y hy
  · rw [List.getElem?_append_right (Nat.le_of_not_lt hi), List.getElem?_singleton] at hy
    split at hy
    · next hlast =>
      obtain rfl := Option.some.inj hy
      rw [List.take_of_length_le (by rw [List.length_append]; simp; omega)]
      exact hx
    · cases hy

theorem spelling_congr {n : Machine σ}
    (h : ∀ x ∈ steps, n.isWithin x.target = m.isWithin x.target) :
    n.spelling steps = m.spelling steps := by
  rw [spelling, List.filter_congr h, spelling]

theorem Spelt.congr {n : Machine σ} (h : ∀ x ∈ steps, n.isWithin x.target = m.isWithin x.target)
    (hs : m.Spelt steps) : n.Spelt steps := by
  intro i x hx
  rw [hs i x hx, spelling_congr fun y hy => h y (List.mem_of_mem_take hy)]

end Machine

namespace Session

variable {m : Machine σ} {s : Session σ}

/-- The steps of a session are a run of the machine to where it stands, and spell its lexeme. -/
structure Logged (m : Machine σ) (s : Session σ) : Prop where
  leads : Leads m.initial s.steps.toList s.current
  spelt : m.Spelt s.steps.toList
  lexeme : s.lexeme = m.spelling s.steps.toList

theorem logged_start (m : Machine σ) : (start m).Logged m where
  leads := rfl
  spelt := by
    intro i x hx
    cases hx
  lexeme := rfl

theorem extend_eq (m : Machine σ) (lexeme : String) (target : σ) (c : Char) :
    extend m lexeme target c = if m.isWithin target then lexeme.push c else lexeme := by
  unfold extend Machine.isWithin
  split <;> split <;> simp_all

theorem exists_of_advance? {c : Char} {next : Session σ} (h : s.advance? m c = some next) :
    ∃ target, m.next? s.current c = some target ∧ next.current = target ∧
      next.lexeme = extend m s.lexeme target c ∧
      next.steps.toList = s.steps.toList ++ [⟨s.current, c, target, next.lexeme⟩] := by
  obtain ⟨target, ht, rfl⟩ := Option.map_eq_some_iff.mp h
  exact ⟨target, ht, rfl, rfl, Array.toList_push⟩

theorem Logged.advance? (hs : s.Logged m) {c : Char} {next : Session σ}
    (h : s.advance? m c = some next) : next.Logged m := by
  obtain ⟨target, _, rfl, hlexeme, hsteps⟩ := exists_of_advance? h
  have hspelling : next.lexeme = m.spelling next.steps.toList := by
    rw [hsteps, Machine.spelling_concat, ← hs.lexeme, hlexeme, extend_eq]
  refine ⟨?_, ?_, hspelling⟩
  · rw [hsteps, leads_concat]
    exact ⟨hs.leads, rfl⟩
  · rw [hsteps] at hspelling ⊢
    exact hs.spelt.concat hspelling

theorem Logged.congr {n : Machine σ} (hs : s.Logged m) (hi : n.initial = m.initial)
    (h : ∀ x ∈ s.steps.toList, n.isFinal x.target = m.isFinal x.target) : s.Logged n := by
  have hwithin : ∀ x ∈ s.steps.toList, n.isWithin x.target = m.isWithin x.target := by
    intro x hx
    rw [Machine.isWithin, h x hx, hi, Machine.isWithin]
  exact ⟨hi ▸ hs.leads, hs.spelt.congr hwithin,
    hs.lexeme.trans (Machine.spelling_congr hwithin).symm⟩

end Session

end TableLexer
