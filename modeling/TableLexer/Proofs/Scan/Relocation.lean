import TableLexer.Proofs.Scan.Recognition
namespace TableLexer

open Scan Lexical

def Scan.Rejection.relocate (f : Position → Position) (r : Rejection) : Rejection :=
  { r with position := f r.position }

def Scan.Diagnostic.relocate (f : Position → Position) (d : Diagnostic) : Diagnostic :=
  { d with rejection := d.rejection.relocate f }

def LexError.relocate (f : Position → Position) : LexError → LexError
  | illegal position lexeme => illegal (f position) lexeme
  | outsideAlphabet position symbol => outsideAlphabet (f position) symbol
  | unterminated start lexeme state => unterminated (f start) lexeme state
  | automaton error => automaton error

namespace Scan

/-- The same text with every character somewhere else. -/
def relocate (f : Position → Position) (input : List (Position × Char)) : List (Position × Char) :=
  input.map fun i => (f i.1, i.2)

def Finding.relocate (f : Position → Position) : Finding → Finding
  | reached trace => reached trace
  | rejected rejection => rejected (rejection.relocate f)

def Cursor.relocate (f : Position → Position) (k : Cursor) : Cursor :=
  { k with tokenStart := f k.tokenStart }

def Move.relocate (f : Position → Position) (m : Move) : Move where
  findings := m.findings.map (Finding.relocate f)
  cursor := m.cursor.relocate f
  failure? := m.failure?.map (LexError.relocate f)

section Findings

variable (f : Position → Position)

theorem Finding.filed?_relocate (x : Finding) : (x.relocate f).filed? = x.filed? := by
  cases x <;> rfl

theorem Finding.trace?_relocate (x : Finding) : (x.relocate f).trace? = x.trace? := by
  cases x <;> rfl

theorem Finding.rejection?_relocate (x : Finding) :
    (x.relocate f).rejection? = x.rejection?.map (Rejection.relocate f) := by
  cases x <;> rfl

theorem Move.entries_relocate (m : Move) : (m.relocate f).entries = m.entries := by
  rw [entries, relocate, Array.toList_map, List.filterMap_map]
  exact congrArg (List.filterMap · _) (funext (Finding.filed?_relocate f))

theorem Move.traces_relocate (m : Move) :
    (m.relocate f).findings.toList.filterMap Finding.trace? =
      m.findings.toList.filterMap Finding.trace? := by
  rw [relocate, Array.toList_map, List.filterMap_map]
  exact congrArg (List.filterMap · _) (funext (Finding.trace?_relocate f))

theorem Move.rejections_relocate (m : Move) :
    (m.relocate f).findings.toList.filterMap Finding.rejection? =
      (m.findings.toList.filterMap Finding.rejection?).map (Rejection.relocate f) := by
  rw [relocate, Array.toList_map, List.filterMap_map, List.map_filterMap]
  exact congrArg (List.filterMap · _) (funext (Finding.rejection?_relocate f))

theorem Move.relocate_stay (k : Cursor) : (stay k).relocate f = stay (k.relocate f) := by
  simp [relocate, stay]

theorem Move.relocate_fail (k : Cursor) (e : LexError) :
    (fail k e).relocate f = fail (k.relocate f) (e.relocate f) := by
  simp [relocate, fail]

theorem Move.relocate_singleton (x : Finding) (k : Cursor) :
    (Move.mk #[x] k none).relocate f = ⟨#[x.relocate f], k.relocate f, none⟩ := by
  simp [relocate]

theorem Move.andThen_relocate {next next' : Cursor → Move}
    (h : ∀ k, next' (k.relocate f) = (next k).relocate f) (m : Move) :
    (m.relocate f).andThen next' = (m.andThen next).relocate f := by
  rcases m with ⟨findings, k, _ | e⟩
  · simp [andThen, relocate, h]
  · rfl

end Findings

namespace Cursor

variable (g : Basis) (f : Position → Position) (k : Cursor) (position : Position) (c : Char)

theorem mark_relocate : (k.relocate f).mark (f position) = (k.mark position).relocate f := by
  have hs : (k.relocate f).state = k.state := rfl
  unfold mark
  rw [hs]
  split <;> rfl

theorem reject_relocate (lexeme : String) (cause : Cause) :
    (k.relocate f).reject g (f position) lexeme cause =
      (k.reject g position lexeme cause).relocate f := by
  rw [reject, reject, Move.relocate_singleton]
  rfl

theorem meetIllegal_relocate :
    (k.relocate f).meetIllegal g (f position) c = (k.meetIllegal g position c).relocate f := by
  unfold meetIllegal
  cases g.policy <;> dsimp only
  · rw [Move.relocate_fail]
    rfl
  · exact reject_relocate g f k position _ _

theorem arrive_relocate (terminal : Terminal) :
    (k.relocate f).arrive g (f position) c terminal =
      (k.arrive g position c terminal).relocate f := by
  unfold arrive
  split
  · rw [← Move.andThen_relocate f fun k => meetIllegal_relocate g f k position c,
      Move.relocate_singleton]
    rfl
  · rw [Move.relocate_singleton]
    rfl

theorem take_relocate : (k.relocate f).take g (f position) c =
    ((k.take g position c).1.relocate f, (k.take g position c).2) := by
  unfold take
  rw [mark_relocate]
  generalize k.mark position = k
  have hs : (k.relocate f).session = k.session := rfl
  dsimp only
  rw [hs]
  cases k.session.advance? g.machine c with
  | none =>
    dsimp only
    rw [Move.relocate_fail]
    rfl
  | some session =>
    let moved : Cursor := { k with session }
    have hmoved : { k.relocate f with session } = moved.relocate f := rfl
    have hstate : (moved.relocate f).state = moved.state := rfl
    dsimp only
    rw [hmoved, hstate]
    cases moved.state.terminal? <;> dsimp only
    · rw [Move.relocate_stay]
    · rw [arrive_relocate]

theorem feedSymbol_relocate :
    (k.relocate f).feedSymbol g (f position) c = (k.feedSymbol g position c).relocate f := by
  unfold feedSymbol
  rw [take_relocate]
  dsimp only
  split
  · exact Move.andThen_relocate f (fun k => congrArg Prod.fst (take_relocate g f k position c)) _
  · rfl

theorem feedForeign_relocate :
    (k.relocate f).feedForeign g (f position) c = (k.feedForeign g position c).relocate f := by
  unfold feedForeign
  rw [mark_relocate]
  generalize k.mark position = k
  have hs : (k.relocate f).state = k.state := rfl
  cases g.policy <;> dsimp only
  · rw [Move.relocate_fail]
    rfl
  · let rejectAt (position : Position) (k : Cursor) :=
      k.reject g position (k.lexeme.push c) .outsideAlphabet
    have hreject (k : Cursor) : rejectAt (f position) (k.relocate f) =
        (rejectAt position k).relocate f := reject_relocate g f k position _ _
    rw [hs]
    refine Eq.trans ?_ (Move.andThen_relocate f hreject _)
    split
    · rw [feedSymbol_relocate]
    · rw [Move.relocate_stay]

theorem feed_relocate (i : Position × Char) :
    (k.relocate f).feed g (f i.1, i.2) = (k.feed g i).relocate f := by
  unfold feed
  split
  · exact feedSymbol_relocate g f k i.1 i.2
  · exact feedForeign_relocate g f k i.1 i.2

theorem close_relocate : (k.relocate f).close g = (k.close g).relocate f := by
  have hs : (k.relocate f).state = k.state := rfl
  unfold close
  rw [hs]
  split
  · rw [Move.relocate_stay]
  · cases g.policy <;> dsimp only
    · rw [Move.relocate_fail]
      rfl
    · exact reject_relocate g f k k.tokenStart _ _

theorem finish_relocate (input : List (Position × Char)) :
    (k.relocate f).finish g (Scan.relocate f input) = (k.finish g input).relocate f := by
  induction input generalizing k with
  | nil =>
    rw [Scan.relocate, List.map_nil, finish_nil, finish_nil]
    exact close_relocate g f k
  | cons i rest ih =>
    rw [Scan.relocate, List.map_cons, finish_cons, finish_cons, feed_relocate]
    exact Move.andThen_relocate f ih _

theorem run_relocate (input : List (Position × Char)) :
    (k.relocate f).run g (Scan.relocate f input) = (k.run g input).relocate f :=
  finish_relocate g f (k.restart g) input

end Cursor

end Scan

end TableLexer
