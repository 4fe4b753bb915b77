import TableLexer.Scan.Error
import TableLexer.Scan.Finding
import TableLexer.Scan.Basis
namespace TableLexer.Scan

open Lexical

/-- The token being read, and where it started. -/
structure Cursor where
  session : Session State
  tokenStart : Position
deriving DecidableEq, Repr

namespace Cursor

def state (k : Cursor) : State := k.session.current

def lexeme (k : Cursor) : String := k.session.lexeme

def restart (g : Basis) (k : Cursor) : Cursor := { k with session := Session.start g.machine }

/-- A token starts where the machine leaves its initial state. -/
def mark (position : Position) (k : Cursor) : Cursor :=
  if k.state = .initial then { k with tokenStart := position } else k

end Cursor

/-- What came of some input: what was found in it, where that left the scan, and why it gave up if
it did. -/
structure Move where
  findings : Array Finding
  cursor : Cursor
  failure? : Option LexError
deriving DecidableEq, Repr

namespace Move

def stay (k : Cursor) : Move := ⟨#[], k, none⟩

def fail (k : Cursor) (e : LexError) : Move := ⟨#[], k, some e⟩

/-- A scan that gave up goes no further. -/
def andThen (m : Move) (next : Cursor → Move) : Move :=
  match m.failure? with
  | some _ => m
  | none =>
    let n := next m.cursor
    ⟨m.findings ++ n.findings, n.cursor, n.failure?⟩

theorem stay_andThen (k : Cursor) (f : Cursor → Move) : (stay k).andThen f = f k := by
  simp [stay, andThen]

theorem andThen_stay (m : Move) : m.andThen stay = m := by
  rcases m with ⟨findings, k, _ | e⟩ <;> simp [andThen, stay]

theorem andThen_assoc (m : Move) (f g : Cursor → Move) :
    (m.andThen f).andThen g = m.andThen fun k => (f k).andThen g := by
  rcases m with ⟨findings, k, _ | e⟩
  · simp only [andThen]
    rcases f k with ⟨findings', k', _ | e'⟩ <;> simp
  · simp [andThen]

end Move

namespace Cursor

def reject (g : Basis) (position : Position) (lexeme : String) (cause : Cause)
    (k : Cursor) : Move :=
  ⟨#[.rejected ⟨position, lexeme, cause⟩], k.restart g, none⟩

/-- The symbol that makes a token illegal is part of it. -/
def meetIllegal (g : Basis) (position : Position) (c : Char) (k : Cursor) : Move :=
  match g.policy with
  | .failFast => Move.fail k (.illegal position (k.lexeme.push c))
  | .recover => k.reject g position (k.lexeme.push c) .illegal

def trace (k : Cursor) (terminal : Terminal) : TokenTrace := ⟨k.lexeme, terminal, k.session.steps⟩

/-- Ends the token in a final state. -/
def arrive (g : Basis) (position : Position) (c : Char) (terminal : Terminal)
    (k : Cursor) : Move :=
  if terminal = .illegal then
    (Move.mk #[.reached (k.trace terminal)] k none).andThen (meetIllegal g position c)
  else ⟨#[.reached (k.trace terminal)], k.restart g, none⟩

/-- Takes a symbol of the alphabet. `true` says that the symbol ended a token in front of it and
has yet to be read. -/
def take (g : Basis) (position : Position) (c : Char) (k : Cursor) : Move × Bool :=
  let k := k.mark position
  match k.session.advance? g.machine c with
  | none => (Move.fail k (.automaton (.undefinedTransition k.state.name c)), false)
  | some session =>
    let k := { k with session }
    match k.state.terminal? with
    | none => (Move.stay k, false)
    | some terminal => (k.arrive g position c terminal, terminal != .illegal)

/-- A symbol that ended a token is read once more. No token ends on its first symbol, so twice is
enough. -/
def feedSymbol (g : Basis) (position : Position) (c : Char) (k : Cursor) : Move :=
  let (m, again) := k.take g position c
  if again then m.andThen fun k => (k.take g position c).1 else m

/-- Whether a foreign character ends a token before it, as a blank would. It does not in a string,
of which it becomes a part. -/
def endsPending (s : State) : Bool := s != .initial && s != .quoteOpen && s != .stringBody

/-- Takes a character outside the alphabet. -/
def feedForeign (g : Basis) (position : Position) (c : Char) (k : Cursor) : Move :=
  let k := k.mark position
  match g.policy with
  | .failFast => Move.fail k (.outsideAlphabet position c)
  | .recover =>
    (if endsPending k.state then k.feedSymbol g position ' ' else Move.stay k).andThen fun k =>
      k.reject g position (k.lexeme.push c) .outsideAlphabet

def feed (g : Basis) (k : Cursor) (input : Position × Char) : Move :=
  if g.alphabet.contains input.2 then k.feedSymbol g input.1 input.2
  else k.feedForeign g input.1 input.2

def feedAll (g : Basis) (k : Cursor) (input : List (Position × Char)) : Move :=
  input.foldl (fun m i => m.andThen fun k => k.feed g i) (Move.stay k)

theorem foldl_andThen_feed (g : Basis) (m : Move) (input : List (Position × Char)) :
    input.foldl (fun m i => m.andThen fun k => k.feed g i) m =
      m.andThen fun k => k.feedAll g input := by
  induction input generalizing m with
  | nil => simp [feedAll, Move.andThen_stay]
  | cons i rest ih =>
    simp only [List.foldl_cons, feedAll]
    rw [ih, Move.andThen_assoc]
    congr 1
    funext k
    rw [Move.stay_andThen, ← ih]

theorem feedAll_cons (g : Basis) (k : Cursor) (i : Position × Char)
    (rest : List (Position × Char)) :
    k.feedAll g (i :: rest) = (k.feed g i).andThen fun k => k.feedAll g rest := by
  rw [feedAll, List.foldl_cons, foldl_andThen_feed, Move.stay_andThen]

theorem feedAll_append (g : Basis) (k : Cursor) (xs ys : List (Position × Char)) :
    k.feedAll g (xs ++ ys) = (k.feedAll g xs).andThen fun k => k.feedAll g ys := by
  rw [feedAll, List.foldl_append, foldl_andThen_feed]
  rfl

/-- A scan ends well only between two tokens. -/
def close (g : Basis) (k : Cursor) : Move :=
  if k.state = .initial then Move.stay k
  else
    match g.policy with
    | .failFast => Move.fail k (.unterminated k.tokenStart k.lexeme k.state.name)
    | .recover => k.reject g k.tokenStart k.lexeme (.unterminated k.state)

/-- A whole scan, from the start of a token on. -/
def run (g : Basis) (k : Cursor) (input : List (Position × Char)) : Move :=
  ((k.restart g).feedAll g input).andThen (close g)

end Cursor

end TableLexer.Scan
