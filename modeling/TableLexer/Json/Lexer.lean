import TableLexer.Json.Number
import TableLexer.Json.Piece
namespace TableLexer.Json

/-- Text being read: what it says so far, and a high surrogate that waits for a low one. -/
structure Draft where
  text? : Option String
  high? : Option Nat
deriving DecidableEq, Repr

namespace Draft

def empty : Draft := ⟨some "", none⟩

def garbled : Draft := ⟨none, none⟩

/-- `none` is a piece that is no UTF-8. A high surrogate must not be followed by a character. -/
def addChar (d : Draft) (c? : Option Char) : Draft :=
  match d.high?, c? with
  | none, some c => ⟨d.text?.map fun s => s.push c, none⟩
  | _, _ => garbled

def isHigh (u : Nat) : Bool := 0xD800 ≤ u && u < 0xDC00

def isLow (u : Nat) : Bool := 0xDC00 ≤ u && u < 0xE000

def combine (high low : Nat) : Char :=
  Char.ofNat (0x10000 + (high - 0xD800) * 0x400 + (low - 0xDC00))

/-- Adds a UTF-16 unit. -/
def addUnit (d : Draft) (u : Nat) : Draft :=
  match d.high? with
  | some high => if isLow u then ⟨d.text?.map fun s => s.push (combine high u), none⟩ else garbled
  | none =>
    if isHigh u then { d with high? := some u }
    else if isLow u then garbled
    else d.addChar (some (Char.ofNat u))

def finish (d : Draft) : Option String := if d.high?.isSome then none else d.text?

end Draft

inductive Mode where
  | between
  | word (read : List Char)
  | text (draft : Draft)
  | escape (draft : Draft)
  | unit (draft : Draft) (left value : Nat)
deriving DecidableEq, Repr

structure Lexer where
  mode : Mode
  pieces : Array Piece
deriving DecidableEq, Repr

namespace Lexer

def start : Lexer := ⟨.between, #[]⟩

def isBlank (c : Char) : Bool := c == ' ' || c == '\t' || c == '\n' || c == '\r'

def mark? : Char → Option Piece
  | '[' => some .openArray
  | ']' => some .closeArray
  | '\x7b' => some .openObject
  | '\x7d' => some .closeObject
  | ',' => some .comma
  | ':' => some .colon
  | _ => none

/-- A character with no word or text before it. -/
def enter (pieces : Array Piece) (c : Char) : Lexer :=
  if isBlank c then ⟨.between, pieces⟩
  else if c == '"' then ⟨.text Draft.empty, pieces⟩
  else
    match mark? c with
    | some piece => ⟨.between, pieces.push piece⟩
    | none => ⟨.word [c], pieces⟩

def endsWord (c : Char) : Bool := isBlank c || c == '"' || (mark? c).isSome

def escaped? : Char → Option Char
  | '"' => some '"'
  | '\\' => some '\\'
  | '/' => some '/'
  | 'b' => some '\x08'
  | 'f' => some '\x0c'
  | 'n' => some '\n'
  | 'r' => some '\r'
  | 't' => some '\t'
  | _ => none

def hexValue? (c : Char) : Option Nat :=
  if c.isDigit then some (c.toNat - '0'.toNat)
  else if 'a' ≤ c && c ≤ 'f' then some (c.toNat - 'a'.toNat + 10)
  else if 'A' ≤ c && c ≤ 'F' then some (c.toNat - 'A'.toNat + 10)
  else none

/-- A character within text. -/
def inText (pieces : Array Piece) (draft : Draft) (c : Char) : Option Lexer :=
  if c == '"' then some ⟨.between, pieces.push (.scalar (.text draft.finish))⟩
  else if c == '\\' then some ⟨.escape draft, pieces⟩
  else if c.toNat < 0x20 then none
  else some ⟨.text (draft.addChar (some c)), pieces⟩

def step (l : Lexer) (c? : Option Char) : Option Lexer :=
  match l.mode, c? with
  | .text draft, none => some ⟨.text (draft.addChar none), l.pieces⟩
  | _, none => none
  | .between, some c => some (enter l.pieces c)
  | .word read, some c =>
    if endsWord c then (Scalar.ofWord? read).map fun s => enter (l.pieces.push (.scalar s)) c
    else some ⟨.word (read ++ [c]), l.pieces⟩
  | .text draft, some c => inText l.pieces draft c
  | .escape draft, some c =>
    if c == 'u' then some ⟨.unit draft 4 0, l.pieces⟩
    else (escaped? c).map fun e => ⟨.text (draft.addChar (some e)), l.pieces⟩
  | .unit draft left value, some c =>
    (hexValue? c).map fun v =>
      if left ≤ 1 then ⟨.text (draft.addUnit (value * 16 + v)), l.pieces⟩
      else ⟨.unit draft (left - 1) (value * 16 + v), l.pieces⟩

end Lexer

inductive Lexed where
  | whole (pieces : List Piece)
  | insideText
  | malformed
deriving DecidableEq, Repr

namespace Lexer

def finish (l : Lexer) : Lexed :=
  match l.mode with
  | .between => .whole l.pieces.toList
  | .word read =>
    match Scalar.ofWord? read with
    | some s => .whole (l.pieces.push (.scalar s)).toList
    | none => .malformed
  | _ => .insideText

def run (l : Lexer) (cs : List (Option Char)) : Lexed :=
  match cs.foldlM step l with
  | some l => l.finish
  | none => .malformed

end Lexer

/-- Splits JSON text, in which `none` stands for what is no UTF-8. -/
def lex (cs : List (Option Char)) : Lexed := Lexer.start.run cs

end TableLexer.Json
