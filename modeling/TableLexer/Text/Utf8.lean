namespace TableLexer.Text.Utf8

/-- A character whose first bytes have been read: how many bytes it still needs, the range the
next one must lie in, and the bits read so far. -/
structure Partial where
  owed : Nat
  low : Nat
  high : Nat
  value : Nat
deriving DecidableEq, Repr

/-- What a first byte begins: a whole character, the start of one, or nothing valid. -/
inductive Start where
  | whole (c : Char)
  | begun (p : Partial)
  | invalid
deriving DecidableEq, Repr

def start (b : Nat) : Start :=
  if b < 0x80 then .whole (Char.ofNat b)
  else if b < 0xC2 then .invalid
  else if b < 0xE0 then .begun ⟨1, 0x80, 0xBF, b - 0xC0⟩
  else if b = 0xE0 then .begun ⟨2, 0xA0, 0xBF, 0⟩
  else if b = 0xED then .begun ⟨2, 0x80, 0x9F, 0xD⟩
  else if b < 0xF0 then .begun ⟨2, 0x80, 0xBF, b - 0xE0⟩
  else if b = 0xF0 then .begun ⟨3, 0x90, 0xBF, 0⟩
  else if b < 0xF4 then .begun ⟨3, 0x80, 0xBF, b - 0xF0⟩
  else if b = 0xF4 then .begun ⟨3, 0x80, 0x8F, 4⟩
  else .invalid

def Partial.accepts (p : Partial) (b : Nat) : Bool := p.low ≤ b && b ≤ p.high

def Partial.extend (p : Partial) (b : Nat) : Partial :=
  ⟨p.owed - 1, 0x80, 0xBF, p.value * 64 + (b - 0x80)⟩

/-- Reads bytes from the left. `none` stands for a longest piece that begins no character. -/
def decodeFrom : Option Partial → List UInt8 → List (Option Char)
  | none, [] => []
  | some _, [] => [none]
  | none, b :: rest =>
    match start b.toNat with
    | .whole c => some c :: decodeFrom none rest
    | .begun p => decodeFrom (some p) rest
    | .invalid => none :: decodeFrom none rest
  | some p, b :: rest =>
    if p.accepts b.toNat then
      if p.owed = 1 then some (Char.ofNat (p.extend b.toNat).value) :: decodeFrom none rest
      else decodeFrom (some (p.extend b.toNat)) rest
    else
      match start b.toNat with
      | .whole c => none :: some c :: decodeFrom none rest
      | .begun q => none :: decodeFrom (some q) rest
      | .invalid => none :: none :: decodeFrom none rest

/-- The characters of `data`, with `none` for what is no UTF-8. -/
def decode (data : ByteArray) : List (Option Char) :=
  match String.fromUTF8? data with
  | some text => text.toList.map some
  | none => decodeFrom none data.toList

/-- The text of `data`, with U+FFFD for what is no UTF-8. -/
def decodeLossy (data : ByteArray) : String :=
  String.ofList ((decode data).map fun c => c.getD '\uFFFD')

end TableLexer.Text.Utf8
