namespace TableLexer

/-- Fills a number up with zeros in front. -/
def Text.padLeft (width : Nat) (digits : String) : String :=
  String.ofList (List.replicate (width - digits.length) '0') ++ digits

/-- A time of day, as the time since the Unix epoch. -/
structure Time where
  seconds : Nat
  micros : Fin 1000000
deriving DecidableEq, Repr

/-- Seconds, with six places. -/
def Time.text (t : Time) : String :=
  toString t.seconds ++ "." ++ Text.padLeft 6 (toString t.micros.val)

end TableLexer
