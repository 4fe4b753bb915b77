namespace TableLexer

inductive OsError where
  | notFound
  | alreadyExists
  | notDirectory
  | isDirectory
  | other (message : String)
deriving DecidableEq, Repr

namespace OsError

def kind : OsError → String
  | notFound => "entity not found"
  | alreadyExists => "entity already exists"
  | notDirectory => "not a directory"
  | isDirectory => "is a directory"
  | other _ => "other error"

def message : OsError → String
  | notFound => "No such file or directory (os error 2)"
  | alreadyExists => "File exists (os error 17)"
  | notDirectory => "Not a directory (os error 20)"
  | isDirectory => "Is a directory (os error 21)"
  | other message => message

end OsError

/-- Why a file could not be read as text. -/
inductive ReadError where
  | os (e : OsError)
  | notUtf8
deriving DecidableEq, Repr

namespace ReadError

def message : ReadError → String
  | os e => e.message
  | notUtf8 => "stream did not contain valid UTF-8"

def textOf (content : Except OsError ByteArray) : Except ReadError String :=
  match content with
  | .error e => .error (.os e)
  | .ok data =>
    match String.fromUTF8? data with
    | none => .error .notUtf8
    | some text => .ok text

end ReadError

end TableLexer
