namespace TableLexer.Path

def splitSegments : List Char → List (List Char)
  | [] => [[]]
  | c :: rest =>
    if c = '/' then [] :: splitSegments rest
    else
      match splitSegments rest with
      | [] => [[c]]
      | s :: more => (c :: s) :: more

/-- What stands between the slashes. -/
def segments (path : String) : List String := (splitSegments path.toList).map String.ofList

/-- Segments that name nothing. -/
def isVoid (segment : String) : Bool := segment = "" || segment = "."

def trimVoid (segments : List String) : List String :=
  (segments.reverse.dropWhile isVoid).reverse

/-- The root, or a leading dot, which counts as a name of its own. -/
def head (path : String) : String :=
  match path.toList with
  | '/' :: _ => "/"
  | ['.'] => "."
  | '.' :: '/' :: _ => "."
  | _ => ""

/-- The segments behind the head, without void ones at the end. -/
def body (path : String) : List String :=
  trimVoid (segments (String.ofList (path.toList.drop (head path).length)))

def build (head : String) (body : List String) : String := head ++ "/".intercalate body

/-- Nothing for the root and for the empty path. -/
def parent? (path : String) : Option String :=
  if (body path).isEmpty then if head path = "." then some "" else none
  else some (build (head path) (trimVoid (body path).dropLast))

def ancestorsWithin : Nat → String → List String
  | 0, _ => []
  | n + 1, path =>
    if path = "" then []
    else path :: ((parent? path).map (ancestorsWithin n)).getD []

/-- A path and what it lies in, level by level. -/
def ancestors (path : String) : List String := ancestorsWithin (path.length + 1) path

def fileName? (path : String) : Option String := (body path).getLast?.filter fun s => s != ".."

/-- Up to the last dot, unless the name begins with that one. -/
def stemOf (name : String) : String :=
  match name.toList.reverse.dropWhile fun c => c != '.' with
  | _ :: c :: before => String.ofList (c :: before).reverse
  | _ => name

def fileStem? (path : String) : Option String := (fileName? path).map stemOf

/-- What stands behind the last dot, unless the name begins with that one. -/
def extensionOf? (name : String) : Option String :=
  match name.toList.reverse.dropWhile fun c => c != '.' with
  | _ :: _ :: _ => some (String.ofList (name.toList.reverse.takeWhile fun c => c != '.').reverse)
  | _ => none

/-- With `extension` in place of what stands behind the stem. A path without a stem stays. -/
def setExtension (path extension : String) : String :=
  match fileStem? path with
  | none => path
  | some stem => build (head path) ((body path).dropLast ++ [stem]) ++ "." ++ extension

/-- Cuts an extension off behind its dot before it sets the new one. So `..x` becomes `..`, which
has no stem and stays. -/
def withExtension (path extension : String) : String :=
  match (fileName? path).bind extensionOf? with
  | none => setExtension path extension
  | some old =>
    setExtension (String.ofList (path.toList.take (path.length - old.length))) extension

def join (directory name : String) : String :=
  match directory.toList.getLast? with
  | none => name
  | some c => if c = '/' then directory ++ name else directory ++ "/" ++ name

end TableLexer.Path
