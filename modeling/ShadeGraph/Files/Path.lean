import ShadeGraph.Text.Basic

/-!
# File paths

Paths as texts with slashes between their components. Empty components and single dots are skipped, except for a
single dot at the very front; two dots stand for the directory above.
-/

namespace ShadeGraph.Path

def isAbsolute (path : String) : Bool := path.toList.head? == some '/'

def pieces (path : String) : List String := (Text.splitAt '/' path.toList).map String.ofList

def ofPieces (pieces : List String) : String := Text.join "/" pieces

/-- A path below another one. An absolute path stands for itself, and no slash is doubled. -/
def join (root path : String) : String :=
  if isAbsolute path || root = "" then path
  else if root.toList.getLast? == some '/' then root ++ path
  else root ++ "/" ++ path

/-- Whether a text between slashes is skipped. -/
def isSkipped (piece : String) : Bool := piece == "" || piece == "."

/-- Drops the skipped texts at the end, but keeps the text in front of them all. -/
def dropSkipped : List String → List String
  | [] => []
  | first :: rest => first :: (rest.reverse.dropWhile isSkipped).reverse

/-- The pieces of a path without the skipped ones at its end. -/
def trimmed (path : String) : List String := dropSkipped (pieces path)

/-- Whether the pieces of a path name no component. -/
def isBare (pieces : List String) : Bool := pieces.all (· == "")

/-- The last component, unless it is one of the dots or there is none. -/
def fileName? (path : String) : Option String :=
  match (trimmed path).getLast? with
  | some name => if isSkipped name || name == ".." then none else some name
  | none => none

/-- The directory that holds the last component. -/
def parent? (path : String) : Option String :=
  let parts := trimmed path
  if isBare parts then none
  else
    let rest := dropSkipped parts.dropLast
    some (if isAbsolute path && isBare rest then "/" else ofPieces rest)

/-- The text behind the last dot of a name, if something stands in front of the dot. -/
def extensionOf? (name : List Char) : Option (List Char) :=
  let behind := name.reverse.takeWhile (· != '.')
  let front := (name.reverse.dropWhile (· != '.')).drop 1
  if front.isEmpty then none else some behind.reverse

def extension? (path : String) : Option String :=
  (fileName? path).bind fun name => (extensionOf? name.toList).map String.ofList

end ShadeGraph.Path
