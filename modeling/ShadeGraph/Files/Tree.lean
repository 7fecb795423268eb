import ShadeGraph.Files.Path
import ShadeGraph.Error

/-!
# File trees and search paths

The files that a request may read, as a value. A file holds text, or bytes that are no text. An entry is found by its
*location*, the names from the working directory down to it; a location that starts with a slash counts from the root
directory instead, and one that starts with two dots from a directory above. A name has at most 255 bytes and a path at
most 4095. The files below a directory are listed depth first with the names of each directory in order, which is the
lexicographic order of their locations.

The locations below the working directory, those from the root directory and those above are three lists of their own.
An entry of the working directory that can be reached from the root directory or through two dots as well is listed
again under those locations; nothing in a tree makes the entries agree.

A search path is a list of directories in which files are looked for, in order. The working directory comes last, and an
absolute path is taken as it is.
-/

namespace ShadeGraph

/-- What stands at a location. -/
inductive FileEntry where
  | directory
  | text (content : String)
  /-- A file whose bytes are not the encoding of a text. -/
  | binary
  deriving DecidableEq, Inhabited

/-- The names from the working directory down to an entry. -/
abbrev Location := List String

/-- A tree of files. -/
structure FileTree where
  entries : List (Location × FileEntry) := []
  deriving Inhabited

namespace FileTree

/-- Whether a location leads upwards only. -/
def isAbove (location : Location) : Bool := location.all (· == "..")

/-- What stands at a location. The working directory, those above it and the root directory always exist. -/
def lookup? (t : FileTree) (location : Location) : Option FileEntry :=
  if isAbove location || location = ["/"] then some .directory else t.entries.lookup location

/-- The location above. The root directory is its own parent. -/
def above (location : Location) : Location :=
  if isAbove location then location ++ [".."] else if location = ["/"] then location else location.dropLast

def start (path : String) : Location := if Path.isAbsolute path then ["/"] else []

def isLongName (name : String) : Bool := 255 < name.utf8ByteSize

def isLongPath (path : String) : Bool := 4095 < path.utf8ByteSize

/-- Refuses a path that cannot lead anywhere. -/
def checkPath (path : String) : Except FileFault Unit :=
  if path.toList.contains '\x00' then .error .invalidName
  else if isLongPath path then .error .nameTooLong
  else if path = "" then .error .notFound
  else .ok ()

/-- Follows the texts between the slashes of a path from a location. -/
def follow (t : FileTree) : Location → List String → Except FileFault Location
  | location, [] => .ok location
  | location, piece :: rest =>
    match t.lookup? location with
    | none => .error .notFound
    | some .directory =>
      if Path.isSkipped piece then follow t location rest
      else if piece = ".." then follow t (above location) rest
      else if isLongName piece then .error .nameTooLong
      else follow t (location ++ [piece]) rest
    | some _ => .error .notDirectory

/-- The location of a path and what stands there. -/
def resolve (t : FileTree) (path : String) : Except FileFault (Location × FileEntry) := do
  checkPath path
  let location ← t.follow (start path) (Path.pieces path)
  match t.lookup? location with
  | some entry => pure (location, entry)
  | none => throw .notFound

def contains (t : FileTree) (path : String) : Bool := (t.resolve path).toOption.isSome

def read (t : FileTree) (path : String) : Except FileFault String := do
  match ← t.resolve path with
  | (_, .text content) => pure content
  | (_, .binary) => throw .invalidText
  | (_, .directory) => throw .isDirectory

/-- The text of the file at a path, with the path in the error. -/
def readFile (t : FileTree) (path : String) : Except Error String := (t.read path).mapError (.fileFault path)

/-- Puts an entry at a location in place of what stood there. -/
def set (t : FileTree) (location : Location) (entry : FileEntry) : FileTree :=
  ⟨(t.entries.filter fun e => e.1 != location) ++ [(location, entry)]⟩

/-- The location of a file to be written. The directory that holds it must exist, and a path that ends with a slash or
with dots names a directory. -/
def target (t : FileTree) (path : String) : Except FileFault Location := do
  checkPath path
  let pieces := Path.pieces path
  let named := (pieces.reverse.dropWhile (· == "")).reverse
  match named.getLast? with
  | none => throw .isDirectory
  | some name =>
    let isDots := name = "." || name = ".."
    let directory ← t.follow (start path) (if isDots then named else named.dropLast)
    match t.lookup? directory with
    | some .directory =>
      if isDots || named.length < pieces.length then throw .isDirectory
      else if isLongName name then throw .nameTooLong
      else pure (directory ++ [name])
    | some _ => throw .notDirectory
    | none => throw .notFound

/-- Puts a file at a path. -/
def store (t : FileTree) (path : String) (file : FileEntry) : Except FileFault FileTree := do
  let location ← t.target path
  match t.lookup? location with
  | some .directory => throw .isDirectory
  | _ => pure (t.set location file)

def write (t : FileTree) (path content : String) : Except FileFault FileTree := t.store path (.text content)

/-- Makes the directories on the way that the texts between the slashes of a path describe, if no file stands there. -/
def ensure (t : FileTree) : Location → List String → Option FileTree
  | _, [] => some t
  | location, piece :: rest =>
    if Path.isSkipped piece then ensure t location rest
    else if piece = ".." then ensure t (above location) rest
    else if isLongName piece then none
    else match t.lookup? (location ++ [piece]) with
      | some .directory => ensure t (location ++ [piece]) rest
      | some _ => none
      | none => ensure (t.set (location ++ [piece]) .directory) (location ++ [piece]) rest

/-- Makes a directory and those on the way to it. -/
def makeDirectory (t : FileTree) (path : String) : Option FileTree :=
  if path = "" then some t
  else match checkPath path with
    | .ok _ => t.ensure (start path) (Path.pieces path)
    | .error _ => none

/-- Puts an entry at a path and makes the directories on the way to it. -/
def place (t : FileTree) (path : String) (entry : FileEntry) : Option FileTree :=
  match entry with
  | .directory => t.makeDirectory path
  | file => (t.makeDirectory ((Path.parent? path).getD "")).bind fun t => (t.store path file).toOption

def remove (t : FileTree) (path : String) : Except FileFault FileTree := do
  match ← t.resolve path with
  | (_, .directory) => throw .isDirectory
  | (location, _) => pure ⟨t.entries.filter fun e => e.1 != location⟩

/-! ## Walking -/

/-- Lexicographic order of names. -/
def nameLe : List Char → List Char → Bool
  | [], _ => true
  | _ :: _, [] => false
  | a :: as, b :: bs => a < b || (a == b && nameLe as bs)

/-- Lexicographic order of locations. -/
def locationLe : Location → Location → Bool
  | [], _ => true
  | _ :: _, [] => false
  | a :: as, b :: bs => if a = b then locationLe as bs else nameLe a.toList b.toList

/-- Whether a name leads down from a directory, and neither above it nor to the root directory. -/
def leadsDown (name : String) : Bool := name != ".." && name != "/"

/-- The names from a location down to each file at or below it, depth first and in the order of the names. -/
def filesBelow (t : FileTree) (location : Location) : List Location :=
  let files := t.entries.filter fun e => location.isPrefixOf e.1 && e.2 != .directory
  ((files.map fun e => e.1.drop location.length).filter fun names => names.all leadsDown).mergeSort locationLe

/-- Whether the directories on the way down from a path can be opened, because their paths are not too long. -/
def canDescend (path : String) : List String → Bool
  | [] => true
  | name :: rest => !isLongPath path && canDescend (Path.join path name) rest

/-- The paths of the files at or below a path. -/
def walk (t : FileTree) (path : String) : List String :=
  match t.resolve path with
  | .error _ => []
  | .ok (location, _) =>
    ((t.filesBelow location).filter (canDescend path)).map fun names => names.foldl Path.join path

end FileTree

/-! ## Search paths -/

/-- The directories in which files are looked for. -/
structure SearchPath where
  roots : List String := []
  deriving DecidableEq, Inhabited

namespace SearchPath

/-- The directories that a text lists with colons between them; an empty one among them counts. -/
def ofList (text : String) : SearchPath := ⟨(Text.splitAt ':' text.toList).map String.ofList⟩

def append (s : SearchPath) (root : String) : SearchPath := ⟨s.roots ++ [root]⟩

def prepend (s : SearchPath) (root : String) : SearchPath := ⟨root :: s.roots⟩

def extend (s other : SearchPath) : SearchPath := ⟨s.roots ++ other.roots⟩

/-- Where a file may be, in the order in which the places are tried. -/
def candidates (s : SearchPath) (name : String) : List String :=
  if Path.isAbsolute name then [name] else (s.roots.map fun root => Path.join root name) ++ [name]

/-- The first place where a file is. -/
def find (s : SearchPath) (files : FileTree) (name : String) : Except Error String :=
  match (s.candidates name).find? files.contains with
  | some path => .ok path
  | none => .error (.fileNotFound name)

def read (s : SearchPath) (files : FileTree) (name : String) : Except Error String := do
  let path ← s.find files name
  files.readFile path

end SearchPath

end ShadeGraph
