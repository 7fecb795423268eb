import ShadeGraph.Document.Basic
import ShadeGraph.Files.Tree
import ShadeGraph.Ron.Coding

/-!
# Libraries

Reading documents from files. A library is a directory whose documents are imported one after the other; a file that
cannot be read is reported and the others are still imported.
-/

namespace ShadeGraph
namespace FileTree

def document (t : FileTree) (path : String) : Except Error Document := do
  let text ← t.readFile path
  match Document.ofText? text with
  | some d => pure d
  | none => throw (.malformedFile path)

def options (t : FileTree) (path : String) : Except Error Options := do
  let text ← t.readFile path
  match Options.ofText? text with
  | some o => pure o
  | none => throw (.malformedFile path)

def save (t : FileTree) (path : String) (d : Document) : Except Error FileTree :=
  (t.write path d.toText).mapError (.fileFault path)

def documentExtension : String := "ron"

/-- The files at or below a path that hold documents, in the order in which they are loaded. -/
def documentPaths (t : FileTree) (root : String) : List String :=
  (t.walk root).filter fun path => Path.extension? path == some documentExtension

/-- The report about something that could not be loaded. -/
def failure (name : String) (e : Error) : String := s!"Failed to load: {name}. Error: " ++ e.message

/-- The documents at or below a path. -/
structure Batch where
  documents : List (String × Document) := []
  failures : List String := []
  deriving Inhabited

def Batch.load (t : FileTree) (b : Batch) (path : String) : Batch :=
  match t.document path with
  | .ok d => { b with documents := b.documents ++ [(path, d)] }
  | .error e => { b with failures := b.failures ++ [failure path e] }

/-- Loads the documents at or below a path, except for files of some names. -/
def loadDocuments (t : FileTree) (root : String) (skipped : List String) : Batch :=
  let paths := (t.documentPaths root).filter fun path => !(Path.fileName? path).any skipped.contains
  paths.foldl (Batch.load t) {}

end FileTree

/-- A document with the libraries imported into it so far, and what there is to report about them. -/
structure LibraryLoad where
  document : Document
  /-- The files that were imported. -/
  loaded : List String := []
  /-- The elements that were skipped because their names were taken. -/
  conflicts : List String := []
  failures : List String := []
  deriving Inhabited

namespace LibraryLoad

/-- Whether everything was imported. -/
def isClean (l : LibraryLoad) : Bool := l.conflicts.isEmpty && l.failures.isEmpty

def addFile (files : FileTree) (l : LibraryLoad) (path : String) : LibraryLoad :=
  match files.document path with
  | .ok library =>
    let (document, conflicts) := l.document.importLibrary library
    { l with document, loaded := l.loaded ++ [path], conflicts := l.conflicts ++ conflicts }
  | .error e => { l with failures := l.failures ++ [FileTree.failure path e] }

/-- Imports the files of a library. -/
def addLibrary (searchPath : SearchPath) (files : FileTree) (l : LibraryLoad) (name : String) : LibraryLoad :=
  match searchPath.find files name with
  | .ok root => (files.documentPaths root).foldl (addFile files) l
  | .error e => { l with failures := l.failures ++ [FileTree.failure name e] }

end LibraryLoad

/-- Imports libraries into a document. -/
def Document.loadLibraries (d : Document) (searchPath : SearchPath) (files : FileTree) (names : List String) :
    LibraryLoad :=
  names.foldl (LibraryLoad.addLibrary searchPath files) { document := d }

end ShadeGraph
