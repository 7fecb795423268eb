import ShadeGraph.Command.Arguments
import ShadeGraph.Document.Standard
import ShadeGraph.Files.Library
import ShadeGraph.Fragment.Basic

/-!
# The command

Generates the code of one element of a document, as a function of the arguments, of the search path that the
environment gives, and of the files.
-/

namespace ShadeGraph.Command

/-- Why the command failed: what it was about to do, and the causes. -/
structure Failure where
  context : String
  causes : List String := []
  deriving DecidableEq, Inhabited

namespace Failure

def indentLines (pad text : String) : String := Text.replace "\n" ("\n" ++ pad) text

/-- The causes on lines of their own, numbered if there are several. -/
def causeLines : List String → List String
  | [cause] => ["    " ++ indentLines "    " cause]
  | causes => causes.zipIdx.map fun (cause, k) => s!"    {k}: " ++ indentLines "       " cause

def text (x : Failure) : String :=
  let head := "Error: " ++ x.context
  if x.causes.isEmpty then head else Text.join "\n" (head :: "" :: "Caused by:" :: causeLines x.causes)

end Failure

/-- The causes behind an error. A fault of the file system is a cause of its own. -/
def causesOf (e : Error) : List String :=
  match e with
  | .fileFault _ fault => [e.message, fault.message]
  | e => [e.message]

def within {α : Type} (context : String) (x : Except Error α) : Except Failure α :=
  x.mapError fun e => ⟨context, causesOf e⟩

namespace Arguments

/-- Where files are looked for: first as the environment says, then as the arguments say, then beside the document. -/
def searchPathWith (a : Arguments) (environment : Option String) : SearchPath :=
  let given := (environment.map SearchPath.ofList).getD {}
  ⟨given.roots ++ a.searchPath ++ (Path.parent? a.document).toList⟩

def loadOptions (a : Arguments) (files : FileTree) : Except Failure Options :=
  match a.options with
  | some path => within s!"Failed to load options {path}" (files.options path)
  | none => .ok {}

/-- The document with the standard library and the named libraries. -/
def loadDocument (a : Arguments) (searchPath : SearchPath) (files : FileTree) : Except Failure Document := do
  let d ← within s!"Failed to load document {a.document}" (files.document a.document)
  pure ((d.importLibrary Standard.library).1.loadLibraries searchPath files a.libraries).document

/-- The element to generate; a graph goes before a node. -/
def findElement (a : Arguments) (d : Document) : Except Failure Shader.Element :=
  match d.nodegraph? a.element, d.node? a.element with
  | some g, _ => .ok (.graph g)
  | none, some n => .ok (.node n)
  | none, none => .error { context := s!"No node graph or node named '{a.element}' in {a.document}" }

def build {α : Type} (context : String) (x : Build α) : Except Failure α :=
  match x {} with
  | .ok value _ => .ok value
  | .error e _ => within context (.error e)

def generate (a : Arguments) (environment : Option String) (files : FileTree) : Except Failure String := do
  let options ← a.loadOptions files
  let searchPath := a.searchPathWith environment
  let document ← a.loadDocument searchPath files
  let element ← a.findElement document
  let request (language : Language) : Request := { document, generator := { language }, options, searchPath, files }
  if a.fragment then
    let x ← build s!"Failed to generate fragment for '{a.element}'"
      (Fragment.generate (request .glsl) none a.element element)
    pure x.text
  else
    match Language.ofName? a.language with
    | none => throw { context := s!"Unknown language '{a.language}'" }
    | some language =>
      let s ← build s!"Failed to generate {a.language} for '{a.element}'"
        (Shader.generate (request language) a.element element)
      pure s.text

end Arguments

/-- What a run of the command leaves behind. -/
structure Outcome where
  status : Nat := 0
  printed : String := ""
  failure : Option Failure := none
  /-- The file that was written, and its text. -/
  written : Option (String × String) := none
  files : FileTree
  deriving Inhabited

/-- Prints a text or writes it to a file. -/
def deliver (output : Option String) (text : String) (files : FileTree) : Except Failure Outcome :=
  match output with
  | none => .ok { printed := text, files }
  | some path =>
    match files.write path text with
    | .ok files => .ok { written := some (path, text), files }
    | .error fault => .error ⟨s!"Failed to write {path}", [fault.message]⟩

/-- Carries out what the arguments ask for. -/
def Arguments.run (a : Arguments) (environment : Option String) (files : FileTree) : Outcome :=
  let outcome := do
    let text ← a.generate environment files
    deliver a.output text files
  match outcome with
  | .ok outcome => outcome
  | .error failure => { status := 1, failure := some failure, files }

/-- The shape of a call of the command. -/
def usage : String := "Usage: mxgen [OPTIONS] <DOCUMENT> <ELEMENT>"

def help : String := Text.join "\n" [
  "Generate shader source from an OrdoPlay material document",
  "",
  usage,
  "",
  "Arguments:",
  "  <DOCUMENT>  Material document (RON)",
  "  <ELEMENT>   Node graph or top-level node to generate",
  "",
  "Options:",
  "  -l, --language <LANGUAGE>        Target language: osl, mdl or glsl [default: osl]",
  "      --options <OPTIONS>          Generation options (RON)",
  "      --libraries <LIBRARIES>      Libraries to load, resolved through the search path",
  "      --search-path <SEARCH_PATH>  Additional search path roots",
  "      --fragment                   Emit a wrapped GLSL fragment and log its parameter bindings",
  "  -o, --output <OUTPUT>            Output file; standard output when omitted",
  "  -h, --help                       Print help",
  ""]

def run (args : List String) (environment : Option String) (files : FileTree) : Outcome :=
  match Arguments.read args with
  | .ok a => a.run environment files
  | .error .help => { printed := help, files }
  | .error .usage => { status := 2, files }

end ShadeGraph.Command
