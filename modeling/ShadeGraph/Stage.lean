import ShadeGraph.Code
import ShadeGraph.Text.Basic
import ShadeGraph.Value.Basic

/-!
# Stages

The source code of one shader stage while it is written. Code is only ever appended. Next to it the stage keeps the
functions that have been defined and the uniform variables that the host can set, in named blocks.
-/

namespace ShadeGraph

/-- A variable that the host can set. -/
structure Uniform where
  type : DataType
  variableName : String
  /-- Where the parameter stands in the document. -/
  path : String := ""
  value : Option Value := none
  uniform : Bool := true
  deriving DecidableEq

instance : Inhabited Uniform := ⟨{ type := .float, variableName := "" }⟩

/-- A named list of variables. -/
structure UniformBlock where
  name : String
  uniforms : List Uniform := []
  deriving DecidableEq, Inhabited

namespace UniformBlock

def find? (b : UniformBlock) (name : String) : Option Uniform := b.uniforms.find? fun u => u.variableName == name

/-- Whether a variable can be added, because its name is new. -/
def accepts (b : UniformBlock) (u : Uniform) : Bool := (b.find? u.variableName).isNone

/-- Adds a variable whose name is new. -/
def add (b : UniformBlock) (u : Uniform) : UniformBlock :=
  if b.accepts u then { b with uniforms := b.uniforms ++ [u] } else b

end UniformBlock

/-- The source code of a stage. -/
structure Stage where
  name : String := "pixel"
  /-- The number of spaces per level of indentation. -/
  indent : Nat := 4
  /-- The number of open blocks. -/
  depth : Nat := 0
  code : Code := []
  /-- The functions that have been defined. -/
  functions : List String := []
  /-- The uniform blocks, in the order in which they were made. -/
  blocks : List UniformBlock := []
  /-- The names at the top level of the code. -/
  identifiers : List String := []
  deriving Inhabited

namespace Stage

def text (s : Stage) : String := s.code.render

def append (s : Stage) (code : Code) : Stage := { s with code := s.code ++ code }

def line (s : Stage) (code : Code) : Stage :=
  s.append (.text (String.ofList (List.replicate (s.depth * s.indent) ' ')) :: (code ++ [.text "\n"]))

def statement (s : Stage) (code : Code) : Stage := s.line (code ++ [.text ";"])

def emptyLine (s : Stage) : Stage := s.append [.text "\n"]

/-- Appends the lines of a text, each as a token of some kind and indented; blank lines become empty. -/
def block (s : Stage) (mark : String → Token) (text : String) : Stage :=
  (Text.lines text).foldl (fun s l => if (Text.trim l).isEmpty then s.emptyLine else s.line [mark l]) s

def openBlock (s : Stage) : Stage :=
  let s := s.line [.opens]
  { s with depth := s.depth + 1 }

def closeBlock (s : Stage) (semicolon : Bool) : Stage :=
  let s := { s with depth := s.depth - 1 }
  s.line (if semicolon then [.closes, .text ";"] else [.closes])

def hasFunction (s : Stage) (name : String) : Bool := s.functions.contains name

def addFunction (s : Stage) (name : String) : Stage :=
  if s.hasFunction name then s else { s with functions := s.functions ++ [name] }

def block? (s : Stage) (name : String) : Option UniformBlock := s.blocks.find? fun b => b.name == name

/-- Makes an empty uniform block, if there is none of the name. -/
def ensureBlock (s : Stage) (name : String) : Stage :=
  match s.block? name with
  | some _ => s
  | none => { s with blocks := s.blocks ++ [{ name }] }

/-- Adds a variable to a uniform block, unless the block has one of its name. -/
def addUniform (s : Stage) (name : String) (u : Uniform) : Stage :=
  let s := s.ensureBlock name
  { s with blocks := s.blocks.map fun b => if b.name = name then b.add u else b }

def replace (s : Stage) (pattern value : String) : Stage :=
  { s with code := [.text (Text.replace pattern value s.text)] }

end Stage
end ShadeGraph
