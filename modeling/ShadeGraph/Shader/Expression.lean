import ShadeGraph.Graph.Basic

/-!
# Expressions

The code that reads an input of a node: the variable of the output it is connected to, of which channels may be
picked, the uniform that is published for it, its literal value, or the default value of its type. The expression of
an inline node is its template with the input expressions in place of the marked names.
-/

namespace ShadeGraph

/-- What the code of a node depends on, apart from the node. -/
structure Surroundings where
  language : Language
  format : FloatFormat
  graph : Graph

namespace Surroundings

def dialect (e : Surroundings) : Dialect := e.language.dialect

/-- The value of an input that is neither connected nor published. -/
def literal (e : Surroundings) (i : Input) : Except Error Code :=
  match i.value with
  | some value => (e.dialect.literal i.type value false e.format).map Code.plain
  | none => (e.dialect.default i.type false).map Code.plain

/-- The value of an input that is connected, or else its literal value. -/
def unpublished (e : Surroundings) (i : Input) : Except Error Code :=
  match i.source with
  | none => e.literal i
  | some source =>
    match e.graph.output? source with
    | none => .error (.pinNotFound e.graph.name i.name)
    | some output =>
      match i.channels with
      | none => .ok [.reads output.variableName]
      | some channels => e.dialect.swizzle [.reads output.variableName] output.type channels i.type

def value (e : Surroundings) (i : Input) : Except Error Code :=
  if i.isConnected || i.variableName = "" then e.unpublished i else .ok [.reads i.variableName]

def values (e : Surroundings) (n : Node) : Except Error (List Code) := n.inputs.mapM e.value

end Surroundings

namespace Node

def onlyOutput (n : Node) (language : Language) : Except Error Output :=
  match n.outputs with
  | [output] => .ok output
  | [] => .error (.pinNotFound n.name "out")
  | _ => .error (.multipleOutputs n.name language.name)

/-- An input that the node must have. -/
def needInput (n : Node) (name : String) : Except Error Input :=
  match n.input? name with
  | some i => .ok i
  | none => .error (.pinNotFound n.name name)

/-- The position of an input that the node must have. -/
def needInputIndex (n : Node) (name : String) : Except Error Nat :=
  match n.inputIndex? name with
  | some index => .ok index
  | none => .error (.pinNotFound n.name name)

end Node

def Surroundings.valueOf (e : Surroundings) (n : Node) (name : String) : Except Error Code :=
  n.needInput name >>= e.value

/-! ## Templates -/

/-- A template cut into plain text and marked names. -/
inductive Template.Piece where
  | plain (text : List Char)
  | name (text : List Char)
  deriving DecidableEq

/-- A template cut at its marks, as far as every opened mark is closed. The flag says whether one is left open at the
end, in which case the pieces before it are given. -/
def Template.cut : Nat → List Char → List Template.Piece × Bool
  | 0, cs => ([.plain cs], false)
  | count + 1, cs =>
    match Text.cut? ['\x7b', '\x7b'] cs with
    | none => ([.plain cs], false)
    | some (before, after) =>
      match Text.cut? ['\x7d', '\x7d'] after with
      | none => ([], true)
      | some (name, rest) =>
        let (pieces, isOpen) := cut count rest
        (.plain before :: .name name :: pieces, isOpen)

namespace Surroundings

/-- The code of the pieces of a template. -/
def fillPieces (e : Surroundings) (n : Node) : List Template.Piece → Except Error Code
  | [] => .ok []
  | .plain text :: rest => do
    let code ← e.fillPieces n rest
    pure (.text (String.ofList text) :: code)
  | .name text :: rest => do
    let i ← n.needInput (String.ofList (Text.trimChars text))
    let value ← e.value i
    let code ← e.fillPieces n rest
    pure (value ++ code)

/-- The code of a template for a node: every marked name is replaced by the value of the input of that name. -/
def fillTemplate (e : Surroundings) (n : Node) (template : String) : Except Error Code := do
  let chars := template.toList
  let (pieces, isOpen) := Template.cut chars.length chars
  let code ← e.fillPieces n pieces
  if isOpen then throw (.unterminatedToken n.implementation.name)
  pure code

end Surroundings
end ShadeGraph
