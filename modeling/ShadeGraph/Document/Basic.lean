import ShadeGraph.Files.Path
import ShadeGraph.Value.Text

/-!
# Material documents

A document declares node definitions, the source code that implements them, node graphs, and single node instances.
Its elements refer to each other by name; where several elements have the same name, the first one counts.

Importing a library appends its elements to those of a document. An element whose name is already there is left out
and reported; an element that the same import has just added counts as being there.
-/

namespace ShadeGraph

/-- A pin of a node definition or of the interface of a graph. -/
structure PinDef where
  name : String
  typeName : String
  /-- The text of the default value. -/
  value : Option String := none
  uniform : Bool := false
  deriving DecidableEq, Inhabited

/-- The typed interface of a node category. -/
structure NodeDef where
  name : String
  category : String
  inputs : List PinDef := []
  outputs : List PinDef := []
  deriving DecidableEq, Inhabited

/-- Source code that implements a node definition in one language. -/
structure SourceDef where
  name : String
  nodedef : String
  /-- The file that holds the source code. -/
  file : Option String := none
  function : Option String := none
  language : String
  /-- The renderer it is made for; the empty text stands for all of them. -/
  target : String := ""
  /-- The source code, in place of a file. -/
  source : Option String := none
  deriving DecidableEq, Inhabited

/-- An output of a node graph and the node that drives it. -/
structure GraphOutput where
  name : String
  typeName : String
  nodeName : String
  output : Option String := none
  channels : Option String := none
  deriving DecidableEq, Inhabited

/-- What an input of a node instance is bound to. -/
structure InputBinding where
  name : String
  typeName : String
  value : Option String := none
  nodeName : Option String := none
  output : Option String := none
  interfaceName : Option String := none
  channels : Option String := none
  deriving DecidableEq, Inhabited

/-- A node of a graph or of the document itself. -/
structure NodeInstance where
  name : String
  category : String
  typeName : String
  nodedef : Option String := none
  inputs : List InputBinding := []
  deriving DecidableEq, Inhabited

/-- A network of node instances. -/
structure NodeGraph where
  name : String
  /-- The definition that the graph implements. -/
  nodedef : Option String := none
  inputs : List PinDef := []
  nodes : List NodeInstance := []
  outputs : List GraphOutput := []
  deriving DecidableEq, Inhabited

/-- A material document. -/
structure Document where
  name : String := ""
  nodedefs : List NodeDef := []
  sources : List SourceDef := []
  nodegraphs : List NodeGraph := []
  nodes : List NodeInstance := []
  deriving DecidableEq, Inhabited

namespace PinDef

def type (p : PinDef) : Except Error DataType :=
  match DataType.ofName? p.typeName with
  | some type => .ok type
  | none => .error (.unknownType p.typeName)

def default (p : PinDef) : Except Error (Option Value) :=
  match p.value with
  | none => .ok none
  | some text => do
    let type ← p.type
    let value ← Value.read type text
    pure (some value)

end PinDef

namespace NodeDef

def input? (d : NodeDef) (name : String) : Option PinDef := d.inputs.find? fun p => p.name == name

def output? (d : NodeDef) (name : String) : Option PinDef := d.outputs.find? fun p => p.name == name

/-- The type name of the first output. -/
def outputType? (d : NodeDef) : Option String := d.outputs.head?.map PinDef.typeName

end NodeDef

namespace SourceDef

/-- The extension of files that hold a single expression. -/
def inlineExtension : String := "inline"

/-- Whether the source is an expression and not a function. -/
def isInline (s : SourceDef) : Bool := s.file.bind Path.extension? == some inlineExtension

/-- The function that the source defines, by default named like the node definition. -/
def functionName (s : SourceDef) : String := s.function.getD s.nodedef

end SourceDef

def NodeInstance.input? (n : NodeInstance) (name : String) : Option InputBinding :=
  n.inputs.find? fun i => i.name == name

def NodeGraph.node? (g : NodeGraph) (name : String) : Option NodeInstance := g.nodes.find? fun n => n.name == name

namespace Document

/-! ## Looking up elements -/

def nodedef? (d : Document) (name : String) : Option NodeDef := d.nodedefs.find? fun nd => nd.name == name

/-- The definition of a node: the one it names, or else the first one of its category and type. -/
def definitionOf? (d : Document) (node : NodeInstance) : Option NodeDef :=
  match node.nodedef with
  | some name => d.nodedef? name
  | none => d.nodedefs.find? fun nd => nd.category == node.category && nd.outputType? == some node.typeName

/-- The source that implements a definition in a language: the first one made for the target, or else the first one
made for all targets. -/
def source? (d : Document) (nodedef language target : String) : Option SourceDef :=
  let candidates := d.sources.filter fun s => s.nodedef == nodedef && s.language == language
  (candidates.find? fun s => s.target == target).or (candidates.find? fun s => s.target == "")

def nodegraph? (d : Document) (name : String) : Option NodeGraph := d.nodegraphs.find? fun g => g.name == name

def graphFor? (d : Document) (nodedef : String) : Option NodeGraph :=
  d.nodegraphs.find? fun g => g.nodedef == some nodedef

def node? (d : Document) (name : String) : Option NodeInstance := d.nodes.find? fun n => n.name == name

end Document

/-! ## Importing -/

/-- Appends the elements whose name is new, and reports the others. -/
def importNew {α : Type} (name : α → String) (label : String) : List α → List α → List α × List String
  | present, [] => (present, [])
  | present, item :: rest =>
    if present.any fun p => name p == name item then
      let (all, conflicts) := importNew name label present rest
      (all, s!"{label} '{name item}'" :: conflicts)
    else importNew name label (present ++ [item]) rest

/-- Imports the elements of a library and reports those that are left out. -/
def Document.importLibrary (d library : Document) : Document × List String :=
  let (nodedefs, c1) := importNew NodeDef.name "nodedef" d.nodedefs library.nodedefs
  let (sources, c2) := importNew SourceDef.name "implementation" d.sources library.sources
  let (nodegraphs, c3) := importNew NodeGraph.name "nodegraph" d.nodegraphs library.nodegraphs
  let (nodes, c4) := importNew NodeInstance.name "node" d.nodes library.nodes
  ({ d with nodedefs, sources, nodegraphs, nodes }, c1 ++ c2 ++ c3 ++ c4)

end ShadeGraph
