import ShadeGraph.Document.Basic
import ShadeGraph.Graph.Scope
import ShadeGraph.Procedural

/-!
# Shader graphs

A graph is a list of nodes with sockets at its boundary. A node knows how its code comes about: from source code, by
generation, or from a graph of its own, in which case it is a *compound*. Nodes refer to each other by identity, and a
connection is recorded at both of its ends.
-/

namespace ShadeGraph

/-- What kind of node this is, as a set of bits. -/
structure Traits where
  bits : BitVec 32
  deriving DecidableEq, Inhabited

namespace Traits

def texture : Traits := ⟨1⟩
def closure : Traits := ⟨2⟩
def shader : Traits := ⟨4⟩
def fileTexture : Traits := ⟨8⟩
def conditional : Traits := ⟨16⟩
def bsdf : Traits := ⟨32⟩
def edf : Traits := ⟨64⟩
def vdf : Traits := ⟨128⟩
def surface : Traits := ⟨256⟩
def volume : Traits := ⟨512⟩
def light : Traits := ⟨1024⟩

def union (a b : Traits) : Traits := ⟨a.bits ||| b.bits⟩

instance : Union Traits := ⟨union⟩

/-- Whether all bits of the second are set in the first. -/
def has (a b : Traits) : Bool := (a.bits &&& b.bits) == b.bits

/-- Whether some bit is set in both. -/
def meets (a b : Traits) : Bool := (a.bits &&& b.bits) != 0

/-- The traits that the type of the first output gives. -/
def ofType : DataType → Traits
  | .closure .bsdf => closure ∪ bsdf
  | .closure .edf => closure ∪ edf
  | .closure .vdf => closure ∪ vdf
  | .shader .surface => shader ∪ surface
  | .shader .volume => shader ∪ volume
  | .shader .light => shader ∪ light
  | .shader .displacement | .material => shader
  | _ => texture

/-- The traits that the category gives. -/
def ofCategory : String → Traits
  | "image" => fileTexture
  | "ifgreater" | "ifgreatereq" | "ifequal" | "switch" => conditional
  | _ => ⟨0⟩

/-- The traits of a node definition. -/
def ofNodeDef (d : NodeDef) : Except Error Traits := do
  let base ←
    match d.outputs with
    | output :: _ => output.type.map ofType
    | [] => pure texture
  pure (base ∪ ofCategory d.category)

end Traits

/-- Source code that implements a node. -/
structure SourceCode where
  name : String
  /-- The function that the code defines. -/
  function : String
  /-- The code, or an expression with the names of inputs in double braces. -/
  text : String
  isInline : Bool
  deriving DecidableEq, Inhabited

mutual

/-- How the code of a node comes about. -/
inductive Implementation where
  | source (code : SourceCode)
  | compound (name function : String) (graph : Graph)
  | procedural (p : Procedural)

structure Node where
  id : NodeId
  name : String
  category : String
  nodedef : String
  traits : Traits
  inputs : List Input
  outputs : List Output
  implementation : Implementation
  scope : Scope

structure Graph where
  name : String
  /-- The node definition that the graph implements. -/
  nodedef : Option String
  /-- The traits of the node behind the first output. -/
  traits : Traits
  nodes : List Node
  inputSockets : List Output
  outputSockets : List Input

end

instance : Inhabited Implementation := ⟨.procedural .constant⟩

namespace Implementation

def inline (name expression : String) : Implementation :=
  .source { name, function := name, text := expression, isInline := true }

def name : Implementation → String
  | source code => code.name
  | compound name _ _ => name
  | procedural p => p.category

def isCompound : Implementation → Bool
  | compound .. => true
  | _ => false

end Implementation

namespace Node

/-- A node without pins. -/
def make (id : NodeId) (name category nodedef : String) (implementation : Implementation)
    (traits : Traits) : Node :=
  { id, name, category, nodedef, traits, inputs := [], outputs := [], implementation, scope := .unknown }

instance : Inhabited Node := ⟨make ⟨0⟩ "" "" "" default .texture⟩

def input? (n : Node) (name : String) : Option Input := n.inputs.find? fun i => i.name == name

def output? (n : Node) (name : String) : Option Output := n.outputs.find? fun o => o.name == name

def inputIndex? (n : Node) (name : String) : Option Nat := n.inputs.findIdx? fun i => i.name == name

def outputIndex? (n : Node) (name : String) : Option Nat := n.outputs.findIdx? fun o => o.name == name

/-- The nodes whose outputs are read, in the order of the inputs. -/
def sources (n : Node) : List NodeId := n.inputs.filterMap Input.sourceNode?

/-- Whether an input of a conditional is one of its branches: its name is `in` with a number. -/
def isBranchName (name : String) : Bool :=
  match name.toList with
  | 'i' :: 'n' :: digits => !digits.isEmpty && digits.all Char.isDigit
  | _ => false

/-- The bits of the branch inputs among the inputs from a position on. -/
def branchBits : Nat → List Input → Mask
  | _, [] => 0
  | index, i :: rest => (if isBranchName i.name then branchBit index else 0) ||| branchBits (index + 1) rest

/-- The branches of a conditional. -/
def branchMask? (n : Node) : Option Mask :=
  if n.traits.has .conditional then some (branchBits 0 n.inputs) else none

end Node

namespace Graph

def empty (name : String) : Graph :=
  { name, nodedef := none, traits := .texture, nodes := [], inputSockets := [], outputSockets := [] }

instance : Inhabited Graph := ⟨empty "Untitled"⟩

/-! ## Looking up -/

def node? (g : Graph) (id : NodeId) : Option Node := g.nodes.find? fun n => n.id == id

def nodeByName? (g : Graph) (name : String) : Option Node := g.nodes.find? fun n => n.name == name

/-- The output that a reference names: an output of a node or an input socket. -/
def output? (g : Graph) (p : PinRef) : Option Output :=
  match p.owner with
  | .graph => g.inputSockets[p.index]?
  | .node id => (g.node? id).bind fun n => n.outputs[p.index]?

/-- The input that a reference names: an input of a node or an output socket. -/
def input? (g : Graph) (p : PinRef) : Option Input :=
  match p.owner with
  | .graph => g.outputSockets[p.index]?
  | .node id => (g.node? id).bind fun n => n.inputs[p.index]?

def inputSocketIndex? (g : Graph) (name : String) : Option Nat := g.inputSockets.findIdx? fun s => s.name == name

def outputSocketIndex? (g : Graph) (name : String) : Option Nat := g.outputSockets.findIdx? fun s => s.name == name

/-- The nodes behind the output sockets. -/
def roots (g : Graph) : List NodeId := g.outputSockets.filterMap Input.sourceNode?

/-- The owner of a pin, given how a node that is not there is shown. -/
def ownerLabel (g : Graph) (absent : NodeId → String) (p : PinRef) : String :=
  match p.owner with
  | .graph => g.name
  | .node id => ((g.node? id).map Node.name).getD (absent id)

/-- An output that is there, by its name and that of its owner. -/
def outputLabel (g : Graph) (p : PinRef) : String :=
  g.ownerLabel (fun _ => "?") p ++ "." ++ ((g.output? p).map Output.name).getD (toString p.index)

/-- An input that is there, by its name and that of its owner. -/
def inputLabel (g : Graph) (p : PinRef) : String :=
  g.ownerLabel (fun _ => "?") p ++ "." ++ ((g.input? p).map Input.name).getD (toString p.index)

/-- A pin that is not there, by its position. If its node is not there either, the identity of the node is shown. -/
def absentLabel (g : Graph) (p : PinRef) : String := g.ownerLabel NodeId.label p ++ "." ++ toString p.index

def freshNodeName (g : Graph) (base : String) : String := Text.freshName (g.nodes.map Node.name) base

/-- The types of all pins, each once. -/
def usedTypes (g : Graph) : List DataType :=
  let types := g.inputSockets.map Output.type ++ g.outputSockets.map Input.type
    ++ g.nodes.flatMap fun n => n.inputs.map Input.type ++ n.outputs.map Output.type
  types.foldl (fun seen t => if seen.contains t then seen else seen ++ [t]) []

/-! ## Updating -/

def addNode (g : Graph) (n : Node) : Graph := { g with nodes := g.nodes ++ [n] }

def addInputSocket (g : Graph) (s : Output) : Graph := { g with inputSockets := g.inputSockets ++ [s] }

def addOutputSocket (g : Graph) (s : Input) : Graph := { g with outputSockets := g.outputSockets ++ [s] }

def modifyNode (g : Graph) (id : NodeId) (f : Node → Node) : Graph :=
  { g with nodes := g.nodes.map fun n => if n.id = id then f n else n }

def modifyInput (g : Graph) (p : PinRef) (f : Input → Input) : Graph :=
  match p.owner with
  | .graph => { g with outputSockets := g.outputSockets.modify p.index f }
  | .node id => g.modifyNode id fun n => { n with inputs := n.inputs.modify p.index f }

def modifyOutput (g : Graph) (p : PinRef) (f : Output → Output) : Graph :=
  match p.owner with
  | .graph => { g with inputSockets := g.inputSockets.modify p.index f }
  | .node id => g.modifyNode id fun n => { n with outputs := n.outputs.modify p.index f }

/-! ## Changes that can fail -/

/-- Steps that change a graph. A step that fails leaves behind what it has done. -/
abbrev Edit := EStateM Error Graph

/-- What a change makes of a graph, or why it fails. -/
def Edit.result (change : Edit Unit) (g : Graph) : Except Error Graph :=
  match change g with
  | .ok _ h => .ok h
  | .error e _ => .error e

end Graph
end ShadeGraph
