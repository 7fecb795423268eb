import ShadeGraph.Graph.Connection

/-!
# Flattening

Replacing compound nodes by the nodes of their graphs. What reads a socket inside reads what feeds the compound there,
and what reads the compound reads what drives the socket; channels on both sides of a socket are composed, and a
literal is swizzled to the type of the input that receives it.
-/

namespace ShadeGraph

/-- The channels that read through the first ones, which make a value of some type, and then through the second
ones. -/
def composeChannels (first second : Option String) (between : DataType) : Except Error (Option String) :=
  match first, second with
  | some first, some second => do
    let chars ← second.toList.mapM fun c =>
      match (between.channelIndex? c).bind fun index => first.toList[index]? with
      | some channel => pure channel
      | none => throw (.invalidChannel between.name c)
    pure (some (String.ofList chars))
  | some first, none => .ok (some first)
  | none, second => .ok second

/-- The literal that an input of some type receives through channels. -/
def literalFor (value : Option Value) (channels : Option String) (target : DataType) : Except Error (Option Value) :=
  match value with
  | none => .ok none
  | some value =>
    match channels with
    | some channels => (value.swizzle channels target).map some
    | none => if value.type = target then .ok (some value) else .error (.typeMismatch target.name value.type.name)

mutual

/-- The number of nodes, those inside of compounds included. -/
def Graph.weight : Graph → Nat
  | ⟨_, _, _, nodes, _, _⟩ => Graph.weightOf nodes

def Graph.weightOf : List Node → Nat
  | [] => 0
  | ⟨_, _, _, _, _, _, _, implementation, _⟩ :: rest => implementation.weight + 1 + Graph.weightOf rest

def Implementation.weight : Implementation → Nat
  | .compound _ _ graph => graph.weight
  | .source _ => 0
  | .procedural _ => 0

end

namespace Graph

/-- Steps that change a graph and use up node identities. A step that fails leaves behind what it has done. -/
abbrev Rewiring := EStateM Error (Graph × IdSupply)

namespace Rewiring

def update (f : Graph → Graph) : Rewiring Unit := modify fun (g, ids) => (f g, ids)

def current : Rewiring Graph := return (← get).1

def freshId : Rewiring NodeId := modifyGet fun (g, ids) => (ids.fresh.1, (g, ids.fresh.2))

/-- Connects an input to what feeds the compound at one of its inner input sockets. -/
def bindSocket (compound : Node) (inner : Graph) (socket : Nat) (target : PinRef) : Rewiring Unit := do
  match inner.inputSockets[socket]?, (← current).input? target with
  | some socket, some input =>
    match compound.input? socket.name with
    | none =>
      let value ← literalFor socket.value input.channels input.type
      update fun g => g.modifyInput target fun i => { i with value, channels := none }
    | some outer =>
      match outer.source with
      | some source =>
        let channels ← composeChannels outer.channels input.channels outer.type
        update fun g => (g.modifyInput target fun i => { i with channels }).link source target
      | none =>
        let value ← literalFor outer.value input.channels input.type
        let path := if input.channels.isNone then outer.path else input.path
        update fun g => g.modifyInput target fun i =>
          { i with value, channels := none, path, uniform := i.uniform || outer.uniform }
  | _, _ => pure ()

/-- Adds a copy of an inner node without its connections. -/
def copyNode (compound : Node) (n : Node) : Rewiring (NodeId × NodeId) := do
  let id ← freshId
  update fun g => g.addNode { n with
    id
    name := g.freshNodeName (compound.name ++ "_" ++ n.name)
    inputs := n.inputs.map fun i => { i with source := none }
    outputs := n.outputs.map fun o => { o with readers := [] } }
  pure (n.id, id)

/-- Connects an input to what an inner source has become. -/
def rewire (compound : Node) (inner : Graph) (copies : List (NodeId × NodeId)) (source target : PinRef) :
    Rewiring Unit := do
  match source.owner with
  | .graph => bindSocket compound inner source.index target
  | .node old =>
    match copies.lookup old with
    | some new => update fun g => g.link (.ofNode new source.index) target
    | none => pure ()

/-- Connects the inputs of a copy like those of its inner node, from a position on. -/
def rewireInputs (compound : Node) (inner : Graph) (copies : List (NodeId × NodeId)) (id : NodeId) :
    Nat → List Input → Rewiring Unit
  | _, [] => pure ()
  | index, i :: rest => do
    match i.source with
    | some source => rewire compound inner copies source (.ofNode id index)
    | none => pure ()
    rewireInputs compound inner copies id (index + 1) rest

/-- Connects one reader of a compound's output to what drives the socket behind it. -/
def rewireReader (compound : Node) (inner : Graph) (copies : List (NodeId × NodeId)) (socket : Input)
    (target : PinRef) : Rewiring Unit := do
  match (← current).input? target with
  | none => pure ()
  | some input =>
    let channels ← composeChannels socket.channels input.channels socket.type
    update fun g => g.modifyInput target fun i => { i with channels }
    match socket.source with
    | some source => rewire compound inner copies source target
    | none =>
      let value ← literalFor socket.value channels input.type
      update fun g => g.modifyInput target fun i => { i with value, channels := none }

/-- Replaces a compound by the nodes of its graph. -/
def inlineCompound (compound : Node) (inner : Graph) : Rewiring Unit := do
  update fun g => g.removeNode compound.id
  let copies ← inner.nodes.mapM (copyNode compound)
  inner.nodes.forM fun n =>
    match copies.lookup n.id with
    | some id => rewireInputs compound inner copies id 0 n.inputs
    | none => pure ()
  (compound.outputs.zip inner.outputSockets).forM fun (output, socket) =>
    output.readers.forM (rewireReader compound inner copies socket)

/-- The first compound of a list of nodes, with its graph. -/
def firstCompound? : List Node → Option (Node × Graph)
  | [] => none
  | n :: rest =>
    match n.implementation with
    | .compound _ _ inner => some (n, inner)
    | _ => firstCompound? rest

/-- Replaces up to a number of compounds. -/
def inlineUpTo : Nat → Rewiring Unit
  | 0 => pure ()
  | count + 1 => do
    match firstCompound? (← current).nodes with
    | none => pure ()
    | some (compound, inner) =>
      inlineCompound compound inner
      inlineUpTo count

/-- Replaces compounds until there are none. Each step removes a node for good, so there are no more steps than
nodes. -/
def flatten : Rewiring Unit := do
  inlineUpTo (← current).weight

end Rewiring
end Graph
end ShadeGraph
