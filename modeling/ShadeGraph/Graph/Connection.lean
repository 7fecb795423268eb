import ShadeGraph.Graph.Basic

/-!
# Connections

Connecting and disconnecting pins and removing nodes. A connection is checked against the types of its two pins, and
recorded at both.
-/

namespace ShadeGraph.Graph

/-- Records a connection at both ends, without any check. -/
def link (g : Graph) (source target : PinRef) : Graph :=
  let g := g.modifyInput target fun i => { i with source := some source, value := none }
  g.modifyOutput source fun o => if o.readers.contains target then o else { o with readers := o.readers ++ [target] }

/-- Takes back what an output records about a reader. -/
def forget (g : Graph) (source target : PinRef) : Graph :=
  g.modifyOutput source fun o => { o with readers := o.readers.filter fun r => r != target }

def disconnect (g : Graph) (target : PinRef) : Graph :=
  match (g.input? target).bind Input.source with
  | none => g
  | some source => (g.modifyInput target fun i => { i with source := none }).forget source target

/-- Connects an output to an input, in place of what the input read before. -/
def Edit.connect (source target : PinRef) : Edit Unit := do
  let g ← get
  match g.output? source with
  | none => throw (.pinNotFound g.name (g.absentLabel source))
  | some output =>
    match g.input? target with
    | none => throw (.pinNotFound g.name (g.absentLabel target))
    | some input =>
      if !compatible output.type input.channels input.type then
        throw (.incompatiblePins (g.outputLabel source) output.type.name (g.inputLabel target) input.type.name)
      modify fun g => g.disconnect target
      modify fun g => g.link source target

def connect (g : Graph) (source target : PinRef) : Except Error Graph := (Edit.connect source target).result g

/-- Takes back what outputs record about the inputs of a node, from a position on. -/
def forgetInputs (id : NodeId) : Graph → Nat → List Input → Graph
  | g, _, [] => g
  | g, index, i :: rest =>
    let g :=
      match i.source with
      | some source => g.forget source (.ofNode id index)
      | none => g
    forgetInputs id g (index + 1) rest

/-- Removes a node with all its connections. -/
def removeNode (g : Graph) (id : NodeId) : Graph :=
  match g.node? id with
  | none => g
  | some n =>
    let g := { g with nodes := g.nodes.filter fun m => m.id != id }
    let g := forgetInputs id g 0 n.inputs
    (n.outputs.flatMap Output.readers).foldl (fun g r => g.modifyInput r fun i => { i with source := none }) g

end ShadeGraph.Graph
