import ShadeGraph.Graph.Schedule
import ShadeGraph.Shader.Declaration
import ShadeGraph.Stage

/-!
# Calls

The code that computes the outputs of a node, by its implementation: an expression, a call of a function, or code
generated for the category of the node. A conditional node writes one block for each of its branches; the code of the
nodes that only this branch needs is given as a parameter here, since it consists of calls again.
-/

namespace ShadeGraph

/-- Steps that append to a stage. A step that fails leaves behind what it has appended. -/
abbrev Emit := EStateM Error Stage

namespace Emit

def line (code : Code) : Emit Unit := modify fun s => s.line code

def statement (code : Code) : Emit Unit := modify fun s => s.statement code

def emptyLine : Emit Unit := modify Stage.emptyLine

def block (mark : String → Token) (text : String) : Emit Unit := modify fun s => s.block mark text

def braces (body : Emit Unit) : Emit Unit := do
  modify Stage.openBlock
  body
  modify fun s => s.closeBlock false

/-- Whether a function has not been defined yet; from now on it counts as defined. -/
def isNewFunction (name : String) : Emit Bool := modifyGet fun s => (!s.hasFunction name, s.addFunction name)

end Emit

namespace Surroundings
open Emit

/-- Declares outputs and calls the function that computes them. A function of MDL returns its only output; elsewhere
the outputs are passed behind the arguments. -/
def invoke (e : Surroundings) (function : String) (arguments : List Code) (outputs : List Output) : Emit Unit := do
  match e.language with
  | .mdl =>
    match outputs with
    | [output] =>
      let declaration ← e.language.declareOutput output
      statement (declaration.assign (Code.apply (.calls function) arguments))
    | _ => throw (.multipleOutputs function e.language.name)
  | _ =>
    outputs.forM fun output => do
      let declaration ← e.language.declareOutput output
      statement declaration
    statement (Code.apply (.calls function) (arguments ++ outputs.map fun o => [.writes o.variableName]))

def callSource (e : Surroundings) (n : Node) (code : SourceCode) : Emit Unit := do
  if code.isInline then
    let output ← n.onlyOutput e.language
    let value ← e.fillTemplate n code.text
    let declaration ← e.language.declareOutput output
    statement (declaration.assign value)
  else
    let arguments ← e.values n
    e.invoke code.function arguments n.outputs

def callCompound (e : Surroundings) (n : Node) (function : String) : Emit Unit := do
  let arguments ← e.values n
  e.invoke function arguments n.outputs

/-- The code of a node that passes an input on. -/
def callCopy (e : Surroundings) (n : Node) (name : String) : Emit Unit := do
  let output ← n.onlyOutput e.language
  let input ← n.needInput name
  let value ← e.value input
  let length := if output.type.isArray then some ((input.value.bind Value.arrayLength?).getD 0) else none
  let declaration ← e.language.declare output.type output.variableName length
  statement (declaration.assign value)

def callTemplate (e : Surroundings) (n : Node) (t : Template) : Emit Unit := do
  let value ← e.fillTemplate n t.call
  n.outputs.forM fun output => do
    let declaration ← e.language.declareOutput output
    statement (declaration.assign value)

/-! ## Conditionals -/

/-- The block of one branch: the code that only this branch needs, and the assignment of the branch input. -/
def branchBlock (e : Surroundings) (branch : NodeId → Nat → Emit Unit) (n : Node) (output : Output) (index : Nat) :
    Emit Unit := do
  match n.inputs[index]? with
  | none => throw (.pinNotFound n.name ("in" ++ toString (index + 1)))
  | some input =>
    braces do
      branch n.id index
      let value ← e.value input
      statement (Code.assign [.writes output.variableName] value)

/-- The code of a node that chooses by a comparison. -/
def callCompare (e : Surroundings) (branch : NodeId → Nat → Emit Unit) (n : Node) (c : Comparison) : Emit Unit := do
  let output ← n.onlyOutput e.language
  let value1 ← e.valueOf n "value1"
  let value2 ← e.valueOf n "value2"
  let in1 ← n.needInputIndex "in1"
  let in2 ← n.needInputIndex "in2"
  let declaration ← e.language.declareDefault output
  statement declaration
  line (.text "if (" :: (value1 ++ .text (" " ++ c.operator ++ " ") :: (value2 ++ [.text ")"])))
  e.branchBlock branch n output in1
  line [.text "else"]
  e.branchBlock branch n output in2

def branchIndices (n : Node) : List Nat :=
  let mask := n.branchMask?.getD 0
  (List.range n.inputs.length).filter fun index => (mask &&& branchBit index) != 0

/-- The line in front of a branch of a switch: none for a single branch, and no test for the last one. -/
def switchHead (f : FloatFormat) (which : Code) (count position : Nat) : Option Code :=
  let test := which ++ [.text (" < " ++ f.format (Single.ofNat (position + 1)) ++ ")")]
  if position + 1 = count then if 0 < position then some [.text "else"] else none
  else if position = 0 then some (.text "if (" :: test)
  else some (.text "else if (" :: test)

/-- The code of a node that chooses by a number: the first branch whose position the number does not exceed. -/
def callSwitch (e : Surroundings) (branch : NodeId → Nat → Emit Unit) (n : Node) : Emit Unit := do
  let output ← n.onlyOutput e.language
  let which ← e.valueOf n "which"
  let indices := branchIndices n
  let declaration ← e.language.declareDefault output
  statement declaration
  indices.zipIdx.forM fun (index, position) => do
    match switchHead e.format which indices.length position with
    | some head => line head
    | none => pure ()
    e.branchBlock branch n output index

/-! ## Blur -/

/-- The offsets of the nine texture samples of a blur, in units of its size. -/
def blurOffsets : List (Single × Single) :=
  let minus := Single.ofQuotient true 1 1
  let zero := Single.zero false
  let plus := Single.ofNat 1
  [(minus, minus), (zero, minus), (plus, minus), (minus, zero), (zero, zero), (plus, zero), (minus, plus),
    (zero, plus), (plus, plus)]

/-- The weights of the nine samples. -/
def blurWeights (filter : Option String) : List Single :=
  if filter = some "gaussian" then [1, 2, 1, 2, 4, 2, 1, 2, 1].map fun n => Single.ofQuotient false n 16
  else List.replicate 9 (Single.ofQuotient false 1 9)

/-- The function that samples a texture and the position of its coordinate, if a node reads a texture file through a
function of a coordinate and has one output of the given type. -/
def sampler? (n : Node) (type : DataType) : Option (String × Nat) :=
  match n.implementation, n.inputIndex? "texcoord", n.outputs with
  | .source code, some index, [output] =>
    let hasCoordinate := (n.inputs[index]?.map Input.type) == some (.tuple .vector2)
    if n.traits.has .fileTexture && !code.isInline && output.type == type && hasCoordinate then
      some (code.function, index)
    else none
  | _, _, _ => none

/-- The texture node that feeds an input, with its sampling function and the position of its coordinate. -/
def sampled? (e : Surroundings) (i : Input) (type : DataType) : Option (Node × String × Nat) := do
  let id ← i.sourceNode?
  let n ← e.graph.node? id
  let (function, index) ← sampler? n type
  pure (n, function, index)

/-- Samples a texture at the offsets of a blur and names the samples. -/
def blurSamples (e : Surroundings) (output : Output) (function : String) (arguments : List Code) (index : Nat)
    (size u v : Code) (form : TypeForm) : Nat → List (Single × Single) → Emit (List String)
  | _, [] => pure []
  | k, (du, dv) :: rest => do
    let coordinate ← form.compose
      [u ++ .text (" + " ++ e.format.format du ++ " * ") :: size,
        v ++ .text (" + " ++ e.format.format dv ++ " * ") :: size] false
    let name := output.variableName ++ "_sample" ++ toString k
    e.invoke function (arguments.set index coordinate) [{ output with variableName := name }]
    let names ← blurSamples e output function arguments index size u v form (k + 1) rest
    pure (name :: names)

/-- The code of a blur: the weighted sum of nine samples of the texture that feeds it, or its input as it is when no
texture does. -/
def callBlur (e : Surroundings) (n : Node) : Emit Unit := do
  let output ← n.onlyOutput e.language
  let input ← n.needInput "in"
  let vector2 := DataType.tuple .vector2
  match e.sampled? input output.type with
  | none =>
    let value ← e.value input
    let declaration ← e.language.declareOutput output
    statement (declaration.assign value)
  | some (texture, function, index) =>
    let filter ← n.needInput "filtertype"
    let weights := blurWeights (filter.value.bind fun v => v.asText.toOption)
    let size ← e.valueOf n "size"
    let arguments ← e.values texture
    let coordinate := output.variableName ++ "_texcoord"
    let declaration ← e.language.declare vector2 coordinate none
    statement (declaration.assign ((arguments[index]?).getD []))
    let u ← e.dialect.swizzle [.reads coordinate] vector2 "x" .float
    let v ← e.dialect.swizzle [.reads coordinate] vector2 "y" .float
    let form ← e.dialect.form vector2
    let samples ← e.blurSamples output function arguments index size u v form 0 blurOffsets
    let samplesName := output.variableName ++ "_samples"
    let weightsName := output.variableName ++ "_weights"
    let samplesArray ← e.language.declareArray output.type samplesName (samples.map fun s => [.reads s])
    statement samplesArray
    let weightsArray ← e.language.declareArray .float weightsName
      (weights.map fun w => Code.plain (e.format.format w))
    statement weightsArray
    let terms := (List.range samples.length).map fun i =>
      [.reads samplesName, .text (bracketed i ++ " * "), .reads weightsName, .text (bracketed i)]
    let declaration ← e.language.declareOutput output
    statement (declaration.assign (Code.join " + " terms))

/-! ## Nodes -/

/-- The code of a node, given the code of the branches of a conditional. -/
def callNode (e : Surroundings) (branch : NodeId → Nat → Emit Unit) (n : Node) : Emit Unit :=
  match n.implementation with
  | .source code => e.callSource n code
  | .compound _ function _ => e.callCompound n function
  | .procedural .constant => e.callCopy n "value"
  | .procedural .dot => e.callCopy n "in"
  | .procedural (.compare c) => e.callCompare branch n c
  | .procedural .switch => e.callSwitch branch n
  | .procedural .blur => e.callBlur n
  | .procedural (.template t) => e.callTemplate n t

/-- The nodes that only one branch of a conditional needs. -/
def branchNodes (g : Graph) (conditional : NodeId) (index : Nat) : List Node :=
  g.nodes.filter fun n => n.scope.isInBranch conditional index

/-- The code of the nodes that only one branch of a conditional needs, given the code of a node. -/
def emitBranch (e : Surroundings) (emit : Node → Emit Unit) (conditional : NodeId) (index : Nat) : Emit Unit :=
  (branchNodes e.graph conditional index).forM emit

/-- The code of a node with up to a number of conditionals inside of each other. -/
def emitNode (e : Surroundings) : Nat → Node → Emit Unit
  | 0, _ => throw (.cycle e.graph.name [])
  | depth + 1, n => e.callNode (e.emitBranch (e.emitNode depth)) n

/-- The code of a node. In a schedule a conditional stands behind the nodes in its branches, so that there are no more
conditionals inside of each other than nodes. -/
def call (e : Surroundings) (n : Node) : Emit Unit := e.emitNode (e.graph.nodes.length + 1) n

/-- The code of all nodes that an output needs and that stand outside of the branches of conditionals. -/
def callAll (e : Surroundings) : Emit Unit := do
  let ids ← e.graph.reachable
  (e.graph.nodes.filter fun n => ids.contains n.id && n.scope.isTopLevel).forM e.call

end Surroundings
end ShadeGraph
