import ShadeGraph.Files.Tree
import ShadeGraph.Graph.Flatten
import ShadeGraph.Graph.Naming
import ShadeGraph.Graph.Schedule
import ShadeGraph.Language

/-!
# Building graphs

The graph of a node graph or of a single node of a document, for a generator. Each node gets the pins of its
definition and an implementation: generated code, source code or a graph of its own. A finished graph is flattened, if
that is asked for, then scheduled, scoped and named.

The names of the compound graphs that are being built stand on a stack, so that a graph that contains itself is found.
-/

namespace ShadeGraph

/-- What graphs are built from. -/
structure Request where
  document : Document
  generator : Generator
  options : Options := {}
  searchPath : SearchPath := {}
  files : FileTree := {}
  deriving Inhabited

/-- The source files read so far. -/
abbrev SourceCache := List (String × String)

/-- What changes while graphs are built. -/
structure BuildState where
  cache : SourceCache := []
  ids : IdSupply := {}
  /-- The compound graphs that are being built, the innermost one first. -/
  stack : List String := []
  /-- The names at the top level of the last source code. -/
  identifiers : List String := []
  deriving Inhabited

abbrev Build := EStateM Error BuildState

namespace Build

/-- The text of a source file, read once. -/
def source (r : Request) (file : String) : Build String := do
  match (← get).cache.lookup file with
  | some text => pure text
  | none =>
    let text ← r.searchPath.read r.files file
    modify fun s => { s with cache := s.cache ++ [(file, text)] }
    pure text

def freshId : Build NodeId := modifyGet fun s => (s.ids.fresh.1, { s with ids := s.ids.fresh.2 })

/-- The type of a name, which the language must have. -/
def typeOf (r : Request) (name : String) : Except Error DataType := do
  match DataType.ofName? name with
  | none => throw (.unknownType name)
  | some type =>
    let _ ← r.generator.dialect.form type
    pure type

/-- Where a pin stands in the document. -/
def pinPath (scope node pin : String) : String :=
  if scope = "" then node ++ "/" ++ pin else scope ++ "/" ++ node ++ "/" ++ pin

/-! ## Implementations -/

/-- The renderer that implementations are looked up for. -/
def target (r : Request) : String := r.options.target.getD r.generator.language.target

/-- The source code of an implementation; an expression is put on one line. -/
def sourceCode (r : Request) (s : SourceDef) : Build SourceCode := do
  let text ←
    match s.source, s.file with
    | some text, _ => pure text
    | none, some file => source r file
    | none, none => throw (.missingSource s.name)
  let isInline := s.isInline
  let text := if isInline then String.ofList (text.toList.filter fun c => c != '\n' && c != '\r') else text
  pure { name := s.name, function := s.functionName, text, isInline }

/-- The implementation of a node definition: generated code, source code, or else what `enter` makes of it. -/
def implementation (r : Request) (enter : NodeDef → Build Implementation) (d : NodeDef) : Build Implementation := do
  match r.generator.registry.find? d.category with
  | some p => pure (.procedural p)
  | none =>
    match r.document.source? d.name r.generator.language.name (target r) with
    | some s => return .source (← sourceCode r s)
    | none => enter d

/-! ## Nodes -/

/-- An input of a node, with the default value of its definition or the one that the instance gives. -/
def input (r : Request) (scope : String) (node : NodeInstance) (p : PinDef) : Except Error Input := do
  let type ← typeOf r p.typeName
  let default ← p.default
  let value ←
    match node.input? p.name with
    | none => pure default
    | some binding =>
      if binding.typeName ≠ p.typeName then throw (.typeMismatch p.typeName binding.typeName)
      match binding.value with
      | some text => (Value.read type text).map some
      | none => pure default
  pure { name := p.name, type, value, uniform := p.uniform, path := pinPath scope node.name p.name }

def output (r : Request) (p : PinDef) : Except Error Output := do
  let type ← typeOf r p.typeName
  pure { name := p.name, type }

/-- The node of an instance, without connections. -/
def node (r : Request) (enter : NodeDef → Build Implementation) (scope : String) (n : NodeInstance) : Build Node := do
  match r.document.definitionOf? n with
  | none => throw (.unresolvedNodeDef n.name n.category n.typeName)
  | some d =>
    let traits ← Traits.ofNodeDef d
    if traits.meets (.closure ∪ .shader) && !r.generator.language.hasClosures then
      throw (.closuresUnsupported n.name n.typeName r.generator.language.name)
    let how ← implementation r enter d
    let inputs ← (d.inputs.mapM (input r scope n) : Except Error (List Input))
    let outputs ← (d.outputs.mapM (output r) : Except Error (List Output))
    if traits.has .conditional && maxBranches < inputs.length then
      throw (.tooManyBranches n.name inputs.length maxBranches)
    match n.inputs.find? fun b => (d.input? b.name).isNone with
    | some b => throw (.pinNotFound n.name b.name)
    | none =>
      let id ← freshId
      pure { Node.make id n.name d.category d.name how traits with inputs, outputs }

/-! ## Connections -/

/-- The nodes of a graph by name; the last one of a name counts. -/
abbrev NodeNames := List (String × NodeId)

def lookup (g : Graph) (names : NodeNames) (name : String) : Except Error NodeId :=
  match List.lookup name names with
  | some id => .ok id
  | none => .error (.nodeNotFound g.name name)

def inputRef (g : Graph) (id : NodeId) (name : String) : Except Error PinRef :=
  match g.node? id with
  | none => .error (.nodeNotFound g.name id.label)
  | some n =>
    match n.inputIndex? name with
    | some index => .ok (.ofNode id index)
    | none => .error (.pinNotFound n.name name)

/-- The output of a node by name, or its first one. -/
def outputRef (g : Graph) (id : NodeId) (name : Option String) : Except Error PinRef :=
  match g.node? id with
  | none => .error (.nodeNotFound g.name id.label)
  | some n =>
    let index :=
      match name with
      | some name => n.outputIndex? name
      | none => if n.outputs.isEmpty then none else some 0
    match index with
    | some index => .ok (.ofNode id index)
    | none => .error (.pinNotFound n.name (name.getD "out"))

def connectThrough (g : Graph) (channels : Option String) (source target : PinRef) : Except Error Graph :=
  (g.modifyInput target fun i => { i with channels }).connect source target

/-- Connects an input of a node to an output of another one. -/
def bindNode (g : Graph) (source target : NodeId) (b : InputBinding) : Except Error Graph := do
  let source ← outputRef g source b.output
  let target ← inputRef g target b.name
  connectThrough g b.channels source target

/-- Connects an input of a node as its binding says. -/
def bindInput (names : NodeNames) (id : NodeId) (g : Graph) (b : InputBinding) : Except Error Graph := do
  match b.nodeName, b.interfaceName with
  | some name, _ =>
    let source ← lookup g names name
    bindNode g source id b
  | none, some name =>
    match g.inputSocketIndex? name with
    | none => throw (.pinNotFound g.name name)
    | some index =>
      let target ← inputRef g id b.name
      connectThrough g b.channels (.socket index) target
  | none, none => pure g

def bindInstance (names : NodeNames) (g : Graph) (n : NodeInstance) : Except Error Graph := do
  let id ← lookup g names n.name
  n.inputs.foldlM (bindInput names id) g

/-- Connects an output socket to the node that drives it. -/
def bindOutput (names : NodeNames) (g : Graph) (o : GraphOutput × Nat) : Except Error Graph := do
  let id ← lookup g names o.1.nodeName
  let source ← outputRef g id o.1.output
  connectThrough g o.1.channels source (.socket o.2)

/-! ## Graphs -/

def flatten (g : Graph) : Build Graph := fun s =>
  match Graph.Rewiring.flatten (g, s.ids) with
  | .ok _ (g, ids) => .ok g { s with ids }
  | .error e (_, ids) => .error e { s with ids }

/-- The traits of the node behind the first output. -/
def traitsOf (g : Graph) : Traits :=
  match (g.outputSockets.head?.bind Input.sourceNode?).bind g.node? with
  | some n => n.traits
  | none => .texture

/-- Flattens, schedules, scopes and names a graph. -/
def finish (r : Request) (publish : Bool) (g : Graph) : Build Graph := do
  let g ← if r.options.flatten then flatten g else pure g
  let g ← g.sort
  let g := g.assignScopes.assignVariables r.generator.language publish
  pure { g with traits := traitsOf g }

/-- The pins of the interface of a graph: those of the definition it implements, or else its own. -/
def interface (r : Request) (g : NodeGraph) : Except Error (List PinDef) :=
  match g.nodedef with
  | none => .ok g.inputs
  | some name =>
    match r.document.nodedef? name with
    | some d => .ok d.inputs
    | none => .error (.unresolvedNodeDef g.name "nodegraph" name)

def inputSocket (r : Request) (graph : String) (p : PinDef) : Except Error Output := do
  let type ← typeOf r p.typeName
  let value ← p.default
  pure { name := p.name, type, value, uniform := p.uniform, path := graph ++ "/" ++ p.name }

def outputSocket (r : Request) (o : GraphOutput) : Except Error Input := do
  let type ← typeOf r o.typeName
  pure { name := o.name, type }

/-- The nodes of a node graph with all connections, given how implementations by graphs are found. -/
def wire (r : Request) (enter : NodeDef → Build Implementation) (g : NodeGraph) : Build Graph := do
  let pins ← interface r g
  let inputSockets ← (pins.mapM (inputSocket r g.name) : Except Error (List Output))
  let outputSockets ← (g.outputs.mapM (outputSocket r) : Except Error (List Input))
  let nodes ← g.nodes.mapM (node r enter g.name)
  let names : NodeNames := (nodes.map fun n => (n.name, n.id)).reverse
  let graph : Graph := { Graph.empty g.name with nodedef := g.nodedef, inputSockets, outputSockets, nodes }
  let graph ← (g.nodes.foldlM (bindInstance names) graph : Except Error Graph)
  (g.outputs.zipIdx.foldlM (bindOutput names) graph : Except Error Graph)

/-- The graph of a node graph, given how implementations by graphs are found. -/
def assemble (r : Request) (enter : NodeDef → Build Implementation) (g : NodeGraph) : Build Graph := do
  let graph ← wire r enter g
  finish r (← get).stack.isEmpty graph

/-! ## Graphs inside of graphs -/

/-- Enters the graph of a compound, which must not be entered already. -/
def push (name : String) : Build Unit := do
  if (← get).stack.contains name then throw (.cyclicCompound name)
  modify fun s => { s with stack := name :: s.stack }

/-- Leaves the graph of the innermost compound. -/
def pop : Build Unit := modify fun s => { s with stack := s.stack.tail }

/-- Takes steps inside of the graph of a compound, which is left whether they fail or not. -/
def within {α : Type} (name : String) (steps : Build α) : Build α := do
  push name
  try steps finally pop

/-- The implementation of a node definition by a node graph. -/
def compound (r : Request) (build : NodeGraph → Build Graph) (d : NodeDef) : Build Implementation := do
  match r.document.graphFor? d.name with
  | none => throw (.missingImplementation d.name r.generator.language.name (target r))
  | some inner =>
    let graph ← within inner.name (build inner)
    pure (.compound inner.name (r.generator.dialect.validName [] inner.name) graph)

/-- The graph of a node graph with graphs inside of graphs down to some depth. -/
def nestedGraph (r : Request) : Nat → NodeGraph → Build Graph
  | 0, g => throw (.cyclicCompound g.name)
  | depth + 1, g => assemble r (compound r (nestedGraph r depth)) g

/-- The graph of a node graph. Each graph on the way down has another name, so that there are no more of them than the
document has. -/
def nodeGraph (r : Request) (g : NodeGraph) : Build Graph := nestedGraph r (r.document.nodegraphs.length + 1) g

/-! ## Single nodes -/

/-- Connects an input of a node to the node of the document that it reads, given how that one is added. -/
def addSource (r : Request) (add : NodeInstance → Graph × NodeNames → Build (NodeId × Graph × NodeNames))
    (target : NodeId) (start : Graph × NodeNames) (b : InputBinding) : Build (Graph × NodeNames) := do
  match b.nodeName with
  | none => pure start
  | some name =>
    match r.document.node? name with
    | none => throw (.nodeNotFound r.document.name name)
    | some above =>
      let (source, g, names) ← add above start
      let g ← bindNode g source target b
      pure (g, names)

/-- Adds a node and everything that it reads, down to some depth. A node is noted before the nodes that it reads are
added, and one that is noted is not added again. -/
def addUpstream (r : Request) : Nat → NodeInstance → Graph × NodeNames → Build (NodeId × Graph × NodeNames)
  | 0, n, _ => throw (.nodeNotFound r.document.name n.name)
  | depth + 1, n, (g, names) =>
    match List.lookup n.name names with
    | some id => pure (id, g, names)
    | none => do
      let added ← node r (compound r (nodeGraph r)) "" n
      let (g, names) ← n.inputs.foldlM (addSource r (addUpstream r depth) added.id)
        (g.addNode added, (n.name, added.id) :: names)
      pure (added.id, g, names)

/-- Makes the unconnected inputs of a node input sockets, from a position on. -/
def exposeInputs (id : NodeId) : Graph → Nat → List Input → Except Error Graph
  | g, _, [] => .ok g
  | g, index, i :: rest => do
    if i.isConnected then exposeInputs id g (index + 1) rest
    else
      let socket : Output := { name := i.name, type := i.type, value := i.value, uniform := i.uniform, path := i.path }
      let g ← (g.addInputSocket socket).connect (.socket g.inputSockets.length) (.ofNode id index)
      exposeInputs id g (index + 1) rest

/-- Makes the outputs of a node output sockets, from a position on. -/
def exposeOutputs (id : NodeId) : Graph → Nat → List Output → Except Error Graph
  | g, _, [] => .ok g
  | g, index, o :: rest => do
    let g ← (g.addOutputSocket { name := o.name, type := o.type }).connect (.ofNode id index)
      (.socket g.outputSockets.length)
    exposeOutputs id g (index + 1) rest

/-- The graph of a single node with everything that it reads. On the way up only the first node may come from elsewhere
than the document, and the last one is noted already. -/
def singleNode (r : Request) (n : NodeInstance) : Build Graph := do
  let (id, g, _) ← addUpstream r (r.document.nodes.length + 2) n (Graph.empty n.name, [])
  let pins := (g.node? id).map fun n => (n.inputs, n.outputs)
  let (inputs, outputs) := pins.getD ([], [])
  let g ← exposeInputs id g 0 inputs
  let g ← exposeOutputs id g 0 outputs
  finish r (← get).stack.isEmpty g

end Build
end ShadeGraph
