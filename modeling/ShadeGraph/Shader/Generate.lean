import ShadeGraph.Graph.Build
import ShadeGraph.Shader.Call

/-!
# Shaders

The whole source code of a graph: the definitions of the types and functions that it needs, the parameters that the
host can set, and a function that computes the outputs. Each language has its own layout: a shader with output
parameters (OSL), a function or a material (MDL), or a function with output parameters that reads uniforms (GLSL).
-/

namespace ShadeGraph

mutual

/-- The names of the types of all pins, those inside of compounds included. -/
def Graph.typeNames : Graph → List String
  | g@⟨_, _, _, nodes, _, _⟩ => g.usedTypes.map DataType.name ++ Graph.innerTypeNames nodes

/-- The names of the types of all pins inside of compounds. -/
def Graph.innerTypeNames : List Node → List String
  | [] => []
  | ⟨_, _, _, _, _, _, _, implementation, _⟩ :: rest => implementation.typeNames ++ Graph.innerTypeNames rest

/-- The names of the types of all pins inside of an implementation. -/
def Implementation.typeNames : Implementation → List String
  | .compound _ _ graph => graph.typeNames
  | .source _ => []
  | .procedural _ => []

end

/-- The name of the block of parameters that the host can set. -/
def publicUniforms : String := "PublicUniforms"

/-- The name of the block of light data that the renderer sets. -/
def lightData : String := "LightData"

/-- The number of lights, which the renderer sets. -/
def lightCount : Uniform where
  type := .integer
  variableName := "u_numActiveLightSources"
  value := some (.integer 0)

namespace Emit

/-- The parameter that an input socket stands for. -/
def ofSocket (s : Output) : Uniform :=
  { type := s.type, variableName := s.variableName, path := s.path, value := s.value }

/-- The parameter that is published for an input. -/
def ofInput (i : Input) : Uniform :=
  { type := i.type, variableName := i.variableName, path := i.path, value := i.value }

/-- The parameters of a graph: its input sockets, and the published inputs of the nodes that an output needs. -/
def published (g : Graph) (ids : List NodeId) : List Uniform :=
  g.inputSockets.map ofSocket ++
    ((g.nodes.filter fun n => ids.contains n.id).flatMap fun n =>
      (n.inputs.filter fun i => i.variableName != "").map ofInput)

/-- Adds the parameters of a graph to the block of public uniforms. -/
def publish (g : Graph) : Emit Unit := do
  let ids ← g.reachable
  modify fun s => (published g ids).foldl (fun s u => s.addUniform publicUniforms u) (s.ensureBlock publicUniforms)

/-- The parameters in the block of public uniforms. -/
def publicParameters : Emit (List Uniform) :=
  return (((← get).block? publicUniforms).map UniformBlock.uniforms).getD []

/-- The definitions that the types of a graph need, each once. -/
def typeDefinitions (d : Dialect) (g : Graph) : List String :=
  ((d.definitions g.typeNames).filterMap TypeForm.definition).foldl
    (fun seen text => if seen.contains text then seen else seen ++ [text]) []

def defineTypes (d : Dialect) (o : Options) (g : Graph) : Emit Unit := do
  if o.typeDefinitions then
    let definitions := typeDefinitions d g
    definitions.forM (block Token.text)
    if !definitions.isEmpty then emptyLine

/-! ## Bodies -/

def assignSocket (e : Surroundings) (s : Input) : Emit Unit := do
  let value ← e.unpublished s
  statement (Code.assign [.writes s.variableName] value)

/-- A body that computes all nodes and assigns all output sockets. -/
def assigningBody (e : Surroundings) : Emit Unit :=
  braces do
    e.callAll
    e.graph.outputSockets.forM (assignSocket e)

/-- A closure as a material. -/
def materialOf (traits : Traits) (value : Code) : Code :=
  if traits.has .shader then value
  else if traits.has .edf then
    .text "material(surface: material_surface(emission: material_emission(emission: " :: (value ++ [.text ")))"])
  else if traits.has .vdf then .text "material(volume: material_volume(scattering: " :: (value ++ [.text "))"])
  else .text "material(surface: material_surface(scattering: " :: (value ++ [.text "))"])

def isMaterial (type : DataType) : Bool := type.isClosure || type.isShader

/-- A body that returns its only output: statements for a plain value, an expression for a closure or a shader. -/
def returningBody (e : Surroundings) (result : Input) (wrap : Bool) : Emit Unit := do
  if isMaterial result.type then
    line [.text "= let"]
    braces e.callAll
    let value ← e.unpublished result
    statement (.text "in " :: (if wrap then materialOf e.graph.traits value else value))
  else
    braces do
      e.callAll
      let value ← e.unpublished result
      statement (.text "return " :: value)

/-- Writes parameters in parentheses, each on a line of its own. -/
def parameterLines (parameters : List Code) : Emit Unit := do
  line [.text "("]
  parameters.zipIdx.forM fun (parameter, index) =>
    line (.text "    " :: (parameter ++ [.text (if index + 1 = parameters.length then "" else ",")]))
  line [.text ")"]

def onlySocket (l : Language) (g : Graph) : Except Error Input :=
  match g.outputSockets with
  | [socket] => .ok socket
  | [] => .error (.pinNotFound g.name "out")
  | _ => .error (.multipleOutputs g.name l.name)

/-! ## Functions -/

/-- A function that passes its outputs as parameters. -/
def voidFunction (e : Surroundings) (function : String) : Emit Unit := do
  let inputs ← (e.graph.inputSockets.mapM (fun s => e.language.declare s.type s.variableName none) :
    Except Error (List Code))
  let outputs ← (e.graph.outputSockets.mapM (fun s => e.language.declare s.type s.variableName none) :
    Except Error (List Code))
  let parameters := inputs ++ outputs.map (Language.qualified e.dialect.outputQualifier)
  line (.text "void " :: Code.apply (.defines function) parameters)
  assigningBody e
  emptyLine

/-- A parameter of a function that returns its output. -/
def returningParameter (e : Surroundings) (type : DataType) (name : String) (value : Option Value) (uniform : Bool) :
    Except Error Code := do
  let parameter ← e.language.parameter type name value uniform e.format
  pure (if uniform then Language.qualified e.dialect.uniformQualifier parameter else parameter)

/-- A function that returns its only output. -/
def returningFunction (e : Surroundings) (function : String) (result : Input) : Emit Unit := do
  let parameters ← (e.graph.inputSockets.mapM
    (fun s => returningParameter e s.type s.variableName s.value s.uniform) : Except Error (List Code))
  let typeName ← e.dialect.typeName result.type
  line [.text (typeName ++ " "), .defines function]
  parameterLines parameters
  returningBody e result false
  emptyLine

mutual

/-- Defines the functions that the nodes of a graph call, if an output needs them. -/
def defineFunctions (l : Language) (f : FloatFormat) : Graph → Emit Unit
  | g@⟨_, _, _, nodes, _, _⟩ => do
    let ids ← g.reachable
    defineFunctionsOf l f ids nodes

/-- Defines the functions that nodes of a list call, if they are among the given ones. -/
def defineFunctionsOf (l : Language) (f : FloatFormat) (ids : List NodeId) : List Node → Emit Unit
  | [] => pure ()
  | ⟨id, _, _, _, _, _, _, implementation, _⟩ :: rest => do
    if ids.contains id then defineFunction l f implementation
    defineFunctionsOf l f ids rest

/-- Defines the function of an implementation, unless one of its name has been defined. The functions that a graph
calls are defined before its own. -/
def defineFunction (l : Language) (f : FloatFormat) : Implementation → Emit Unit
  | .source code => do
    if !code.isInline then
      if ← isNewFunction code.function then
        block (.sourceLine code.function) code.text
        emptyLine
  | .compound _ function graph => do
    if ← isNewFunction function then
      match l with
      | .mdl =>
        let result ← onlySocket l graph
        defineFunctions l f graph
        returningFunction ⟨l, f, graph⟩ function result
      | _ =>
        defineFunctions l f graph
        voidFunction ⟨l, f, graph⟩ function
  | .procedural p => do
    match p with
    | .template ⟨_, _, some function, body⟩ =>
      if ← isNewFunction function then
        block (.sourceLine function) (body.getD "")
        emptyLine
    | _ => pure ()

end

/-! ## Layouts -/

/-- The name of a shader, made valid and unlike the other names at the top level. -/
def title (d : Dialect) (name : String) : Emit String :=
  modifyGet fun s =>
    let name := d.validName s.identifiers name
    (name, { s with identifiers := name :: s.identifiers })

def oslShader (e : Surroundings) (o : Options) (name : String) : Emit Unit := do
  publish e.graph
  defineTypes e.dialect o e.graph
  defineFunctions e.language e.format e.graph
  let inputs ← ((← publicParameters).mapM
    (fun u => e.language.parameter u.type u.variableName u.value true e.format) : Except Error (List Code))
  let outputs ← (e.graph.outputSockets.mapM (fun s => do
    let declaration ← e.language.declare s.type s.variableName none
    let value ← e.dialect.default s.type true
    pure (Language.qualified "output" (declaration.assign (Code.plain value)))) : Except Error (List Code))
  let name ← title e.dialect name
  line [.text "shader ", .defines name]
  parameterLines (inputs ++ outputs)
  assigningBody e

def mdlImports : List String := ["::df::*", "::tex::*", "::math::*", "::state::*", "::anno::*"]

def mdlShader (e : Surroundings) (o : Options) (name : String) : Emit Unit := do
  let result ← onlySocket e.language e.graph
  statement [.text "mdl 1.6"]
  emptyLine
  mdlImports.forM fun i => statement [.text ("import " ++ i)]
  emptyLine
  publish e.graph
  defineTypes e.dialect o e.graph
  defineFunctions e.language e.format e.graph
  let parameters ← ((← publicParameters).mapM (fun u => returningParameter e u.type u.variableName u.value true) :
    Except Error (List Code))
  let typeName ← if isMaterial result.type then pure "material" else e.dialect.typeName result.type
  let name ← title e.dialect name
  line [.text ("export " ++ typeName ++ " "), .defines name]
  parameterLines parameters
  returningBody e result true

def uniformLine (e : Surroundings) (u : Uniform) : Except Error Code := do
  let length := u.value.bind Value.arrayLength?
  if length = some 0 then throw (.emptyArray (← e.dialect.typeName u.type))
  let declaration ← e.language.declare u.type u.variableName length
  pure (Language.qualified e.dialect.uniformQualifier (declaration ++ [.text ";"]))

def uniformLines (e : Surroundings) (b : UniformBlock) : Except Error (List Code) := do
  if b.uniforms.isEmpty then return []
  let lines ← b.uniforms.mapM (uniformLine e)
  pure ([[.text ("// Uniform block: " ++ b.name)]] ++ lines ++ [[]])

def declareUniforms (e : Surroundings) : Emit Unit := do
  let lines ← ((← get).blocks.mapM (uniformLines e) : Except Error (List (List Code)))
  lines.flatten.forM line

def glslShader (e : Surroundings) (o : Options) (name : String) : Emit Unit := do
  if 1 < e.graph.outputSockets.length then throw (.multipleOutputs e.graph.name e.language.name)
  publish e.graph
  modify fun s => s.addUniform lightData lightCount
  defineTypes e.dialect o e.graph
  declareUniforms e
  defineFunctions e.language e.format e.graph
  let outputs ← (e.graph.outputSockets.mapM (fun s => e.language.declare s.type s.variableName none) :
    Except Error (List Code))
  line (.text "void " :: Code.apply (.defines name) (outputs.map (Language.qualified e.dialect.outputQualifier)))
  assigningBody e

/-- The whole source code of a graph. -/
def shader (l : Language) (o : Options) (name : String) (g : Graph) : Emit Unit :=
  let e : Surroundings := ⟨l, o.floatFormat, g⟩
  match l with
  | .osl => oslShader e o name
  | .mdl => mdlShader e o name
  | .glsl => glslShader e o name

end Emit

/-- A generated shader: its name, the graph behind it, and its source code. -/
structure Shader where
  name : String
  graph : Graph
  stage : Stage
  deriving Inhabited

namespace Shader

def text (s : Shader) : String := s.stage.text

/-- Replaces a text in the name and in the source code. -/
def replace (s : Shader) (pattern value : String) : Shader :=
  { s with name := Text.replace pattern value s.name, stage := s.stage.replace pattern value }

/-- The shader of a finished graph. -/
def ofGraph (l : Language) (o : Options) (name : String) (g : Graph) : Except Error Shader :=
  match Emit.shader l o name g { indent := o.indent } with
  | .ok _ stage => .ok { name, graph := g, stage }
  | .error e _ => .error e

/-- The element of a document for which a shader is generated. -/
inductive Element where
  | graph (g : NodeGraph)
  | node (n : NodeInstance)
  deriving Inhabited

def Element.build (r : Request) : Element → Build Graph
  | .graph g => Build.nodeGraph r g
  | .node n => Build.singleNode r n

/-- Writes the shader of a finished graph. The names of earlier source code are free again. -/
def write (r : Request) (name : String) (g : Graph) : Build Shader := do
  modify fun s => { s with identifiers := [] }
  fun s =>
    match Emit.shader r.generator.language r.options name g
      { indent := r.options.indent, identifiers := s.identifiers } with
    | .ok _ stage => .ok { name, graph := g, stage } { s with identifiers := stage.identifiers }
    | .error e stage => .error e { s with identifiers := stage.identifiers }

def generate (r : Request) (name : String) (element : Element) : Build Shader := do
  let g ← element.build r
  write r name g

end Shader
end ShadeGraph
