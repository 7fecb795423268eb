import ShadeGraph.Proofs.Graph.Renaming
import ShadeGraph.Proofs.Outcome
import ShadeGraph.Shader.Generate

/-!
# Source code of graphs with other node identities

The source code of a graph shows its names, types and values, but never an identity: a graph with other identities gives
the same source code and the same uniforms, or the same error.
-/

namespace ShadeGraph

open Function Emit

variable {f : NodeId → NodeId} {α β γ : Type}

theorem lift_map_bind {x : Except Error α} {φ : α → β} {k : β → Emit γ} :
    ((liftM (x.map φ) : Emit β) >>= k) = (liftM x : Emit α) >>= fun a => k (φ a) := by
  cases x <;> rfl

theorem except_mapM_map {φ : α → β} {step : α → Except Error γ} {step' : β → Except Error γ}
    (h : ∀ a, step' (φ a) = step a) (l : List α) : (l.map φ).mapM step' = l.mapM step := by
  induction l with
  | nil => rfl
  | cons a l ih => rw [List.map_cons, List.mapM_cons, List.mapM_cons, h, ih]

namespace Node

theorem onlyOutput_rename (n : Node) (l : Language) :
    (n.rename f).onlyOutput l = (n.onlyOutput l).map (Output.rename f) := by
  unfold onlyOutput
  rw [outputs_rename, name_rename]
  match n.outputs with
  | [] => rfl
  | [_] => rfl
  | _ :: _ :: _ => rfl

theorem needInput_rename (n : Node) (name : String) :
    (n.rename f).needInput name = (n.needInput name).map (Input.rename f) := by
  unfold needInput
  rw [input?_rename, name_rename]
  cases n.input? name <;> rfl

@[simp] theorem needInputIndex_rename (n : Node) (name : String) :
    (n.rename f).needInputIndex name = n.needInputIndex name := by
  simp [needInputIndex]

end Node

@[simp] theorem Language.declareOutput_rename (l : Language) (o : Output) :
    l.declareOutput (o.rename f) = l.declareOutput o := rfl

@[simp] theorem Language.declareDefault_rename (l : Language) (o : Output) :
    l.declareDefault (o.rename f) = l.declareDefault o := rfl

namespace Surroundings

def rename (f : NodeId → NodeId) (e : Surroundings) : Surroundings := { e with graph := e.graph.rename f }

variable {e : Surroundings}

@[simp] theorem language_rename (e : Surroundings) : (e.rename f).language = e.language := rfl
@[simp] theorem format_rename (e : Surroundings) : (e.rename f).format = e.format := rfl
@[simp] theorem dialect_rename (e : Surroundings) : (e.rename f).dialect = e.dialect := rfl
@[simp] theorem graph_rename (e : Surroundings) : (e.rename f).graph = e.graph.rename f := rfl

/-! ## Expressions -/

section
variable (hf : Injective f)
include hf

theorem unpublished_rename (i : Input) : (e.rename f).unpublished (i.rename f) = e.unpublished i := by
  unfold unpublished
  rw [Input.source_rename]
  cases i.source with
  | none => rfl
  | some source =>
    simp only [Option.map_some, graph_rename, Graph.output?_rename hf, Graph.name_rename]
    cases e.graph.output? source <;> rfl

theorem value_rename (i : Input) : (e.rename f).value (i.rename f) = e.value i := by
  unfold value
  rw [Input.isConnected_rename, unpublished_rename hf]
  rfl

theorem values_rename (n : Node) : (e.rename f).values (n.rename f) = e.values n :=
  except_mapM_map (value_rename hf) n.inputs

theorem valueOf_rename (n : Node) (name : String) : (e.rename f).valueOf (n.rename f) name = e.valueOf n name := by
  rw [valueOf, Node.needInput_rename, valueOf]
  cases n.needInput name with
  | error _ => rfl
  | ok i => exact value_rename hf i

theorem fillPieces_rename (n : Node) (pieces : List Template.Piece) :
    (e.rename f).fillPieces (n.rename f) pieces = e.fillPieces n pieces := by
  induction pieces with
  | nil => rfl
  | cons piece pieces ih =>
    cases piece with
    | plain text => rw [fillPieces, fillPieces, ih]
    | name text =>
      rw [fillPieces, fillPieces, Node.needInput_rename, ih]
      cases n.needInput (String.ofList (Text.trimChars text)) with
      | error _ => rfl
      | ok i =>
        change ((e.rename f).value (i.rename f) >>= _) = (e.value i >>= _)
        rw [value_rename hf]

theorem fillTemplate_rename (n : Node) (template : String) :
    (e.rename f).fillTemplate (n.rename f) template = e.fillTemplate n template := by
  unfold fillTemplate
  simp only [fillPieces_rename hf, Node.implementation_rename, Implementation.name_rename]

end

/-! ## Calls -/

theorem invoke_rename (function : String) (arguments : List Code) (outputs : List Output) :
    (e.rename f).invoke function arguments (outputs.map (Output.rename f)) = e.invoke function arguments outputs := by
  have hdeclare : ((outputs.map (Output.rename f)).forM fun output => do
        let declaration ← e.language.declareOutput output
        statement declaration : Emit Unit)
      = outputs.forM (fun output => do
        let declaration ← e.language.declareOutput output
        statement declaration) := state_forM_map outputs fun _ _ => rfl
  have hwrites : (outputs.map (Output.rename f)).map (fun o => [Token.writes o.variableName])
      = outputs.map fun o => [Token.writes o.variableName] := by simp
  unfold invoke
  rw [language_rename, hdeclare, hwrites]
  cases e.language with
  | osl => rfl
  | glsl => rfl
  | mdl =>
    match outputs with
    | [] => rfl
    | [_] => rfl
    | _ :: _ :: _ => rfl

section
variable (hf : Injective f)
include hf

theorem callSource_rename (n : Node) (code : SourceCode) :
    (e.rename f).callSource (n.rename f) code = e.callSource n code := by
  unfold callSource
  simp only [Node.onlyOutput_rename, lift_map_bind, fillTemplate_rename hf, values_rename hf, language_rename,
    Language.declareOutput_rename, Node.outputs_rename, invoke_rename]

theorem callCompound_rename (n : Node) (function : String) :
    (e.rename f).callCompound (n.rename f) function = e.callCompound n function := by
  unfold callCompound
  simp only [values_rename hf, Node.outputs_rename, invoke_rename]

theorem callCopy_rename (n : Node) (name : String) :
    (e.rename f).callCopy (n.rename f) name = e.callCopy n name := by
  unfold callCopy
  simp only [Node.onlyOutput_rename, Node.needInput_rename, lift_map_bind, value_rename hf, language_rename,
    Output.type_rename, Output.variableName_rename, Input.value_rename]
  rfl

theorem callTemplate_rename (n : Node) (t : Template) :
    (e.rename f).callTemplate (n.rename f) t = e.callTemplate n t := by
  unfold callTemplate
  simp only [fillTemplate_rename hf, language_rename, Node.outputs_rename]
  exact congrArg (liftM (e.fillTemplate n t.call) >>= ·) (funext fun value => state_forM_map n.outputs fun _ _ => rfl)

variable {branch branch' : NodeId → Nat → Emit Unit} (hbranch : ∀ id index, branch' (f id) index = branch id index)
include hbranch

theorem branchBlock_rename (n : Node) (output : Output) (index : Nat) :
    (e.rename f).branchBlock branch' (n.rename f) (output.rename f) index = e.branchBlock branch n output index := by
  unfold branchBlock
  rw [Node.inputs_rename, List.getElem?_map]
  cases n.inputs[index]? with
  | none => rfl
  | some input =>
    simp only [Option.map_some, Node.id_rename, hbranch, value_rename hf, Output.variableName_rename]

theorem callCompare_rename (n : Node) (c : Comparison) :
    (e.rename f).callCompare branch' (n.rename f) c = e.callCompare branch n c := by
  unfold callCompare
  simp only [Node.onlyOutput_rename, lift_map_bind, valueOf_rename hf, Node.needInputIndex_rename, language_rename,
    Language.declareDefault_rename, branchBlock_rename hf hbranch]

theorem callSwitch_rename (n : Node) : (e.rename f).callSwitch branch' (n.rename f) = e.callSwitch branch n := by
  have hindices : branchIndices (n.rename f) = branchIndices n := by simp [branchIndices]
  unfold callSwitch
  simp only [Node.onlyOutput_rename, lift_map_bind, valueOf_rename hf, hindices, language_rename, format_rename,
    Language.declareDefault_rename, branchBlock_rename hf hbranch]

omit hbranch

omit hf in
theorem sampler?_rename (n : Node) (type : DataType) : sampler? (n.rename f) type = sampler? n type := by
  unfold sampler?
  rw [Node.implementation_rename, Node.inputIndex?_rename, Node.outputs_rename, Node.inputs_rename, Node.traits_rename]
  cases n.implementation with
  | source code =>
    rw [Implementation.rename_source]
    cases n.inputIndex? "texcoord" with
    | none => rfl
    | some index =>
      match n.outputs with
      | [] => rfl
      | [output] => simp [comp_def]
      | _ :: _ :: _ => rfl
  | compound name function graph => rw [Implementation.rename_compound]
  | procedural p => rw [Implementation.rename_procedural]

theorem sampled?_rename (i : Input) (type : DataType) : (e.rename f).sampled? (i.rename f) type
    = (e.sampled? i type).map fun (n, function, index) => (n.rename f, function, index) := by
  unfold sampled?
  rw [Input.sourceNode?_rename]
  cases i.sourceNode? with
  | none => rfl
  | some id =>
    simp only [Option.map_some, Option.bind_eq_bind, Option.bind_some, graph_rename, Graph.node?_rename hf]
    cases e.graph.node? id with
    | none => rfl
    | some n =>
      simp only [Option.map_some, Option.bind_some, sampler?_rename]
      cases sampler? n type <;> rfl

omit hf in
theorem blurSamples_rename (output : Output) (function : String) (arguments : List Code) (index : Nat)
    (size u v : Code) (form : TypeForm) (offsets : List (Single × Single)) : ∀ k,
    (e.rename f).blurSamples (output.rename f) function arguments index size u v form k offsets
      = e.blurSamples output function arguments index size u v form k offsets := by
  induction offsets with
  | nil => exact fun k => rfl
  | cons offset offsets ih =>
    intro k
    rw [blurSamples, blurSamples]
    refine congrArg (liftM (m := Except Error) (n := Emit) _ >>= ·) (funext fun coordinate => ?_)
    change ((e.rename f).invoke function (arguments.set index coordinate) (List.map (Output.rename f)
      [{ output with variableName := output.variableName ++ "_sample" ++ toString k }]) >>= _) = _
    rw [invoke_rename]
    simp only [ih, Output.variableName_rename]

theorem callBlur_rename (n : Node) : (e.rename f).callBlur (n.rename f) = e.callBlur n := by
  unfold callBlur
  simp only [Node.onlyOutput_rename, Node.needInput_rename, lift_map_bind, Output.type_rename, sampled?_rename hf]
  refine congrArg (liftM (n.onlyOutput e.language) >>= ·) (funext fun output => ?_)
  refine congrArg (liftM (n.needInput "in") >>= ·) (funext fun input => ?_)
  cases e.sampled? input output.type with
  | none => simp only [Option.map_none, value_rename hf, language_rename, Language.declareOutput_rename]
  | some found =>
    obtain ⟨texture, function, index⟩ := found
    simp only [Option.map_some, Input.value_rename, valueOf_rename hf, values_rename hf, language_rename,
      dialect_rename, format_rename, Output.variableName_rename, blurSamples_rename, Language.declareOutput_rename]

/-! ## Nodes -/

include hbranch in
theorem callNode_rename (n : Node) : (e.rename f).callNode branch' (n.rename f) = e.callNode branch n := by
  unfold callNode
  rw [Node.implementation_rename]
  cases n.implementation with
  | source code => rw [Implementation.rename_source]; exact callSource_rename hf n code
  | compound name function graph => rw [Implementation.rename_compound]; exact callCompound_rename hf n function
  | procedural p =>
    rw [Implementation.rename_procedural]
    cases p with
    | constant => exact callCopy_rename hf n "value"
    | dot => exact callCopy_rename hf n "in"
    | compare c => exact callCompare_rename hf hbranch n c
    | switch => exact callSwitch_rename hf hbranch n
    | blur => exact callBlur_rename hf n
    | template t => exact callTemplate_rename hf n t

theorem emitBranch_rename {emit emit' : Node → Emit Unit} (hemit : ∀ n, emit' (n.rename f) = emit n)
    (conditional : NodeId) (index : Nat) :
    (e.rename f).emitBranch emit' (f conditional) index = e.emitBranch emit conditional index := by
  have hinside : ((fun m : Node => m.scope.isInBranch (f conditional) index) ∘ Node.rename f)
      = fun m => m.scope.isInBranch conditional index :=
    funext fun m => Scope.rename_isInBranch hf m.scope conditional index
  rw [emitBranch, branchNodes, graph_rename, Graph.nodes_rename, List.filter_map, hinside]
  exact state_forM_map _ fun m _ => hemit m

theorem emitNode_rename (depth : Nat) : ∀ n, (e.rename f).emitNode depth (n.rename f) = e.emitNode depth n := by
  induction depth with
  | zero =>
    intro n
    rw [emitNode, emitNode, graph_rename, Graph.name_rename]
  | succ depth ih =>
    intro n
    rw [emitNode, emitNode]
    exact callNode_rename hf (emitBranch_rename hf ih) n

theorem callAll_rename : (e.rename f).callAll = e.callAll := by
  unfold callAll
  rw [graph_rename, Graph.reachable_rename hf, lift_map_bind]
  refine congrArg (liftM e.graph.reachable >>= ·) (funext fun ids => ?_)
  have hneeded : ((fun n : Node => (ids.map f).contains n.id && n.scope.isTopLevel) ∘ Node.rename f)
      = fun n => ids.contains n.id && n.scope.isTopLevel := by
    funext n
    rw [comp_apply, Node.id_rename, Graph.contains_map hf, Node.scope_rename, Scope.rename_isTopLevel]
  rw [Graph.nodes_rename, List.filter_map, hneeded]
  refine state_forM_map _ fun n _ => ?_
  rw [call, call, graph_rename, Graph.nodes_rename, List.length_map]
  exact emitNode_rename hf _ n

end

end Surroundings

/-! ## Shaders -/

mutual

theorem Graph.typeNames_rename : ∀ g : Graph, (g.rename f).typeNames = g.typeNames
  | ⟨name, nodedef, traits, nodes, inputSockets, outputSockets⟩ => by
    have htypes := Graph.usedTypes_rename (f := f) ⟨name, nodedef, traits, nodes, inputSockets, outputSockets⟩
    rw [Graph.rename] at htypes ⊢
    rw [Graph.typeNames, Graph.typeNames, htypes, Graph.innerTypeNames_rename nodes]

theorem Graph.innerTypeNames_rename : ∀ nodes : List Node,
    Graph.innerTypeNames (Graph.renameNodes f nodes) = Graph.innerTypeNames nodes
  | [] => by rw [Graph.renameNodes]
  | ⟨_, _, _, _, _, _, _, implementation, _⟩ :: rest => by
    rw [Graph.renameNodes, Graph.innerTypeNames, Graph.innerTypeNames, Graph.innerTypeNames_rename rest,
      Implementation.typeNames_rename implementation]

theorem Implementation.typeNames_rename : ∀ i : Implementation, (i.rename f).typeNames = i.typeNames
  | .compound _ _ graph => by
    rw [Implementation.rename, Implementation.typeNames, Implementation.typeNames]
    exact Graph.typeNames_rename graph
  | .source _ => by rw [Implementation.rename]
  | .procedural _ => by rw [Implementation.rename]

end

namespace Emit

variable {e : Surroundings}

theorem typeDefinitions_rename (d : Dialect) (g : Graph) : typeDefinitions d (g.rename f) = typeDefinitions d g := by
  rw [typeDefinitions, Graph.typeNames_rename, typeDefinitions]

theorem defineTypes_rename (d : Dialect) (o : Options) (g : Graph) :
    defineTypes d o (g.rename f) = defineTypes d o g := by
  rw [defineTypes, typeDefinitions_rename, defineTypes]

theorem onlySocket_rename (l : Language) (g : Graph) :
    onlySocket l (g.rename f) = (onlySocket l g).map (Input.rename f) := by
  unfold onlySocket
  rw [Graph.outputSockets_rename, Graph.name_rename]
  match g.outputSockets with
  | [] => rfl
  | [_] => rfl
  | _ :: _ :: _ => rfl

section
variable (hf : Injective f)
include hf

theorem published_rename (g : Graph) (ids : List NodeId) : published (g.rename f) (ids.map f) = published g ids := by
  have hneeded : ((fun n : Node => (ids.map f).contains n.id) ∘ Node.rename f) = fun n => ids.contains n.id := by
    funext n
    rw [comp_apply, Node.id_rename, Graph.contains_map hf]
  unfold published
  rw [Graph.inputSockets_rename, Graph.nodes_rename, List.filter_map, hneeded, List.map_map, List.flatMap_map]
  congr 1
  refine List.flatMap_congr fun n _ => ?_
  rw [Node.inputs_rename, List.filter_map, List.map_map]
  rfl

theorem publish_rename (g : Graph) : publish (g.rename f) = publish g := by
  unfold publish
  simp only [Graph.reachable_rename hf, lift_map_bind, published_rename hf]

theorem assigningBody_rename : assigningBody (e.rename f) = assigningBody e := by
  have hsockets : (e.rename f).graph.outputSockets.forM (assignSocket (e.rename f))
      = e.graph.outputSockets.forM (assignSocket e) := by
    rw [Surroundings.graph_rename, Graph.outputSockets_rename]
    refine state_forM_map _ fun s _ => ?_
    rw [assignSocket, Surroundings.unpublished_rename hf, assignSocket]
    rfl
  unfold assigningBody
  rw [Surroundings.callAll_rename hf, hsockets]

theorem returningBody_rename (result : Input) (wrap : Bool) :
    returningBody (e.rename f) (result.rename f) wrap = returningBody e result wrap := by
  unfold returningBody
  simp only [Surroundings.callAll_rename hf, Surroundings.unpublished_rename hf, Input.type_rename,
    Surroundings.graph_rename, Graph.traits_rename]

omit hf in
theorem declareSockets_rename (g : Graph) (l : Language) :
    ((g.rename f).outputSockets.mapM (fun s => l.declare s.type s.variableName none) : Except Error (List Code))
      = g.outputSockets.mapM fun s => l.declare s.type s.variableName none := by
  rw [Graph.outputSockets_rename]
  exact except_mapM_map (fun _ => rfl) _

theorem voidFunction_rename (function : String) : voidFunction (e.rename f) function = voidFunction e function := by
  have hinputs : ((e.rename f).graph.inputSockets.mapM
        (fun s => (e.rename f).language.declare s.type s.variableName none) : Except Error (List Code))
      = e.graph.inputSockets.mapM fun s => e.language.declare s.type s.variableName none := by
    rw [Surroundings.graph_rename, Graph.inputSockets_rename]
    exact except_mapM_map (fun _ => rfl) _
  unfold voidFunction
  rw [hinputs, assigningBody_rename hf, Surroundings.graph_rename, Surroundings.language_rename,
    declareSockets_rename]
  rfl

theorem returningFunction_rename (function : String) (result : Input) :
    returningFunction (e.rename f) function (result.rename f) = returningFunction e function result := by
  have hinputs : ((e.rename f).graph.inputSockets.mapM
        (fun s => returningParameter (e.rename f) s.type s.variableName s.value s.uniform) : Except Error (List Code))
      = e.graph.inputSockets.mapM fun s => returningParameter e s.type s.variableName s.value s.uniform := by
    rw [Surroundings.graph_rename, Graph.inputSockets_rename]
    exact except_mapM_map (fun _ => rfl) _
  unfold returningFunction
  rw [hinputs, returningBody_rename hf]
  rfl

end

mutual

theorem defineFunctions_rename (hf : Injective f) (l : Language) (format : FloatFormat) : ∀ g : Graph,
    defineFunctions l format (g.rename f) = defineFunctions l format g
  | ⟨name, nodedef, traits, nodes, inputSockets, outputSockets⟩ => by
    have hreachable := Graph.reachable_rename hf ⟨name, nodedef, traits, nodes, inputSockets, outputSockets⟩
    rw [Graph.rename] at hreachable ⊢
    rw [defineFunctions, defineFunctions, hreachable, lift_map_bind]
    exact congrArg (liftM _ >>= ·) (funext fun ids => defineFunctionsOf_rename hf l format ids nodes)

theorem defineFunctionsOf_rename (hf : Injective f) (l : Language) (format : FloatFormat) (ids : List NodeId) :
    ∀ nodes : List Node,
    defineFunctionsOf l format (ids.map f) (Graph.renameNodes f nodes) = defineFunctionsOf l format ids nodes
  | [] => by rw [Graph.renameNodes, defineFunctionsOf, defineFunctionsOf]
  | ⟨_, _, _, _, _, _, _, implementation, _⟩ :: rest => by
    rw [Graph.renameNodes, defineFunctionsOf, defineFunctionsOf, Graph.contains_map hf,
      defineFunction_rename hf l format implementation, defineFunctionsOf_rename hf l format ids rest]

theorem defineFunction_rename (hf : Injective f) (l : Language) (format : FloatFormat) : ∀ i : Implementation,
    defineFunction l format (i.rename f) = defineFunction l format i
  | .compound _ function graph => by
    have hinner := defineFunctions_rename hf l format graph
    have hvoid := voidFunction_rename (e := ⟨l, format, graph⟩) hf function
    have hreturning := fun result => returningFunction_rename (e := ⟨l, format, graph⟩) hf function result
    simp only [Surroundings.rename] at hvoid hreturning
    rw [Implementation.rename]
    cases l with
    | mdl => simp only [defineFunction, onlySocket_rename, lift_map_bind, hinner, hreturning]
    | osl => simp only [defineFunction, hinner, hvoid]
    | glsl => simp only [defineFunction, hinner, hvoid]
  | .source _ => by rw [Implementation.rename]
  | .procedural _ => by rw [Implementation.rename]

end

section
variable (hf : Injective f)
include hf

theorem oslShader_rename (o : Options) (name : String) : oslShader (e.rename f) o name = oslShader e o name := by
  have houtputs : ((e.rename f).graph.outputSockets.mapM (fun s => do
        let declaration ← (e.rename f).language.declare s.type s.variableName none
        let value ← (e.rename f).dialect.default s.type true
        pure (Language.qualified "output" (declaration.assign (Code.plain value)))) : Except Error (List Code))
      = e.graph.outputSockets.mapM (fun s => do
        let declaration ← e.language.declare s.type s.variableName none
        let value ← e.dialect.default s.type true
        pure (Language.qualified "output" (declaration.assign (Code.plain value)))) := by
    rw [Surroundings.graph_rename, Graph.outputSockets_rename]
    exact except_mapM_map (fun _ => rfl) _
  unfold oslShader
  rw [houtputs, assigningBody_rename hf, Surroundings.graph_rename, publish_rename hf, defineTypes_rename,
    defineFunctions_rename hf]
  rfl

theorem mdlShader_rename (o : Options) (name : String) : mdlShader (e.rename f) o name = mdlShader e o name := by
  unfold mdlShader
  simp only [Surroundings.graph_rename, Surroundings.language_rename, onlySocket_rename, lift_map_bind,
    publish_rename hf, defineTypes_rename, defineFunctions_rename hf, Input.type_rename, returningBody_rename hf]
  rfl

theorem glslShader_rename (o : Options) (name : String) : glslShader (e.rename f) o name = glslShader e o name := by
  have hlength : (e.graph.rename f).outputSockets.length = e.graph.outputSockets.length := by simp
  unfold glslShader
  simp only [Surroundings.graph_rename, Surroundings.language_rename, hlength, declareSockets_rename,
    Graph.name_rename, publish_rename hf, defineTypes_rename, defineFunctions_rename hf, assigningBody_rename hf]
  rfl

theorem shader_rename (l : Language) (o : Options) (name : String) (g : Graph) :
    shader l o name (g.rename f) = shader l o name g := by
  unfold shader
  cases l with
  | osl => exact oslShader_rename (e := ⟨.osl, o.floatFormat, g⟩) hf o name
  | mdl => exact mdlShader_rename (e := ⟨.mdl, o.floatFormat, g⟩) hf o name
  | glsl => exact glslShader_rename (e := ⟨.glsl, o.floatFormat, g⟩) hf o name

end

end Emit

end ShadeGraph
