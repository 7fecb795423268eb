import ShadeGraph.Graph.Connection
import ShadeGraph.Graph.Naming
import ShadeGraph.Graph.Schedule
import ShadeGraph.Proofs.Graph.Schedule
import ShadeGraph.Proofs.Graph.Update

/-!
# Graphs with other node identities

A graph keeps its shape when its nodes get other identities, at every depth. As long as different nodes stay different,
looking up, connecting, removing, scheduling, scoping and naming commute with that.
-/

namespace ShadeGraph

open Function

/-! ## Renaming -/

def Owner.rename (f : NodeId → NodeId) : Owner → Owner
  | graph => graph
  | node id => node (f id)

def PinRef.rename (f : NodeId → NodeId) (p : PinRef) : PinRef := { p with owner := p.owner.rename f }

def Input.rename (f : NodeId → NodeId) (i : Input) : Input := { i with source := i.source.map (PinRef.rename f) }

def Output.rename (f : NodeId → NodeId) (o : Output) : Output := { o with readers := o.readers.map (PinRef.rename f) }

def Scope.rename (f : NodeId → NodeId) : Scope → Scope
  | branches conditional mask full => branches (f conditional) mask full
  | scope => scope

mutual

def Implementation.rename (f : NodeId → NodeId) : Implementation → Implementation
  | .compound name function graph => .compound name function (graph.rename f)
  | .source code => .source code
  | .procedural p => .procedural p

/-- A graph with other node identities, those inside of compounds included. -/
def Graph.rename (f : NodeId → NodeId) : Graph → Graph
  | ⟨name, nodedef, traits, nodes, inputSockets, outputSockets⟩ =>
    ⟨name, nodedef, traits, Graph.renameNodes f nodes, inputSockets.map (Output.rename f),
      outputSockets.map (Input.rename f)⟩

def Graph.renameNodes (f : NodeId → NodeId) : List Node → List Node
  | [] => []
  | ⟨id, name, category, nodedef, traits, inputs, outputs, implementation, scope⟩ :: rest =>
    ⟨f id, name, category, nodedef, traits, inputs.map (Input.rename f), outputs.map (Output.rename f),
      implementation.rename f, scope.rename f⟩ :: Graph.renameNodes f rest

end

def Node.rename (f : NodeId → NodeId) (n : Node) : Node :=
  { n with
    id := f n.id
    inputs := n.inputs.map (Input.rename f)
    outputs := n.outputs.map (Output.rename f)
    implementation := n.implementation.rename f
    scope := n.scope.rename f }

variable {f : NodeId → NodeId} {g : Graph} {n : Node}

namespace PinRef

@[simp] theorem rename_ofNode (id : NodeId) (index : Nat) : (ofNode id index).rename f = ofNode (f id) index := rfl

@[simp] theorem rename_socket (index : Nat) : (socket index).rename f = socket index := rfl

@[simp] theorem index_rename (p : PinRef) : (p.rename f).index = p.index := rfl

@[simp] theorem node?_rename (p : PinRef) : (p.rename f).node? = p.node?.map f := by
  rcases p with ⟨_ | id, index⟩
  · rfl
  · rfl

theorem rename_injective (hf : Injective f) : Injective (rename f) := by
  rintro ⟨_ | a, i⟩ ⟨_ | b, j⟩ h
  · simpa [rename, Owner.rename] using h
  · simp [rename, Owner.rename] at h
  · simp [rename, Owner.rename] at h
  · simpa [rename, Owner.rename, hf.eq_iff] using h

end PinRef

@[simp] theorem Input.name_rename (i : Input) : (i.rename f).name = i.name := rfl
@[simp] theorem Input.type_rename (i : Input) : (i.rename f).type = i.type := rfl
@[simp] theorem Input.value_rename (i : Input) : (i.rename f).value = i.value := rfl
@[simp] theorem Input.channels_rename (i : Input) : (i.rename f).channels = i.channels := rfl
@[simp] theorem Input.uniform_rename (i : Input) : (i.rename f).uniform = i.uniform := rfl
@[simp] theorem Input.path_rename (i : Input) : (i.rename f).path = i.path := rfl
@[simp] theorem Input.variableName_rename (i : Input) : (i.rename f).variableName = i.variableName := rfl
@[simp] theorem Input.source_rename (i : Input) : (i.rename f).source = i.source.map (PinRef.rename f) := rfl

@[simp] theorem Input.isConnected_rename (i : Input) : (i.rename f).isConnected = i.isConnected := by
  simp [isConnected]

@[simp] theorem Input.sourceNode?_rename (i : Input) : (i.rename f).sourceNode? = i.sourceNode?.map f := by
  cases h : i.source with
  | none => simp [sourceNode?, h]
  | some p => simp [sourceNode?, h]

@[simp] theorem Output.name_rename (o : Output) : (o.rename f).name = o.name := rfl
@[simp] theorem Output.type_rename (o : Output) : (o.rename f).type = o.type := rfl
@[simp] theorem Output.value_rename (o : Output) : (o.rename f).value = o.value := rfl
@[simp] theorem Output.uniform_rename (o : Output) : (o.rename f).uniform = o.uniform := rfl
@[simp] theorem Output.path_rename (o : Output) : (o.rename f).path = o.path := rfl
@[simp] theorem Output.variableName_rename (o : Output) : (o.rename f).variableName = o.variableName := rfl
@[simp] theorem Output.readers_rename (o : Output) : (o.rename f).readers = o.readers.map (PinRef.rename f) := rfl

@[simp] theorem Implementation.rename_compound (name function : String) (graph : Graph) :
    (compound name function graph).rename f = compound name function (graph.rename f) := by
  rw [Implementation.rename]

@[simp] theorem Implementation.rename_source (code : SourceCode) : (source code).rename f = source code := by
  rw [Implementation.rename]

@[simp] theorem Implementation.rename_procedural (p : Procedural) : (procedural p).rename f = procedural p := by
  rw [Implementation.rename]

@[simp] theorem Implementation.name_rename (i : Implementation) : (i.rename f).name = i.name := by
  cases i with
  | source code => rw [rename_source]
  | compound name function graph => rw [rename_compound]; rfl
  | procedural p => rw [rename_procedural]

namespace Node

@[simp] theorem id_rename (n : Node) : (n.rename f).id = f n.id := rfl
@[simp] theorem name_rename (n : Node) : (n.rename f).name = n.name := rfl
@[simp] theorem category_rename (n : Node) : (n.rename f).category = n.category := rfl
@[simp] theorem traits_rename (n : Node) : (n.rename f).traits = n.traits := rfl
@[simp] theorem inputs_rename (n : Node) : (n.rename f).inputs = n.inputs.map (Input.rename f) := rfl
@[simp] theorem outputs_rename (n : Node) : (n.rename f).outputs = n.outputs.map (Output.rename f) := rfl
@[simp] theorem scope_rename (n : Node) : (n.rename f).scope = n.scope.rename f := rfl

@[simp] theorem implementation_rename (n : Node) : (n.rename f).implementation = n.implementation.rename f := rfl

@[simp] theorem input?_rename (n : Node) (name : String) :
    (n.rename f).input? name = (n.input? name).map (Input.rename f) := by
  simp [input?, List.find?_map, comp_def]

@[simp] theorem inputIndex?_rename (n : Node) (name : String) : (n.rename f).inputIndex? name = n.inputIndex? name := by
  simp [inputIndex?, List.findIdx?_map, comp_def]

@[simp] theorem outputIndex?_rename (n : Node) (name : String) :
    (n.rename f).outputIndex? name = n.outputIndex? name := by
  simp [outputIndex?, List.findIdx?_map, comp_def]

@[simp] theorem sources_rename (n : Node) : (n.rename f).sources = n.sources.map f := by
  simp [sources, List.filterMap_map, List.map_filterMap]

theorem branchBits_rename (inputs : List Input) :
    ∀ index, branchBits index (inputs.map (Input.rename f)) = branchBits index inputs := by
  induction inputs with
  | nil => intro index; rfl
  | cons i inputs ih => intro index; rw [List.map_cons, branchBits, ih, Input.name_rename, branchBits]

@[simp] theorem branchMask?_rename (n : Node) : (n.rename f).branchMask? = n.branchMask? := by
  simp [branchMask?, branchBits_rename]

end Node

namespace Graph

theorem renameNodes_eq (nodes : List Node) : renameNodes f nodes = nodes.map (Node.rename f) := by
  induction nodes with
  | nil => rw [renameNodes, List.map_nil]
  | cons n nodes ih =>
    cases n
    rw [renameNodes, ih]
    rfl

@[simp] theorem name_rename (g : Graph) : (g.rename f).name = g.name := by cases g; rw [rename]
@[simp] theorem nodedef_rename (g : Graph) : (g.rename f).nodedef = g.nodedef := by cases g; rw [rename]
@[simp] theorem traits_rename (g : Graph) : (g.rename f).traits = g.traits := by cases g; rw [rename]

@[simp] theorem nodes_rename (g : Graph) : (g.rename f).nodes = g.nodes.map (Node.rename f) := by
  cases g
  rw [rename, renameNodes_eq]

@[simp] theorem inputSockets_rename (g : Graph) : (g.rename f).inputSockets = g.inputSockets.map (Output.rename f) := by
  cases g
  rw [rename]

@[simp] theorem outputSockets_rename (g : Graph) :
    (g.rename f).outputSockets = g.outputSockets.map (Input.rename f) := by
  cases g
  rw [rename]

theorem eq_rename {h : Graph} (hname : h.name = g.name) (hnodedef : h.nodedef = g.nodedef)
    (htraits : h.traits = g.traits) (hnodes : h.nodes = g.nodes.map (Node.rename f))
    (hinputs : h.inputSockets = g.inputSockets.map (Output.rename f))
    (houtputs : h.outputSockets = g.outputSockets.map (Input.rename f)) : h = g.rename f := by
  cases h
  cases g
  rw [rename, renameNodes_eq]
  simp_all

@[simp] theorem rename_empty (name : String) : (empty name).rename f = empty name :=
  (eq_rename rfl rfl rfl rfl rfl rfl).symm

/-! ## Looking up -/

theorem node?_rename (hf : Injective f) (g : Graph) (id : NodeId) :
    (g.rename f).node? (f id) = (g.node? id).map (Node.rename f) := by
  have heq : ((fun n : Node => n.id == f id) ∘ Node.rename f) = fun n : Node => n.id == id := by
    funext n
    rw [Bool.eq_iff_iff]
    simp [hf.eq_iff]
  rw [node?, nodes_rename, List.find?_map, heq, node?]

theorem output?_rename (hf : Injective f) (g : Graph) (p : PinRef) :
    (g.rename f).output? (p.rename f) = (g.output? p).map (Output.rename f) := by
  rcases p with ⟨_ | id, index⟩
  · simp [output?, PinRef.rename, Owner.rename]
  · cases h : g.node? id with
    | none => simp [output?, PinRef.rename, Owner.rename, node?_rename hf, h]
    | some n => simp [output?, PinRef.rename, Owner.rename, node?_rename hf, h]

theorem input?_rename (hf : Injective f) (g : Graph) (p : PinRef) :
    (g.rename f).input? (p.rename f) = (g.input? p).map (Input.rename f) := by
  rcases p with ⟨_ | id, index⟩
  · simp [input?, PinRef.rename, Owner.rename]
  · cases h : g.node? id with
    | none => simp [input?, PinRef.rename, Owner.rename, node?_rename hf, h]
    | some n => simp [input?, PinRef.rename, Owner.rename, node?_rename hf, h]

@[simp] theorem inputSocketIndex?_rename (g : Graph) (name : String) :
    (g.rename f).inputSocketIndex? name = g.inputSocketIndex? name := by
  simp [inputSocketIndex?, List.findIdx?_map, comp_def]

@[simp] theorem roots_rename (g : Graph) : (g.rename f).roots = g.roots.map f := by
  simp [roots, List.filterMap_map, List.map_filterMap]

@[simp] theorem freshNodeName_rename (g : Graph) (base : String) :
    (g.rename f).freshNodeName base = g.freshNodeName base := by
  simp [freshNodeName, comp_def]

/-- What a pin belongs to is there, so that messages do not show its identity. -/
def HasOwner (g : Graph) (p : PinRef) : Prop := ∀ id, p.owner = .node id → id ∈ g.ids

theorem hasOwner_socket (g : Graph) (index : Nat) : g.HasOwner (.socket index) := fun _ h => by cases h

theorem hasOwner_ofNode {g : Graph} {id : NodeId} (hid : id ∈ g.ids) (index : Nat) : g.HasOwner (.ofNode id index) := by
  intro _ h
  cases h
  exact hid

theorem ownerLabel_rename (hf : Injective f) (g : Graph) (absent : NodeId → String) {p : PinRef} (hp : g.HasOwner p) :
    (g.rename f).ownerLabel absent (p.rename f) = g.ownerLabel absent p := by
  rcases p with ⟨_ | id, index⟩
  · simp [ownerLabel, PinRef.rename, Owner.rename]
  · obtain ⟨n, hn⟩ := exists_node? (hp id rfl)
    simp [ownerLabel, PinRef.rename, Owner.rename, node?_rename hf, hn]

theorem absentLabel_rename (hf : Injective f) (g : Graph) {p : PinRef} (hp : g.HasOwner p) :
    (g.rename f).absentLabel (p.rename f) = g.absentLabel p := by
  rw [absentLabel, ownerLabel_rename hf g _ hp, absentLabel]
  rfl

theorem outputLabel_rename (hf : Injective f) (g : Graph) {p : PinRef} (hp : g.HasOwner p) :
    (g.rename f).outputLabel (p.rename f) = g.outputLabel p := by
  rw [outputLabel, ownerLabel_rename hf g _ hp, output?_rename hf, outputLabel]
  simp [comp_def, PinRef.rename]

theorem inputLabel_rename (hf : Injective f) (g : Graph) {p : PinRef} (hp : g.HasOwner p) :
    (g.rename f).inputLabel (p.rename f) = g.inputLabel p := by
  rw [inputLabel, ownerLabel_rename hf g _ hp, input?_rename hf, inputLabel]
  simp [comp_def, PinRef.rename]

@[simp] theorem usedTypes_rename (g : Graph) : (g.rename f).usedTypes = g.usedTypes := by
  simp [usedTypes, List.flatMap_map, comp_def]

/-! ## Updating -/

theorem addNode_rename (g : Graph) (n : Node) : (g.rename f).addNode (n.rename f) = (g.addNode n).rename f :=
  eq_rename (by simp [addNode]) (by simp [addNode]) (by simp [addNode]) (by simp [addNode]) (by simp [addNode])
    (by simp [addNode])

theorem addInputSocket_rename (g : Graph) (s : Output) :
    (g.rename f).addInputSocket (s.rename f) = (g.addInputSocket s).rename f :=
  eq_rename (by simp [addInputSocket]) (by simp [addInputSocket]) (by simp [addInputSocket])
    (by simp [addInputSocket]) (by simp [addInputSocket]) (by simp [addInputSocket])

theorem addOutputSocket_rename (g : Graph) (s : Input) :
    (g.rename f).addOutputSocket (s.rename f) = (g.addOutputSocket s).rename f :=
  eq_rename (by simp [addOutputSocket]) (by simp [addOutputSocket]) (by simp [addOutputSocket])
    (by simp [addOutputSocket]) (by simp [addOutputSocket]) (by simp [addOutputSocket])

theorem modifyNode_rename (hf : Injective f) (g : Graph) (id : NodeId) {c c' : Node → Node}
    (hc : ∀ n, c' (n.rename f) = (c n).rename f) :
    (g.rename f).modifyNode (f id) c' = (g.modifyNode id c).rename f := by
  refine eq_rename (by simp [modifyNode]) (by simp [modifyNode]) (by simp [modifyNode]) ?_ (by simp [modifyNode])
    (by simp [modifyNode])
  simp only [modifyNode, nodes_rename, List.map_map]
  refine List.map_congr_left fun n _ => ?_
  simp only [comp_apply, Node.id_rename, hf.eq_iff]
  split
  · exact hc n
  · rfl

theorem map_modify {α β : Type} {p : α → β} {c : α → α} {c' : β → β} (hc : ∀ a, c' (p a) = p (c a)) (l : List α) :
    ∀ index, (l.map p).modify index c' = (l.modify index c).map p := by
  induction l with
  | nil => intro index; simp
  | cons a l ih =>
    intro index
    cases index with
    | zero => simp [hc]
    | succ index => simp [ih]

theorem modifyInput_rename (hf : Injective f) (g : Graph) (p : PinRef) {c c' : Input → Input}
    (hc : ∀ i, c' (i.rename f) = (c i).rename f) :
    (g.rename f).modifyInput (p.rename f) c' = (g.modifyInput p c).rename f := by
  rcases p with ⟨_ | id, index⟩
  · refine eq_rename ?_ ?_ ?_ ?_ ?_ ?_ <;> simp [modifyInput, PinRef.rename, Owner.rename, map_modify hc]
  · exact modifyNode_rename hf g id fun n => by simp [Node.rename, map_modify hc]

theorem modifyOutput_rename (hf : Injective f) (g : Graph) (p : PinRef) {c c' : Output → Output}
    (hc : ∀ o, c' (o.rename f) = (c o).rename f) :
    (g.rename f).modifyOutput (p.rename f) c' = (g.modifyOutput p c).rename f := by
  rcases p with ⟨_ | id, index⟩
  · refine eq_rename ?_ ?_ ?_ ?_ ?_ ?_ <;> simp [modifyOutput, PinRef.rename, Owner.rename, map_modify hc]
  · exact modifyNode_rename hf g id fun n => by simp [Node.rename, map_modify hc]

/-! ## Connections -/

theorem link_rename (hf : Injective f) (g : Graph) (source target : PinRef) :
    (g.rename f).link (source.rename f) (target.rename f) = (g.link source target).rename f := by
  unfold link
  rw [modifyInput_rename hf g target (c := fun i => { i with source := some source, value := none }) fun i => rfl]
  refine modifyOutput_rename hf _ source fun o => ?_
  have hmem : (o.readers.map (PinRef.rename f)).contains (target.rename f) = o.readers.contains target := by
    simp [(PinRef.rename_injective hf).eq_iff]
  simp only [Output.readers_rename, hmem]
  split
  · rfl
  · simp [Output.rename]

theorem forget_rename (hf : Injective f) (g : Graph) (source target : PinRef) :
    (g.rename f).forget (source.rename f) (target.rename f) = (g.forget source target).rename f := by
  refine modifyOutput_rename hf g source fun o => ?_
  have heq : ((fun r : PinRef => r != target.rename f) ∘ PinRef.rename f) = fun r => r != target := by
    funext r
    rw [Bool.eq_iff_iff]
    simp [(PinRef.rename_injective hf).eq_iff]
  simp [Output.rename, List.filter_map, heq]

theorem disconnect_rename (hf : Injective f) (g : Graph) (target : PinRef) :
    (g.rename f).disconnect (target.rename f) = (g.disconnect target).rename f := by
  have hsource : ((g.rename f).input? (target.rename f)).bind Input.source
      = ((g.input? target).bind Input.source).map (PinRef.rename f) := by
    rw [input?_rename hf]
    cases g.input? target <;> rfl
  unfold disconnect
  rw [hsource]
  cases (g.input? target).bind Input.source with
  | none => rfl
  | some source =>
    change ((g.rename f).modifyInput _ _).forget (source.rename f) _ = _
    rw [modifyInput_rename hf g target (c := fun i => { i with source := none }) fun i => rfl, forget_rename hf]

theorem connect_rename (hf : Injective f) (g : Graph) {source target : PinRef} (hsource : g.HasOwner source)
    (htarget : g.HasOwner target) :
    (g.rename f).connect (source.rename f) (target.rename f) = (g.connect source target).map (rename f) := by
  rw [connect, Edit.result, Edit.connect_eq, connect, Edit.result, Edit.connect_eq]
  rw [output?_rename hf, input?_rename hf, absentLabel_rename hf g hsource, absentLabel_rename hf g htarget,
    outputLabel_rename hf g hsource, inputLabel_rename hf g htarget,
    disconnect_rename hf, link_rename hf, name_rename]
  cases g.output? source with
  | none => rfl
  | some output =>
    cases g.input? target with
    | none => rfl
    | some input =>
      cases hfits : compatible output.type input.channels input.type with
      | true => simp [hfits, Except.map]
      | false => simp [hfits, Except.map]

theorem forgetInputs_rename (hf : Injective f) (id : NodeId) (inputs : List Input) :
    ∀ (g : Graph) index, forgetInputs (f id) (g.rename f) index (inputs.map (Input.rename f))
      = (forgetInputs id g index inputs).rename f := by
  induction inputs with
  | nil => intro g index; rfl
  | cons i inputs ih =>
    intro g index
    simp only [List.map_cons, forgetInputs, Input.source_rename]
    cases i.source with
    | none => exact ih g (index + 1)
    | some source =>
      change forgetInputs (f id) ((g.rename f).forget (source.rename f) ((PinRef.ofNode id index).rename f)) _ _ = _
      rw [forget_rename hf, ih]

theorem release_rename (hf : Injective f) (targets : List PinRef) : ∀ g : Graph,
    (targets.map (PinRef.rename f)).foldl (fun g r => g.modifyInput r fun i => { i with source := none }) (g.rename f)
      = (targets.foldl (fun g r => g.modifyInput r fun i => { i with source := none }) g).rename f := by
  induction targets with
  | nil => intro g; rfl
  | cons r targets ih =>
    intro g
    rw [List.map_cons, List.foldl_cons, List.foldl_cons,
      modifyInput_rename hf g r (c := fun i => { i with source := none }) fun i => rfl, ih]

theorem removeNode_rename (hf : Injective f) (g : Graph) (id : NodeId) :
    (g.rename f).removeNode (f id) = (g.removeNode id).rename f := by
  unfold removeNode
  rw [node?_rename hf]
  cases g.node? id with
  | none => rfl
  | some n =>
    have hnodes : ({ g.rename f with nodes := (g.rename f).nodes.filter fun m => m.id != f id } : Graph)
        = ({ g with nodes := g.nodes.filter fun m => m.id != id } : Graph).rename f := by
      have heq : ((fun m : Node => m.id != f id) ∘ Node.rename f) = fun m => m.id != id := by
        funext m
        rw [Bool.eq_iff_iff]
        simp [hf.eq_iff]
      refine eq_rename ?_ ?_ ?_ ?_ ?_ ?_ <;> simp [List.filter_map, heq]
    have hreaders : (n.outputs.map (Output.rename f)).flatMap Output.readers
        = (n.outputs.flatMap Output.readers).map (PinRef.rename f) := by
      simp [List.flatMap_map, List.map_flatMap]
    simp only [Option.map_some, Node.inputs_rename, Node.outputs_rename]
    rw [hnodes, forgetInputs_rename hf, hreaders, release_rename hf]

/-! ## Schedules -/

theorem contains_map (hf : Injective f) (ids : List NodeId) (id : NodeId) :
    (ids.map f).contains (f id) = ids.contains id := by
  simp [hf.eq_iff]

theorem cycleAt_rename (hf : Injective f) (g : Graph) (path : List NodeId) (id : NodeId) :
    (g.rename f).cycleAt (path.map f) (f id) = g.cycleAt path id := by
  have heq : ((fun p : NodeId => p != f id) ∘ f) = fun p => p != id := by
    funext p
    rw [Bool.eq_iff_iff]
    simp [hf.eq_iff]
  have hway : (path.map f).dropWhile (fun p => p != f id) ++ [f id]
      = (path.dropWhile (fun p => p != id) ++ [id]).map f := by
    rw [List.dropWhile_map, heq, List.map_append, List.map_singleton]
  rw [cycleAt, hway, names, List.filterMap_map, cycleAt, names, name_rename]
  congr 2
  funext x
  simp [node?_rename hf, comp_def]

theorem visit_rename (hf : Injective f) (g : Graph) (path order : List NodeId) (id : NodeId) :
    (g.rename f).visit (path.map f) (order.map f) (f id) = (g.visit path order id).map (List.map f) := by
  -- The induction follows the visit: with the renamed node on the way, each source is met at the same moment.
  induction path, order, id using visit.induct g with
  | case1 path order id hdone =>
    rw [visit, if_pos (by rwa [contains_map hf]), visit, if_pos hdone]
    rfl
  | case2 path order id hdone hpath =>
    rw [visit, if_neg (by rwa [contains_map hf]), dif_pos (by rwa [contains_map hf]), visit, if_neg hdone,
      dif_pos hpath, cycleAt_rename hf]
    rfl
  | case3 path order id hdone hpath hnone =>
    rw [visit_of_unknown hdone hpath hnone]
    exact visit_of_unknown (by rwa [contains_map hf]) (by rwa [contains_map hf]) (by rw [node?_rename hf, hnone]; rfl)
  | case4 path order id hdone hpath n hn ih =>
    have hn' : (g.rename f).node? (f id) = some (n.rename f) := by rw [node?_rename hf, hn]; rfl
    rw [visit_of_node hdone hpath hn, visit_of_node (by rwa [contains_map hf]) (by rwa [contains_map hf]) hn',
      Node.sources_rename]
    have hway : path.map f ++ [f id] = (path ++ [id]).map f := by simp
    rw [hway, except_foldlM_map n.sources fun order source _ => ih order source]
    exact except_map_bind fun order => by simp [pure, Except.pure, Except.map]

theorem visitAll_rename (hf : Injective f) (g : Graph) (order ids : List NodeId) :
    (g.rename f).visitAll (order.map f) (ids.map f) = (g.visitAll order ids).map (List.map f) :=
  except_foldlM_map ids (fun order id _ => visit_rename hf g [] order id) order

theorem reachable_rename (hf : Injective f) (g : Graph) :
    (g.rename f).reachable = g.reachable.map (List.map f) := by
  rw [reachable, roots_rename]
  exact visitAll_rename hf g [] g.roots

theorem ids_rename (g : Graph) : (g.rename f).ids = g.ids.map f := by simp [ids]

theorem reads_rename (hf : Injective f) {a b : NodeId} : (g.rename f).Reads (f a) b ↔ ∃ c, b = f c ∧ g.Reads a c := by
  constructor
  · rintro ⟨n, hn, hsource, hmem⟩
    rw [node?_rename hf] at hn
    obtain ⟨m, hm, rfl⟩ := Option.map_eq_some_iff.mp hn
    rw [Node.sources_rename] at hsource
    obtain ⟨c, hc, rfl⟩ := List.mem_map.mp hsource
    rw [ids_rename, List.mem_map_of_injective hf] at hmem
    exact ⟨c, rfl, m, hm, hc, hmem⟩
  · rintro ⟨c, rfl, m, hm, hc, hmem⟩
    refine ⟨m.rename f, ?_, ?_, ?_⟩
    · rw [node?_rename hf, hm]
      rfl
    · rw [Node.sources_rename]
      exact List.mem_map_of_mem hc
    · rw [ids_rename]
      exact List.mem_map_of_mem hmem

theorem feeds_rename (hf : Injective f) {id : NodeId} : (g.rename f).Feeds (f id) ↔ g.Feeds id := by
  constructor
  · rintro ⟨root, hroot, hmem, hpath⟩
    rw [roots_rename] at hroot
    obtain ⟨a, ha, rfl⟩ := List.mem_map.mp hroot
    rw [ids_rename, List.mem_map_of_injective hf] at hmem
    have hway : ∃ c, f id = f c ∧ Relation.ReflTransGen g.Reads a c := by
      generalize f id = b at hpath
      induction hpath with
      | refl => exact ⟨a, rfl, .refl⟩
      | tail _ hread ih =>
        obtain ⟨c, rfl, hc⟩ := ih
        obtain ⟨d, rfl, hd⟩ := (reads_rename hf).mp hread
        exact ⟨d, rfl, hc.tail hd⟩
    obtain ⟨c, heq, hc⟩ := hway
    exact ⟨a, ha, hmem, hf heq ▸ hc⟩
  · rintro ⟨root, hroot, hmem, hpath⟩
    refine ⟨f root, ?_, ?_, hpath.lift f fun a b hab => (reads_rename hf).mpr ⟨b, rfl, hab⟩⟩
    · rw [roots_rename]
      exact List.mem_map_of_mem hroot
    · rw [ids_rename]
      exact List.mem_map_of_mem hmem

theorem reorder_rename (hf : Injective f) (g : Graph) (order : List NodeId) :
    (g.rename f).reorder (order.map f) = (g.reorder order).rename f := by
  refine eq_rename (by simp [reorder]) (by simp [reorder]) (by simp [reorder]) ?_ (by simp [reorder])
    (by simp [reorder])
  have hfound : ((g.rename f).node? ∘ f) = fun id => (g.node? id).map (Node.rename f) :=
    funext fun id => node?_rename hf g id
  have hrest : ((fun n : Node => !(order.map f).contains n.id) ∘ Node.rename f)
      = fun n => !order.contains n.id := by
    funext n
    rw [comp_apply, Node.id_rename, contains_map hf]
  simp only [reorder, nodes_rename, List.map_append]
  rw [List.filterMap_map, hfound, List.filter_map, hrest, List.map_filterMap]

theorem sort_rename (hf : Injective f) (g : Graph) : (g.rename f).sort = g.sort.map (rename f) := by
  have hids : (g.rename f).roots ++ (g.rename f).nodes.map Node.id = (g.roots ++ g.nodes.map Node.id).map f := by
    simp [comp_def]
  have hvisit : (g.rename f).visitAll [] ((g.rename f).roots ++ (g.rename f).nodes.map Node.id)
      = (g.visitAll [] (g.roots ++ g.nodes.map Node.id)).map (List.map f) := by
    rw [hids]
    exact visitAll_rename hf g [] _
  rw [sort_eq, sort_eq, hvisit]
  exact except_map_bind fun order => congrArg Except.ok (reorder_rename hf g order)

end Graph

/-! ## Scopes -/

namespace Scope

theorem rename_merge (hf : Injective f) (a b : Scope) : (a.rename f).merge (b.rename f) = (a.merge b).rename f := by
  cases a with
  | branches c mask full =>
    cases b with
    | branches c' mask' full' =>
      simp only [rename, merge, hf.eq_iff]
      split
      · split
        · rfl
        · rfl
      · rfl
    | _ => rfl
  | _ => cases b <;> rfl

theorem rename_throughBranch (s : Scope) (conditional : NodeId) (index : Nat) (full : Mask) :
    (s.rename f).throughBranch (f conditional) index full = (s.throughBranch conditional index full).rename f := by
  cases s with
  | branches c mask own =>
    simp only [rename, throughBranch]
    split
    · rfl
    · rfl
  | _ => rfl

theorem rename_isInBranch (hf : Injective f) (s : Scope) (conditional : NodeId) (index : Nat) :
    (s.rename f).isInBranch (f conditional) index = s.isInBranch conditional index := by
  cases s with
  | branches c mask full =>
    rw [Bool.eq_iff_iff]
    simp [rename, isInBranch, hf.eq_iff]
  | _ => rfl

@[simp] theorem rename_isTopLevel (s : Scope) : (s.rename f).isTopLevel = s.isTopLevel := by cases s <;> rfl

theorem rename_eq_unknown {s : Scope} : s.rename f = .unknown ↔ s = .unknown := by cases s <;> simp [rename]

end Scope

namespace Graph

theorem widen_rename (hf : Injective f) (g : Graph) (id : NodeId) (scope : Scope) :
    (g.rename f).widen (f id) (scope.rename f) = (g.widen id scope).rename f :=
  modifyNode_rename hf g id fun n => by simp [Node.rename, Scope.rename_merge hf]

theorem passOn_rename (n : Node) (scope : Scope) (index : Nat) :
    passOn (n.rename f) (scope.rename f) index = (passOn n scope index).rename f := by
  unfold passOn
  rw [Node.branchMask?_rename]
  cases n.branchMask? with
  | none => rfl
  | some full =>
    dsimp only
    split
    · exact Scope.rename_throughBranch scope n.id index full
    · rfl

theorem passAll_rename (hf : Injective f) (n : Node) (scope : Scope) (inputs : List Input) :
    ∀ (g : Graph) index, passAll (n.rename f) (scope.rename f) (g.rename f) index (inputs.map (Input.rename f))
      = (passAll n scope g index inputs).rename f := by
  induction inputs with
  | nil => intro g index; rfl
  | cons i inputs ih =>
    intro g index
    simp only [List.map_cons, passAll, Input.sourceNode?_rename]
    cases i.sourceNode? with
    | none => exact ih g (index + 1)
    | some id =>
      simp only [Option.map_some]
      rw [passOn_rename, widen_rename hf, ih]

theorem settle_rename (hf : Injective f) (g : Graph) (id : NodeId) :
    (g.rename f).settle (f id) = (g.settle id).rename f := by
  unfold settle
  rw [node?_rename hf]
  cases g.node? id with
  | none => rfl
  | some n =>
    have hscope : (if (n.rename f).scope = .unknown then .everywhere else (n.rename f).scope)
        = (if n.scope = .unknown then .everywhere else n.scope).rename f := by
      simp only [Node.scope_rename, Scope.rename_eq_unknown]
      split
      · rfl
      · rfl
    simp only [Option.map_some, hscope, Node.inputs_rename]
    rw [modifyNode_rename hf g id
      (c := fun m => { m with scope := if n.scope = .unknown then .everywhere else n.scope }) fun m => rfl,
      passAll_rename hf]

theorem assignScopes_rename (hf : Injective f) (g : Graph) : (g.rename f).assignScopes = g.assignScopes.rename f := by
  have hstart : ({ g.rename f with nodes := (g.rename f).nodes.map fun n => { n with scope := .unknown } } : Graph)
      = ({ g with nodes := g.nodes.map fun n => { n with scope := .unknown } } : Graph).rename f := by
    refine eq_rename (by simp) (by simp) (by simp) ?_ (by simp) (by simp)
    simp [Node.rename, Scope.rename]
  unfold assignScopes
  simp only [hstart]
  generalize ({ g with nodes := g.nodes.map fun n => { n with scope := .unknown } } : Graph) = g₀
  have hroots : (g₀.rename f).roots.foldl (fun g id => g.widen id .everywhere) (g₀.rename f)
      = (g₀.roots.foldl (fun g id => g.widen id .everywhere) g₀).rename f := by
    rw [roots_rename, List.foldl_map]
    exact List.foldl_hom (rename f) fun g id => widen_rename hf g id .everywhere
  rw [hroots]
  generalize g₀.roots.foldl (fun g id => g.widen id .everywhere) g₀ = g₁
  have hids : ((g₁.rename f).nodes.map Node.id).reverse = (g₁.nodes.map Node.id).reverse.map f := by
    simp [comp_def]
  rw [hids, List.foldl_map]
  exact List.foldl_hom (rename f) fun g id => settle_rename hf g id

end Graph

/-! ## Variables -/

theorem mapM_state_map {σ α β γ δ : Type} {φ : α → β} {ψ : γ → δ} {step : γ → StateM σ α} {step' : δ → StateM σ β}
    (h : ∀ c s, step' (ψ c) s = (φ (step c s).1, (step c s).2)) (l : List γ) :
    ∀ s, (l.map ψ).mapM step' s = ((l.mapM step s).1.map φ, (l.mapM step s).2) := by
  induction l with
  | nil => intro s; rfl
  | cons c l ih =>
    intro s
    rw [List.map_cons, List.mapM_cons, List.mapM_cons]
    change ((step' (ψ c) s).1 :: ((l.map ψ).mapM step' (step' (ψ c) s).2).1, ((l.map ψ).mapM step' (step' (ψ c) s).2).2)
      = (φ (step c s).1 :: (l.mapM step (step c s).2).1.map φ, (l.mapM step (step c s).2).2)
    rw [h, ih]

namespace Naming

theorem inputSocket_rename (l : Language) (s : Output) (used : List String) :
    inputSocket l (s.rename f) used = ((inputSocket l s used).1.rename f, (inputSocket l s used).2) := rfl

theorem outputSocket_rename (l : Language) (s : Input) (used : List String) :
    outputSocket l (s.rename f) used = ((outputSocket l s used).1.rename f, (outputSocket l s used).2) := rfl

theorem output_rename (l : Language) (node : String) (o : Output) (used : List String) :
    output l node (o.rename f) used = ((output l node o used).1.rename f, (output l node o used).2) := rfl

theorem input_rename (l : Language) (publish : Bool) (node : String) (i : Input) (used : List String) :
    input l publish node (i.rename f) used =
      ((input l publish node i used).1.rename f, (input l publish node i used).2) := by
  unfold input
  rw [Input.isConnected_rename, Input.uniform_rename]
  split
  · rfl
  · rfl

theorem node_rename (l : Language) (publish : Bool) (n : Node) (used : List String) :
    node l publish (n.rename f) used = ((node l publish n used).1.rename f, (node l publish n used).2) := by
  have houtputs := mapM_state_map (φ := Output.rename f) (ψ := Output.rename f) (output_rename l n.name) n.outputs
  have hinputs := mapM_state_map (φ := Input.rename f) (ψ := Input.rename f) (input_rename l publish n.name) n.inputs
  change ({ n.rename f with
      outputs := ((n.outputs.map (Output.rename f)).mapM (output l n.name) used).1
      inputs := ((n.inputs.map (Input.rename f)).mapM (input l publish n.name)
        ((n.outputs.map (Output.rename f)).mapM (output l n.name) used).2).1 },
    ((n.inputs.map (Input.rename f)).mapM (input l publish n.name)
      ((n.outputs.map (Output.rename f)).mapM (output l n.name) used).2).2) = _
  rw [houtputs, hinputs]
  rfl

theorem graph_rename (l : Language) (publish : Bool) (g : Graph) (used : List String) :
    (graph l publish (g.rename f) used).1 = (graph l publish g used).1.rename f := by
  have hinputs := mapM_state_map (φ := Output.rename f) (ψ := Output.rename f) (inputSocket_rename l) g.inputSockets
  have houtputs := mapM_state_map (φ := Input.rename f) (ψ := Input.rename f) (outputSocket_rename l) g.outputSockets
  have hnodes := mapM_state_map (φ := Node.rename f) (ψ := Node.rename f) (node_rename l publish) g.nodes
  refine Graph.eq_rename (Graph.name_rename g) (Graph.nodedef_rename g) (Graph.traits_rename g) ?_ ?_ ?_
  · change ((g.rename f).nodes.mapM (node l publish) (((g.rename f).outputSockets.mapM (outputSocket l)
      ((g.rename f).inputSockets.mapM (inputSocket l) used).2).2)).1 = _
    rw [Graph.inputSockets_rename, Graph.outputSockets_rename, Graph.nodes_rename, hinputs, houtputs, hnodes]
    rfl
  · change ((g.rename f).inputSockets.mapM (inputSocket l) used).1 = _
    rw [Graph.inputSockets_rename, hinputs]
    rfl
  · change ((g.rename f).outputSockets.mapM (outputSocket l)
      ((g.rename f).inputSockets.mapM (inputSocket l) used).2).1 = _
    rw [Graph.inputSockets_rename, Graph.outputSockets_rename, hinputs, houtputs]
    rfl

end Naming

theorem Graph.assignVariables_rename (g : Graph) (l : Language) (publish : Bool) :
    (g.rename f).assignVariables l publish = (g.assignVariables l publish).rename f :=
  Naming.graph_rename l publish g []

/-! ## Renaming nothing -/

theorem PinRef.rename_id : rename id = id := by
  funext p
  rcases p with ⟨_ | _, _⟩ <;> rfl

theorem Input.rename_id (i : Input) : i.rename id = i := by
  cases i
  simp [rename, PinRef.rename_id]

theorem Output.rename_id (o : Output) : o.rename id = o := by
  cases o
  simp [rename, PinRef.rename_id]

theorem Scope.rename_id (s : Scope) : s.rename id = s := by
  cases s <;> rfl

mutual

theorem Implementation.rename_id : ∀ i : Implementation, i.rename id = i
  | .compound _ _ graph => by rw [Implementation.rename, Graph.rename_id graph]
  | .source _ => by rw [Implementation.rename]
  | .procedural _ => by rw [Implementation.rename]

theorem Graph.rename_id : ∀ g : Graph, g.rename id = g
  | ⟨_, _, _, nodes, _, _⟩ => by
    rw [Graph.rename, Graph.renameNodes_id nodes, List.map_id'' Output.rename_id, List.map_id'' Input.rename_id]

theorem Graph.renameNodes_id : ∀ nodes : List Node, Graph.renameNodes id nodes = nodes
  | [] => by rw [Graph.renameNodes]
  | ⟨_, _, _, _, _, _, _, implementation, _⟩ :: rest => by
    rw [Graph.renameNodes, Graph.renameNodes_id rest, Implementation.rename_id implementation,
      List.map_id'' Input.rename_id, List.map_id'' Output.rename_id, Scope.rename_id, id_eq]

end

theorem Graph.node_rename_id (n : Node) : n.rename id = n := by
  cases n
  simp [Node.rename, List.map_id'' Input.rename_id, List.map_id'' Output.rename_id, Implementation.rename_id,
    Scope.rename_id]

end ShadeGraph
