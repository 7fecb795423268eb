import ShadeGraph.Proofs.Graph.Inversion
import ShadeGraph.Proofs.Graph.Renaming

/-!
# Building with other node identities

Flattening and building take the same steps whatever identities they get: from related states, and with supplies that
pick corresponding identities, they fail with the same error or give graphs that differ in their identities only.

An error shows an identity where a node is not in the graph. Building does not come there: the names that it goes by are
names of nodes that are there.
-/

namespace ShadeGraph

open Function

variable {f : NodeId → NodeId}

/-! ## Flattening -/

/-- Supplies in the relation `T` pick corresponding identities, and go on to do so. -/
def Picks (f : NodeId → NodeId) (T : IdSupply → IdSupply → Prop) : Prop :=
  ∀ a b, T a b → b.fresh.1 = f a.fresh.1 ∧ T a.fresh.2 b.fresh.2

theorem lookup_map_rename {α : Type} (hf : Injective f) (φ : α → α) (pairs : List (NodeId × α)) (id : NodeId) :
    (pairs.map (Prod.map f φ)).lookup (f id) = (pairs.lookup id).map φ := by
  induction pairs with
  | nil => rfl
  | cons p pairs ih =>
    have heq : (f id == f p.1) = (id == p.1) := by
      rw [Bool.eq_iff_iff]
      simp [hf.eq_iff]
    rw [List.map_cons, List.lookup_cons, List.lookup_cons, Prod.map_fst, heq, ih]
    split <;> rfl

namespace Graph.Rewiring

variable {T : IdSupply → IdSupply → Prop}

def Renamed (f : NodeId → NodeId) (T : IdSupply → IdSupply → Prop) (x y : Graph × IdSupply) : Prop :=
  y.1 = x.1.rename f ∧ T x.2 y.2

theorem simulates_update {c c' : Graph → Graph} (h : ∀ g, c' (g.rename f) = (c g).rename f) :
    Simulates (Renamed f T) id (update c) (update c') := by
  refine Simulates.modify ?_
  rintro ⟨g, a⟩ ⟨g', b⟩ ⟨rfl, hT⟩
  exact ⟨h g, hT⟩

theorem simulates_current : Simulates (Renamed f T) (rename f) current current := by
  rintro ⟨g, a⟩ ⟨g', b⟩ ⟨rfl, hT⟩
  exact .ok ⟨rfl, hT⟩

theorem simulates_freshId (hT : Picks f T) : Simulates (Renamed f T) f freshId freshId := by
  rintro ⟨g, a⟩ ⟨g', b⟩ ⟨rfl, hab⟩
  obtain ⟨hid, hnext⟩ := hT a b hab
  change Matches _ f (.ok a.fresh.1 (g, a.fresh.2)) (.ok b.fresh.1 (g.rename f, b.fresh.2))
  rw [hid]
  exact .ok ⟨rfl, hnext⟩

theorem simulates_modifyInput (hf : Injective f) {p : PinRef} {c c' : Input → Input}
    (h : ∀ i, c' (i.rename f) = (c i).rename f) :
    Simulates (Renamed f T) id (update fun g => g.modifyInput p c) (update fun g => g.modifyInput (p.rename f) c') :=
  simulates_update fun g => modifyInput_rename hf g p h

theorem simulates_bindSocket (hf : Injective f) (compound : Node) (inner : Graph) (socket : Nat) (target : PinRef) :
    Simulates (Renamed f T) id (bindSocket compound inner socket target)
      (bindSocket (compound.rename f) (inner.rename f) socket (target.rename f)) := by
  unfold bindSocket
  refine Simulates.bind simulates_current fun g => ?_
  rw [input?_rename hf, inputSockets_rename, List.getElem?_map]
  cases inner.inputSockets[socket]? with
  | none => exact Simulates.pure rfl
  | some socket =>
    cases g.input? target with
    | none => exact Simulates.pure rfl
    | some input =>
      simp only [Option.map_some, Output.name_rename, Node.input?_rename]
      cases compound.input? socket.name with
      | none =>
        refine Simulates.bind (φ := id) (Simulates.lift (by simp)) fun value => ?_
        exact simulates_modifyInput hf fun i => rfl
      | some outer =>
        simp only [Option.map_some, Input.source_rename]
        cases outer.source with
        | some source =>
          refine Simulates.bind (φ := id) (Simulates.lift (by simp)) fun channels => ?_
          refine simulates_update fun g => ?_
          rw [modifyInput_rename hf g target (c := fun i => { i with channels }) fun i => rfl, link_rename hf]
        | none =>
          refine Simulates.bind (φ := id) (Simulates.lift (by simp)) fun value => ?_
          exact simulates_modifyInput hf fun i => rfl

theorem simulates_copyNode (hT : Picks f T) (compound n : Node) :
    Simulates (Renamed f T) (Prod.map f f) (copyNode compound n) (copyNode (compound.rename f) (n.rename f)) := by
  refine Simulates.bind (simulates_freshId hT) fun id => Simulates.bind (simulates_update fun g => ?_)
    fun _ => Simulates.pure rfl
  rw [← addNode_rename]
  congr 1
  simp [Node.rename, Input.rename, Output.rename, comp_def]

theorem simulates_rewire (hf : Injective f) (compound : Node) (inner : Graph) (copies : List (NodeId × NodeId))
    (source target : PinRef) : Simulates (Renamed f T) id (rewire compound inner copies source target)
      (rewire (compound.rename f) (inner.rename f) (copies.map (Prod.map f f)) (source.rename f)
        (target.rename f)) := by
  rcases source with ⟨_ | old, index⟩
  · exact simulates_bindSocket hf compound inner index target
  · unfold rewire
    simp only [PinRef.rename, Owner.rename, lookup_map_rename hf]
    cases copies.lookup old with
    | none => exact Simulates.pure rfl
    | some new => exact simulates_update fun g => link_rename hf g (.ofNode new index) target

theorem simulates_rewireInputs (hf : Injective f) (compound : Node) (inner : Graph) (copies : List (NodeId × NodeId))
    (id' : NodeId) (inputs : List Input) : ∀ index,
    Simulates (Renamed f T) id (rewireInputs compound inner copies id' index inputs)
      (rewireInputs (compound.rename f) (inner.rename f) (copies.map (Prod.map f f)) (f id') index
        (inputs.map (Input.rename f))) := by
  induction inputs with
  | nil => exact fun index => Simulates.pure rfl
  | cons i inputs ih =>
    intro index
    rw [List.map_cons, rewireInputs, rewireInputs, Input.source_rename]
    cases i.source with
    | none => exact ih (index + 1)
    | some source =>
      exact Simulates.bind (simulates_rewire hf compound inner copies source (.ofNode id' index))
        fun _ => ih (index + 1)

theorem simulates_rewireReader (hf : Injective f) (compound : Node) (inner : Graph) (copies : List (NodeId × NodeId))
    (socket : Input) (target : PinRef) : Simulates (Renamed f T) id (rewireReader compound inner copies socket target)
      (rewireReader (compound.rename f) (inner.rename f) (copies.map (Prod.map f f)) (socket.rename f)
        (target.rename f)) := by
  unfold rewireReader
  refine Simulates.bind simulates_current fun g => ?_
  rw [input?_rename hf]
  cases g.input? target with
  | none => exact Simulates.pure rfl
  | some input =>
    refine Simulates.bind (φ := id) (Simulates.lift (by simp)) fun channels => ?_
    refine Simulates.bind (simulates_modifyInput hf fun i => rfl) fun _ => ?_
    simp only [Input.source_rename]
    cases socket.source with
    | some source => exact simulates_rewire hf compound inner copies source target
    | none =>
      refine Simulates.bind (φ := id) (Simulates.lift (by simp)) fun value => ?_
      exact simulates_modifyInput hf fun i => rfl

theorem simulates_inlineCompound (hf : Injective f) (hT : Picks f T) (compound : Node) (inner : Graph) :
    Simulates (Renamed f T) id (inlineCompound compound inner)
      (inlineCompound (compound.rename f) (inner.rename f)) := by
  unfold inlineCompound
  refine Simulates.bind (simulates_update fun g => removeNode_rename hf g compound.id) fun _ => ?_
  rw [nodes_rename]
  refine Simulates.bind (Simulates.mapM inner.nodes fun n _ => simulates_copyNode hT compound n) fun copies => ?_
  refine Simulates.bind (Simulates.forM inner.nodes fun n _ => ?_) fun _ => ?_
  · rw [Node.id_rename, lookup_map_rename hf]
    cases copies.lookup n.id with
    | none => exact Simulates.pure rfl
    | some id' => exact simulates_rewireInputs hf compound inner copies id' n.inputs 0
  · rw [Node.outputs_rename, outputSockets_rename, List.zip_map]
    refine Simulates.forM _ ?_
    rintro ⟨output, socket⟩ -
    exact Simulates.forM output.readers fun target _ => simulates_rewireReader hf compound inner copies socket target

theorem firstCompound?_rename (nodes : List Node) :
    firstCompound? (nodes.map (Node.rename f)) = (firstCompound? nodes).map (Prod.map (Node.rename f) (rename f)) := by
  induction nodes with
  | nil => rfl
  | cons n nodes ih =>
    rw [List.map_cons, firstCompound?, firstCompound?, Node.implementation_rename]
    cases n.implementation with
    | compound name function graph => rw [Implementation.rename_compound]; rfl
    | source code => rw [Implementation.rename_source]; exact ih
    | procedural p => rw [Implementation.rename_procedural]; exact ih

theorem simulates_inlineUpTo (hf : Injective f) (hT : Picks f T) (count : Nat) :
    Simulates (Renamed f T) id (inlineUpTo count) (inlineUpTo count) := by
  induction count with
  | zero => exact Simulates.pure rfl
  | succ count ih =>
    refine Simulates.bind simulates_current fun g => ?_
    rw [nodes_rename, firstCompound?_rename]
    cases firstCompound? g.nodes with
    | none => exact Simulates.pure rfl
    | some p => exact Simulates.bind (simulates_inlineCompound hf hT p.1 p.2) fun _ => ih

end Graph.Rewiring

mutual

theorem Graph.weight_rename : ∀ g : Graph, (g.rename f).weight = g.weight
  | ⟨_, _, _, nodes, _, _⟩ => by
    rw [Graph.rename, Graph.weight, Graph.weight]
    exact Graph.weightOf_rename nodes

theorem Graph.weightOf_rename : ∀ nodes : List Node, Graph.weightOf (Graph.renameNodes f nodes) = Graph.weightOf nodes
  | [] => by rw [Graph.renameNodes]
  | ⟨_, _, _, _, _, _, _, implementation, _⟩ :: rest => by
    rw [Graph.renameNodes, Graph.weightOf, Graph.weightOf, Graph.weightOf_rename rest,
      Implementation.weight_rename implementation]

theorem Implementation.weight_rename : ∀ i : Implementation, (i.rename f).weight = i.weight
  | .compound _ _ graph => by
    rw [Implementation.rename, Implementation.weight, Implementation.weight]
    exact Graph.weight_rename graph
  | .source _ => by rw [Implementation.rename]
  | .procedural _ => by rw [Implementation.rename]

end

theorem Graph.Rewiring.simulates_flatten {T : IdSupply → IdSupply → Prop} (hf : Injective f) (hT : Picks f T) :
    Simulates (Renamed f T) id flatten flatten := by
  refine Simulates.bind simulates_current fun g => ?_
  rw [Graph.weight_rename]
  exact simulates_inlineUpTo hf hT g.weight

namespace Build

variable {r : Request} {P : BuildState → BuildState → Prop} {stack : List String}

/-! ## Connections -/

def NodeNames.rename (f : NodeId → NodeId) (names : NodeNames) : NodeNames := names.map (Prod.map id f)

theorem NodeNames.lookup_rename (names : NodeNames) (name : String) :
    List.lookup name (names.rename f) = (List.lookup name names).map f := by
  induction names with
  | nil => rfl
  | cons p names ih =>
    rw [rename, List.map_cons, List.lookup_cons, List.lookup_cons, Prod.map_fst, id_eq]
    split
    · rfl
    · exact ih

theorem lookup_rename (g : Graph) (names : NodeNames) (name : String) :
    lookup (g.rename f) (names.rename f) name = (lookup g names name).map f := by
  rw [lookup, NodeNames.lookup_rename, lookup, Graph.name_rename]
  cases List.lookup name names <;> rfl

section
variable (hf : Injective f) {g : Graph} {names : NodeNames} {id : NodeId}
include hf

theorem inputRef_rename (name : String) (hid : id ∈ g.ids) :
    inputRef (g.rename f) (f id) name = (inputRef g id name).map (PinRef.rename f) := by
  obtain ⟨n, hn⟩ := Graph.exists_node? hid
  simp only [inputRef, Graph.node?_rename hf, hn, Option.map_some, Node.inputIndex?_rename, Node.name_rename]
  cases n.inputIndex? name <;> rfl

theorem outputRef_rename (name : Option String) (hid : id ∈ g.ids) :
    outputRef (g.rename f) (f id) name = (outputRef g id name).map (PinRef.rename f) := by
  obtain ⟨n, hn⟩ := Graph.exists_node? hid
  simp only [outputRef, Graph.node?_rename hf, hn, Option.map_some, Node.outputIndex?_rename, Node.name_rename,
    Node.outputs_rename, List.isEmpty_map]
  split <;> rfl

theorem connectThrough_rename {source target : PinRef} (channels : Option String) (hsource : g.HasOwner source)
    (htarget : g.HasOwner target) : connectThrough (g.rename f) channels (source.rename f) (target.rename f)
      = (connectThrough g channels source target).map (Graph.rename f) := by
  rw [connectThrough, Graph.modifyInput_rename hf g target (c := fun i => { i with channels }) fun i => rfl]
  refine Graph.connect_rename hf _ ?_ ?_
  · rwa [Graph.HasOwner, Graph.ids_modifyInput]
  · rwa [Graph.HasOwner, Graph.ids_modifyInput]

theorem bindNode_rename {source target : NodeId} (b : InputBinding) (hsource : source ∈ g.ids)
    (htarget : target ∈ g.ids) :
    bindNode (g.rename f) (f source) (f target) b = (bindNode g source target b).map (Graph.rename f) := by
  rw [bindNode, outputRef_rename hf b.output hsource, bindNode]
  refine except_map_bind_of_ok fun p hp => ?_
  rw [inputRef_rename hf b.name htarget]
  refine except_map_bind_of_ok fun q hq => ?_
  obtain ⟨j, rfl⟩ := outputRef_cases hp
  obtain ⟨k, rfl⟩ := inputRef_cases hq
  exact connectThrough_rename hf b.channels (Graph.hasOwner_ofNode hsource j) (Graph.hasOwner_ofNode htarget k)

theorem bindInput_rename {target : NodeId} (b : InputBinding) (hnames : names.Known g) (htarget : target ∈ g.ids) :
    bindInput (names.rename f) (f target) (g.rename f) b = (bindInput names target g b).map (Graph.rename f) := by
  unfold bindInput
  cases b.nodeName with
  | some name =>
    simp only [lookup_rename]
    exact except_map_bind_of_ok fun source hsource => bindNode_rename hf b (known_of_lookup hnames hsource) htarget
  | none =>
    cases b.interfaceName with
    | none => rfl
    | some name =>
      simp only [Graph.inputSocketIndex?_rename, Graph.name_rename]
      cases g.inputSocketIndex? name with
      | none => rfl
      | some index =>
        simp only [inputRef_rename hf b.name htarget]
        refine except_map_bind_of_ok fun q hq => ?_
        obtain ⟨k, rfl⟩ := inputRef_cases hq
        exact connectThrough_rename hf b.channels (g.hasOwner_socket index) (Graph.hasOwner_ofNode htarget k)

theorem bindInstance_rename (n : NodeInstance) (hnames : names.Known g) :
    bindInstance (names.rename f) (g.rename f) n = (bindInstance names g n).map (Graph.rename f) := by
  rw [bindInstance, lookup_rename, bindInstance]
  refine except_map_bind_of_ok fun target htarget => ?_
  refine except_foldlM_hom (P := fun g => names.Known g ∧ target ∈ g.ids) n.inputs (fun g b _ hg g' hbind => ?_)
    (fun g b _ hg => bindInput_rename hf b hg.1 hg.2) g ⟨hnames, known_of_lookup hnames htarget⟩
  have hids := ids_bindInput hbind
  exact ⟨hg.1.of_ids hids, hids ▸ hg.2⟩

theorem bindInstances_rename (instances : List NodeInstance) (hnames : names.Known g) :
    instances.foldlM (bindInstance (names.rename f)) (g.rename f)
      = (instances.foldlM (bindInstance names) g).map (Graph.rename f) :=
  except_foldlM_hom (P := names.Known) instances (fun _ _ _ hknown _ hbind => hknown.of_ids (ids_bindInstance hbind))
    (fun _ n _ => bindInstance_rename hf n) g hnames

theorem bindOutput_rename (o : GraphOutput × Nat) (hnames : names.Known g) :
    bindOutput (names.rename f) (g.rename f) o = (bindOutput names g o).map (Graph.rename f) := by
  rw [bindOutput, lookup_rename, bindOutput]
  refine except_map_bind_of_ok fun id hid => ?_
  have hid := known_of_lookup hnames hid
  rw [outputRef_rename hf o.1.output hid]
  refine except_map_bind_of_ok fun p hp => ?_
  obtain ⟨j, rfl⟩ := outputRef_cases hp
  exact connectThrough_rename hf o.1.channels (Graph.hasOwner_ofNode hid j) (g.hasOwner_socket o.2)

theorem bindOutputs_rename (outputs : List (GraphOutput × Nat)) (hnames : names.Known g) :
    outputs.foldlM (bindOutput (names.rename f)) (g.rename f)
      = (outputs.foldlM (bindOutput names) g).map (Graph.rename f) :=
  except_foldlM_hom (P := names.Known) outputs (fun _ _ _ hknown _ hbind => hknown.of_ids (ids_bindOutput hbind))
    (fun _ o _ => bindOutput_rename hf o) g hnames

theorem exposeInputs_rename (inputs : List Input) : ∀ {g : Graph} index, id ∈ g.ids →
    exposeInputs (f id) (g.rename f) index (inputs.map (Input.rename f))
      = (exposeInputs id g index inputs).map (Graph.rename f) := by
  induction inputs with
  | nil => intro g index _; rfl
  | cons i inputs ih =>
    intro g index hid
    rw [List.map_cons, exposeInputs, exposeInputs, Input.isConnected_rename]
    cases i.isConnected with
    | true => exact ih (index + 1) hid
    | false =>
      have hconnect := Graph.connect_rename hf (g.addInputSocket (socketFor i)) (Graph.hasOwner_socket _
        g.inputSockets.length) (Graph.hasOwner_ofNode hid index)
      rw [← Graph.addInputSocket_rename] at hconnect
      simp only [Graph.inputSockets_rename, List.length_map]
      refine (congrArg (· >>= _) hconnect).trans (except_map_bind_of_ok fun g' hg' => ih (index + 1) ?_)
      exact ids_connect hg' ▸ hid

theorem exposeOutputs_rename (outputs : List Output) : ∀ {g : Graph} index, id ∈ g.ids →
    exposeOutputs (f id) (g.rename f) index (outputs.map (Output.rename f))
      = (exposeOutputs id g index outputs).map (Graph.rename f) := by
  induction outputs with
  | nil => intro g index _; rfl
  | cons o outputs ih =>
    intro g index hid
    have hconnect := Graph.connect_rename hf (g.addOutputSocket { name := o.name, type := o.type })
      (Graph.hasOwner_ofNode hid index) (Graph.hasOwner_socket _ g.outputSockets.length)
    rw [← Graph.addOutputSocket_rename] at hconnect
    rw [List.map_cons, exposeOutputs, exposeOutputs, Graph.outputSockets_rename, List.length_map]
    refine (congrArg (· >>= _) hconnect).trans (except_map_bind_of_ok fun g' hg' => ih (index + 1) ?_)
    exact ids_connect hg' ▸ hid

theorem traitsOf_rename (g : Graph) : traitsOf (g.rename f) = traitsOf g := by
  have hsource : ((g.rename f).outputSockets.head?.bind Input.sourceNode?)
      = (g.outputSockets.head?.bind Input.sourceNode?).map f := by
    rw [Graph.outputSockets_rename, List.head?_map]
    cases g.outputSockets.head? with
    | none => rfl
    | some s => exact Input.sourceNode?_rename s
  unfold traitsOf
  rw [hsource]
  cases g.outputSockets.head?.bind Input.sourceNode? with
  | none => rfl
  | some id =>
    simp only [Option.map_some, Option.bind_some, Graph.node?_rename hf]
    cases g.node? id <;> rfl

end

/-! ## Nodes -/

theorem input_unread (scope : String) (n : NodeInstance) (p : PinDef) :
    (input r scope n p).map (Input.rename f) = input r scope n p := by
  refine except_bind_fixed fun type => except_bind_fixed fun default => ?_
  cases n.input? p.name with
  | none => rfl
  | some binding =>
    dsimp only
    split
    · rfl
    · cases binding.value with
      | none => rfl
      | some text => exact except_bind_fixed fun value => rfl

theorem output_unread (p : PinDef) : (output r p).map (Output.rename f) = output r p :=
  except_bind_fixed fun _ => rfl

theorem inputSocket_unread (graph : String) (p : PinDef) :
    (inputSocket r graph p).map (Output.rename f) = inputSocket r graph p :=
  except_bind_fixed fun _ => except_bind_fixed fun _ => rfl

theorem outputSocket_unread (o : GraphOutput) : (outputSocket r o).map (Input.rename f) = outputSocket r o :=
  except_bind_fixed fun _ => rfl

/-- Two related states inside of the same compounds. -/
def At (P : BuildState → BuildState → Prop) (stack : List String) (s t : BuildState) : Prop :=
  s.stack = stack ∧ t.stack = stack ∧ P s t

/-- A relation of states that building keeps, when the second state picks identities that correspond to those of the
first one. -/
structure Tracks (r : Request) (f : NodeId → NodeId) (P : BuildState → BuildState → Prop) : Prop where
  injective : Injective f
  fresh : ∀ {s t}, P s t →
    t.ids.fresh.1 = f s.ids.fresh.1 ∧ P { s with ids := s.ids.fresh.2 } { t with ids := t.ids.fresh.2 }
  source : ∀ file stack, Simulates (At P stack) id (source r file) (source r file)
  stack : ∀ {s t} stack, P s t → P { s with stack } { t with stack }

section
variable (hP : Tracks r f P)
include hP

theorem Tracks.freshId : Simulates (At P stack) f freshId freshId := by
  rintro s t ⟨hs, ht, hst⟩
  obtain ⟨hid, hnext⟩ := hP.fresh hst
  change Matches _ f (.ok s.ids.fresh.1 { s with ids := s.ids.fresh.2 })
    (.ok t.ids.fresh.1 { t with ids := t.ids.fresh.2 })
  rw [hid]
  exact .ok ⟨hs, ht, hnext⟩

theorem Tracks.sourceCode (d : SourceDef) : Simulates (At P stack) id (sourceCode r d) (sourceCode r d) := by
  unfold Build.sourceCode
  cases d.source with
  | some text => exact Simulates.pure rfl
  | none =>
    cases d.file with
    | none => exact Simulates.throw_bind _
    | some file => exact Simulates.bind (hP.source file stack) fun _ => Simulates.pure rfl

variable {enter enter' : NodeDef → Build Implementation}
  (henter : ∀ d, Simulates (At P stack) (Implementation.rename f) (enter d) (enter' d))
include henter

theorem Tracks.implementation (d : NodeDef) :
    Simulates (At P stack) (Implementation.rename f) (implementation r enter d) (implementation r enter' d) := by
  unfold Build.implementation
  cases r.generator.registry.find? d.category with
  | some p => exact Simulates.pure (Implementation.rename_procedural p).symm
  | none =>
    dsimp only
    cases r.document.source? d.name r.generator.language.name (target r) with
    | some s =>
      exact Simulates.bind (hP.sourceCode s) fun code => Simulates.pure (Implementation.rename_source code).symm
    | none => exact henter d

theorem Tracks.node (scope : String) (n : NodeInstance) :
    Simulates (At P stack) (Node.rename f) (node r enter scope n) (node r enter' scope n) := by
  unfold Build.node
  cases r.document.definitionOf? n with
  | none => exact Simulates.throw _
  | some d =>
    refine Simulates.bind (φ := id) (Simulates.lift (by simp)) fun traits => ?_
    dsimp only [id_eq]
    split
    · exact Simulates.throw_bind _
    refine Simulates.bind (hP.implementation henter d) fun how => ?_
    refine Simulates.bind (φ := List.map (Input.rename f))
      (Simulates.lift (except_mapM_fixed (input_unread scope n) d.inputs).symm) fun inputs => ?_
    refine Simulates.bind (φ := List.map (Output.rename f))
      (Simulates.lift (except_mapM_fixed output_unread d.outputs).symm) fun outputs => ?_
    rw [List.length_map]
    split
    · exact Simulates.throw_bind _
    cases n.inputs.find? fun b => (d.input? b.name).isNone with
    | some b => exact Simulates.throw _
    | none => exact Simulates.bind hP.freshId fun id => Simulates.pure rfl

/-! ## Graphs -/

theorem Tracks.wire (g : NodeGraph) :
    Simulates (At P stack) (Graph.rename f) (wire r enter g) (wire r enter' g) := by
  unfold Build.wire
  refine Simulates.bind (φ := id) (Simulates.lift (by simp)) fun pins => ?_
  refine Simulates.bind (φ := List.map (Output.rename f))
    (Simulates.lift (except_mapM_fixed (inputSocket_unread g.name) pins).symm) fun inputs => ?_
  refine Simulates.bind (φ := List.map (Input.rename f))
    (Simulates.lift (except_mapM_fixed outputSocket_unread g.outputs).symm) fun outputs => ?_
  have hnodes := Simulates.mapM (ψ := id) g.nodes fun n _ => hP.node henter g.name n
  rw [List.map_id] at hnodes
  refine Simulates.bind hnodes fun nodes => ?_
  have hrename : ((nodes.map (Node.rename f)).map fun n => (n.name, n.id)).reverse
      = NodeNames.rename f (nodes.map fun n => (n.name, n.id)).reverse := by
    simp [NodeNames.rename, comp_def]
  have hgraph : ({ Graph.empty g.name with
        nodedef := g.nodedef, inputSockets := inputs.map (Output.rename f),
        outputSockets := outputs.map (Input.rename f), nodes := nodes.map (Node.rename f) } : Graph)
      = Graph.rename f { Graph.empty g.name with
        nodedef := g.nodedef, inputSockets := inputs, outputSockets := outputs, nodes } :=
    Graph.eq_rename rfl rfl rfl rfl rfl rfl
  have hnames := known_nodeNames { Graph.empty g.name with
    nodedef := g.nodedef, inputSockets := inputs, outputSockets := outputs, nodes }
  dsimp only
  rw [hrename, hgraph]
  rw [nodeNames] at hnames
  generalize (nodes.map fun n => (n.name, n.id)).reverse = names at hnames ⊢
  refine Simulates.lift_bind (bindInstances_rename hP.injective g.nodes hnames) fun graph hgraph => ?_
  exact Simulates.lift (bindOutputs_rename hP.injective g.outputs.zipIdx (hnames.of_ids (ids_bindInstances hgraph)))

end

section
variable (hP : Tracks r f P)
include hP

theorem Tracks.flatten (g : Graph) : Simulates (At P stack) (Graph.rename f) (flatten g) (flatten (g.rename f)) := by
  rintro s t ⟨hs, ht, hst⟩
  have hflatten := Graph.Rewiring.simulates_flatten (T := fun a b => P { s with ids := a } { t with ids := b })
    hP.injective (fun a b hab => hP.fresh hab) (g, s.ids) (g.rename f, t.ids) ⟨rfl, hst⟩
  unfold Build.flatten
  generalize Graph.Rewiring.flatten (g, s.ids) = x, Graph.Rewiring.flatten (g.rename f, t.ids) = y at hflatten ⊢
  cases hflatten with
  | ok states =>
    rename_i x y
    obtain ⟨g₁, a⟩ := x
    obtain ⟨g₂, b⟩ := y
    obtain ⟨rfl, hab⟩ := states
    exact .ok ⟨hs, ht, hab⟩
  | error states => exact .error ⟨hs, ht, states.2⟩

theorem Tracks.finish (publish : Bool) (g : Graph) :
    Simulates (At P stack) (Graph.rename f) (finish r publish g) (finish r publish (g.rename f)) := by
  have hflatten : Simulates (At P stack) (Graph.rename f) (if r.options.flatten then Build.flatten g else pure g)
      (if r.options.flatten then Build.flatten (g.rename f) else pure (g.rename f)) := by
    split
    · exact hP.flatten g
    · exact Simulates.pure rfl
  rw [finish_eq, finish_eq]
  refine Simulates.bind hflatten fun g => Simulates.bind (Simulates.lift (Graph.sort_rename hP.injective g)) fun g => ?_
  refine Simulates.pure ?_
  rw [Graph.assignScopes_rename hP.injective, Graph.assignVariables_rename, traitsOf_rename hP.injective]
  exact Graph.eq_rename (by simp) (by simp) rfl (by simp) (by simp) (by simp)

variable {enter enter' : NodeDef → Build Implementation}
  (henter : ∀ d, Simulates (At P stack) (Implementation.rename f) (enter d) (enter' d))

include henter in
theorem Tracks.assemble (g : NodeGraph) :
    Simulates (At P stack) (Graph.rename f) (assemble r enter g) (assemble r enter' g) := by
  refine Simulates.bind (hP.wire henter g) fun graph => Simulates.get_bind fun s t hst => ?_
  rw [hst.1, hst.2.1]
  exact hP.finish _ graph s t hst

end

/-! ## Graphs inside of graphs -/

section
variable (hP : Tracks r f P)
include hP

theorem Tracks.left {name : String} {s t : BuildState} (h : At P (name :: stack) s t) :
    At P stack { s with stack := s.stack.tail } { t with stack := t.stack.tail } := by
  obtain ⟨hs, ht, hst⟩ := h
  rw [hs, ht]
  exact ⟨rfl, rfl, hP.stack stack hst⟩

theorem Tracks.within {α β : Type} {φ : α → β} {name : String} {m : Build α} {m' : Build β}
    (hm : name ∉ stack → Simulates (At P (name :: stack)) φ m m') :
    Simulates (At P stack) φ (within name m) (within name m') := by
  rintro s t ⟨rfl, hstack, hst⟩
  by_cases hname : name ∈ s.stack
  · rw [within_entered hname, within_entered (hstack ▸ hname)]
    exact .error ⟨rfl, hstack, hst⟩
  · rw [within_new hname, within_new (hstack ▸ hname), hstack]
    have h := hm hname { s with stack := name :: s.stack } { t with stack := name :: s.stack }
      ⟨rfl, rfl, hP.stack _ hst⟩
    generalize m _ = x, m' _ = y at h ⊢
    cases h with
    | ok states => exact .ok (hP.left states)
    | error states => exact .error (hP.left states)

theorem Tracks.compound {build build' : NodeGraph → Build Graph}
    (hbuild : ∀ g ∈ r.document.nodegraphs, g.name ∉ stack →
      Simulates (At P (g.name :: stack)) (Graph.rename f) (build g) (build' g)) (d : NodeDef) :
    Simulates (At P stack) (Implementation.rename f) (compound r build d) (compound r build' d) := by
  unfold Build.compound
  cases hinner : r.document.graphFor? d.name with
  | none => exact Simulates.throw _
  | some inner =>
    have hmem : inner ∈ r.document.nodegraphs := List.mem_of_find?_eq_some hinner
    refine Simulates.bind (hP.within (hbuild inner hmem)) fun graph => Simulates.pure ?_
    rw [Implementation.rename_compound]

theorem Tracks.nestedGraph (depth : Nat) : ∀ stack g,
    Simulates (At P stack) (Graph.rename f) (nestedGraph r depth g) (nestedGraph r depth g) := by
  -- Each level down has one more graph on the stack.
  induction depth with
  | zero => exact fun stack g => Simulates.throw _
  | succ depth ih => exact fun stack g => hP.assemble (fun d => hP.compound (fun inner _ _ => ih _ inner) d) g

theorem Tracks.nodeGraph (g : NodeGraph) :
    Simulates (At P stack) (Graph.rename f) (nodeGraph r g) (nodeGraph r g) :=
  hP.nestedGraph _ stack g

/-! ## Single nodes -/

def renameParts (f : NodeId → NodeId) (x : Graph × NodeNames) : Graph × NodeNames := (x.1.rename f, x.2.rename f)

theorem Tracks.addSource {add add' : NodeInstance → Graph × NodeNames → Build (NodeId × Graph × NodeNames)}
    (hadd : ∀ n x, x.2.Known x.1 →
      Simulates (At P stack) (Prod.map f (renameParts f)) (add n x) (add' n (renameParts f x))) (hadds : Adds add)
    {target : NodeId} {x : Graph × NodeNames} (b : InputBinding) (hx : x.2.Known x.1) (htarget : target ∈ x.1.ids) :
    Simulates (At P stack) (renameParts f) (addSource r add target x b)
      (addSource r add' (f target) (renameParts f x) b) := by
  unfold Build.addSource
  cases b.nodeName with
  | none => exact Simulates.pure rfl
  | some name =>
    dsimp only
    cases r.document.node? name with
    | none => exact Simulates.throw _
    | some above =>
      refine Simulates.bind_of_ok (hadd above x hx) ?_
      rintro ⟨source, g, names⟩ ⟨s, s', hadded⟩
      obtain ⟨hsource, -, hsubset⟩ := hadds above x s _ s' hx hadded
      exact Simulates.bind (Simulates.lift (bindNode_rename hP.injective b hsource (hsubset htarget)))
        fun g => Simulates.pure rfl

theorem Tracks.addUpstream (depth : Nat) : ∀ n x, x.2.Known x.1 →
    Simulates (At P stack) (Prod.map f (renameParts f)) (addUpstream r depth n x)
      (addUpstream r depth n (renameParts f x)) := by
  induction depth with
  | zero => exact fun n x _ => Simulates.throw _
  | succ depth ih =>
    rintro n ⟨g, names⟩ hknown
    simp only [renameParts, Build.addUpstream, NodeNames.lookup_rename]
    cases List.lookup n.name names with
    | some id => exact Simulates.pure rfl
    | none =>
      refine Simulates.bind (hP.node (fun d => hP.compound (fun inner _ _ => hP.nodeGraph inner) d) "" n)
        fun added => ?_
      have hkeep : ∀ s x, ∀ b ∈ n.inputs, x.2.Known x.1 ∧ added.id ∈ x.1.ids →
          ∀ y s', Build.addSource r (Build.addUpstream r depth) added.id x b s = .ok y s' →
            y.2.Known y.1 ∧ added.id ∈ y.1.ids := by
        intro s x b _ hx y s' hstep
        obtain ⟨hy, hsubset⟩ := (adds_addUpstream depth).addSource hx.1 hstep
        exact ⟨hy, hsubset hx.2⟩
      have hloop := Simulates.foldlM (P := fun x : Graph × NodeNames => x.2.Known x.1 ∧ added.id ∈ x.1.ids) n.inputs
        hkeep (fun x b _ hx => hP.addSource ih (adds_addUpstream depth) b hx.1 hx.2)
        (g.addNode added, (n.name, added.id) :: names) ⟨known_addNode added hknown n.name, by simp [Graph.ids_addNode]⟩
      rw [renameParts, ← Graph.addNode_rename] at hloop
      exact Simulates.bind hloop fun x => Simulates.pure rfl

theorem Tracks.singleNode (n : NodeInstance) :
    Simulates (At P stack) (Graph.rename f) (singleNode r n) (singleNode r n) := by
  have hstart : NodeNames.Known [] (Graph.empty n.name) := fun _ _ h => by cases h
  have hadd : Simulates (At P stack) _ _ _ :=
    hP.addUpstream (r.document.nodes.length + 2) n (Graph.empty n.name, []) hstart
  rw [renameParts, Graph.rename_empty] at hadd
  refine Simulates.bind_of_ok hadd ?_
  rintro ⟨id, g, names⟩ ⟨s, s', hadded⟩
  have hid : id ∈ g.ids := (adds_addUpstream _ n (Graph.empty n.name, []) s _ s' hstart hadded).1
  have hpins : (((g.rename f).node? (f id)).map fun n => (n.inputs, n.outputs)).getD ([], [])
      = Prod.map (List.map (Input.rename f)) (List.map (Output.rename f))
        (((g.node? id).map fun n => (n.inputs, n.outputs)).getD ([], [])) := by
    rw [Graph.node?_rename hP.injective]
    cases g.node? id <;> rfl
  simp only [Prod.map, renameParts, hpins]
  generalize ((g.node? id).map fun n => (n.inputs, n.outputs)).getD ([], []) = pins
  refine Simulates.lift_bind (exposeInputs_rename hP.injective pins.1 0 hid) fun g₁ hg₁ => ?_
  have hid₁ : id ∈ g₁.ids := exposeInputs_keeps (P := fun g => id ∈ g.ids) (V := fun _ => True)
    (fun hg _ hconnect => ids_connect hconnect ▸ hg) pins.1 (fun _ _ => trivial) hid hg₁
  refine Simulates.bind (Simulates.lift (exposeOutputs_rename hP.injective pins.2 0 hid₁)) fun g => ?_
  refine Simulates.get_bind fun s t hst => ?_
  rw [hst.1, hst.2.1]
  exact hP.finish _ g s t hst

end

/-! ## The stack -/

theorem tracks_eq (r : Request) : Tracks r id Eq where
  injective := injective_id
  fresh := by rintro s _ rfl; exact ⟨rfl, rfl⟩
  source := by
    rintro file stack s _ ⟨hs, -, rfl⟩
    rcases source_cases r file s with ⟨text, cache, -, -, hsource⟩ | ⟨e, -, hsource⟩
    · rw [hsource]
      exact .ok ⟨hs, hs, rfl⟩
    · rw [hsource]
      exact .error ⟨hs, hs, rfl⟩
  stack := by rintro s _ stack rfl; rfl

/-- Steps that correspond to themselves leave the stack as it was. -/
theorem stack_after {α : Type} {φ : α → α} {m : Build α} {s : BuildState} (hm : Simulates (At Eq s.stack) φ m m) :
    (stateAfter (m s)).stack = s.stack :=
  (hm s s ⟨rfl, rfl, rfl⟩).stateAfter.1

end Build

end ShadeGraph
