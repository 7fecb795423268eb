import ShadeGraph.Proofs.Graph.Loops
import ShadeGraph.Proofs.Graph.Nesting
import ShadeGraph.Proofs.Graph.Supply
import ShadeGraph.Proofs.Graph.Writable

/-!
# Built graphs are closed

A graph that is built from a node graph is closed: what its inputs and output sockets read is there, and the records at
both ends of a connection agree. Wiring connects pins that are there; sorting, scoping and naming leave the connections
alone; and flattening keeps the records in agreement, as long as no compound reads its own output. A loop through
compounds is reported.
-/

namespace ShadeGraph

open Function Relation

/-! ## Graphs with the same connections -/

namespace Graph

variable {g h : Graph} {source target : PinRef}

/-- The same pins with the same connections, apart from their variables, and nodes of the same implementations. -/
structure SameWiring (g h : Graph) : Prop where
  ids : h.ids.Perm g.ids
  input : ∀ p, (h.input? p).map Input.bare = (g.input? p).map Input.bare
  output : ∀ p, (h.output? p).map Output.bare = (g.output? p).map Output.bare
  implementation : ∀ n ∈ h.nodes, ∃ m ∈ g.nodes, m.implementation = n.implementation

theorem SameWiring.trans {k : Graph} (h₁ : SameWiring g h) (h₂ : SameWiring h k) : SameWiring g k := by
  refine ⟨h₂.ids.trans h₁.ids, fun p => (h₂.input p).trans (h₁.input p), fun p => (h₂.output p).trans (h₁.output p),
    fun n hn => ?_⟩
  obtain ⟨m, hm, hmn⟩ := h₂.implementation n hn
  obtain ⟨l, hl, hlm⟩ := h₁.implementation m hm
  exact ⟨l, hl, hlm.trans hmn⟩

theorem sameWiring_sort (hg : g.Distinct) (hsort : g.sort = .ok h) : SameWiring g h := by
  obtain ⟨hperm, hrest, -, -⟩ := isSortOf_of_sort hg hsort
  have hnode := hg.node?_perm hperm
  refine ⟨hperm.map _, ?_, ?_, fun n hn => ⟨n, hperm.mem_iff.mp hn, rfl⟩⟩
  · rintro ⟨owner, index⟩
    cases owner with
    | graph => rw [hrest]; rfl
    | node x => simp only [input?, hnode]
  · rintro ⟨owner, index⟩
    cases owner with
    | graph => rw [hrest]; rfl
    | node x => simp only [output?, hnode]

theorem sameWiring_withScopes (g : Graph) (σ : NodeId → Scope) : SameWiring g (g.withScopes σ) := by
  refine ⟨.of_eq (ids_of_cores (cores_withScopes g σ)), ?_, ?_, fun n hn => ?_⟩
  · rintro ⟨owner, index⟩
    cases owner with
    | graph => rfl
    | node x =>
      simp only [input?, node?_withScopes]
      cases g.node? x <;> rfl
  · rintro ⟨owner, index⟩
    cases owner with
    | graph => rfl
    | node x =>
      simp only [output?, node?_withScopes]
      cases g.node? x <;> rfl
  · obtain ⟨m, hm, rfl⟩ := List.mem_map.mp hn
    exact ⟨m, hm, rfl⟩

theorem input?_bare (g : Graph) (p : PinRef) : g.bare.input? p = (g.input? p).map Input.bare := by
  obtain ⟨owner, index⟩ := p
  cases owner with
  | graph => exact List.getElem?_map
  | node x =>
    simp only [input?, node?_bare]
    cases g.node? x with
    | none => rfl
    | some n => exact List.getElem?_map

theorem output?_bare (g : Graph) (p : PinRef) : g.bare.output? p = (g.output? p).map Output.bare := by
  obtain ⟨owner, index⟩ := p
  cases owner with
  | graph => exact List.getElem?_map
  | node x =>
    simp only [output?, node?_bare]
    cases g.node? x with
    | none => rfl
    | some n => exact List.getElem?_map

theorem sameWiring_of_bare (hbare : h.bare = g.bare) : SameWiring g h := by
  have hcores : h.cores = g.cores := by rw [← cores_bare, hbare, cores_bare]
  refine ⟨.of_eq (ids_of_cores hcores), fun p => ?_, fun p => ?_, fun n hn => ?_⟩
  · rw [← input?_bare, hbare, input?_bare]
  · rw [← output?_bare, hbare, output?_bare]
  · obtain ⟨m, hm, hcore⟩ := exists_core (fun _ hcore => hcores ▸ hcore) hn
    exact ⟨m, hm, congrArg (fun core => core.2.2) hcore⟩

section
variable (hsame : SameWiring g h)
include hsame

theorem SameWiring.distinct (hg : g.Distinct) : h.Distinct := hsame.ids.nodup_iff.mpr hg

theorem SameWiring.exists_input {p : PinRef} {i : Input} (hi : h.input? p = some i) :
    ∃ i', g.input? p = some i' ∧ i'.bare = i.bare := by
  have hmap := hsame.input p
  rw [hi] at hmap
  exact Option.map_eq_some_iff.mp hmap.symm

theorem SameWiring.exists_output {p : PinRef} {o : Output} (ho : h.output? p = some o) :
    ∃ o', g.output? p = some o' ∧ o'.bare = o.bare := by
  have hmap := hsame.output p
  rw [ho] at hmap
  exact Option.map_eq_some_iff.mp hmap.symm

theorem SameWiring.exists_connection {i : Input} {o : Output} (hi : h.input? target = some i)
    (hs : i.source = some source) (ho : h.output? source = some o) :
    ∃ i' o', g.input? target = some i' ∧ g.output? source = some o' ∧ i'.source = some source ∧
      i'.channels = i.channels ∧ i'.type = i.type ∧ o'.type = o.type := by
  obtain ⟨i', hi', hbare⟩ := hsame.exists_input hi
  obtain ⟨o', ho', hbare'⟩ := hsame.exists_output ho
  have hsource : i'.source = i.source := (congrArg Input.source hbare :)
  exact ⟨i', o', hi', ho', hsource.trans hs, (congrArg Input.channels hbare :), (congrArg Input.type hbare :),
    (congrArg Output.type hbare' :)⟩

theorem SameWiring.source_eq (p : PinRef) : (h.input? p).map Input.source = (g.input? p).map Input.source := by
  have hmap := congrArg (Option.map Input.source) (hsame.input p)
  rw [Option.map_map, Option.map_map] at hmap
  exact hmap

theorem SameWiring.connects_iff : h.Connects source target ↔ g.Connects source target := by
  have hiff : ∀ k : Graph, k.Connects source target ↔ (k.input? target).map Input.source = some (some source) := by
    intro k
    rw [Option.map_eq_some_iff]
    rfl
  rw [hiff, hiff, hsame.source_eq]

theorem SameWiring.known (hp : ∃ o, g.output? target = some o) : ∃ o, h.output? target = some o := by
  obtain ⟨o, ho⟩ := hp
  have hmap := hsame.output target
  rw [ho] at hmap
  obtain ⟨o', ho', -⟩ := Option.map_eq_some_iff.mp hmap
  exact ⟨o', ho'⟩

end

theorem Paired.sameWiring (hg : g.Paired) (hsame : SameWiring g h) : h.Paired := by
  have hinput : ∀ {p i}, h.input? p = some i → ∃ i', g.input? p = some i' ∧ i'.source = i.source := by
    intro p i hi
    obtain ⟨i', hi', hbare⟩ := hsame.exists_input hi
    exact ⟨i', hi', (congrArg Input.source hbare :)⟩
  have houtput : ∀ {p o}, h.output? p = some o → ∃ o', g.output? p = some o' ∧ o'.readers = o.readers := by
    intro p o ho
    obtain ⟨o', ho', hbare⟩ := hsame.exists_output ho
    exact ⟨o', ho', (congrArg Output.readers hbare :)⟩
  refine ⟨hsame.distinct hg.distinct, ?_, ?_, ?_, ?_⟩
  · intro target i source hi hs
    obtain ⟨i', hi', heq⟩ := hinput hi
    exact hsame.known (hg.source_known hi' (heq.trans hs))
  · intro source o target ho ht
    obtain ⟨o', ho', heq⟩ := houtput ho
    obtain ⟨i, hi⟩ := hg.reader_known ho' (heq ▸ ht)
    have hmap := hsame.input target
    rw [hi] at hmap
    obtain ⟨i', hi', -⟩ := Option.map_eq_some_iff.mp hmap
    exact ⟨i', hi'⟩
  · intro source target o i ho hi
    obtain ⟨o', ho', heq⟩ := houtput ho
    obtain ⟨i', hi', heq'⟩ := hinput hi
    rw [← heq, ← heq']
    exact hg.agree ho' hi'
  · intro source o ho
    obtain ⟨o', ho', heq⟩ := houtput ho
    exact heq ▸ hg.once ho'

theorem Linked.sameWiring (hg : g.Linked) (hsame : SameWiring g h) : h.Linked := by
  refine ⟨hg.toPaired.sameWiring hsame, fun {target i} hi hs => ?_, fun {target i source o} hi hs ho => ?_⟩
  · obtain ⟨i', hi', hbare⟩ := hsame.exists_input hi
    have hsource : i'.source = i.source := (congrArg Input.source hbare :)
    have hvalue : i'.value = i.value := (congrArg Input.value hbare :)
    exact hvalue ▸ hg.bare hi' (hsource ▸ hs)
  · obtain ⟨i', o', hi', ho', hs', hchannels, htype, htype'⟩ := hsame.exists_connection hi hs ho
    rw [← hchannels, ← htype, ← htype']
    exact hg.fits hi' hs' ho'

theorem Plain.sameWiring (hg : g.Plain) (hsame : SameWiring g h) : h.Plain := by
  refine ⟨⟨hsame.distinct hg.distinct, fun {target i source} hi hs => ?_⟩, fun n hn => ?_, fun hc => ?_⟩
  · obtain ⟨i', hi', hs'⟩ := hsame.connects_iff.mp ⟨i, hi, hs⟩
    rcases hg.tame hi' hs' with hknown | ⟨id, hid, howner⟩
    · exact .inl (hsame.known hknown)
    · exact .inr ⟨id, fun hmem => hid (hsame.ids.mem_iff.mp hmem), howner⟩
  · obtain ⟨m, hm, himplementation⟩ := hsame.implementation n hn
    exact himplementation ▸ hg.flat m hm
  · exact hg.driven (hsame.connects_iff.mp hc)

structure Unconnected (g : Graph) : Prop where
  nodes : ∀ n ∈ g.nodes, n.Unconnected
  inputs : ∀ o ∈ g.inputSockets, o.readers = []
  outputs : ∀ i ∈ g.outputSockets, i.source = none

theorem Unconnected.free (hg : g.Unconnected) {i : Input} (hi : g.input? target = some i) : i.source = none := by
  obtain ⟨owner, index⟩ := target
  cases owner with
  | graph => exact hg.outputs i (List.mem_of_getElem? hi)
  | node x =>
    obtain ⟨n, hn, hi⟩ := Option.bind_eq_some_iff.mp hi
    exact (hg.nodes n (mem_of_node? hn)).1 i (List.mem_of_getElem? hi)

theorem Unconnected.unread (hg : g.Unconnected) {o : Output} (ho : g.output? source = some o) : o.readers = [] := by
  obtain ⟨owner, index⟩ := source
  cases owner with
  | graph => exact hg.inputs o (List.mem_of_getElem? ho)
  | node x =>
    obtain ⟨n, hn, ho⟩ := Option.bind_eq_some_iff.mp ho
    exact (hg.nodes n (mem_of_node? hn)).2 o (List.mem_of_getElem? ho)

theorem Unconnected.not_connects (hg : g.Unconnected) : ¬ g.Connects source target := by
  rintro ⟨i, hi, hs⟩
  rw [hg.free hi] at hs
  cases hs

theorem Unconnected.paired (hg : g.Unconnected) (hdistinct : g.Distinct) : g.Paired := by
  refine ⟨hdistinct, ?_, ?_, ?_, ?_⟩
  · intro target i source hi hs
    exact absurd ⟨i, hi, hs⟩ hg.not_connects
  · intro source o target ho ht
    rw [hg.unread ho] at ht
    cases ht
  · intro source target o i ho hi
    simp [hg.free hi, hg.unread ho]
  · intro source o ho
    rw [hg.unread ho]
    exact List.nodup_nil

theorem Unconnected.linked (hg : g.Unconnected) (hdistinct : g.Distinct) : g.Linked := by
  refine ⟨hg.paired hdistinct, fun {target i} hi hs => ?_, fun {target i source o} hi hs _ => ?_⟩
  · rw [hg.free hi] at hs
    cases hs
  · rw [hg.free hi] at hs
    cases hs

end Graph

namespace Build

variable {r : Request} {s s' : BuildState} {g g' : Graph} {d : NodeGraph} {w : Graph} {source target : PinRef}

/-! ## Wired graphs -/

theorem source_input {scope : String} {n : NodeInstance} {p : PinDef} {i : Input} (h : input r scope n p = .ok i) :
    i.source = none := by
  obtain ⟨_, _, -, rfl⟩ := input_cases h
  rfl

theorem readers_output {p : PinDef} {o : Output} (h : output r p = .ok o) : o.readers = [] := by
  obtain ⟨_, -, rfl⟩ := output_cases h
  rfl

theorem readers_inputSocket {graph : String} {p : PinDef} {o : Output} (h : inputSocket r graph p = .ok o) :
    o.readers = [] := by
  obtain ⟨_, _, -, rfl⟩ := inputSocket_cases h
  rfl

theorem source_outputSocket {o : GraphOutput} {i : Input} (h : outputSocket r o = .ok i) : i.source = none := by
  obtain ⟨_, -, rfl⟩ := outputSocket_cases h
  rfl

theorem unconnected_node {enter : NodeDef → Build Implementation} {scope : String} {n : NodeInstance} {m : Node}
    (h : node r enter scope n s = .ok m s') : m.Unconnected := by
  obtain ⟨d, _, _, inputs, outputs, _, -, -, -, hinputs, houtputs, rfl, -⟩ := node_cases h
  refine ⟨fun i hi => ?_, fun o ho => ?_⟩
  · obtain ⟨_, -, hmade⟩ := except_mapM_mem hinputs i hi
    exact source_input hmade
  · obtain ⟨_, -, hmade⟩ := except_mapM_mem houtputs o ho
    exact readers_output hmade

section
variable {enter : NodeDef → Build Implementation} (henter : ∀ d, Supplies (enter d))

theorem unconnected_start {pins : List PinDef} {inputSockets : List Output} {outputSockets : List Input}
    {nodes : List Node} (hinputs : pins.mapM (inputSocket r d.name) = .ok inputSockets)
    (houtputs : d.outputs.mapM (outputSocket r) = .ok outputSockets)
    (hnodes : d.nodes.mapM (node r enter d.name) s = .ok nodes s') : Graph.Unconnected
      { Graph.empty d.name with nodedef := d.nodedef, inputSockets, outputSockets, nodes } := by
  refine ⟨fun m hm => ?_, fun o ho => ?_, fun i hi => ?_⟩
  · have hmade := state_mapM_forall₂ (I := fun _ => True) d.nodes (fun _ _ _ _ _ _ _ => trivial) trivial hnodes
    obtain ⟨n, -, t, t', -, hnode⟩ := exists_of_forall₂ hmade hm
    exact unconnected_node hnode
  · obtain ⟨_, -, hmade⟩ := except_mapM_mem hinputs o ho
    exact readers_inputSocket hmade
  · obtain ⟨_, -, hmade⟩ := except_mapM_mem houtputs i hi
    exact source_outputSocket hmade

theorem linked_connectThrough {channels : Option String} {source target : PinRef} (hg : g.Linked)
    (h : connectThrough g channels source target = .ok g') : g'.Linked :=
  hg.connect_modified (f := fun i => { i with channels }) (fun _ => rfl) h

include henter in
theorem linked_of_wire (hpick : Injective s.ids.pick) (h : wire r enter d s = .ok w s') : w.Linked := by
  obtain ⟨_, _, nodes, ⟨pins, -, hinputs⟩, houtputs, hnodes, hkeeps⟩ := wire_keeps h
  have hdistinct := (ids_of_nodes henter d.name d.nodes hpick hnodes).2.1
  refine hkeeps Graph.Linked ((unconnected_start hinputs houtputs hnodes).linked hdistinct) ?_
  exact fun _ _ _ _ _ hg _ => linked_connectThrough hg

include henter in
theorem paired_of_wire (hpick : Injective s.ids.pick) (h : wire r enter d s = .ok w s') : w.Paired :=
  (linked_of_wire henter hpick h).toPaired

/-- Every connection of a wired graph is one that the node graph asks for. -/
theorem bound_of_wire (h : wire r enter d s = .ok w s') (hc : w.Connects source target) :
    Bound d (nodeNames w) source target := by
  obtain ⟨_, _, nodes, ⟨pins, -, hinputs⟩, houtputs, hnodes, hkeeps⟩ := wire_keeps h
  have hnames : nodeNames w = (nodes.map fun n => (n.name, n.id)).reverse := by
    refine hkeeps (fun g => nodeNames g = _) rfl fun g g' channels p q hg _ hconnect => ?_
    have hframe := congrArg (fun g : Graph => g.nodes.map fun n => (n.name, n.id)) (frame_connectThrough hconnect)
    simp only [Graph.frame, List.map_map] at hframe
    rw [← hg, nodeNames, nodeNames]
    exact congrArg List.reverse hframe
  rw [hnames]
  refine hkeeps (fun g => ∀ {p q}, g.Connects p q → Bound d _ p q) ?_ ?_ hc
  · exact fun hc => absurd hc (unconnected_start hinputs houtputs hnodes).not_connects
  · intro g g' channels p q hg hbound hconnect p' q' hc
    rcases Graph.connects_connect hconnect hc with hc | ⟨rfl, rfl⟩
    · exact hg (Graph.connects_modifyInput (fun _ => by rfl) hc)
    · exact hbound

theorem driven_of_wire (h : wire r enter d s = .ok w s') {k : Nat} (hc : w.Connects source (.socket k)) :
    source.owner ≠ .graph := by
  rcases bound_of_wire h hc with ⟨_, -, _, -, _, _, -, -, htarget⟩ | ⟨_, _, _, -, rfl⟩
  · cases htarget
  · simp [PinRef.ofNode]

end

/-- Some instance that is implemented by a node graph is bound to its own output. -/
def SelfWired (r : Request) (g : NodeGraph) : Prop :=
  ∃ n ∈ g.nodes, graphOf? r n ≠ none ∧ ∃ b ∈ n.inputs, b.nodeName = some n.name

theorem graphOf?_of_isCompound {build : NodeGraph → Build Graph} {scope : String} {n : NodeInstance} {m : Node}
    (h : node r (compound r build) scope n s = .ok m s') (hm : m.implementation.isCompound = true) :
    graphOf? r n ≠ none := by
  cases hhow : m.implementation with
  | compound name function inner =>
    obtain ⟨inner', _, hsome, -⟩ := graphOf?_of_compound h hhow
    simp [hsome]
  | source code =>
    rw [hhow] at hm
    cases hm
  | procedural code =>
    rw [hhow] at hm
    cases hm

section
variable {build : NodeGraph → Build Graph} (hsupplies : ∀ d, Supplies (build d)) (hpick : Injective s.ids.pick)
  (h : wire r (compound r build) d s = .ok w s')
include hsupplies hpick h

theorem inner_of_wire {P : Graph → Prop} (hbuild : ∀ d {s g s'}, Injective s.ids.pick → build d s = .ok g s' → P g)
    {m : Node} (hm : m ∈ w.nodes) {name function : String} {inner : Graph}
    (himplementation : m.implementation = .compound name function inner) : P inner := by
  obtain ⟨n, -, m', t, t', ht, hnode, hframe⟩ := node_of_wire (supplies_compound hsupplies) hpick h hm
  have hm' : m'.implementation = .compound name function inner :=
    (congrArg Node.implementation hframe :).symm.trans himplementation
  obtain ⟨inner', _, -, hinner⟩ := graphOf?_of_compound hnode hm'
  exact hbuild inner' (s := { t with stack := inner'.name :: t.stack }) ht hinner

theorem made_of_name (hnames : (d.nodes.map NodeInstance.name).Nodup) {m : Node} (hm : m ∈ w.nodes) {n : NodeInstance}
    (hn : n ∈ d.nodes) (hname : m.name = n.name) :
    ∃ m' t t', node r (compound r build) d.name n t = .ok m' t' ∧ m.frame = m'.frame := by
  obtain ⟨n', hn', m', t, t', -, hnode, hframe⟩ := node_of_wire (supplies_compound hsupplies) hpick h hm
  have hname' : m.name = n'.name := by
    obtain ⟨_, _, _, _, _, _, -, -, -, -, -, rfl, -⟩ := node_cases hnode
    exact (congrArg Node.name hframe :)
  obtain rfl : n' = n := List.inj_on_of_nodup_map hnames hn' hn (hname'.symm.trans hname)
  exact ⟨m', t, t', hnode, hframe⟩

/-- A compound reads its own output only where an instance is bound to itself. -/
theorem apart_of_wire (hnames : (d.nodes.map NodeInstance.name).Nodup) (hself : ¬ SelfWired r d) {m : Node}
    (hm : m ∈ w.nodes) (hcompound : m.implementation.isCompound = true) : m.id ∉ m.sources := by
  intro hmem
  have hdistinct := (nodes_of_wire (supplies_compound hsupplies) hpick h).1.distinct
  obtain ⟨i, hi, index, hsource⟩ := Graph.mem_sources_iff.mp hmem
  obtain ⟨k, hconnects⟩ := Graph.connects_of_node hdistinct hm hi hsource
  rcases bound_of_wire h hconnects with ⟨n, hn, b, hb, id, l, hid, hbound, htarget⟩ | ⟨_, _, _, htarget, -⟩
  · rcases hbound with hgraph | ⟨name, a, j, hname, ha, hsource⟩
    · cases hgraph
    obtain ⟨rfl, -⟩ : m.id = id ∧ k = l := by simpa [PinRef.ofNode] using htarget
    obtain ⟨rfl, -⟩ : m.id = a ∧ index = j := by simpa [PinRef.ofNode] using hsource
    -- both names are those of the one node with this identity
    obtain ⟨m₁, hm₁, hname₁, hid₁⟩ := mem_of_lookup hid
    obtain ⟨m₂, hm₂, rfl, hid₂⟩ := mem_of_lookup ha
    obtain rfl := hdistinct.eq_of_id hm hm₁ hid₁.symm
    obtain rfl := hdistinct.eq_of_id hm hm₂ hid₂.symm
    obtain ⟨m', t, t', hnode, hframe⟩ := made_of_name hsupplies hpick h hnames hm hn hname₁
    have hgraph : graphOf? r n ≠ none := by
      have himplementation : m'.implementation = m.implementation := (congrArg Node.implementation hframe.symm :)
      exact graphOf?_of_isCompound hnode (himplementation ▸ hcompound)
    exact hself ⟨n, hn, hgraph, b, hb, by rw [hname, hname₁]⟩
  · cases htarget

theorem tidy_of_wire (hbuild : ∀ d {s g s'}, Injective s.ids.pick → build d s = .ok g s' → g.Plain) :
    w.Tidy s'.ids := by
  have hsupplies' := supplies_compound (r := r) hsupplies
  refine ⟨(nodes_of_wire hsupplies' hpick h).1, ?_, driven_of_wire h, ?_⟩
  · rintro source target ⟨i, hi, hs⟩
    exact .inl ((paired_of_wire hsupplies' hpick h).source_known hi hs)
  · intro m hm name function inner himplementation
    exact inner_of_wire hsupplies hpick h hbuild hm himplementation

end

theorem name_of_wire {enter : NodeDef → Build Implementation} (h : wire r enter d s = .ok w s') : w.name = d.name := by
  obtain ⟨_, _, _, -, -, -, hkeeps⟩ := wire_keeps h
  refine hkeeps (fun g => g.name = d.name) rfl fun g g' channels p q hg _ hconnect => ?_
  exact (congrArg Graph.name (frame_connectThrough hconnect) :).trans hg

/-! ## Finished graphs -/

theorem sameWiring_finish {g₁ g₂ : Graph} (hg : g₁.Distinct) (hsort : g₁.sort = .ok g₂) (l : Language) (publish : Bool)
    (traits : Traits) : Graph.SameWiring g₁ { g₂.assignScopes.assignVariables l publish with traits } := by
  have hsorted := Graph.sameWiring_sort hg hsort
  have hscheduled := (Graph.isSortOf_of_sort hg hsort).scheduled
  obtain ⟨σ, hscopes, -⟩ := Graph.assignScopes_scoped (hsorted.distinct hg) hscheduled
  have hscoped : Graph.SameWiring g₂ g₂.assignScopes := hscopes ▸ Graph.sameWiring_withScopes g₂ σ
  have hnamed := Graph.sameWiring_of_bare (Graph.bare_assignVariables g₂.assignScopes l publish)
  obtain ⟨hids, hinput, houtput, himplementation⟩ := (hsorted.trans hscoped).trans hnamed
  exact ⟨hids, hinput, houtput, himplementation⟩

theorem throughout_finish {P : Graph → Prop} (hP : ∀ {g h}, P g → Graph.SameWiring g h → P h) {g₁ g₂ : Graph}
    (hg : P g₁) (hdistinct : g₁.Distinct) (hsort : g₁.sort = .ok g₂)
    (hinner : ∀ m ∈ g₁.nodes, ∀ name function inner, m.implementation = .compound name function inner →
      inner.Throughout P) (l : Language) (publish : Bool) (traits : Traits) :
    Graph.Throughout P { g₂.assignScopes.assignVariables l publish with traits } := by
  have hsame := sameWiring_finish hdistinct hsort l publish traits
  refine .intro _ (hP hg hsame) fun n hn name function inner hn' => ?_
  obtain ⟨m, hm, himplementation⟩ := hsame.implementation n hn
  exact hinner m hm name function inner (himplementation.trans hn')

 /-- With flattening, a graph inside of a compound has no compounds, and its sources are there or belong to removed
nodes. -/
theorem nestedGraph_plain (hflatten : r.options.flatten = true) (depth : Nat) : ∀ (d : NodeGraph) {s g s'},
    Injective s.ids.pick → nestedGraph r depth d s = .ok g s' → g.Plain := by
  induction depth with
  | zero => exact fun d s g s' _ h => absurd h state_throw_ne_ok
  | succ depth ih =>
    intro d s g s' hpick h
    obtain ⟨w, t, hwire, hfinish⟩ := assemble_cases h
    have hsupplies := supplies_nestedGraph (r := r) depth
    have hlater := supplies_wire (supplies_compound hsupplies) d s w t hpick hwire
    obtain ⟨g₁, t', hflat, g₂, hsort, rfl, -⟩ := finish_cases hfinish
    rcases hflat with ⟨-, hflat⟩ | ⟨hoff, -, -⟩
    · obtain ⟨ids, hrun, -⟩ := flatten_cases hflat
      have hplain : g₁.Plain :=
        Graph.Rewiring.plain_flatten (hlater.injective hpick) (tidy_of_wire hsupplies hpick hwire ih) hrun
      exact hplain.sameWiring (sameWiring_finish hplain.distinct hsort _ _ _)
    · rw [hflatten] at hoff
      cases hoff

theorem nestedGraph_linked (hflatten : r.options.flatten = false) (depth : Nat) : ∀ (d : NodeGraph) {s g s'},
    Injective s.ids.pick → nestedGraph r depth d s = .ok g s' → g.Throughout Graph.Linked := by
  induction depth with
  | zero => exact fun d s g s' _ h => absurd h state_throw_ne_ok
  | succ depth ih =>
    intro d s g s' hpick h
    obtain ⟨w, t, hwire, hfinish⟩ := assemble_cases h
    have hsupplies := supplies_nestedGraph (r := r) depth
    obtain ⟨g₂, hsort, rfl, -⟩ := finish_unflattened hflatten hfinish
    have hlinked := linked_of_wire (supplies_compound hsupplies) hpick hwire
    refine throughout_finish Graph.Linked.sameWiring hlinked hlinked.distinct hsort
      (fun m hm name function inner himplementation => ?_) _ _ _
    exact inner_of_wire hsupplies hpick hwire ih hm himplementation

theorem nestedGraph_paired (hflatten : r.options.flatten = false) (depth : Nat) (d : NodeGraph)
    (hpick : Injective s.ids.pick) (h : nestedGraph r depth d s = .ok g s') : g.Throughout Graph.Paired :=
  (nestedGraph_linked hflatten depth d hpick h).mono fun _ hg => hg.toPaired

/-! ## Node graphs -/

theorem whole_flatten (hpick : Injective s.ids.pick) (hw : w.Whole s.ids) (h : flatten w s = .ok g s') :
    g.Whole s'.ids ∧ g.name = w.name ∧ (∀ n ∈ g.nodes, n.implementation.isCompound = false) ∧ (w.Loops → g.Loops) := by
  obtain ⟨ids, hrun, rfl⟩ := flatten_cases h
  have hkeeps := Graph.Rewiring.flatten_keeps
    (P := fun t => t.1.Whole t.2 ∧ t.1.name = w.name ∧ (w.Loops → t.1.Loops)) ?_ hpick ⟨hw, rfl, id⟩ hrun
  · obtain ⟨-, hwhole, hname, hloops⟩ := hkeeps
    exact ⟨hwhole, hname, Graph.Rewiring.isCompound_flatten hpick hrun, hloops⟩
  rintro t c inner name function a t' hpick ⟨hwhole, hname, hloops⟩ hc himplementation hinline
  obtain ⟨hwhole', pairs, hinlined⟩ :=
    Graph.Rewiring.whole_inlineCompound hpick hwhole hc himplementation hinline
  refine ⟨hwhole', (congrArg Graph.name hinlined.frame :).trans hname, fun hw => ?_⟩
  have hinner := hwhole.inner c hc name function inner himplementation
  have hself := hwhole.apart c hc (by rw [himplementation]; rfl)
  exact Graph.loops_inlined hinlined hwhole.distinct hinner hc himplementation hself (hloops hw)

theorem assemble_of_wire {enter : NodeDef → Build Implementation} (h : wire r enter d s = .ok w s') :
    assemble r enter d s = finish r s'.stack.isEmpty w s' := by
  change EStateM.bind (wire r enter d) _ s = _
  unfold EStateM.bind
  rw [h]
  rfl

theorem finish_of_sort {publish : Bool} {e : Error}
    (hflatten : r.options.flatten = true ∧ flatten w s = .ok g s' ∨ r.options.flatten = false ∧ g = w ∧ s' = s)
    (hsort : g.sort = .error e) : finish r publish w s = .error e s' := by
  rw [finish_eq]
  change EStateM.bind _ _ s = _
  unfold EStateM.bind
  rcases hflatten with ⟨hon, hflatten⟩ | ⟨hoff, rfl, rfl⟩
  · simp only [hon, if_true, hflatten]
    rw [hsort]
    rfl
  · simp only [hoff, Bool.false_eq_true, if_false]
    change EStateM.bind (liftM g.sort) _ s' = _
    rw [hsort]
    rfl

theorem finish_of_flatten {publish : Bool} {e : Error} (hon : r.options.flatten = true)
    (hflatten : flatten w s = .error e s') : finish r publish w s = .error e s' := by
  rw [finish_eq]
  change EStateM.bind _ _ s = _
  unfold EStateM.bind
  simp only [hon, if_true, hflatten]

section
variable (hpick : Injective s.ids.pick) (hnames : (d.nodes.map NodeInstance.name).Nodup) (hself : ¬ SelfWired r d)
  (hon : r.options.flatten = true)
include hpick hnames hself hon

theorem whole_of_wire (h : wire r (compound r (nodeGraph r)) d s = .ok w s') : w.Whole s'.ids := by
  have hplain : ∀ d {s g s'}, Injective s.ids.pick → nodeGraph r d s = .ok g s' → g.Plain :=
    nestedGraph_plain hon _
  exact ⟨tidy_of_wire supplies_nodeGraph hpick h hplain, paired_of_wire (supplies_compound supplies_nodeGraph) hpick h,
    fun m hm hcompound => apart_of_wire supplies_nodeGraph hpick h hnames hself hm hcompound⟩

theorem nodeGraph_paired (h : nodeGraph r d s = .ok g s') : g.Throughout Graph.Paired := by
  rw [nodeGraph_eq] at h
  obtain ⟨w, t, hwire, hfinish⟩ := assemble_cases h
  have hlater := supplies_wire (supplies_compound supplies_nodeGraph) d s w t hpick hwire
  obtain ⟨g₁, t', hflat, g₂, hsort, rfl, -⟩ := finish_cases hfinish
  rcases hflat with ⟨-, hflat⟩ | ⟨hoff, -, -⟩
  · obtain ⟨hwhole, -, hplain, -⟩ :=
      whole_flatten (hlater.injective hpick) (whole_of_wire hpick hnames hself hon hwire) hflat
    refine throughout_finish Graph.Paired.sameWiring hwhole.paired hwhole.distinct hsort
      (fun m hm name function inner himplementation => ?_) _ _ _
    have hflat := hplain m hm
    rw [himplementation] at hflat
    cases hflat
  · rw [hon] at hoff
    cases hoff

/-- With flattening, a loop is reported, unless flattening fails before. -/
theorem nodeGraph_loop (hwire : wire r (compound r (nodeGraph r)) d s = .ok w s') (hloops : w.Loops) :
    ∃ t, (∃ names, nodeGraph r d s = .error (.cycle d.name names) t) ∨
      ∃ e, flatten w s' = .error e t ∧ nodeGraph r d s = .error e t := by
  have hlater := supplies_wire (supplies_compound supplies_nodeGraph) d s w s' hpick hwire
  rw [nodeGraph_eq, assemble_of_wire hwire]
  cases hflatten : flatten w s' with
  | error e t => exact ⟨t, .inr ⟨e, rfl, finish_of_flatten hon hflatten⟩⟩
  | ok g t =>
    obtain ⟨hwhole, hname, -, hkept⟩ :=
      whole_flatten (hlater.injective hpick) (whole_of_wire hpick hnames hself hon hwire) hflatten
    obtain ⟨names, hsort⟩ := ((hkept hloops).cyclic hwhole.distinct).sort
    rw [hname, name_of_wire hwire] at hsort
    exact ⟨t, .inl ⟨names, finish_of_sort (.inl ⟨hon, hflatten⟩) hsort⟩⟩

end

/-- **Construction yields a closed graph.** If a node graph builds, then in the graph and in those of its compounds all
that an input or an output socket reads is there, and an input reads an output exactly if the output lists it. Cyclic
wiring is reported: without flattening every cycle of the wired graph, and with flattening every loop through its
compounds, unless flattening fails before. With flattening, no compound may be bound to its own output. -/
theorem nodeGraph_closed (r : Request) (d : NodeGraph) (s : BuildState) (hpick : Injective s.ids.pick)
    (hnames : (d.nodes.map NodeInstance.name).Nodup) (hself : r.options.flatten = true → ¬ SelfWired r d) :
    (∀ g s', nodeGraph r d s = .ok g s' → g.Throughout Graph.Paired) ∧
    ∀ w t, wire r (compound r (nodeGraph r)) d s = .ok w t →
      (r.options.flatten = false → w.Cyclic → ∃ names, nodeGraph r d s = .error (.cycle d.name names) t) ∧
      (r.options.flatten = true → w.Loops → ∃ t', (∃ names, nodeGraph r d s = .error (.cycle d.name names) t') ∨
        ∃ e, flatten w t = .error e t' ∧ nodeGraph r d s = .error e t') := by
  refine ⟨fun g s' h => ?_, fun w t hwire => ⟨fun hoff hcyclic => ?_, fun hon hloops => ?_⟩⟩
  · cases hflatten : r.options.flatten with
    | false => exact nestedGraph_paired hflatten _ d hpick h
    | true => exact nodeGraph_paired hpick hnames (hself hflatten) hflatten h
  · obtain ⟨names, hsort⟩ := hcyclic.sort
    rw [name_of_wire hwire] at hsort
    rw [nodeGraph_eq, assemble_of_wire hwire]
    exact ⟨names, finish_of_sort (.inr ⟨hoff, rfl, rfl⟩) hsort⟩
  · exact nodeGraph_loop hpick hnames (hself hon) hon hwire hloops

/-- An `echo` is a compound around one node. -/
def hall : Request :=
  { generator := { language := .osl }
    document :=
      { nodedefs := ["echo", "hold"].map fun category =>
          { name := "ND_" ++ category, category
            inputs := [{ name := "in", typeName := "float" }], outputs := [{ name := "out", typeName := "float" }] }
        sources := [{ name := "IM_hold", nodedef := "ND_hold", language := "osl", file := some "hold.inline"
                      source := some "\x7b\x7bin\x7d\x7d" }]
        nodegraphs := [turn "NG_echo" "ND_echo" "hold"] } }

/-- The node inside of an `echo` does not read the input. -/
def deafHall : Request :=
  { hall with document.nodegraphs :=
      [{ turn "NG_echo" "ND_echo" "hold" with
           nodes := [{ name := "inner", category := "hold", typeName := "float" }] }] }

def echoes (wires : List (String × Option String)) : NodeGraph :=
  { name := "echoes"
    nodes := wires.map fun (name, above) =>
      { name, category := "echo", typeName := "float"
        inputs := [{ name := "in", typeName := "float", nodeName := above }] }
    outputs := [{ name := "out", typeName := "float", nodeName := "first" }] }

def row : NodeGraph := echoes [("first", some "second"), ("second", none)]

def ring : NodeGraph := echoes [("first", some "second"), ("second", some "first")]

theorem exists_ok_of_check {ε σ α : Type} (m : EStateM ε σ α) (s : σ) (P : α → σ → Prop)
    [∀ a t, Decidable (P a t)] (h : (match m s with | .ok a t => decide (P a t) | .error _ _ => false) = true) :
    ∃ a t, m s = .ok a t ∧ P a t := by
  cases hm : m s with
  | ok a t => exact ⟨a, t, rfl, by simpa [hm] using h⟩
  | error e t => simp [hm] at h

/-- Neither condition can be left out. In an echo of itself, the copy of the inner node reads the echo, which is gone.
And a ring of compounds that do not use their inputs is a cycle that is gone when they are replaced. -/
theorem cycles_unreported :
    ((echoes [("first", some "first")]).nodes.map NodeInstance.name).Nodup ∧ hall.options.flatten = true ∧
    SelfWired hall (echoes [("first", some "first")]) ∧
    (∃ g s', nodeGraph hall (echoes [("first", some "first")]) {} = .ok g s' ∧
      ∃ n ∈ g.nodes, ∃ i ∈ n.inputs, ∃ p ∈ i.source, (g.output? p).isNone) ∧
    (∃ w t, wire deafHall (compound deafHall (nodeGraph deafHall)) ring {} = .ok w t ∧ w.Cyclic) ∧
    ∃ g s', nodeGraph deafHall ring {} = .ok g s' := by
  refine ⟨by decide, rfl, ⟨_, List.mem_cons_self, by decide +kernel, _, List.mem_cons_self, rfl⟩, ?_, ?_, ?_⟩
  · exact exists_ok_of_check (nodeGraph hall (echoes [("first", some "first")])) {}
      (fun g _ => ∃ n ∈ g.nodes, ∃ i ∈ n.inputs, ∃ p ∈ i.source, (g.output? p).isNone) (by decide +kernel)
  · obtain ⟨w, t, hwire, a, ha, b, hb, ⟨n, hn, hnb⟩, m, hm, hma⟩ := exists_ok_of_check
      (wire deafHall (compound deafHall (nodeGraph deafHall)) ring) {}
      (fun w _ => ∃ a ∈ w.ids, ∃ b ∈ w.ids, (∃ n ∈ w.node? a, b ∈ n.sources) ∧ ∃ m ∈ w.node? b, a ∈ m.sources)
      (by decide +kernel)
    exact ⟨w, t, hwire, a, .tail (.single ⟨n, hn, hnb, hb⟩) ⟨m, hm, hma, ha⟩⟩
  · obtain ⟨g, s', hg, -⟩ := exists_ok_of_check (nodeGraph deafHall ring) {} (fun _ _ => True) (by decide +kernel)
    exact ⟨g, s', hg⟩

/-- Whether a compound passes what its input of some name reads on to its first output, through one node. -/
def relays (n : Node) (name : String) (q : PinRef) : Bool :=
  match n.implementation with
  | .compound _ _ inner =>
    decide (∃ i ∈ n.input? name, i.source = some q) && decide (∃ socket ∈ inner.inputSockets[0]?, socket.name = name)
      && inner.nodes.any fun m =>
        decide (inner.Connects (.ofNode m.id 0) (.socket 0)) && decide (inner.Connects (.socket 0) (.ofNode m.id 0))
  | _ => false

theorem takes_of_relays {n : Node} {name : String} {q : PinRef} (hn : n ∈ g.nodes) (h : relays n name q = true) :
    g.Takes (.ofNode n.id 0) q := by
  unfold relays at h
  split at h
  · rename_i inner himplementation
    simp only [Bool.and_eq_true, decide_eq_true_eq, List.any_eq_true] at h
    obtain ⟨⟨⟨i, hi, hsource⟩, socket, hsocket, rfl⟩, m, -, hdriver, hend⟩ := h
    have hconveys : inner.Conveys 0 0 := ⟨m.id, 0, m.id, 0, hdriver, .refl, hend⟩
    exact ⟨n, hn, rfl, i, (Node.uses_compound himplementation).mpr ⟨0, socket, hsocket, hi, hconveys⟩, hsource⟩
  · cases h

/-- Two echoes in a row build a closed graph, and two that read each other are a cycle. -/
theorem echoes_closed_or_cyclic : Injective ({} : BuildState).ids.pick ∧
    (row.nodes.map NodeInstance.name).Nodup ∧ ¬ SelfWired hall row ∧
    (∃ g s', nodeGraph hall row {} = .ok g s' ∧ g.Throughout Graph.Paired) ∧
    (ring.nodes.map NodeInstance.name).Nodup ∧ ¬ SelfWired hall ring ∧
    ∃ w t, wire hall (compound hall (nodeGraph hall)) ring {} = .ok w t ∧ w.Loops ∧
      ∃ names t', nodeGraph hall ring {} = .error (.cycle "echoes" names) t' := by
  have hpick : Injective ({} : BuildState).ids.pick := fun _ _ h => congrArg NodeId.index h
  have hrow : (row.nodes.map NodeInstance.name).Nodup := by decide
  have hring : (ring.nodes.map NodeInstance.name).Nodup := by decide
  have hrowApart : ¬ SelfWired hall row := by unfold SelfWired; decide +kernel
  have hringApart : ¬ SelfWired hall ring := by unfold SelfWired; decide +kernel
  refine ⟨hpick, hrow, hrowApart, ?_, hring, hringApart, ?_⟩
  · obtain ⟨g, s', hg, -⟩ := exists_ok_of_check (nodeGraph hall row) {} (fun _ _ => True) (by decide +kernel)
    exact ⟨g, s', hg, (nodeGraph_closed hall row {} hpick hrow fun _ => hrowApart).1 g s' hg⟩
  · obtain ⟨w, t, hwire, ⟨n, hn, m, hm, hnm, hmn⟩, hflatten⟩ := exists_ok_of_check
      (wire hall (compound hall (nodeGraph hall)) ring) {}
      (fun w t => (∃ n ∈ w.nodes, ∃ m ∈ w.nodes, relays n "in" (.ofNode m.id 0) ∧ relays m "in" (.ofNode n.id 0)) ∧
        (outcome (flatten w t)).isOk) (by decide +kernel)
    have hloops : w.Loops := ⟨_, .tail (.single (takes_of_relays hn hnm)) (takes_of_relays hm hmn)⟩
    refine ⟨w, t, hwire, hloops, ?_⟩
    obtain ⟨t', ⟨names, hcycle⟩ | ⟨e, hfails, -⟩⟩ :=
      ((nodeGraph_closed hall ring {} hpick hring fun _ => hringApart).2 w t hwire).2 rfl hloops
    · exact ⟨names, t', hcycle⟩
    · rw [hfails] at hflatten
      cases hflatten

end Build
end ShadeGraph
