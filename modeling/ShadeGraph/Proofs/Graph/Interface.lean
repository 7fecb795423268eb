import ShadeGraph.Proofs.Graph.Closed
import ShadeGraph.Proofs.Graph.Typing

/-!
# Interfaces of compounds

A node that is implemented by a node graph has the pins of its definition, and the graph has the sockets that the node
graph declares. Nothing compares the two. Without flattening, every connection is one that was checked when it was made,
whatever the node graphs declare. With flattening, the readers of a compound are connected to nodes of its graph, and
that fits where the node graphs of all instances *conform* to their definitions: output by output, and in the types of
inputs of the same name.
-/

namespace ShadeGraph

open Function Relation

namespace Graph

variable {g h : Graph} {ids ids' : IdSupply} {source target : PinRef}

theorem Typed.sameWiring (hg : g.Typed) (hsame : SameWiring g h) : h.Typed := by
  intro target i hi p o hs ho
  obtain ⟨i', o', hi', ho', hs', hchannels, htype, htype'⟩ := hsame.exists_connection hi hs ho
  rw [← hchannels, ← htype, ← htype']
  exact hg target i' hi' p o' hs' ho'

/-! ## Graphs before they are finished -/

/-- The pins of a graph are linked, its sockets read nodes only, and the graphs of its compounds are as wanted. -/
structure Wired (Q : Node → Graph → Prop) (ids : IdSupply) (g : Graph) : Prop extends g.Owned ids where
  linked : g.Linked
  driven : ∀ {source k}, g.Connects source (.socket k) → source.owner ≠ .graph
  inner : ∀ n ∈ g.nodes, ∀ name function inner, n.implementation = .compound name function inner → Q n inner

section
variable {Q : Node → Graph → Prop}

theorem Wired.empty (ids : IdSupply) (name : String) : (Graph.empty name).Wired Q ids := by
  refine ⟨⟨List.nodup_nil, fun _ hid => absurd hid List.not_mem_nil⟩, .empty name, ?_, ?_⟩
  · rintro source k ⟨i, hi, -⟩
    cases hi
  · exact fun _ hn => absurd hn List.not_mem_nil

theorem Wired.extend (hg : g.Wired Q ids) (hext : h.Extends g) (howned : h.Owned ids')
    (hinner : ∀ n ∈ h.nodes, n ∈ g.nodes ∨
      ∀ name function inner, n.implementation = .compound name function inner → Q n inner) : h.Wired Q ids' := by
  refine ⟨howned, hg.linked.extend hext, fun hc => hg.driven (hext.connects hc), fun n hn => ?_⟩
  rcases hinner n hn with hn | hn
  · exact hg.inner n hn
  · exact hn

theorem Wired.addInputSocket (hg : g.Wired Q ids) {o : Output} (ho : o.readers = []) :
    (g.addInputSocket o).Wired Q ids :=
  hg.extend (extends_addInputSocket hg.distinct ho) (hg.toOwned.of_ids rfl) fun _ hn => .inl hn

theorem Wired.addOutputSocket (hg : g.Wired Q ids) {i : Input} (hi : i.source = none) :
    (g.addOutputSocket i).Wired Q ids :=
  hg.extend (extends_addOutputSocket hg.distinct hi) (hg.toOwned.of_ids rfl) fun _ hn => .inl hn

theorem Wired.later (hg : g.Wired Q ids) (hids : ids.Later ids') : g.Wired Q ids' :=
  ⟨hg.toOwned.later hids, hg.linked, hg.driven, hg.inner⟩

theorem Wired.addNode (hg : g.Wired Q ids) (hpick : Injective ids.pick) {n : Node} (hid : n.id = ids.fresh.1)
    (hn : n.Unconnected)
    (hinner : ∀ name function inner, n.implementation = .compound name function inner → Q n inner) :
    (g.addNode n).Wired Q ids.fresh.2 := by
  have hnew : n.id ∉ g.ids := fun hmem => IdSupply.not_issued_fresh hpick (hid ▸ hg.issued n.id hmem)
  refine hg.extend (extends_addNode hg.distinct hnew hn) (hg.toOwned.addNode hpick hid) fun m hm => ?_
  rcases List.mem_append.mp hm with hm | hm
  · exact .inl hm
  · exact .inr (List.mem_singleton.mp hm ▸ hinner)

theorem Wired.step (hQ : ∀ n m k, Q n k → m.frame = n.frame → Q m k) (hg : g.Wired Q ids) (hframe : h.frame = g.frame)
    (hlinked : h.Linked) (hsource : ∀ k, target = .socket k → source.owner ≠ .graph)
    (hnew : ∀ {p q}, h.Connects p q → g.Connects p q ∨ p = source ∧ q = target) : h.Wired Q ids := by
  refine ⟨hg.toOwned.of_ids (ids_of_cores (cores_of_frame hframe)), hlinked, fun {p k} hc => ?_, ?_⟩
  · rcases hnew hc with hc | ⟨rfl, htarget⟩
    · exact hg.driven hc
    · exact hsource k htarget.symm
  · intro n hn name function inner himplementation
    have hmem : n.frame ∈ g.frame.nodes := hframe ▸ List.mem_map_of_mem hn
    obtain ⟨m, hm, heq⟩ := List.mem_map.mp hmem
    have hm' : m.implementation = n.implementation := (congrArg Node.implementation heq :)
    exact hQ m n inner (hg.inner m hm name function inner (hm'.trans himplementation)) heq.symm

theorem Wired.connect (hQ : ∀ n m k, Q n k → m.frame = n.frame → Q m k) (hg : g.Wired Q ids)
    (hsource : ∀ k, target = .socket k → source.owner ≠ .graph) (hc : g.connect source target = .ok h) :
    h.Wired Q ids :=
  hg.step hQ (frame_connect hc) (hg.linked.connect hc) hsource (connects_connect hc)

end

/-- A graph that can take the place of a node. -/
def Replaces (n : Node) (inner : Graph) : Prop := inner.Plain ∧ inner.Typed ∧ inner.Suits n

theorem Replaces.of_frame (n m : Node) (inner : Graph) (hn : Replaces n inner) (hframe : m.frame = n.frame) :
    Replaces m inner :=
  ⟨hn.1, hn.2.1, hn.2.2.of_frame hframe⟩

theorem Wired.sound (hg : g.Wired Replaces ids) : g.Sound ids where
  toOwned := hg.toOwned
  sources := fun ⟨_, hi, hs⟩ => .inl (hg.linked.source_known hi hs)
  driven := hg.driven
  inner n hn name function inner hn' := (hg.inner n hn name function inner hn').1
  listed := hg.linked.listed
  typed := hg.linked.typed
  compounds n hn name function inner hn' := (hg.inner n hn name function inner hn').2

/-- Every connection could be made anew: both pins are there, and their types fit. -/
def Checked (g : Graph) : Prop := ∀ p q, g.Connects p q → ∃ h, g.connect p q = .ok h

theorem Typed.connect (hg : g.Typed) (hc : g.Connects source target) (hknown : ∃ o, g.output? source = some o) :
    ∃ h, g.connect source target = .ok h := by
  obtain ⟨i, hi, hs⟩ := hc
  obtain ⟨o, ho⟩ := hknown
  have hfits := hg target i hi source o hs ho
  refine ⟨(g.disconnect target).link source target, ?_⟩
  simp only [Graph.connect, Edit.result, Edit.connect_eq, ho, hi, if_pos hfits]

theorem Typed.checked (hg : g.Typed) (hpaired : g.Paired) : g.Checked := by
  rintro p q ⟨i, hi, hs⟩
  exact hg.connect ⟨i, hi, hs⟩ (hpaired.source_known hi hs)

end Graph

namespace Build

variable {r : Request} {s s' : BuildState} {g g' w : Graph} {d : NodeGraph} {n : NodeInstance} {m : Node}
  {enter : NodeDef → Build Implementation} {scope : String}

/-! ## Declared types -/

/-- The sockets of a graph have the types that a node graph declares for them. -/
structure Declares (r : Request) (d : NodeGraph) (g : Graph) : Prop where
  inputs : ∃ pins, interface r d = .ok pins ∧ ∀ k socket, g.output? (.socket k) = some socket →
    ∃ p ∈ pins, p.name = socket.name ∧ typeOf r p.typeName = .ok socket.type
  outputs : ∀ k socket, g.input? (.socket k) = some socket →
    ∃ o, d.outputs[k]? = some o ∧ typeOf r o.typeName = .ok socket.type

theorem Declares.congr (hg : Declares r d g)
    (houtput : ∀ {k o}, g'.output? (.socket k) = some o →
      ∃ p, g.output? (.socket k) = some p ∧ p.name = o.name ∧ p.type = o.type)
    (hinput : ∀ {k i}, g'.input? (.socket k) = some i → ∃ j, g.input? (.socket k) = some j ∧ j.type = i.type) :
    Declares r d g' := by
  obtain ⟨⟨pins, hpins, hinputs⟩, houtputs⟩ := hg
  refine ⟨⟨pins, hpins, fun k socket hsocket => ?_⟩, fun k socket hsocket => ?_⟩
  · obtain ⟨p, hp, hname, htype⟩ := houtput hsocket
    rw [← hname, ← htype]
    exact hinputs k p hp
  · obtain ⟨j, hj, htype⟩ := hinput hsocket
    rw [← htype]
    exact houtputs k j hj

theorem Declares.of_frame (hg : Declares r d g) {nodes : List Node} (hframe : g'.frame = { g.frame with nodes }) :
    Declares r d g' := by
  refine hg.congr (fun {k o} ho => ?_) fun {k i} hi => ?_
  · have hmap := congrArg (fun g : Graph => g.output? (.socket k)) hframe
    have hmap : (g'.output? (.socket k)).map Output.frame = (g.output? (.socket k)).map Output.frame := by
      rw [← Graph.output?_frame, ← Graph.output?_frame]
      exact hmap
    rw [ho] at hmap
    obtain ⟨p, hp, heq⟩ := Option.map_eq_some_iff.mp hmap.symm
    exact ⟨p, hp, (congrArg Output.name heq :), (congrArg Output.type heq :)⟩
  · have hmap := congrArg (fun g : Graph => g.input? (.socket k)) hframe
    have hmap : (g'.input? (.socket k)).map Input.frame = (g.input? (.socket k)).map Input.frame := by
      rw [← Graph.input?_frame, ← Graph.input?_frame]
      exact hmap
    rw [hi] at hmap
    obtain ⟨j, hj, heq⟩ := Option.map_eq_some_iff.mp hmap.symm
    exact ⟨j, hj, (congrArg Input.type heq :)⟩

theorem Declares.sameWiring (hg : Declares r d g) (hsame : g.SameWiring g') : Declares r d g' := by
  refine hg.congr (fun ho => ?_) fun hi => ?_
  · obtain ⟨p, hp, hbare⟩ := hsame.exists_output ho
    exact ⟨p, hp, (congrArg Output.name hbare :), (congrArg Output.type hbare :)⟩
  · obtain ⟨j, hj, hbare⟩ := hsame.exists_input hi
    exact ⟨j, hj, (congrArg Input.type hbare :)⟩

theorem declares_of_wire (h : wire r enter d s = .ok w s') : Declares r d w := by
  obtain ⟨inputSockets, outputSockets, nodes, ⟨pins, hpins, hinputs⟩, houtputs, -, hkeeps⟩ := wire_keeps h
  refine hkeeps (Declares r d) ⟨⟨pins, hpins, fun k socket hsocket => ?_⟩, fun k socket hsocket => ?_⟩ ?_
  · obtain ⟨p, hp, hmade⟩ := except_mapM_getElem? hinputs hsocket
    obtain ⟨type, _, htype, rfl⟩ := inputSocket_cases hmade
    exact ⟨p, List.mem_of_getElem? hp, rfl, htype⟩
  · obtain ⟨o, ho, hmade⟩ := except_mapM_getElem? houtputs hsocket
    obtain ⟨type, htype, rfl⟩ := outputSocket_cases hmade
    exact ⟨o, ho, htype⟩
  · exact fun g g' channels p q hg _ hconnect => hg.of_frame (frame_connectThrough hconnect)

theorem declares_nestedGraph (depth : Nat) (hpick : Injective s.ids.pick) (h : nestedGraph r depth d s = .ok g s') :
    Declares r d g := by
  cases depth with
  | zero => exact absurd h state_throw_ne_ok
  | succ depth =>
    obtain ⟨w, t, hwire, hfinish⟩ := assemble_cases h
    have hsupplies := supplies_compound (r := r) (supplies_nestedGraph (r := r) depth)
    have hlater := supplies_wire hsupplies d s w t hpick hwire
    have howned := (nodes_of_wire hsupplies hpick hwire).1
    have hdeclares := declares_of_wire hwire
    obtain ⟨g₁, t', hflat, g₂, hsort, rfl, -⟩ := finish_cases hfinish
    rcases hflat with ⟨-, hflat⟩ | ⟨-, rfl, -⟩
    · obtain ⟨ids, hrun, -⟩ := flatten_cases hflat
      obtain ⟨nodes, hframe⟩ := Graph.Rewiring.sockets_flatten (hlater.injective hpick) hrun
      have hdistinct := (Graph.Rewiring.owned_flatten (hlater.injective hpick) howned hrun).distinct
      exact (hdeclares.of_frame hframe).sameWiring (sameWiring_finish hdistinct hsort _ _ _)
    · exact hdeclares.sameWiring (sameWiring_finish howned.distinct hsort _ _ _)

/-! ## Conforming node graphs -/

/-- A node graph declares the types of a definition: those of its inputs by name, and those of its outputs in order. -/
structure Conforms (r : Request) (definition : NodeDef) (g : NodeGraph) : Prop where
  inputs : ∀ pins, interface r g = .ok pins → ∀ p ∈ pins, ∀ q, definition.input? p.name = some q →
    q.typeName = p.typeName
  outputs : ∀ (k : Nat) (p : PinDef) (o : GraphOutput), definition.outputs[k]? = some p → g.outputs[k]? = some o →
    p.typeName = o.typeName

/-- The node graph of an instance, if that is what implements it, conforms to its definition. -/
def ConformsAt (r : Request) (n : NodeInstance) : Prop :=
  ∀ definition g, r.document.definitionOf? n = some definition → graphOf? r n = some g → Conforms r definition g

/-- Definitions and their inputs have names of their own, and a node graph declares as many outputs as the definition
that it implements, of the same types. -/
structure Consistent (d : Document) : Prop where
  names : (d.nodedefs.map NodeDef.name).Nodup
  pins : ∀ definition ∈ d.nodedefs, (definition.inputs.map PinDef.name).Nodup
  outputs : ∀ definition ∈ d.nodedefs, ∀ g ∈ d.nodegraphs, g.nodedef = some definition.name →
    g.outputs.map GraphOutput.typeName = definition.outputs.map PinDef.typeName

theorem mem_of_definitionOf? {document : Document} {definition : NodeDef}
    (h : document.definitionOf? n = some definition) : definition ∈ document.nodedefs := by
  unfold Document.definitionOf? at h
  split at h
  · exact List.mem_of_find?_eq_some h
  · exact List.mem_of_find?_eq_some h

theorem Consistent.conformsAt (hr : Consistent r.document) (n : NodeInstance) : ConformsAt r n := by
  intro definition g hdefinition hg
  have hmem := mem_of_definitionOf? hdefinition
  obtain ⟨hg, hgraph⟩ : g ∈ r.document.nodegraphs ∧ g.nodedef = some definition.name := by
    simp only [graphOf?, hdefinition] at hg
    split at hg
    · exact ⟨List.mem_of_find?_eq_some hg, by simpa using List.find?_some hg⟩
    · cases hg
  refine ⟨fun pins hpins p hp q hq => ?_, fun k p o hp ho => ?_⟩
  · obtain ⟨found, hfound⟩ : ∃ found, r.document.nodedef? definition.name = some found :=
      Option.isSome_iff_exists.mp (List.find?_isSome.mpr ⟨definition, hmem, by simp⟩)
    have hname : found.name = definition.name := by simpa using List.find?_some hfound
    obtain rfl : found = definition :=
      List.inj_on_of_nodup_map hr.names (List.mem_of_find?_eq_some hfound) hmem hname
    obtain rfl : found.inputs = pins := by simpa [interface, hgraph, hfound] using hpins
    have hname : q.name = p.name := by simpa using List.find?_some hq
    rw [List.inj_on_of_nodup_map (hr.pins found hmem) (List.mem_of_find?_eq_some hq) hp hname]
  · have heq := congrArg (fun l => l[k]?) (hr.outputs definition hmem g hg hgraph)
    simpa [hp, ho] using heq.symm

theorem suits_of_node (hnode : node r enter scope n s = .ok m s') (hconforms : ConformsAt r n) {inner : NodeGraph}
    (hinner : graphOf? r n = some inner) (hg : Declares r inner g) : g.Suits m := by
  obtain ⟨definition, _, _, inputs, outputs, _, hdefinition, -, -, hinputs, houtputs, rfl, -⟩ := node_cases hnode
  have hconforms := hconforms definition inner hdefinition hinner
  refine ⟨fun socket hsocket i hi => ?_, fun {k o i} ho hi => ?_⟩
  · obtain ⟨k, hk⟩ := List.getElem?_of_mem hsocket
    obtain ⟨pins, hpins, hdeclared⟩ := hg.inputs
    obtain ⟨p, hp, hname, htype⟩ := hdeclared k socket hk
    obtain ⟨q, hq, hmade⟩ := except_mapM_find? (p := fun p => p.name == socket.name)
      (fun a b hab => by obtain ⟨_, _, -, rfl⟩ := input_cases hab; rfl) hinputs hi
    obtain ⟨type, _, htype', rfl⟩ := input_cases hmade
    rw [hconforms.inputs pins hpins p hp q (hname ▸ hq), htype] at htype'
    exact (Except.ok.inj htype').symm
  · obtain ⟨p, hp, hmade⟩ := except_mapM_getElem? houtputs ho
    obtain ⟨type, htype, rfl⟩ := output_cases hmade
    obtain ⟨q, hq, htype'⟩ := hg.outputs k i hi
    rw [hconforms.outputs k p q hp hq, htype'] at htype
    exact Except.ok.inj htype

/-! ## Wired graphs -/

/-- The node of an instance, if it is a compound, has a graph as wanted. -/
def Makes (r : Request) (enter : NodeDef → Build Implementation) (Q : Node → Graph → Prop) (scope : String)
    (n : NodeInstance) : Prop :=
  ∀ {s m s'}, Injective s.ids.pick → node r enter scope n s = .ok m s' →
    ∀ name function inner, m.implementation = .compound name function inner → Q m inner

section
variable {Q : Node → Graph → Prop} (hQ : ∀ n m k, Q n k → m.frame = n.frame → Q m k)
include hQ

theorem wired_connectThrough {ids : IdSupply} {channels : Option String} {source target : PinRef}
    (hg : g.Wired Q ids) (hsource : ∀ k, target = .socket k → source.owner ≠ .graph)
    (h : connectThrough g channels source target = .ok g') : g'.Wired Q ids := by
  refine hg.step hQ (frame_connectThrough h) (linked_connectThrough hg.linked h) hsource fun hc => ?_
  rcases Graph.connects_connect h hc with hc | hnew
  · exact .inl (Graph.connects_modifyInput (fun _ => by rfl) hc)
  · exact .inr hnew

theorem wired_of_wire (henter : ∀ d, Supplies (enter d)) (hpick : Injective s.ids.pick)
    (hmakes : ∀ n ∈ d.nodes, Makes r enter Q d.name n) (h : wire r enter d s = .ok w s') : w.Wired Q s'.ids := by
  refine ⟨(nodes_of_wire henter hpick h).1, linked_of_wire henter hpick h, driven_of_wire h, ?_⟩
  intro m hm name function inner himplementation
  obtain ⟨n, hn, m', t, t', ht, hnode, hframe⟩ := node_of_wire henter hpick h hm
  have hm' : m'.implementation = m.implementation := (congrArg Node.implementation hframe.symm :)
  exact hQ m' m inner (hmakes n hn ht hnode name function inner (hm'.trans himplementation)) hframe

theorem wired_nestedGraph {depth : Nat} (hpick : Injective s.ids.pick)
    (hmakes : ∀ n ∈ d.nodes, Makes r (compound r (nestedGraph r depth)) Q d.name n)
    (h : nestedGraph r (depth + 1) d s = .ok g s') :
    ∃ w t publish, Injective t.ids.pick ∧ w.Wired Q t.ids ∧ finish r publish w t = .ok g s' := by
  obtain ⟨w, t, hwire, hfinish⟩ := assemble_cases h
  have hsupplies := supplies_compound (r := r) (supplies_nestedGraph (r := r) depth)
  have hlater := supplies_wire hsupplies d s w t hpick hwire
  exact ⟨w, t, _, hlater.injective hpick, wired_of_wire hQ hsupplies hpick hmakes hwire, hfinish⟩

theorem wired_singleNode (hpick : Injective s.ids.pick)
    (hmakes : ∀ m, ReflTransGen (Upstream r n) n m → Makes r (compound r (nodeGraph r)) Q "" m)
    (h : singleNode r n s = .ok g s') :
    ∃ w t publish, Injective t.ids.pick ∧ w.Wired Q t.ids ∧ finish r publish w t = .ok g s' := by
  have hkeeps := singleNode_keeps (P := fun t w => Injective t.ids.pick ∧ w.Wired Q t.ids) ?_ ?_
    ⟨hpick, .empty _ n.name⟩ ?_ ?_ h
  · obtain ⟨w, t, hw, hfinish⟩ := hkeeps
    exact ⟨w, t, _, hw.1, hw.2, hfinish⟩
  · rintro k m w t t' hreached ⟨hpick, hw⟩ hnode
    obtain ⟨ids, hlater, hid, hids⟩ := id_of_node (supplies_compound supplies_nodeGraph) hpick hnode
    have hpick' := hlater.injective hpick
    rw [hids]
    exact ⟨(IdSupply.later_fresh ids).injective hpick', (hw.later hlater).addNode hpick' hid (unconnected_node hnode)
      (hmakes k hreached hpick hnode)⟩
  · exact fun hw hconnect => ⟨hw.1, wired_connectThrough hQ hw.2 (fun _ h => by cases h) hconnect⟩
  · exact fun hw ho hconnect => ⟨hw.1, (hw.2.addInputSocket ho).connect hQ (fun _ h => by cases h) hconnect⟩
  · exact fun hw hi hconnect =>
      ⟨hw.1, (hw.2.addOutputSocket hi).connect hQ (fun _ _ => by simp [PinRef.ofNode]) hconnect⟩

end

/-! ## Without flattening -/

section
variable (hoff : r.options.flatten = false)
include hoff

theorem linked_finish {publish : Bool} (hw : w.Wired (fun _ k => k.Throughout Graph.Linked) s.ids)
    (h : finish r publish w s = .ok g s') : g.Throughout Graph.Linked := by
  obtain ⟨g₂, hsort, rfl, -⟩ := finish_unflattened hoff h
  exact throughout_finish Graph.Linked.sameWiring hw.linked hw.distinct hsort hw.inner _ _ _

omit hoff in
theorem makes_linked {build : NodeGraph → Build Graph}
    (hbuild : ∀ d {s g s'}, Injective s.ids.pick → build d s = .ok g s' → g.Throughout Graph.Linked) (scope : String)
    (n : NodeInstance) : Makes r (compound r build) (fun _ k => k.Throughout Graph.Linked) scope n := by
  intro s m s' hpick hnode name function k hm
  obtain ⟨inner, t, -, hinner⟩ := graphOf?_of_compound hnode hm
  exact hbuild inner (s := { s with stack := inner.name :: s.stack }) hpick hinner

theorem singleNode_linked (hpick : Injective s.ids.pick) (h : singleNode r n s = .ok g s') :
    g.Throughout Graph.Linked := by
  obtain ⟨w, t, publish, -, hw, hfinish⟩ :=
    wired_singleNode (fun _ _ _ hk _ => hk) hpick (fun m _ => makes_linked (nestedGraph_linked hoff _) "" m) h
  exact linked_finish hoff hw hfinish

end

/-! ## With flattening -/

section
variable (hon : r.options.flatten = true)
include hon

theorem typed_finish {publish : Bool} (hpick : Injective s.ids.pick) (hw : w.Wired Graph.Replaces s.ids)
    (h : finish r publish w s = .ok g s') : g.Plain ∧ g.Typed := by
  obtain ⟨g₁, t, hflat, g₂, hsort, rfl, -⟩ := finish_cases h
  rcases hflat with ⟨-, hflat⟩ | ⟨hoff, -, -⟩
  · obtain ⟨ids, hrun, -⟩ := flatten_cases hflat
    have hplain := Graph.Rewiring.plain_flatten hpick hw.sound.toTidy hrun
    have htyped := Graph.Rewiring.typed_flatten hpick hw.sound hrun
    have hsame := sameWiring_finish hplain.distinct hsort r.generator.language publish
      (traitsOf (g₂.assignScopes.assignVariables r.generator.language publish))
    exact ⟨hplain.sameWiring hsame, htyped.sameWiring hsame⟩
  · rw [hon] at hoff
    cases hoff

omit hon in
theorem makes_replacing (depth : Nat) (scope : String) (hconforms : ConformsAt r n)
    (hbuild : ∀ inner, graphOf? r n = some inner → ∀ {s g s'}, Injective s.ids.pick →
      nestedGraph r depth inner s = .ok g s' → g.Plain ∧ g.Typed) :
    Makes r (compound r (nestedGraph r depth)) Graph.Replaces scope n := by
  intro s m s' hpick hnode name function k hm
  obtain ⟨inner, t, hgraph, hinner⟩ := graphOf?_of_compound hnode hm
  have hdeclares := declares_nestedGraph (s := { s with stack := inner.name :: s.stack }) depth hpick hinner
  obtain ⟨hplain, htyped⟩ := hbuild inner hgraph (s := { s with stack := inner.name :: s.stack }) hpick hinner
  exact ⟨hplain, htyped, suits_of_node hnode hconforms hgraph hdeclares⟩

theorem nestedGraph_typed (depth : Nat) : ∀ (d : NodeGraph) {s g s'},
    (∀ e, ReflTransGen (Instantiates r) d e → ∀ n ∈ e.nodes, ConformsAt r n) → Injective s.ids.pick →
      nestedGraph r depth d s = .ok g s' → g.Plain ∧ g.Typed := by
  induction depth with
  | zero => exact fun d s g s' _ _ h => absurd h state_throw_ne_ok
  | succ depth ih =>
    intro d s g s' hconforms hpick h
    have hmakes : ∀ n ∈ d.nodes, Makes r (compound r (nestedGraph r depth)) Graph.Replaces d.name n := by
      intro n hn
      refine makes_replacing depth d.name (hconforms d .refl n hn) fun inner hinner => ih inner fun e he => ?_
      exact hconforms e (.head ⟨n, hn, hinner⟩ he)
    obtain ⟨w, t, publish, hpick', hw, hfinish⟩ := wired_nestedGraph Graph.Replaces.of_frame hpick hmakes h
    exact typed_finish hon hpick' hw hfinish

theorem singleNode_typed (hpick : Injective s.ids.pick)
    (hconforms : ∀ m, ReflTransGen (Upstream r n) n m → ConformsAt r m)
    (hinner : ∀ m d, ReflTransGen (Upstream r n) n m → graphOf? r m = some d →
      ∀ e, ReflTransGen (Instantiates r) d e → ∀ k ∈ e.nodes, ConformsAt r k)
    (h : singleNode r n s = .ok g s') : g.Plain ∧ g.Typed := by
  have hmakes : ∀ m, ReflTransGen (Upstream r n) n m → Makes r (compound r (nodeGraph r)) Graph.Replaces "" m :=
    fun m hm => makes_replacing _ "" (hconforms m hm) fun d hd => nestedGraph_typed hon _ d (hinner m d hm hd)
  obtain ⟨w, t, publish, hpick', hw, hfinish⟩ :=
    wired_singleNode Graph.Replaces.of_frame hpick hmakes h
  exact typed_finish hon hpick' hw hfinish

end

/-! ## The main result -/

/-- The instances of which an element is built: those of the node graphs that it is built from, and for a node also the
node itself and all nodes above it. -/
def Occurs (r : Request) (element : Shader.Element) (n : NodeInstance) : Prop :=
  (∃ g, Contains r element g ∧ n ∈ g.nodes) ∨ ∃ start, element = .node start ∧ ReflTransGen (Upstream r start) start n

/-- **Connections fit where interfaces conform.** In a graph that is built without flattening, and in those of its
compounds, every connection could be made anew. In one that is built with flattening this holds if the node graphs of
all instances that it is built from conform to their definitions, of all connections but those of inputs that read a
node which is gone; and of all connections if no compound of a node graph is bound to its own output. -/
theorem built_connections_fit (r : Request) (element : Shader.Element) (s s' : BuildState) (g : Graph)
    (hpick : Injective s.ids.pick) (h : element.build r s = .ok g s') :
    (r.options.flatten = false → g.Throughout Graph.Checked) ∧
    (r.options.flatten = true → (∀ n, Occurs r element n → ConformsAt r n) →
      (∀ p q, g.Connects p q → (∃ g', g.connect p q = .ok g') ∨ ∃ id ∉ g.ids, p.owner = .node id) ∧
      ∀ d, element = .graph d → (d.nodes.map NodeInstance.name).Nodup → ¬ SelfWired r d → g.Checked) := by
  refine ⟨fun hoff => ?_, fun hon hconforms => ?_⟩
  · have hlinked : g.Throughout Graph.Linked := by
      cases element with
      | graph d => exact nestedGraph_linked hoff _ d hpick h
      | node n => exact singleNode_linked hoff hpick h
    exact hlinked.mono fun _ hg => hg.typed.checked hg.toPaired
  · obtain ⟨hplain, htyped⟩ : g.Plain ∧ g.Typed := by
      cases element with
      | graph d => exact nestedGraph_typed hon _ d (fun e he n hn => hconforms n (.inl ⟨e, he, hn⟩)) hpick h
      | node n =>
        refine singleNode_typed hon hpick (fun m hm => hconforms m (.inr ⟨n, rfl, hm⟩)) ?_ h
        exact fun m d hm hd e he k hk => hconforms k (.inl ⟨e, ⟨m, d, hm, hd, he⟩, hk⟩)
    refine ⟨fun p q hc => ?_, ?_⟩
    · obtain ⟨i, hi, hs⟩ := hc
      rcases hplain.tame hi hs with hknown | hgone
      · exact .inl (htyped.connect ⟨i, hi, hs⟩ hknown)
      · exact .inr hgone
    · rintro d rfl hnames hself
      exact htyped.checked (nodeGraph_paired hpick hnames hself hon h).own

/-- Echoes in a row build a graph whose connections fit, flattened or not. -/
theorem row_connections_fit : Injective ({} : BuildState).ids.pick ∧ (∀ n, ConformsAt hall n) ∧
    (row.nodes.map NodeInstance.name).Nodup ∧ ¬ SelfWired hall row ∧
    (∃ g s', (Shader.Element.graph row).build hall {} = .ok g s' ∧
      (∃ n ∈ g.nodes, ∃ m ∈ g.nodes, g.Connects (.ofNode n.id 0) (.ofNode m.id 0)) ∧ g.Checked) ∧
    ∃ g s', (Shader.Element.graph row).build { hall with options.flatten := false } {} = .ok g s' ∧
      g.Throughout Graph.Checked := by
  have hpick : Injective ({} : BuildState).ids.pick := fun _ _ h => congrArg NodeId.index h
  have hconforms : ∀ n, ConformsAt hall n := Consistent.conformsAt ⟨by decide, by decide, by decide⟩
  have hnames : (row.nodes.map NodeInstance.name).Nodup := by decide
  have hself : ¬ SelfWired hall row := by unfold SelfWired; decide +kernel
  refine ⟨hpick, hconforms, hnames, hself, ?_, ?_⟩
  · obtain ⟨g, s', hg, hconnects⟩ := exists_ok_of_check ((Shader.Element.graph row).build hall) {}
      (fun g _ => ∃ n ∈ g.nodes, ∃ m ∈ g.nodes, g.Connects (.ofNode n.id 0) (.ofNode m.id 0)) (by decide +kernel)
    have hfit := (built_connections_fit hall _ {} s' g hpick hg).2 rfl fun n _ => hconforms n
    exact ⟨g, s', hg, hconnects, hfit.2 row rfl hnames hself⟩
  · obtain ⟨g, s', hg, -⟩ := exists_ok_of_check
      ((Shader.Element.graph row).build { hall with options.flatten := false }) {} (fun _ _ => True) (by decide +kernel)
    exact ⟨g, s', hg, (built_connections_fit _ _ {} s' g hpick hg).1 rfl⟩

/-- A `tint` is defined with a colour and a mask, and its node graph declares one output, a number. -/
def studio (flatten : Bool) : Request :=
  { generator := { language := .osl }
    options := { flatten }
    document :=
      { nodedefs :=
          [{ name := "ND_level", category := "level", outputs := [{ name := "out", typeName := "float" }] },
            { name := "ND_tint", category := "tint"
              outputs := [{ name := "out", typeName := "color3" }, { name := "mask", typeName := "float" }] },
            { name := "ND_glow", category := "glow"
              inputs := [{ name := "in", typeName := "color3" }, { name := "mask", typeName := "float" }]
              outputs := [{ name := "out", typeName := "color3" }] }]
        sources := ["level", "glow"].map fun category =>
          { name := "IM_" ++ category, nodedef := "ND_" ++ category, language := "osl"
            file := some (category ++ ".inline"), source := some "0.5" }
        nodegraphs :=
          [{ name := "NG_tint", nodedef := some "ND_tint"
             nodes := [{ name := "level", category := "level", typeName := "float" }]
             outputs := [{ name := "out", typeName := "float", nodeName := "level" }] }] } }

def scene : NodeGraph :=
  { name := "scene"
    nodes :=
      [{ name := "tint", category := "tint", typeName := "color3" },
        { name := "glow", category := "glow", typeName := "color3"
          inputs := [{ name := "in", typeName := "color3", nodeName := some "tint" },
            { name := "mask", typeName := "float", nodeName := some "tint", output := some "mask" }] }]
    outputs := [{ name := "out", typeName := "color3", nodeName := "glow" }] }

/-- Interfaces are not checked. The tint and its node graph differ in the number and in the types of outputs, and the
scene is built. With flattening, an input of type `color3` comes to read a number, which could not be connected, and the
input that reads the mask comes to read nothing. -/
theorem interfaces_unchecked :
    (∀ flatten, ∃ n ∈ scene.nodes, ∃ definition ∈ (studio flatten).document.definitionOf? n,
      ∃ g ∈ graphOf? (studio flatten) n, definition.outputs.map PinDef.typeName = ["color3", "float"] ∧
        g.outputs.map GraphOutput.typeName = ["float"]) ∧
    (∃ g s', nodeGraph (studio false) scene {} = .ok g s') ∧
    ∃ g s', nodeGraph (studio true) scene {} = .ok g s' ∧
      ∃ level ∈ g.nodes, ∃ glow ∈ g.nodes, g.Connects (.ofNode level.id 0) (.ofNode glow.id 0) ∧
        (g.connect (.ofNode level.id 0) (.ofNode glow.id 0)).isOk = false ∧
        ∃ mask ∈ g.input? (.ofNode glow.id 1), mask.source = none := by
  refine ⟨by decide +kernel, ?_, ?_⟩
  · obtain ⟨g, s', hg, -⟩ := exists_ok_of_check (nodeGraph (studio false) scene) {} (fun _ _ => True)
      (by decide +kernel)
    exact ⟨g, s', hg⟩
  · exact exists_ok_of_check (nodeGraph (studio true) scene) {}
      (fun g _ => ∃ level ∈ g.nodes, ∃ glow ∈ g.nodes, g.Connects (.ofNode level.id 0) (.ofNode glow.id 0) ∧
        (g.connect (.ofNode level.id 0) (.ofNode glow.id 0)).isOk = false ∧
        ∃ mask ∈ g.input? (.ofNode glow.id 1), mask.source = none) (by decide +kernel)

end Build
end ShadeGraph
