import ShadeGraph.Proofs.Graph.Build
import ShadeGraph.Proofs.Graph.Links

/-!
# Where pins stand in the document

Each input of a node and each input socket of a graph stands at a place in the document, which is made of the names of
the node graph, the node and the pin. Building a graph keeps these places if it is not flattened, so that two pins stand
at different places whenever the names tell them apart.
-/

namespace ShadeGraph

open Function

def Node.places (n : Node) : List String := n.inputs.map Input.path

namespace Graph

def places (g : Graph) : List String := g.inputSockets.map Output.path ++ g.nodes.flatMap Node.places

variable {g h : Graph} {source target : PinRef}

/-! ## Connections -/

theorem places_modifyNode {id : NodeId} {f : Node → Node} (hf : ∀ n, (f n).places = n.places) :
    (g.modifyNode id f).places = g.places := by
  simp only [places, modifyNode, List.flatMap_map]
  congr 2
  funext n
  split
  · exact hf n
  · rfl

theorem places_modifyInput {f : Input → Input} (hf : ∀ i, (f i).path = i.path) (p : PinRef) :
    (g.modifyInput p f).places = g.places := by
  obtain ⟨owner, index⟩ := p
  cases owner with
  | graph => rfl
  | node id => exact places_modifyNode fun n => map_modify_of_forall hf n.inputs index

theorem places_modifyOutput {f : Output → Output} (hf : ∀ o, (f o).path = o.path) (p : PinRef) :
    (g.modifyOutput p f).places = g.places := by
  obtain ⟨owner, index⟩ := p
  cases owner with
  | graph => simp only [modifyOutput, places, map_modify_of_forall hf]
  | node id => exact places_modifyNode fun n => rfl

theorem places_connect (hc : g.connect source target = .ok h) : h.places = g.places := by
  obtain ⟨_, _, -, -, -, rfl⟩ := connect_cases hc
  have hdisconnect : (g.disconnect target).places = g.places := by
    unfold disconnect
    split
    · rfl
    · rw [forget, places_modifyOutput (fun _ => by rfl), places_modifyInput (fun _ => by rfl)]
  rw [link, places_modifyOutput, places_modifyInput (fun _ => by rfl), hdisconnect]
  intro o
  split <;> rfl

/-! ## Places of a finished graph -/

theorem places_bare (g : Graph) : g.bare.places = g.places := by
  have hnode (n : Node) : n.bare.places = n.places := by
    simp [Node.places, Node.bare, Input.bare, Function.comp_def]
  simp only [places, bare, List.flatMap_map, hnode, List.map_map]
  rfl

theorem places_withScopes (g : Graph) (σ : NodeId → Scope) : (g.withScopes σ).places = g.places := by
  simp only [places, withScopes, List.flatMap_map]
  rfl

theorem places_perm {nodes : List Node} (hperm : nodes.Perm g.nodes) :
    ({ g with nodes } : Graph).places.Perm g.places :=
  (hperm.flatMap_right Node.places).append_left _

end Graph

/-! ## Node graphs -/

namespace Build

variable {r : Request} {enter : NodeDef → Build Implementation} {s s' : BuildState} {g w : Graph} {d : NodeGraph}

/-- The input pins of an instance, which are those of its definition. -/
def pinsOf (r : Request) (n : NodeInstance) : List PinDef := ((r.document.definitionOf? n).map NodeDef.inputs).getD []

/-- The places that the pins of the interface and of the instances of a node graph have. -/
def placesOf (r : Request) (d : NodeGraph) (pins : List PinDef) : List String :=
  (pins.map fun p => d.name ++ "/" ++ p.name) ++
    d.nodes.flatMap fun n => (pinsOf r n).map fun p => pinPath d.name n.name p.name

/-- The names of a node graph tell its pins apart: nodes have names of their own, without the mark between the parts of
a place, and so have the pins of the interface; the pins of a node differ in their names. -/
structure PlainNames (r : Request) (d : NodeGraph) : Prop where
  graph : d.name ≠ ""
  nodes : (d.nodes.map NodeInstance.name).Nodup
  nodeNames : ∀ n ∈ d.nodes, '/' ∉ n.name.toList
  pins : ∀ n ∈ d.nodes, ((pinsOf r n).map PinDef.name).Nodup
  interface : ∀ pins, interface r d = .ok pins → (pins.map PinDef.name).Nodup ∧ ∀ p ∈ pins, '/' ∉ p.name.toList

theorem places_of_node {scope : String} {n : NodeInstance} {m : Node} (h : node r enter scope n s = .ok m s') :
    m.places = (pinsOf r n).map fun p => pinPath scope n.name p.name := by
  obtain ⟨definition, _, _, inputs, _, _, hdefinition, -, -, hinputs, -, rfl, -⟩ := node_cases h
  rw [pinsOf, hdefinition]
  refine except_mapM_map_eq (fun p i hi => ?_) _ hinputs
  obtain ⟨_, _, -, rfl⟩ := input_cases hi
  rfl

theorem places_of_wire (h : wire r enter d s = .ok w s') :
    ∃ pins, interface r d = .ok pins ∧ w.places = placesOf r d pins := by
  obtain ⟨sockets, outputs, nodes, ⟨pins, hpins, hsockets⟩, -, hnodes, hkeeps⟩ := wire_keeps h
  refine ⟨pins, hpins, hkeeps (fun w => w.places = _) ?_ fun g g' channels p q hg _ hconnect => ?_⟩
  · have hmade := state_mapM_forall₂ (I := fun _ => True) d.nodes (fun _ _ _ _ _ _ _ => trivial) trivial hnodes
    have hplaces : nodes.map Node.places =
        d.nodes.map fun n => (pinsOf r n).map fun p => pinPath d.name n.name p.name := by
      rw [← List.forall₂_eq_eq_eq, List.forall₂_map_left_iff, List.forall₂_map_right_iff]
      refine hmade.flip.imp fun m n hnode => ?_
      obtain ⟨_, _, -, hnode⟩ := hnode
      exact places_of_node hnode
    have hfirst : sockets.map Output.path = pins.map fun p => d.name ++ "/" ++ p.name := by
      refine except_mapM_map_eq (fun p o ho => ?_) _ hsockets
      obtain ⟨_, _, -, rfl⟩ := inputSocket_cases ho
      rfl
    rw [Graph.places, hfirst, List.flatMap_def, hplaces, ← List.flatMap_def, placesOf]
  · exact (Graph.places_connect hconnect).trans ((Graph.places_modifyInput (fun _ => by rfl) q).trans hg)

theorem places_of_nodeGraph (hflatten : r.options.flatten = false) (hpick : Injective s.ids.pick)
    (h : nodeGraph r d s = .ok g s') :
    ∃ pins, interface r d = .ok pins ∧ g.places.Perm (placesOf r d pins) := by
  obtain ⟨w, t, hwire, hfinish⟩ := assemble_cases h
  obtain ⟨pins, hpins, hplaces⟩ := places_of_wire hwire
  refine ⟨pins, hpins, hplaces ▸ ?_⟩
  have hdistinct := (nodes_of_wire (supplies_compound (supplies_nestedGraph _)) hpick hwire).1.distinct
  obtain ⟨k, hsort, rfl, -⟩ := finish_unflattened hflatten hfinish
  obtain ⟨hperm, hrest, hscheduled, -⟩ := Graph.isSortOf_of_sort hdistinct hsort
  obtain ⟨σ, hscopes, -⟩ := Graph.assignScopes_scoped (hdistinct.perm hperm) hscheduled
  change (Graph.places (k.assignScopes.assignVariables _ _)).Perm _
  rw [← Graph.places_bare, Graph.bare_assignVariables, Graph.places_bare, hscopes, Graph.places_withScopes, hrest]
  exact Graph.places_perm hperm

/-! ## Places that differ -/

theorem eq_of_slash {a b c d : String} (ha : '/' ∉ a.toList) (hb : '/' ∉ b.toList)
    (h : a ++ "/" ++ c = b ++ "/" ++ d) : a = b := by
  have hchars := congrArg String.toList h
  simp only [String.toList_append, List.append_assoc] at hchars
  have hlength := congrArg (List.idxOf '/') hchars
  rw [List.idxOf_append_of_notMem ha, List.idxOf_append_of_notMem hb] at hlength
  exact String.toList_inj.mp (List.append_inj_left hchars (Nat.add_right_cancel hlength))

/-- **The pins of a plainly named node graph stand at different places.** -/
theorem PlainNames.nodup_places (hd : PlainNames r d) (hflatten : r.options.flatten = false)
    (hpick : Injective s.ids.pick) (h : nodeGraph r d s = .ok g s') : g.places.Nodup := by
  obtain ⟨pins, hpins, hperm⟩ := places_of_nodeGraph hflatten hpick h
  obtain ⟨hnames, hplain⟩ := hd.interface pins hpins
  have hpath (n p : String) : pinPath d.name n p = d.name ++ "/" ++ (n ++ "/" ++ p) := by
    rw [pinPath, if_neg hd.graph]
    simp only [String.append_assoc]
  rw [hperm.nodup_iff, placesOf, List.nodup_append]
  refine ⟨?_, List.nodup_flatMap.mpr ⟨fun n hn => ?_, ?_⟩, fun x hx y hy heq => ?_⟩
  · have hmap := hnames.map fun _ _ => (String.append_right_inj (d.name ++ "/")).mp
    rwa [List.map_map] at hmap
  · have hmap := (hd.pins n hn).map fun _ _ => (String.append_right_inj (d.name ++ "/" ++ n.name ++ "/")).mp
    simp only [pinPath, if_neg hd.graph]
    rwa [List.map_map] at hmap
  · refine (List.pairwise_map.mp hd.nodes).imp_of_mem fun {n m} hn hm hne x hx hx' => hne ?_
    obtain ⟨p, -, rfl⟩ := List.mem_map.mp hx
    obtain ⟨q, -, heq⟩ := List.mem_map.mp hx'
    rw [hpath, hpath, String.append_right_inj] at heq
    exact (eq_of_slash (hd.nodeNames m hm) (hd.nodeNames n hn) heq).symm
  · obtain ⟨p, hp, rfl⟩ := List.mem_map.mp hx
    obtain ⟨n, hn, hy⟩ := List.mem_flatMap.mp hy
    obtain ⟨q, -, rfl⟩ := List.mem_map.mp hy
    rw [hpath, String.append_right_inj] at heq
    refine hplain p hp ?_
    rw [heq]
    simp

end Build

end ShadeGraph
