import ShadeGraph.Proofs.Graph.Frame
import ShadeGraph.Proofs.Graph.Inversion

/-!
# Identities of built nodes

Building picks one identity for every node that it makes, whatever is entered on the way. So a supply that does not pick
an identity twice keeps the nodes of all graphs apart.
-/

namespace ShadeGraph.Build

open Function

variable {α : Type} {r : Request} {s s' : BuildState} {g g' : Graph}

/-! ## Connections -/

theorem frame_connectThrough {channels : Option String} {source target : PinRef}
    (h : connectThrough g channels source target = .ok g') : g'.frame = g.frame := by
  rw [Graph.frame_connect h, Graph.frame_modifyInput (fun _ => by rfl)]

/-! ## Picks -/

/-- Steps behind which the supply of identities is the same one after some picks. -/
def Supplies (m : Build α) : Prop := ∀ s a s', Injective s.ids.pick → m s = .ok a s' → s.ids.Later s'.ids

theorem Supplies.throw (e : Error) : Supplies (throw e : Build α) := fun _ _ _ _ h => absurd h state_throw_ne_ok

section
variable {enter : NodeDef → Build Implementation} (henter : ∀ d, Supplies (enter d))
include henter

theorem supplies_implementation (d : NodeDef) : Supplies (implementation r enter d) := by
  intro s how s' hpick h
  rcases implementation_cases h with ⟨p, -, -, rfl⟩ | ⟨-, ⟨code, -, -, hids⟩ | ⟨-, hentered⟩⟩
  · exact .refl _
  · rw [hids]
    exact .refl _
  · exact henter d s how s' hpick hentered

theorem id_of_node {scope : String} {n : NodeInstance} {m : Node} (hpick : Injective s.ids.pick)
    (h : node r enter scope n s = .ok m s') :
    ∃ ids, s.ids.Later ids ∧ m.id = ids.fresh.1 ∧ s'.ids = ids.fresh.2 := by
  obtain ⟨d, _, how, _, _, t, -, -, himplementation, -, -, rfl, rfl⟩ := node_cases h
  exact ⟨t.ids, supplies_implementation henter d s how t hpick himplementation, rfl, rfl⟩

theorem supplies_node (scope : String) (n : NodeInstance) : Supplies (node r enter scope n) := by
  intro s m s' hpick h
  obtain ⟨ids, hlater, -, hids⟩ := id_of_node henter hpick h
  exact hids ▸ hlater.trans (IdSupply.later_fresh ids)

/-- The identities of nodes that are made one after another are new ones, and different. -/
theorem ids_of_nodes (scope : String) (instances : List NodeInstance) : ∀ {s nodes s'}, Injective s.ids.pick →
    instances.mapM (node r enter scope) s = .ok nodes s' → s.ids.Later s'.ids ∧ (nodes.map Node.id).Nodup ∧
      ∀ n ∈ nodes, ¬ s.ids.Issued n.id ∧ s'.ids.Issued n.id := by
  induction instances with
  | nil =>
    intro s nodes s' _ h
    obtain ⟨rfl, rfl⟩ := state_pure_eq_ok.mp h
    exact ⟨.refl _, List.nodup_nil, fun _ hn => absurd hn List.not_mem_nil⟩
  | cons n instances ih =>
    intro s nodes s' hpick h
    rw [List.mapM_cons] at h
    obtain ⟨m, s₁, hnode, h₁⟩ := state_bind_eq_ok.mp h
    obtain ⟨rest, s₂, hrest, h₂⟩ := state_bind_eq_ok.mp h₁
    obtain ⟨rfl, rfl⟩ := state_pure_eq_ok.mp h₂
    obtain ⟨ids, hlater, hid, hids⟩ := id_of_node henter hpick hnode
    have hlater₁ : s.ids.Later s₁.ids := hids ▸ hlater.trans (IdSupply.later_fresh ids)
    have hissued : s₁.ids.Issued m.id := by
      rw [hids, hid]
      exact IdSupply.issued_fresh ids
    have hnew : ¬ s.ids.Issued m.id := by
      rw [hid]
      exact fun hissued => IdSupply.not_issued_fresh (hlater.injective hpick) (hlater.issued hissued)
    obtain ⟨hlater₂, hnodup, hfresh⟩ := ih (hlater₁.injective hpick) hrest
    refine ⟨hlater₁.trans hlater₂, ?_, ?_⟩
    · rw [List.map_cons, List.nodup_cons]
      refine ⟨fun hmem => ?_, hnodup⟩
      obtain ⟨k, hk, heq⟩ := List.mem_map.mp hmem
      exact (hfresh k hk).1 (heq ▸ hissued)
    · intro k hk
      rcases List.mem_cons.mp hk with rfl | hk
      · exact ⟨hnew, hlater₂.issued hissued⟩
      · exact ⟨fun hissued => (hfresh k hk).1 (hlater₁.issued hissued), (hfresh k hk).2⟩

theorem supplies_wire (d : NodeGraph) : Supplies (wire r enter d) := by
  intro s w s' hpick h
  obtain ⟨_, _, nodes, _, -, -, hnodes, -, -⟩ := wire_cases h
  exact (ids_of_nodes henter d.name d.nodes hpick hnodes).1

omit henter in
theorem frame_of_wire {d : NodeGraph} {w : Graph} (h : wire r enter d s = .ok w s') : ∃ nodes,
    d.nodes.mapM (node r enter d.name) s = .ok nodes s' ∧ w.nodes.map Node.frame = nodes.map Node.frame := by
  obtain ⟨_, _, nodes, -, -, hnodes, hkeeps⟩ := wire_keeps h
  refine ⟨nodes, hnodes, hkeeps (fun g => g.nodes.map Node.frame = nodes.map Node.frame) rfl ?_⟩
  intro g g' channels p q hg _ hconnect
  exact (congrArg Graph.nodes (frame_connectThrough hconnect)).trans hg

theorem nodes_of_wire {d : NodeGraph} {w : Graph} (hpick : Injective s.ids.pick) (h : wire r enter d s = .ok w s') :
    w.Owned s'.ids ∧ ∃ nodes : List Node,
      List.Forall₂ (fun n m => ∃ t t', Injective t.ids.pick ∧ node r enter d.name n t = .ok m t') d.nodes nodes ∧
      w.nodes.map Node.frame = nodes.map Node.frame := by
  obtain ⟨nodes, hnodes, hframe⟩ := frame_of_wire h
  obtain ⟨-, hnodup, hfresh⟩ := ids_of_nodes henter d.name d.nodes hpick hnodes
  have hids : w.ids = nodes.map Node.id := by
    have hmap := congrArg (List.map Node.id) hframe
    rwa [List.map_map, List.map_map] at hmap
  refine ⟨⟨?_, ?_⟩, nodes, ?_, hframe⟩
  · rw [Graph.Distinct, hids]
    exact hnodup
  · intro id hid
    rw [hids] at hid
    obtain ⟨n, hn, rfl⟩ := List.mem_map.mp hid
    exact (hfresh n hn).2
  · exact state_mapM_forall₂ (I := fun t => Injective t.ids.pick) d.nodes
      (fun n _ t m t' ht hnode => (supplies_node henter d.name n t m t' ht hnode).injective ht) hpick hnodes

theorem node_of_wire {d : NodeGraph} {w : Graph} {m : Node} (hpick : Injective s.ids.pick)
    (h : wire r enter d s = .ok w s') (hm : m ∈ w.nodes) : ∃ n ∈ d.nodes, ∃ m' t t', Injective t.ids.pick ∧
      node r enter d.name n t = .ok m' t' ∧ m.frame = m'.frame := by
  obtain ⟨-, nodes, hmade, hframe⟩ := nodes_of_wire henter hpick h
  have hmem : m.frame ∈ nodes.map Node.frame := hframe ▸ List.mem_map_of_mem hm
  obtain ⟨m', hm', heq⟩ := List.mem_map.mp hmem
  obtain ⟨n, hn, t, t', ht, hnode⟩ := exists_of_forall₂ hmade hm'
  exact ⟨n, hn, m', t, t', ht, hnode, heq.symm⟩

end

theorem supplies_flatten (g : Graph) : Supplies (flatten g) := by
  intro s g' s' hpick h
  obtain ⟨ids, hflatten, rfl⟩ := flatten_cases h
  exact (Graph.Rewiring.flatten_keeps (P := fun _ => True) (fun _ _ _ _ _ => trivial) hpick trivial hflatten).1

theorem supplies_finish (publish : Bool) (g : Graph) : Supplies (finish r publish g) := by
  intro s g' s' hpick h
  obtain ⟨g₁, t, hflatten, g₂, -, -, rfl⟩ := finish_cases h
  rcases hflatten with ⟨-, hflatten⟩ | ⟨-, -, rfl⟩
  · exact supplies_flatten g s g₁ _ hpick hflatten
  · exact .refl _

theorem supplies_compound {build : NodeGraph → Build Graph} (hbuild : ∀ d, Supplies (build d)) (d : NodeDef) :
    Supplies (compound r build d) := by
  intro s how s' hpick h
  obtain ⟨inner, graph, t, -, -, hgraph, -, rfl⟩ := compound_cases h
  exact hbuild inner { s with stack := inner.name :: s.stack } graph t hpick hgraph

theorem supplies_nestedGraph (depth : Nat) : ∀ d, Supplies (nestedGraph r depth d) := by
  -- The induction is on the depth: the graph of a compound is built before the node that it implements.
  induction depth with
  | zero => exact fun d => .throw _
  | succ depth ih =>
    intro d s g s' hpick h
    obtain ⟨w, t, hwire, hfinish⟩ := assemble_cases h
    have hlater := supplies_wire (supplies_compound ih) d s w t hpick hwire
    exact hlater.trans (supplies_finish _ w t g s' (hlater.injective hpick) hfinish)

theorem supplies_nodeGraph (d : NodeGraph) : Supplies (nodeGraph r d) := supplies_nestedGraph _ d

end ShadeGraph.Build
