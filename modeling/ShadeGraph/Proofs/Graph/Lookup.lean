import Mathlib.Data.List.Nodup
import ShadeGraph.Graph.Basic
import ShadeGraph.Proofs.Simulation

/-!
# Looking up nodes

A graph finds its nodes by identity. When no two nodes share one, every node is found under its own identity, and a
graph with the same nodes in another order finds the same ones.

A change of a graph that can fail is *atomic* if it then leaves the graph as it was.
-/

namespace ShadeGraph.Graph

def ids (g : Graph) : List NodeId := g.nodes.map Node.id

/-- No two nodes share an identity. -/
def Distinct (g : Graph) : Prop := g.ids.Nodup

instance (g : Graph) : Decidable g.Distinct := inferInstanceAs (Decidable g.ids.Nodup)

variable {g h : Graph} {id : NodeId} {n : Node}

theorem mem_of_node? (hn : g.node? id = some n) : n ∈ g.nodes := List.mem_of_find?_eq_some hn

theorem id_of_node? (hn : g.node? id = some n) : n.id = id := by simpa using List.find?_some hn

theorem mem_ids_of_mem (hn : n ∈ g.nodes) : n.id ∈ g.ids := List.mem_map_of_mem hn

theorem mem_ids_of_node? (hn : g.node? id = some n) : id ∈ g.ids :=
  id_of_node? hn ▸ mem_ids_of_mem (mem_of_node? hn)

theorem node?_eq_none_iff : g.node? id = none ↔ id ∉ g.ids := by
  simp [node?, ids, List.find?_eq_none]

theorem exists_node? (hid : id ∈ g.ids) : ∃ n, g.node? id = some n := by
  cases hn : g.node? id with
  | none => exact absurd hid (node?_eq_none_iff.mp hn)
  | some n => exact ⟨n, rfl⟩

theorem Distinct.eq_of_id (hg : g.Distinct) {m : Node} (hn : n ∈ g.nodes) (hm : m ∈ g.nodes) (hid : n.id = m.id) :
    n = m :=
  List.inj_on_of_nodup_map hg hn hm hid

theorem Distinct.node?_of_mem (hg : g.Distinct) (hn : n ∈ g.nodes) : g.node? n.id = some n := by
  obtain ⟨m, hm⟩ := exists_node? (mem_ids_of_mem hn)
  rw [hm, hg.eq_of_id (mem_of_node? hm) hn (id_of_node? hm)]

theorem Distinct.node?_eq_some_iff (hg : g.Distinct) : g.node? id = some n ↔ n ∈ g.nodes ∧ n.id = id := by
  constructor
  · intro hn
    exact ⟨mem_of_node? hn, id_of_node? hn⟩
  · rintro ⟨hn, rfl⟩
    exact hg.node?_of_mem hn

theorem Distinct.filterMap_node? (hg : g.Distinct) : g.ids.filterMap g.node? = g.nodes := by
  rw [ids, List.filterMap_map]
  have hfound : ∀ n ∈ g.nodes, (g.node? ∘ Node.id) n = some n := fun n hn => hg.node?_of_mem hn
  rw [List.filterMap_congr hfound, List.filterMap_some]

/-! ## Sources -/

theorem sourceNode?_eq_some {i : Input} : i.sourceNode? = some id ↔ ∃ index, i.source = some (.ofNode id index) := by
  rw [Input.sourceNode?, Option.bind_eq_some_iff]
  constructor
  · rintro ⟨⟨owner, index⟩, hsource, howner⟩
    cases owner with
    | graph => cases howner
    | node x =>
      obtain rfl := Option.some.inj howner
      exact ⟨index, hsource⟩
  · rintro ⟨index, hsource⟩
    exact ⟨_, hsource, rfl⟩

theorem mem_sources_iff : id ∈ n.sources ↔ ∃ i ∈ n.inputs, ∃ index, i.source = some (.ofNode id index) := by
  simp only [Node.sources, List.mem_filterMap, sourceNode?_eq_some]

theorem mem_sources {i : Input} {k : Nat} (hk : n.inputs[k]? = some i) (hsource : i.sourceNode? = some id) :
    id ∈ n.sources := List.mem_filterMap.mpr ⟨i, List.mem_of_getElem? hk, hsource⟩

/-! ## The same nodes in another order -/

theorem Distinct.perm (hg : g.Distinct) (hperm : h.nodes.Perm g.nodes) : h.Distinct :=
  (hperm.map Node.id).nodup_iff.mpr hg

theorem mem_ids_perm (hperm : h.nodes.Perm g.nodes) : id ∈ h.ids ↔ id ∈ g.ids := (hperm.map Node.id).mem_iff

theorem Distinct.node?_perm (hg : g.Distinct) (hperm : h.nodes.Perm g.nodes) (id : NodeId) :
    h.node? id = g.node? id := by
  cases hn : g.node? id with
  | none => rwa [node?_eq_none_iff, mem_ids_perm hperm, ← node?_eq_none_iff]
  | some n =>
    rw [hg.node?_eq_some_iff] at hn
    rw [(hg.perm hperm).node?_eq_some_iff, hperm.mem_iff]
    exact hn

/-! ## Changes that can fail -/

namespace Edit

def IsAtomic (change : Edit Unit) : Prop := ∀ g e h, change g = .error e h → h = g

/-- Behind an atomic change stands the graph that it makes or, when it fails, the old one. -/
theorem IsAtomic.stateAfter_eq {change : Edit Unit} (hchange : change.IsAtomic) (g : Graph) :
    stateAfter (change g) = (change.result g).toOption.getD g := by
  unfold result
  cases hrun : change g with
  | ok _ h => rfl
  | error e h => exact hchange g e h hrun

end Edit

end ShadeGraph.Graph
