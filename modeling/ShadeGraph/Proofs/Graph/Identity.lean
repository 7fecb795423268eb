import Mathlib.Logic.Function.Basic
import ShadeGraph.Graph.Flatten
import ShadeGraph.Proofs.Graph.Links
import ShadeGraph.Proofs.Graph.Naming

/-!
# Identities and cores of nodes

A supply that never picks the same identity twice keeps the nodes of a graph apart. What makes a node, its identity,
its traits and its implementation, is its *core*: connecting and disconnecting pins, scoping and naming leave the cores
of a graph alone.
-/

namespace ShadeGraph

namespace IdSupply

variable {a b c : IdSupply} {id : NodeId}

def Issued (s : IdSupply) (id : NodeId) : Prop := ∃ k < s.next, s.pick k = id

theorem issued_of_index_lt {next : Nat} (h : id.index < next) : Issued { next } id := ⟨id.index, h, rfl⟩

/-- The second supply is the first one after some picks. -/
structure Later (a b : IdSupply) : Prop where
  pick : b.pick = a.pick
  next : a.next ≤ b.next

theorem Later.refl (a : IdSupply) : a.Later a := ⟨rfl, Nat.le_refl _⟩

theorem Later.trans (h : a.Later b) (h' : b.Later c) : a.Later c := ⟨h'.pick.trans h.pick, h.next.trans h'.next⟩

theorem Later.injective (h : a.Later b) (ha : Function.Injective a.pick) : Function.Injective b.pick := h.pick ▸ ha

theorem Later.issued (h : a.Later b) (hid : a.Issued id) : b.Issued id := by
  obtain ⟨k, hk, rfl⟩ := hid
  exact ⟨k, by have := h.next; omega, by rw [h.pick]⟩

theorem later_fresh (a : IdSupply) : a.Later a.fresh.2 := ⟨rfl, Nat.le_succ _⟩

theorem issued_fresh (a : IdSupply) : a.fresh.2.Issued a.fresh.1 := ⟨a.next, Nat.lt_succ_self _, rfl⟩

theorem not_issued_fresh (ha : Function.Injective a.pick) : ¬ a.Issued a.fresh.1 := by
  rintro ⟨k, hk, heq⟩
  have hnext : k = a.next := ha heq
  omega

end IdSupply

/-! ## Cores -/

/-- What makes a node, apart from its pins. -/
def Node.core (n : Node) : NodeId × Traits × Implementation := (n.id, n.traits, n.implementation)

namespace Graph

variable {g h : Graph} {n : Node} {id : NodeId}

def cores (g : Graph) : List (NodeId × Traits × Implementation) := g.nodes.map Node.core

theorem ids_eq_cores (g : Graph) : g.ids = g.cores.map Prod.fst := by simp [ids, cores, Node.core, Function.comp_def]

theorem ids_of_cores (hcores : h.cores = g.cores) : h.ids = g.ids := by rw [ids_eq_cores, hcores, ← ids_eq_cores]

theorem exists_core (hcores : h.cores ⊆ g.cores) (hn : n ∈ h.nodes) : ∃ m ∈ g.nodes, m.core = n.core :=
  List.mem_map.mp (hcores (List.mem_map_of_mem hn))

theorem cores_modifyNode {f : Node → Node} (hf : ∀ n, (f n).core = n.core) : (g.modifyNode id f).cores = g.cores := by
  simp only [cores, modifyNode, List.map_map]
  refine List.map_congr_left fun n _ => ?_
  simp only [Function.comp_apply]
  split
  · exact hf n
  · rfl

@[simp] theorem cores_modifyInput (g : Graph) (p : PinRef) (f : Input → Input) :
    (g.modifyInput p f).cores = g.cores := by
  obtain ⟨owner, index⟩ := p
  cases owner with
  | graph => rfl
  | node id => exact cores_modifyNode fun _ => rfl

@[simp] theorem cores_modifyOutput (g : Graph) (p : PinRef) (f : Output → Output) :
    (g.modifyOutput p f).cores = g.cores := by
  obtain ⟨owner, index⟩ := p
  cases owner with
  | graph => rfl
  | node id => exact cores_modifyNode fun _ => rfl

@[simp] theorem cores_link (g : Graph) (source target : PinRef) : (g.link source target).cores = g.cores := by
  rw [link, cores_modifyOutput, cores_modifyInput]

@[simp] theorem cores_forget (g : Graph) (source target : PinRef) : (g.forget source target).cores = g.cores := by
  rw [forget, cores_modifyOutput]

@[simp] theorem cores_disconnect (g : Graph) (target : PinRef) : (g.disconnect target).cores = g.cores := by
  rw [disconnect]
  split
  · rfl
  · rw [cores_forget, cores_modifyInput]

theorem cores_connect {source target : PinRef} (hc : g.connect source target = .ok h) : h.cores = g.cores := by
  obtain ⟨_, _, -, -, -, rfl⟩ := connect_cases hc
  rw [cores_link, cores_disconnect]

theorem cores_bare (g : Graph) : g.bare.cores = g.cores := by
  simp only [cores, bare, List.map_map]
  rfl

theorem cores_assignVariables (g : Graph) (l : Language) (publish : Bool) :
    (g.assignVariables l publish).cores = g.cores := by
  rw [← cores_bare, bare_assignVariables, cores_bare]

theorem cores_withScopes (g : Graph) (σ : NodeId → Scope) : (g.withScopes σ).cores = g.cores := by
  simp only [cores, withScopes, List.map_map]
  rfl

/-! ## Graphs that own their identities -/

/-- The nodes have identities of their own, all of which the supply has picked. -/
structure Owned (ids : IdSupply) (g : Graph) : Prop where
  distinct : g.Distinct
  issued : ∀ id ∈ g.ids, ids.Issued id

variable {ids ids' : IdSupply}

theorem Owned.of_ids (hg : g.Owned ids) (hids : h.ids = g.ids) : h.Owned ids := by
  refine ⟨?_, ?_⟩
  · rw [Distinct, hids]
    exact hg.distinct
  · rw [hids]
    exact hg.issued

theorem Owned.removeNode (hg : g.Owned ids) (id : NodeId) : (g.removeNode id).Owned ids := by
  refine ⟨?_, fun x hx => ?_⟩
  · rw [Distinct, ids_removeNode]
    exact hg.distinct.filter _
  · rw [ids_removeNode] at hx
    exact hg.issued x (List.mem_filter.mp hx).1

theorem Owned.append {new : List NodeId} (hg : g.Owned ids) (hlater : ids.Later ids') (hids : h.ids = g.ids ++ new)
    (hnodup : new.Nodup) (hnew : ∀ id ∈ new, ¬ ids.Issued id ∧ ids'.Issued id) : h.Owned ids' := by
  refine ⟨?_, fun id hid => ?_⟩
  · rw [Distinct, hids]
    refine List.nodup_append.mpr ⟨hg.distinct, hnodup, fun a ha b hb heq => ?_⟩
    exact (hnew b hb).1 (heq ▸ hg.issued a ha)
  · rw [hids, List.mem_append] at hid
    rcases hid with hid | hid
    · exact hlater.issued (hg.issued id hid)
    · exact (hnew id hid).2

theorem Owned.later (hg : g.Owned ids) (hlater : ids.Later ids') : g.Owned ids' :=
  ⟨hg.distinct, fun id hid => hlater.issued (hg.issued id hid)⟩

theorem Owned.addNode (hg : g.Owned ids) (hpick : Function.Injective ids.pick) {n : Node} (hid : n.id = ids.fresh.1) :
    (g.addNode n).Owned ids.fresh.2 := by
  refine hg.append (IdSupply.later_fresh ids) (ids_addNode g n) (List.nodup_singleton _) fun id hmem => ?_
  rw [List.mem_singleton.mp hmem, hid]
  exact ⟨IdSupply.not_issued_fresh hpick, IdSupply.issued_fresh ids⟩

end Graph
end ShadeGraph
