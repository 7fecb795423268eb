import ShadeGraph.Proofs.Graph.Flatten
import ShadeGraph.Proofs.Simulation

/-!
# Flattening does not make cycles

If no graph, at any depth, has a cycle among its nodes, where a compound counts as one node, a flattened graph has none
either. A connection behind the replacement of a compound is one that was there, one inside, or it leads through the
compound, and what feeds the compound ranks below all of its inner nodes. So a graph that has been flattened can be
sorted.
-/

namespace ShadeGraph.Graph

open Rewiring

/-- The two ends of every connection agree, and no node reads itself, not even through others. -/
structure Schedulable (g : Graph) : Prop extends g.Paired where
  acyclic : ¬ g.Cyclic

/-- A state with a graph that is schedulable at every depth, whose supply does not give out its identities again. -/
structure Orderly (s : Graph × IdSupply) : Prop where
  issued : ∀ id ∈ s.1.ids, s.2.Issued id
  schedulable : s.1.Throughout Schedulable

theorem Orderly.inlineCompound {s s' : Graph × IdSupply} {c : Node} {inner : Graph} {name function : String} {a : Unit}
    (hpick : Function.Injective s.2.pick) (hs : Orderly s) (hc : c ∈ s.1.nodes)
    (himplementation : c.implementation = .compound name function inner) (h : inlineCompound c inner s = .ok a s') :
    Orderly s' := by
  have own := hs.schedulable.own
  have hinner := hs.schedulable.inside hc himplementation
  obtain ⟨pairs, hin, -, -, hissued⟩ := inlined_of_acyclic hpick hs.issued own.toPaired own.acyclic
    hinner.own.toPaired hc h
  have hacyclic := hin.not_cyclic own.toPaired hc hinner.own.toPaired own.acyclic hinner.own.acyclic
  exact ⟨hissued, hin.throughout own.distinct hs.schedulable hinner ⟨hin.paired, hacyclic⟩⟩

theorem Orderly.flatten {s s' : Graph × IdSupply} {a : Unit} (hpick : Function.Injective s.2.pick) (hs : Orderly s)
    (h : Rewiring.flatten s = .ok a s') : Orderly s' :=
  (flatten_keeps (P := Orderly) Orderly.inlineCompound hpick hs h).2

/-- **A flattened graph can be sorted**, if no graph inside has a cycle: its connections agree at both ends, and sorting
it succeeds, with every node behind the nodes that it reads. -/
theorem flatten_can_be_sorted (g g' : Graph) (ids ids' : IdSupply) (hpick : Function.Injective ids.pick)
    (hissued : ∀ id ∈ g.ids, ids.Issued id) (hg : g.Throughout Schedulable)
    (h : flatten (g, ids) = .ok () (g', ids')) :
    g'.Paired ∧ ∃ sorted, g'.sort = .ok sorted ∧ sorted.IsSortOf g' := by
  have hown : g'.Schedulable := (Orderly.flatten (s := (g, ids)) hpick ⟨hissued, hg⟩ h).schedulable.own
  obtain ⟨sorted, hsort⟩ := exists_sort hown.distinct hown.acyclic
  exact ⟨hown.toPaired, sorted, hsort, isSortOf_of_sort hown.distinct hsort⟩

/-- Two compounds in a row, the second one with a compound inside. -/
def cascade : Graph :=
  let g := (Graph.empty "cascade").addInputSocket { name := "at", type := .tuple .vector3 }
  let g := g.addOutputSocket { name := "out", type := .float }
  let g := g.addNode (compoundOf 0 mixer [{ name := "tint", type := .tuple .color3 }])
  let g := g.addNode (compoundOf 1 splitter [{ name := "in", type := .tuple .color3, channels := some "zyx" }])
  let g := g.afterConnect (.socket 0) (.ofNode ⟨1⟩ 0)
  let g := g.afterConnect (.ofNode ⟨1⟩ 1) (.ofNode ⟨0⟩ 0)
  g.afterConnect (.ofNode ⟨0⟩ 0) (.socket 0)

theorem cascade_linked : cascade.Linked := by
  refine .step (.step (.step ?_ (.connect _ _ _)) (.connect _ _ _)) (.connect _ _ _)
  refine .step ?_ (.addNode (by decide) (unconnected_compoundOf (by simp) 1))
  refine .step ?_ (.addNode (by decide) (unconnected_compoundOf (by simp) 0))
  exact .step (.step (.empty _) (.addInputSocket rfl)) (.addOutputSocket rfl)

theorem cascade_schedulable : cascade.Throughout Schedulable := by
  have hmixer : mixer.Throughout Coherent := lens_coherent.of_mem_insides (List.mem_singleton.mpr rfl)
  have hsplitter : splitter.Throughout Coherent := hmixer.of_mem_insides (List.mem_singleton.mpr rfl)
  have hsort : cascade.sort.isOk = true := by decide +kernel
  refine .of_insides ⟨cascade_linked.toPaired, not_cyclic_of_isOk hsort⟩ fun h hh => ?_
  rcases List.mem_pair.mp hh with rfl | rfl
  · exact hmixer.mono fun _ hcoherent => ⟨hcoherent.toPaired, hcoherent.acyclic⟩
  · exact hsplitter.mono fun _ hcoherent => ⟨hcoherent.toPaired, hcoherent.acyclic⟩

theorem cascade_can_be_sorted : ∃ g' ids', flatten (cascade, { next := 2 }) = .ok () (g', ids') ∧ g'.Paired ∧
    ∃ sorted, g'.sort = .ok sorted ∧ sorted.IsSortOf g' := by
  have hends : (outcome (flatten (cascade, { next := 2 }))).isOk = true := by decide +kernel
  obtain ⟨⟨⟩, ⟨g', ids'⟩, hflat⟩ := exists_ok_of_isOk hends
  have hids : ∀ id ∈ cascade.ids, id.index < 2 := by decide +kernel
  have hissued : ∀ id ∈ cascade.ids, IdSupply.Issued { next := 2 } id :=
    fun id hid => IdSupply.issued_of_index_lt (hids id hid)
  exact ⟨g', ids', hflat, flatten_can_be_sorted cascade g' { next := 2 } ids' (fun _ _ => NodeId.mk.inj) hissued
    cascade_schedulable hflat⟩

end ShadeGraph.Graph
