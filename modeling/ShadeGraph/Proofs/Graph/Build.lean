import ShadeGraph.Proofs.Graph.Nesting
import ShadeGraph.Proofs.Graph.Supply
import ShadeGraph.Proofs.Graph.Writable

/-!
# Built graphs can be written

Whatever document a graph is built from, it can be written as a shader. Its nodes get identities of their own from the
supply, a conditional gets the generated code that knows about branches, and the graphs of compounds are built in the
same way before the nodes that they implement. Flattening keeps all this, and scheduling, scoping and naming add the
rest.
-/

namespace ShadeGraph

open Function ShadeGraph.Graph

/-! ## Conditionals -/

/-- The categories with branches are those of the library. -/
def Registry.HasConditionals (r : Registry) : Prop :=
  ∀ p ∈ [Procedural.compare .greater, .compare .greaterOrEqual, .compare .equal, .switch], r.find? p.category = some p

instance (r : Registry) : Decidable r.HasConditionals := by unfold Registry.HasConditionals; infer_instance

theorem Registry.hasConditionals_standard : Registry.standard.HasConditionals := by decide

theorem Registry.HasConditionals.find {r : Registry} (hr : r.HasConditionals) {category : String}
    (hc : Traits.ofCategory category = .conditional) :
    ∃ p, r.find? category = some p ∧ (Implementation.procedural p).IsConditional := by
  unfold Traits.ofCategory at hc
  split at hc
  · exact absurd hc (by decide)
  · exact ⟨_, hr (.compare .greater) (by simp), .inr ⟨_, rfl⟩⟩
  · exact ⟨_, hr (.compare .greaterOrEqual) (by simp), .inr ⟨_, rfl⟩⟩
  · exact ⟨_, hr (.compare .equal) (by simp), .inr ⟨_, rfl⟩⟩
  · exact ⟨_, hr .switch (by simp), .inl rfl⟩
  · exact absurd hc (by decide)

theorem Traits.has_conditional_ofType (type : DataType) (t : Traits) :
    (ofType type ∪ t).has .conditional = t.has .conditional := by
  have hbit : (ofType type).bits &&& Traits.conditional.bits = 0#32 := by
    unfold ofType
    split <;> rfl
  change (((ofType type).bits ||| t.bits) &&& Traits.conditional.bits == _) = _
  rw [BitVec.and_or_distrib_right, hbit, BitVec.zero_or]
  rfl

theorem Traits.ofNodeDef_cases {d : NodeDef} {t : Traits} (h : ofNodeDef d = .ok t) :
    ∃ type, t = ofType type ∪ ofCategory d.category := by
  unfold ofNodeDef at h
  split at h
  · obtain ⟨base, hbase, h⟩ := except_bind_eq_ok.mp h
    obtain ⟨type, -, rfl⟩ := except_map_eq_ok.mp hbase
    exact ⟨type, (Except.ok.inj h).symm⟩
  · exact ⟨.float, (Except.ok.inj h).symm⟩

theorem Traits.ofCategory_of_conditional {d : NodeDef} {t : Traits} (h : ofNodeDef d = .ok t)
    (hc : t.has .conditional = true) : ofCategory d.category = .conditional := by
  obtain ⟨type, rfl⟩ := ofNodeDef_cases h
  rw [has_conditional_ofType] at hc
  unfold ofCategory at hc ⊢
  split at hc <;> first | rfl | exact absurd hc (by decide)

/-! ## Nodes -/

/-- A graph that implements a node can be called. -/
def Implementation.IsCallable (how : Implementation) : Prop :=
  ∀ name function g, how = .compound name function g → g.Throughout Callable

/-- What the code of a node relies on, apart from the pins. -/
structure Node.WellMade (n : Node) : Prop where
  conditional : n.traits.has .conditional = true → n.implementation.IsConditional
  callable : n.implementation.IsCallable

theorem Node.WellMade.of_core {n m : Node} (hm : m.WellMade) (hcore : m.core = n.core) : n.WellMade := by
  simp only [Node.core, Prod.mk.injEq] at hcore
  obtain ⟨-, htraits, himplementation⟩ := hcore
  exact ⟨htraits ▸ himplementation ▸ hm.conditional, himplementation ▸ hm.callable⟩

/-- The nodes of a graph are well made and have identities of their own, all of which the supply has picked. -/
structure Graph.Built (ids : IdSupply) (g : Graph) : Prop extends g.Owned ids where
  made : ∀ n ∈ g.nodes, n.WellMade

section
variable {ids ids' : IdSupply} {g h : Graph} {n : Node}

theorem Graph.Built.later (hg : g.Built ids) (hids : ids.Later ids') : g.Built ids' :=
  ⟨hg.toOwned.later hids, hg.made⟩

theorem Graph.Built.of_cores (hg : g.Built ids) (hcores : h.cores = g.cores) : h.Built ids := by
  refine ⟨hg.toOwned.of_ids (ids_of_cores hcores), fun n hn => ?_⟩
  obtain ⟨m, hm, hcore⟩ := exists_core (fun _ hcore => hcores ▸ hcore) hn
  exact (hg.made m hm).of_core hcore

theorem Graph.Built.empty (ids : IdSupply) (name : String) : (Graph.empty name).Built ids :=
  ⟨⟨List.nodup_nil, fun _ hid => absurd hid List.not_mem_nil⟩, fun _ hn => absurd hn List.not_mem_nil⟩

theorem Graph.Built.addNode (hg : g.Built ids) (hpick : Injective ids.pick) (hid : n.id = ids.fresh.1)
    (hn : n.WellMade) : (g.addNode n).Built ids.fresh.2 := by
  refine ⟨hg.toOwned.addNode hpick hid, fun m hm => ?_⟩
  rcases List.mem_append.mp hm with hm | hm
  · exact hg.made m hm
  · exact List.mem_singleton.mp hm ▸ hn

theorem Graph.Throughout.made (hg : g.Throughout Callable) (hn : n ∈ g.nodes) : n.WellMade := by
  cases hg with
  | intro _ own inner => exact ⟨own.conditional n hn, inner n hn⟩

end

/-! ## Flattening -/

namespace Graph.Rewiring

variable {compound : Node} {inner : Graph} {s s' : Graph × IdSupply}

theorem inlineCompound_spec {a : Unit} (hpick : Function.Injective s.2.pick) (hs : s.1.Built s.2)
    (hinner : inner.Throughout Callable) (h : inlineCompound compound inner s = .ok a s') : s'.1.Built s'.2 := by
  refine ⟨owned_inlineCompound hpick hs.toOwned h, fun n hn => ?_⟩
  rcases core_of_inlineCompound hpick h hn with ⟨m, hm, hcore⟩ | ⟨m, hm, htraits, himplementation⟩
  · exact (hs.made m hm).of_core hcore
  · have hmade := hinner.made hm
    exact ⟨htraits ▸ himplementation ▸ hmade.conditional, himplementation ▸ hmade.callable⟩

end Graph.Rewiring

/-! ## Finished graphs -/

theorem Graph.Built.sort {ids : IdSupply} {g g' : Graph} (hg : g.Built ids) (h : g.sort = .ok g') :
    g'.Built ids ∧ g'.Scheduled := by
  obtain ⟨hperm, -, hscheduled, -⟩ := isSortOf_of_sort hg.distinct h
  refine ⟨⟨⟨hg.distinct.perm hperm, ?_⟩, ?_⟩, hscheduled⟩
  · intro id hid
    exact hg.issued id ((mem_ids_perm hperm).mp hid)
  · intro n hn
    exact hg.made n (hperm.mem_iff.mp hn)

theorem Graph.Distinct.inPlace {g : Graph} (hg : g.Distinct) (hscheduled : g.Scheduled) (l : Language)
    (publish : Bool) :
    (g.assignScopes.assignVariables l publish).cores = g.cores ∧
      (g.assignScopes.assignVariables l publish).InPlace := by
  obtain ⟨σ, heq, hscoped⟩ := assignScopes_scoped hg hscheduled
  have hcores : g.assignScopes.cores = g.cores := by rw [heq, cores_withScopes]
  have hcores' : (g.assignScopes.assignVariables l publish).cores = g.cores := by rw [cores_assignVariables, hcores]
  have hbare := bare_assignVariables g.assignScopes l publish
  have hdistinct : (g.assignScopes.assignVariables l publish).Distinct := by
    rw [Graph.Distinct, ids_of_cores hcores']
    exact hg
  have hdistinct' : g.assignScopes.Distinct := by
    rw [Graph.Distinct, ids_of_cores hcores]
    exact hg
  refine ⟨hcores', hdistinct, ?_, ?_⟩
  · rw [← scheduled_bare hdistinct, hbare, scheduled_bare hdistinct', heq]
    exact hscheduled.withScopes σ
  · rw [← scoped_bare, hbare, scoped_bare]
    exact hscoped

theorem Graph.Built.writable {ids : IdSupply} {g : Graph} (hg : g.Built ids) (hscheduled : g.Scheduled) (l : Language)
    (publish : Bool) : (g.assignScopes.assignVariables l publish).Writable := by
  obtain ⟨hcores, hplaced⟩ := hg.distinct.inPlace hscheduled l publish
  exact ⟨hplaced, fun n hn => ((hg.of_cores hcores).made n hn).conditional⟩

namespace Build

variable {r : Request} {s s' : BuildState} {g g' : Graph}

theorem flatten_spec (hpick : Injective s.ids.pick) (hg : g.Built s.ids) (h : flatten g s = .ok g' s') :
    g'.Built s'.ids := by
  obtain ⟨ids, hflatten, rfl⟩ := flatten_cases h
  refine (Graph.Rewiring.flatten_keeps (P := fun s => s.1.Built s.2) ?_ hpick hg hflatten).2
  intro s c inner name function a s' hpick hs hc himplementation hinline
  have hinner := (hs.made c hc).callable name function inner himplementation
  exact Graph.Rewiring.inlineCompound_spec hpick hs hinner hinline

theorem finish_spec {publish : Bool} (hpick : Injective s.ids.pick) (hg : g.Built s.ids)
    (h : finish r publish g s = .ok g' s') : g'.Generable ∧ (publish = false → g'.Throughout Callable) := by
  obtain ⟨g₁, t, hflatten, g₂, hsort, rfl, rfl⟩ := finish_cases h
  have hg₁ : g₁.Built s'.ids := by
    rcases hflatten with ⟨-, hflatten⟩ | ⟨-, rfl, rfl⟩
    · exact flatten_spec hpick hg hflatten
    · exact hg
  obtain ⟨hg₂, hscheduled⟩ := hg₁.sort hsort
  have hwritable := hg₂.writable hscheduled r.generator.language publish
  have hmade := (hg₂.of_cores (hg₂.distinct.inPlace hscheduled r.generator.language publish).1).made
  have hwritable' := hwritable.withTraits (traitsOf (g₂.assignScopes.assignVariables r.generator.language publish))
  refine ⟨⟨hwritable', fun n hn => (hmade n hn).callable⟩, ?_⟩
  rintro rfl
  exact .intro _ ⟨hwritable', fun n hn => variableName_assignVariables hn⟩ fun n hn => (hmade n hn).callable

/-! ## Implementations -/

/-- A step that makes an implementation whose graph can be called. -/
def Enters (m : Build Implementation) : Prop :=
  ∀ s how s', Injective s.ids.pick → m s = .ok how s' → how.IsCallable

section
variable (hr : r.generator.registry.HasConditionals) {enter : NodeDef → Build Implementation}
  (henter : ∀ d, Enters (enter d))
include hr henter

theorem implementation_spec {d : NodeDef} {how : Implementation} (hpick : Injective s.ids.pick)
    (h : implementation r enter d s = .ok how s') :
    how.IsCallable ∧ (Traits.ofCategory d.category = .conditional → how.IsConditional) := by
  rcases implementation_cases h with ⟨p, hfind, rfl, rfl⟩ | ⟨hfind, hrest⟩
  · refine ⟨fun name function g heq => by simp at heq, fun hc => ?_⟩
    obtain ⟨q, hq, hconditional⟩ := hr.find hc
    obtain rfl := Option.some.inj (hfind.symm.trans hq)
    exact hconditional
  have hplain : Traits.ofCategory d.category = .conditional → how.IsConditional := by
    intro hc
    obtain ⟨q, hq, -⟩ := hr.find hc
    rw [hfind] at hq
    cases hq
  rcases hrest with ⟨code, -, rfl, -⟩ | ⟨-, hentered⟩
  · exact ⟨fun name function g heq => by simp at heq, hplain⟩
  · exact ⟨henter d s how s' hpick hentered, hplain⟩

/-! ## Nodes of a document -/

theorem node_spec {scope : String} {n : NodeInstance} {m : Node} (hpick : Injective s.ids.pick)
    (h : node r enter scope n s = .ok m s') : m.WellMade := by
  obtain ⟨d, traits, how, inputs, outputs, t, -, htraits, himplementation, -, -, rfl, -⟩ := node_cases h
  obtain ⟨hcallable, hconditional⟩ := implementation_spec hr henter hpick himplementation
  exact ⟨fun hc => hconditional (Traits.ofCategory_of_conditional htraits hc), hcallable⟩

/-! ## Node graphs -/

theorem wire_spec (hsupplies : ∀ d, Supplies (enter d)) {d : NodeGraph} (hpick : Injective s.ids.pick)
    (h : wire r enter d s = .ok g s') : g.Built s'.ids := by
  refine ⟨(nodes_of_wire hsupplies hpick h).1, fun m hm => ?_⟩
  obtain ⟨n, -, m', t, t', ht, hnode, hframe⟩ := node_of_wire hsupplies hpick h hm
  exact (node_spec hr henter ht hnode).of_core (core_of_frame hframe.symm)

theorem assemble_spec (hsupplies : ∀ d, Supplies (enter d)) {d : NodeGraph} (hpick : Injective s.ids.pick)
    (h : assemble r enter d s = .ok g s') :
    ∃ w t, wire r enter d s = .ok w t ∧ g.Generable ∧ (t.stack ≠ [] → g.Throughout Callable) := by
  obtain ⟨w, t, hwire, hfinish⟩ := assemble_cases h
  have hlater := supplies_wire hsupplies d s w t hpick hwire
  obtain ⟨hgenerable, hcallable⟩ :=
    finish_spec (hlater.injective hpick) (wire_spec hr henter hsupplies hpick hwire) hfinish
  exact ⟨w, t, hwire, hgenerable, fun hstack => hcallable (by simpa using hstack)⟩

end

theorem enters_compound {build : NodeGraph → Build Graph} (hbuild : ∀ d {s g s'}, Injective s.ids.pick →
      build d s = .ok g s' → g.Generable ∧ (s.stack ≠ [] → g.Throughout Callable))
    (d : NodeDef) : Enters (compound r build d) := by
  intro s how s' hpick h
  obtain ⟨inner, g, t, -, -, hgraph, rfl, -⟩ := compound_cases h
  have hcallable := (hbuild inner (s := { s with stack := inner.name :: s.stack }) hpick hgraph).2
  intro _ _ _ heq
  cases heq
  exact hcallable (by simp)

theorem nestedGraph_spec (hr : r.generator.registry.HasConditionals) (depth : Nat) : ∀ (d : NodeGraph) {s g s'},
    Injective s.ids.pick → nestedGraph r depth d s = .ok g s' →
      g.Generable ∧ (s.stack ≠ [] → g.Throughout Callable) := by
  -- The induction is on the depth: the graph of a compound is built before the node that it implements.
  induction depth with
  | zero => exact fun d s g s' _ h => absurd h state_throw_ne_ok
  | succ depth ih =>
    intro d s g s' hpick h
    obtain ⟨w, t, hwire, hgenerable, hcallable⟩ :=
      assemble_spec hr (enters_compound ih) (supplies_compound (supplies_nestedGraph depth)) hpick h
    have hstack := stack_after (s := s) ((tracks_eq r).wire
      (fun d => (tracks_eq r).compound (fun inner _ _ => (tracks_eq r).nestedGraph depth _ inner) d) d)
    rw [hwire] at hstack
    change t.stack = s.stack at hstack
    exact ⟨hgenerable, hstack ▸ hcallable⟩

theorem nodeGraph_spec (hr : r.generator.registry.HasConditionals) (d : NodeGraph) {s g s'}
    (hpick : Injective s.ids.pick) (h : nodeGraph r d s = .ok g s') :
    g.Generable ∧ (s.stack ≠ [] → g.Throughout Callable) :=
  nestedGraph_spec hr _ d hpick h

/-! ## Single nodes -/

/-- For what depends on no more than the cores of nodes, adding a node is the only step. -/
theorem singleNode_keeps_cores {P : BuildState → Graph → Prop} {start : NodeInstance}
    (hadd : ∀ n m g s s', P s g → node r (compound r (nodeGraph r)) "" n s = .ok m s' → P s' (g.addNode m))
    (hcores : ∀ {g g' s}, P s g → g'.cores = g.cores → P s g') (hstart : P s (Graph.empty start.name))
    (h : singleNode r start s = .ok g s') : ∃ w t, P t w ∧ finish r t.stack.isEmpty w t = .ok g s' := by
  refine singleNode_keeps (P := P) (fun n m g s s' _ => hadd n m g s s') (fun hg hconnect => ?_) hstart
    (fun hg _ hconnect => ?_) (fun hg _ hconnect => ?_) h
  · exact hcores hg (cores_of_frame (frame_connectThrough hconnect))
  · exact hcores hg ((cores_connect hconnect).trans rfl)
  · exact hcores hg ((cores_connect hconnect).trans rfl)

theorem singleNode_spec (hr : r.generator.registry.HasConditionals) {n : NodeInstance} (hpick : Injective s.ids.pick)
    (h : singleNode r n s = .ok g s') : g.Generable := by
  have hkeeps := singleNode_keeps_cores (P := fun t g => s.ids.Later t.ids ∧ g.Built t.ids) ?_
    (fun hg hcores => ⟨hg.1, hg.2.of_cores hcores⟩) ⟨.refl _, .empty _ n.name⟩ h
  · obtain ⟨w, t, ⟨hlater, hw⟩, hfinish⟩ := hkeeps
    exact (finish_spec (hlater.injective hpick) hw hfinish).1
  · rintro k m g t t' ⟨hlater, hg⟩ hnode
    have hpick := hlater.injective hpick
    have hmade := node_spec hr (enters_compound (nodeGraph_spec hr)) hpick hnode
    obtain ⟨ids, hlater', hid, hids⟩ := id_of_node (supplies_compound supplies_nodeGraph) hpick hnode
    rw [hids]
    exact ⟨(hlater.trans hlater').trans (IdSupply.later_fresh ids),
      (hg.later hlater').addNode (hlater'.injective hpick) hid hmade⟩

end Build

end ShadeGraph
