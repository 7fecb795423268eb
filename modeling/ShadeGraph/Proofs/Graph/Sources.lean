import ShadeGraph.Proofs.Graph.Rewiring

/-!
# Where connections lead

Flattening a graph adds connections of two kinds only: an input of a copy is given what feeds the compound, and an
input that has read an inner output, or the compound, is given the copy of that output. From this, whatever the graph
is like, a source that a flattened graph names is in the graph, or belongs to a node that flattening has removed. The
latter does no harm where the graph is the inner graph of a compound: such a source has no copy, and the input that
named it is left without a connection.
-/

namespace ShadeGraph.Graph

variable {g h : Graph} {id : NodeId} {p q source target : PinRef} {n : Node}

/-! ## Connections -/

/-- The input at the second pin reads the output at the first one. -/
def Connects (g : Graph) (source target : PinRef) : Prop := ∃ i, g.input? target = some i ∧ i.source = some source

instance : Decidable (g.Connects source target) :=
  decidable_of_iff ((g.input? target).bind Input.source = some source) Option.bind_eq_some_iff

theorem connects_of_node (hg : g.Distinct) (hn : n ∈ g.nodes) {i : Input} (hi : i ∈ n.inputs)
    (hs : i.source = some source) : ∃ k, g.Connects source (.ofNode n.id k) := by
  obtain ⟨k, hk⟩ := List.mem_iff_getElem?.mp hi
  exact ⟨k, i, by simp [input?, PinRef.ofNode, hg.node?_of_mem hn, hk], hs⟩

theorem mem_sources_of_connects {i j : Nat} (hg : g.Distinct) (hn : n ∈ g.nodes)
    (hc : g.Connects (.ofNode id i) (.ofNode n.id j)) : id ∈ n.sources := by
  obtain ⟨x, hx, hs⟩ := hc
  simp only [input?, PinRef.ofNode, hg.node?_of_mem hn, Option.bind_some] at hx
  exact mem_sources_iff.mpr ⟨x, List.mem_of_getElem? hx, i, hs⟩

theorem connects_modifyInput {f : Input → Input} (hf : ∀ i, (f i).source = i.source)
    (hc : (g.modifyInput p f).Connects source target) : g.Connects source target := by
  obtain ⟨j, hj, hs⟩ := hc
  rw [input?_modifyInput, Option.map_eq_some_iff] at hj
  obtain ⟨i, hi, rfl⟩ := hj
  refine ⟨i, hi, ?_⟩
  split at hs
  · rwa [hf] at hs
  · exact hs

theorem connects_link (hc : (g.link p q).Connects source target) :
    g.Connects source target ∨ source = p ∧ target = q := by
  obtain ⟨j, hj, hs⟩ := hc
  rw [input?_link, Option.map_eq_some_iff] at hj
  obtain ⟨i, hi, rfl⟩ := hj
  split at hs
  · rename_i htarget
    exact .inr ⟨(Option.some.inj hs).symm, htarget⟩
  · exact .inl ⟨i, hi, hs⟩

theorem connects_disconnect (hc : (g.disconnect p).Connects source target) : g.Connects source target := by
  obtain ⟨j, hj, hs⟩ := hc
  rw [input?_disconnect, Option.map_eq_some_iff] at hj
  obtain ⟨i, hi, rfl⟩ := hj
  split at hs
  · cases hs
  · exact ⟨i, hi, hs⟩

theorem connects_connect (hconnect : g.connect p q = .ok h) (hc : h.Connects source target) :
    g.Connects source target ∨ source = p ∧ target = q := by
  obtain ⟨_, _, -, -, -, rfl⟩ := connect_cases hconnect
  exact (connects_link hc).imp_left connects_disconnect

theorem connects_removeNode (hc : (g.removeNode id).Connects source target) : g.Connects source target := by
  cases hn : g.node? id with
  | none => rwa [removeNode_of_unknown hn] at hc
  | some n =>
    obtain ⟨j, hj, hs⟩ := hc
    rw [removeNode_eq hn, input?_release, input?_forgetInputs, input?_dropNode, Option.map_eq_some_iff] at hj
    obtain ⟨i, hi, rfl⟩ := hj
    split at hi
    · cases hi
    · split at hs
      · cases hs
      · exact ⟨i, hi, hs⟩

theorem Extends.connects (hext : h.Extends g) (hc : h.Connects source target) : g.Connects source target := by
  obtain ⟨i, hi, hs⟩ := hc
  exact ⟨i, hext.input_of_source hi hs, hs⟩

/-! ## Added connections -/

/-- A finished graph without compounds, whose output sockets are driven by nodes. -/
structure Plain (g : Graph) : Prop extends g.Loose where
  flat : ∀ n ∈ g.nodes, n.implementation.isCompound = false
  driven : ∀ {source k}, g.Connects source (.socket k) → source.owner ≠ .graph

namespace Rewiring

variable {S : PinRef → PinRef → Prop} {inner : Graph} {copies : List (NodeId × NodeId)}

theorem Rewired.connects (hg : Rewired S g h) (hc : h.Connects source target) :
    g.Connects source target ∨ S source target := by
  induction hg with
  | refl => exact .inl hc
  | modifyInput _ _ hsource _ ih => exact ih (connects_modifyInput hsource hc)
  | link _ hS ih =>
    rcases connects_link hc with hc | ⟨rfl, rfl⟩
    · exact ih hc
    · exact .inr hS

theorem Meant.tame (hinner : inner.Loose) (h : Meant inner copies source target) : inner.Tame source := by
  rcases h with ⟨n, hn, i, hi, hsource, -⟩ | ⟨socket, hsocket, hsource⟩
  · exact hinner.tame_of_node hn hi hsource
  · exact hinner.tame_of_socket hsocket hsource

theorem Meant.copy (hinner : inner.Plain) {index : Nat} (h : Meant inner copies (.socket index) target) :
    ∃ old new, copies.lookup old = some new ∧ target.owner = .node new := by
  rcases h with ⟨n, -, i, -, -, id, hcopy, htarget⟩ | ⟨socket, hsocket, hsource⟩
  · exact ⟨n.id, id, hcopy, htarget⟩
  · obtain ⟨k, hk⟩ := List.mem_iff_getElem?.mp hsocket
    exact absurd rfl (hinner.driven (k := k) ⟨socket, hk, hsource⟩)

end Rewiring

/-! ## Flattening -/

/-- A graph on the way to one without compounds. What an input reads is there, or belongs to a node of old. -/
structure Tidy (ids : IdSupply) (g : Graph) : Prop extends g.Owned ids where
  sources : ∀ {source target}, g.Connects source target →
    (∃ o, g.output? source = some o) ∨ ∃ id ∉ g.ids, source.owner = .node id ∧ ids.Issued id
  driven : ∀ {source k}, g.Connects source (.socket k) → source.owner ≠ .graph
  inner : ∀ n ∈ g.nodes, ∀ name function inner, n.implementation = .compound name function inner → inner.Plain

theorem Tidy.plain {ids : IdSupply} (hg : g.Tidy ids) (hflat : ∀ n ∈ g.nodes, n.implementation.isCompound = false) :
    g.Plain := by
  refine ⟨⟨hg.distinct, fun hi hs => ?_⟩, hflat, hg.driven⟩
  rcases hg.sources ⟨_, hi, hs⟩ with hknown | ⟨id, hid, howner, -⟩
  · exact .inl hknown
  · exact .inr ⟨id, hid, howner⟩

/-- A tidy graph whose records of connections agree, and in which no compound reads itself. -/
structure Whole (ids : IdSupply) (g : Graph) : Prop extends g.Tidy ids where
  paired : g.Paired
  apart : ∀ n ∈ g.nodes, n.implementation.isCompound = true → n.id ∉ n.sources

namespace Rewiring

variable {s s' : Graph × IdSupply} {c : Node} {inner : Graph} {name function : String} {a : Unit}

theorem output_inlineCompound (hpick : Function.Injective s.2.pick) (hs : s.1.Owned s.2)
    (h : inlineCompound c inner s = .ok a s') (hsource : source.owner ≠ .node c.id) {o : Output}
    (ho : s.1.output? source = some o) : ∃ r, s'.1.output? source = some r := by
  obtain ⟨pairs, s₁, hcopying, hrest⟩ := copying_of_inlineCompound hpick h
  have hframe := (frame_rewireAll hrest).1
  have hdropped : (s.1.dropNode c.id).output? source = some o := by rw [output?_dropNode, if_neg hsource, ho]
  obtain ⟨o₁, ho₁⟩ := known_of_frame (frame_removeNode s.1 c.id) hdropped
  exact known_of_frame hframe ((hcopying.extends (hs.removeNode c.id)).output_kept ho₁)

/-- **New connections** lead from what feeds the compound to copies, or from copies. -/
theorem connects_inlineCompound (hpick : Function.Injective s.2.pick) (hs : s.1.Owned s.2) (hinner : inner.Plain)
    (h : inlineCompound c inner s = .ok a s') (hconnects : s'.1.Connects source target) :
    s.1.Connects source target ∨
      (∃ i ∈ c.inputs, i.source = some source) ∧ (∃ id, target.owner = .node id ∧ ¬ s.2.Issued id) ∨
      (∃ id, source.owner = .node id ∧ ¬ s.2.Issued id) ∧ ∃ o, s'.1.output? source = some o := by
  obtain ⟨pairs, s₁, hcopying, hrest⟩ := copying_of_inlineCompound hpick h
  have howned := hs.removeNode c.id
  have hfresh : ∀ {old new}, (copyIds pairs).lookup old = some new → ¬ s.2.Issued new := by
    intro old new hlookup
    obtain ⟨p, hp, -, rfl⟩ := lookup_copyIds hlookup
    exact hcopying.fresh p hp
  rcases (rewires_rewireAll s₁ a s' hrest).1.connects hconnects with hold | ⟨hfeeds, _, hmeant⟩ | hcopy
  · exact .inl (connects_removeNode ((hcopying.extends howned).connects hold))
  · obtain ⟨old, new, hlookup, htarget⟩ := hmeant.copy hinner
    exact .inr (.inl ⟨hfeeds, new, htarget, hfresh hlookup⟩)
  · obtain ⟨old, new, index, hlookup, hmeant, rfl⟩ := hcopy
    obtain ⟨o, ho⟩ := hcopying.copied howned hinner.distinct old new index hlookup (hmeant.tame hinner.toLoose)
    exact .inr (.inr ⟨⟨new, rfl, hfresh hlookup⟩, known_of_frame (frame_rewireAll hrest).1 ho⟩)

theorem tidy_inlineCompound (hpick : Function.Injective s.2.pick) (hs : s.1.Tidy s.2) (hc : c ∈ s.1.nodes)
    (himplementation : c.implementation = .compound name function inner)
    (h : inlineCompound c inner s = .ok a s') : s'.1.Tidy s'.2 := by
  have hinner := hs.inner c hc name function inner himplementation
  obtain ⟨hlater, new, hids, -, hnew⟩ := ids_inlineCompound hpick h
  -- an identity of old, and that of the compound, do not come back
  have hgone : ∀ {id}, id ∉ s.1.ids ∨ id = c.id → s.2.Issued id → id ∉ s'.1.ids := by
    intro id hid hissued hmem
    rw [hids, ids_removeNode, List.mem_append, List.mem_filter] at hmem
    rcases hmem with ⟨hmem, hne⟩ | hmem
    · rcases hid with hid | rfl
      · exact hid hmem
      · simp at hne
    · exact (hnew id hmem).1 hissued
  have hold : ∀ {source target}, s.1.Connects source target →
      (∃ o, s'.1.output? source = some o) ∨ ∃ id ∉ s'.1.ids, source.owner = .node id ∧ s'.2.Issued id := by
    intro source target hconnects
    rcases hs.sources hconnects with ⟨o, ho⟩ | ⟨id, hid, howner, hissued⟩
    · by_cases howner : source.owner = .node c.id
      · have hissued := hs.issued c.id (mem_ids_of_mem hc)
        exact .inr ⟨c.id, hgone (.inr rfl) hissued, howner, hlater.issued hissued⟩
      · exact .inl (output_inlineCompound hpick hs.toOwned h howner ho)
    · exact .inr ⟨id, hgone (.inl hid) hissued, howner, hlater.issued hissued⟩
  refine ⟨owned_inlineCompound hpick hs.toOwned h, ?_, ?_, ?_⟩
  · intro source target hconnects
    rcases connects_inlineCompound hpick hs.toOwned hinner h hconnects with
      hconnects | ⟨⟨i, hi, hsource⟩, -⟩ | ⟨-, hknown⟩
    · exact hold hconnects
    · obtain ⟨k, hconnects⟩ := connects_of_node hs.distinct hc hi hsource
      exact hold hconnects
    · exact .inl hknown
  · intro source k hconnects
    rcases connects_inlineCompound hpick hs.toOwned hinner h hconnects with
      hconnects | ⟨-, id, htarget, -⟩ | ⟨⟨id, howner, -⟩, -⟩
    · exact hs.driven hconnects
    · cases htarget
    · rw [howner]
      exact Owner.noConfusion
  · intro n hn name' function' inner' hn'
    rcases core_of_inlineCompound hpick h hn with ⟨m, hm, hcore⟩ | ⟨m, hm, -, hsame⟩
    · simp only [Node.core, Prod.mk.injEq] at hcore
      exact hs.inner m hm name' function' inner' (hcore.2.2.trans hn')
    · have hflat := hinner.flat m hm
      rw [hsame, hn'] at hflat
      cases hflat

/-- **Replacing a compound** keeps the records of connections in agreement, and no compound comes to read itself: a new
connection leads to a copy or from one. -/
theorem whole_inlineCompound (hpick : Function.Injective s.2.pick) (hs : s.1.Whole s.2) (hc : c ∈ s.1.nodes)
    (himplementation : c.implementation = .compound name function inner)
    (h : inlineCompound c inner s = .ok a s') : s'.1.Whole s'.2 ∧ ∃ pairs, Inlined s.1 c inner pairs s'.1 := by
  have hinner := hs.inner c hc name function inner himplementation
  have hself := hs.apart c hc (by rw [himplementation]; rfl)
  obtain ⟨pairs, hinlined, -, -⟩ := inlined_of_inlineCompound hpick hs.paired hs.issued hinner.toLoose
    (hs.distinct.node?_of_mem hc) hself h
  have htidy := tidy_inlineCompound hpick hs.toTidy hc himplementation h
  refine ⟨⟨htidy, hinlined.paired, fun n hn hcompound hmem => ?_⟩, pairs, hinlined⟩
  rcases core_of_inlineCompound hpick h hn with ⟨m, hm, hcore⟩ | ⟨m, hm, -, hsame⟩
  · simp only [Node.core, Prod.mk.injEq] at hcore
    obtain ⟨hid, -, hsame⟩ := hcore
    have hissued : s.2.Issued n.id := hid ▸ hs.issued m.id (mem_ids_of_mem hm)
    obtain ⟨i, hi, index, hsource⟩ := mem_sources_iff.mp hmem
    obtain ⟨k, hconnects⟩ := connects_of_node htidy.distinct hn hi hsource
    rcases connects_inlineCompound hpick hs.toOwned hinner h hconnects with
      hconnects | ⟨-, id, htarget, hnew⟩ | ⟨⟨id, howner, hnew⟩, -⟩
    · rw [← hid] at hconnects
      exact hs.apart m hm (by rw [hsame, hcompound]) (mem_sources_of_connects hs.distinct hm hconnects)
    · exact hnew (Owner.node.inj htarget ▸ hissued)
    · exact hnew (Owner.node.inj howner ▸ hissued)
  · have hflat := hinner.flat m hm
    rw [hsame, hcompound] at hflat
    cases hflat

/-- **Flattening** leaves no compound, and of its sources only those that belong to removed nodes are not there. -/
theorem plain_flatten (hpick : Function.Injective s.2.pick) (hs : s.1.Tidy s.2)
    (h : Rewiring.flatten s = .ok a s') : s'.1.Plain := by
  have hs' := (flatten_keeps (P := fun s => s.1.Tidy s.2) tidy_inlineCompound hpick hs h).2
  exact hs'.plain (isCompound_flatten hpick h)

end Rewiring
end ShadeGraph.Graph
