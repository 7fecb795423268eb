import ShadeGraph.Proofs.Graph.Meaning
import ShadeGraph.Proofs.Graph.Rewiring

/-!
# Replacing a compound keeps a graph coherent

Behind the replacement of a compound every node is one of the nodes that were there or a copy of an inner node, of the
same kind and with rewired inputs. From this, input by input: the types of connections fit, for channels are composed
along the way; literals have the types of their inputs; and a rank of the nodes outside, refined by a rank of the inner
ones, falls along the new connections, so there are no cycles.
-/

namespace ShadeGraph

open Graph.Rewiring

/-- A node that takes the place of another one: of the same kind, with other identity and rewired inputs. -/
structure Node.Replaces (m : Node) (rewired : Input → Except Error Input) (id : NodeId) (n : Node) : Prop where
  id_eq : m.id = id
  kind_eq : m.kind = n.kind
  inputs : List.Forall₂ (fun i j => rewired i = .ok j) n.inputs m.inputs

theorem Node.Replaces.output {n m : Node} {f : Input → Except Error Input} {id : NodeId} (hm : m.Replaces f id n)
    {index : Nat} {o : Output} (ho : n.outputs[index]? = some o) :
    ∃ r, m.outputs[index]? = some r ∧ r.type = o.type := by
  have htypes := congrArg (fun k : Kind => (k.outputs.map Prod.snd)[index]?) hm.kind_eq
  simp only [Node.kind, List.map_map, List.getElem?_map, ho, Option.map_some, Function.comp_apply] at htypes
  exact Option.map_eq_some_iff.mp htypes

theorem Node.kind_frame (n : Node) : n.frame.kind = n.kind := by
  simp [kind, frame, Input.frame, Output.frame, Function.comp_def]

theorem Node.kind_of_frame {n m : Node} (h : m.frame = n.frame) : m.kind = n.kind := by
  rw [← kind_frame m, h, kind_frame]

theorem Node.kind_detached (n : Node) (id : NodeId) (name : String) : (n.detached id name).kind = n.kind := by
  simp [kind, detached, Function.comp_def]

theorem Node.id_of_frame {n m : Node} (h : m.frame = n.frame) : m.id = n.id := by
  have hid : m.frame.id = n.frame.id := by rw [h]
  exact hid

theorem Node.inputs_length_of_frame {n m : Node} (h : m.frame = n.frame) : m.inputs.length = n.inputs.length := by
  simpa [frame] using congrArg (fun x : Node => x.inputs.length) h

def Node.FedBy (n : Node) (p : PinRef) : Prop := ∃ i ∈ n.inputs, i.source = some p

theorem forall₂_of_getElem? {α β : Type} {R : α → β → Prop} {l : List α} {l' : List β} (hlength : l'.length = l.length)
    (h : ∀ (k : Nat) a, l[k]? = some a → ∃ b, R a b ∧ l'[k]? = some b) : List.Forall₂ R l l' := by
  rw [List.forall₂_iff_get]
  refine ⟨hlength.symm, fun k hk hk' => ?_⟩
  obtain ⟨b, hb, heq⟩ := h k l[k] (List.getElem?_eq_getElem hk)
  rw [List.getElem?_eq_getElem hk'] at heq
  obtain rfl := Option.some.inj heq
  exact hb

theorem forall₂_imp_of_mem {α β : Type} {R S : α → β → Prop} {l : List α} {l' : List β} (h : List.Forall₂ R l l')
    (himp : ∀ a ∈ l, ∀ b, R a b → S a b) : List.Forall₂ S l l' := by
  induction h with
  | nil => exact .nil
  | cons hab _ ih =>
    exact .cons (himp _ List.mem_cons_self _ hab) (ih fun a ha => himp a (List.mem_cons_of_mem _ ha))

namespace Graph

variable {g h inner : Graph} {c n m : Node} {pairs : List (Node × Node)}

theorem implementation_of_kind {how : Implementation} (hkind : m.kind = n.kind) (hm : m.implementation = how) :
    n.implementation = how := by
  have himplementation : m.kind.implementation = n.kind.implementation := by rw [hkind]
  exact himplementation.symm.trans hm

def IsRead (g : Graph) (p : PinRef) : Prop :=
  (∃ i ∈ g.outputSockets, i.source = some p) ∨ ∃ n ∈ g.nodes, ∃ i ∈ n.inputs, i.source = some p

theorem IsRead.known {p : PinRef} (hg : g.Paired) (hp : g.IsRead p) : ∃ o, g.output? p = some o := by
  rcases hp with ⟨i, hi, hp⟩ | ⟨n, hn, i, hi, hp⟩
  · exact hg.source_of_socket hi hp
  · exact hg.source_of_node hn hi hp

/-- The rank outside comes first, and the rank inside, which is at most the width, among the copies. -/
def refinedRank (c : Node) (pairs : List (Node × Node)) (width : Nat) (rank rankInner : NodeId → Nat) (id : NodeId) :
    Nat :=
  (pairs.find? fun p => p.2.id == id).elim ((width + 1) * rank id) fun p => (width + 1) * rank c.id + rankInner p.1.id

namespace Rewiring.Inlined

variable (hin : Inlined g c inner pairs h)
include hin

/-! ## Nodes -/

theorem mem_inner {p : Node × Node} (hp : p ∈ pairs) : p.1 ∈ inner.nodes := by
  rw [← hin.originals]
  exact List.mem_map_of_mem hp

theorem exists_pair (hn : n ∈ inner.nodes) : ∃ p ∈ pairs, p.1 = n := by
  rw [← hin.originals] at hn
  exact List.mem_map.mp hn

theorem eq_of_copy {p q : Node × Node} (hp : p ∈ pairs) (hq : q ∈ pairs) (hid : p.2.id = q.2.id) : p = q :=
  List.inj_on_of_nodup_map hin.nodup hp hq hid

theorem lookup_copy (hinner : inner.Distinct) {p : Node × Node} (hp : p ∈ pairs) :
    (copyIds pairs).lookup p.1.id = some p.2.id := by
  refine lookup_of_mem_pairs ?_ hp
  rwa [Distinct, ids, ← hin.originals, List.map_map] at hinner

theorem find_copy {p : Node × Node} (hp : p ∈ pairs) : (pairs.find? fun q => q.2.id == p.2.id) = some p := by
  cases hfind : pairs.find? fun q => q.2.id == p.2.id with
  | none => simpa using List.find?_eq_none.mp hfind p hp
  | some q => rw [hin.eq_of_copy (List.mem_of_find?_eq_some hfind) hp (by simpa using List.find?_some hfind)]

theorem find_kept {id : NodeId} (hid : id ∈ g.ids) : (pairs.find? fun q => q.2.id == id) = none := by
  rw [List.find?_eq_none]
  intro q hq heq
  exact hin.fresh q hq ((beq_iff_eq.mp heq) ▸ hid)

theorem frame_nodes : h.nodes.map Node.frame =
    (g.nodes.filter fun n => n.id != c.id).map Node.frame ++ pairs.map fun p => p.2.frame := by
  have hnodes := congrArg Graph.nodes hin.frame
  simpa [Graph.frame, addNodes, dropNode, Function.comp_def] using hnodes

theorem replaces_outside (hg : g.Distinct) (hn : n ∈ g.nodes) (hne : n.id ≠ c.id) (hm : m ∈ h.nodes)
    (hframe : m.frame = n.frame) : m.Replaces (outerInput c inner (copyIds pairs)) n.id n := by
  refine ⟨Node.id_of_frame hframe, Node.kind_of_frame hframe, ?_⟩
  refine forall₂_of_getElem? (Node.inputs_length_of_frame hframe) fun k i hi => ?_
  have hinput : g.input? (.ofNode n.id k) = some i := by simp [input?, PinRef.ofNode, hg.node?_of_mem hn, hi]
  obtain ⟨j, hj, hj'⟩ := hin.outside (q := .ofNode n.id k) (by simpa [PinRef.ofNode] using hne) hinput
  refine ⟨j, hj, ?_⟩
  rw [← Node.id_of_frame hframe] at hj'
  simpa [input?, PinRef.ofNode, hin.paired.distinct.node?_of_mem hm] using hj'

theorem replaces_inside {p : Node × Node} (hp : p ∈ pairs) (hm : m ∈ h.nodes) (hframe : m.frame = p.2.frame) :
    m.Replaces (innerInput c inner (copyIds pairs)) p.2.id p.1 := by
  obtain ⟨id, name, heq⟩ := hin.detached p hp
  have hlength : p.2.inputs.length = p.1.inputs.length := by simp [heq, Node.detached]
  refine ⟨Node.id_of_frame hframe, ?_, ?_⟩
  · rw [Node.kind_of_frame hframe, heq, Node.kind_detached]
  · refine forall₂_of_getElem? ((Node.inputs_length_of_frame hframe).trans hlength) fun k i hi => ?_
    obtain ⟨j, hj, hj'⟩ := hin.inside hp hi
    refine ⟨j, hj, ?_⟩
    rw [← Node.id_of_frame hframe] at hj'
    simpa [input?, PinRef.ofNode, hin.paired.distinct.node?_of_mem hm] using hj'

theorem exists_outside (hg : g.Distinct) (hn : n ∈ g.nodes) (hne : n.id ≠ c.id) :
    ∃ m ∈ h.nodes, m.Replaces (outerInput c inner (copyIds pairs)) n.id n := by
  have hmem : n.frame ∈ h.nodes.map Node.frame := by
    rw [hin.frame_nodes]
    refine List.mem_append_left _ (List.mem_map_of_mem (List.mem_filter.mpr ⟨hn, ?_⟩))
    simpa using hne
  obtain ⟨m, hm, hframe⟩ := List.mem_map.mp hmem
  exact ⟨m, hm, hin.replaces_outside hg hn hne hm hframe⟩

theorem exists_inside {p : Node × Node} (hp : p ∈ pairs) :
    ∃ m ∈ h.nodes, m.Replaces (innerInput c inner (copyIds pairs)) p.2.id p.1 := by
  have hmem : p.2.frame ∈ h.nodes.map Node.frame := by
    rw [hin.frame_nodes]
    exact List.mem_append_right _ (List.mem_map.mpr ⟨p, hp, rfl⟩)
  obtain ⟨m, hm, hframe⟩ := List.mem_map.mp hmem
  exact ⟨m, hm, hin.replaces_inside hp hm hframe⟩

theorem node_cases (hg : g.Distinct) (hm : m ∈ h.nodes) :
    (∃ n ∈ g.nodes, n.id ≠ c.id ∧ m.Replaces (outerInput c inner (copyIds pairs)) n.id n) ∨
      ∃ p ∈ pairs, m.Replaces (innerInput c inner (copyIds pairs)) p.2.id p.1 := by
  have hmem : m.frame ∈ h.nodes.map Node.frame := List.mem_map_of_mem hm
  rw [hin.frame_nodes, List.mem_append] at hmem
  rcases hmem with hmem | hmem
  · obtain ⟨n, hn, hframe⟩ := List.mem_map.mp hmem
    obtain ⟨hn, hne⟩ := List.mem_filter.mp hn
    have hne : n.id ≠ c.id := by simpa using hne
    exact .inl ⟨n, hn, hne, hin.replaces_outside hg hn hne hm hframe.symm⟩
  · obtain ⟨p, hp, hframe⟩ := List.mem_map.mp hmem
    exact .inr ⟨p, hp, hin.replaces_inside hp hm hframe.symm⟩

theorem mem_ids (hg : g.Distinct) {id : NodeId} (hid : id ∈ h.ids) : id ∈ g.ids ∨ ∃ p ∈ pairs, p.2.id = id := by
  obtain ⟨m, hm, rfl⟩ := List.mem_map.mp hid
  rcases hin.node_cases hg hm with ⟨n, hn, -, hreplaces⟩ | ⟨p, hp, hreplaces⟩
  · exact .inl (hreplaces.id_eq ▸ mem_ids_of_mem hn)
  · exact .inr ⟨p, hp, hreplaces.id_eq.symm⟩

theorem sockets :
    List.Forall₂ (fun i j => outerInput c inner (copyIds pairs) i = .ok j) g.outputSockets h.outputSockets := by
  have hframes := congrArg (fun g : Graph => g.outputSockets.length) hin.frame
  simp only [Graph.frame, addNodes, dropNode, List.length_map] at hframes
  refine forall₂_of_getElem? hframes fun k i hi => ?_
  have hinput : g.input? (.socket k) = some i := hi
  exact hin.outside (by simp [PinRef.socket]) hinput

theorem kind_cases (hg : g.Distinct) (hm : m ∈ h.nodes) :
    (∃ n ∈ g.nodes, m.kind = n.kind) ∨ ∃ n ∈ inner.nodes, m.kind = n.kind := by
  rcases hin.node_cases hg hm with ⟨n, hn, -, hreplaces⟩ | ⟨p, hp, hreplaces⟩
  · exact .inl ⟨n, hn, hreplaces.kind_eq⟩
  · exact .inr ⟨p.1, hin.mem_inner hp, hreplaces.kind_eq⟩

theorem throughout {P : Graph → Prop} (hdistinct : g.Distinct) (hg : g.Throughout P) (hinner : inner.Throughout P)
    (hown : P h) : h.Throughout P := by
  obtain ⟨_, _, hg⟩ := hg
  obtain ⟨_, _, hinner⟩ := hinner
  refine .intro h hown fun m hm name function k himplementation => ?_
  rcases hin.kind_cases hdistinct hm with ⟨n, hn, hkind⟩ | ⟨n, hn, hkind⟩
  · exact hg n hn name function k (implementation_of_kind hkind himplementation)
  · exact hinner n hn name function k (implementation_of_kind hkind himplementation)

end Rewiring.Inlined

/-! ## Sources -/

section
variable {i j : Input} {p source : PinRef} {index : Nat}

theorem fedBy_of_boundInput (hfree : i.source = none) (hj : boundInput c inner index i = .ok j)
    (hp : j.source = some p) : c.FedBy p := by
  unfold boundInput at hj
  split at hj
  · obtain rfl := Except.ok.inj hj
    simp [hfree] at hp
  · split at hj
    · obtain ⟨value, -, hj⟩ := except_bind_eq_ok.mp hj
      obtain rfl := Except.ok.inj hj
      simp [hfree] at hp
    · rename_i feed hfeed
      split at hj
      · rename_i hsource
        obtain ⟨channels, -, hj⟩ := except_bind_eq_ok.mp hj
        obtain rfl := Except.ok.inj hj
        obtain rfl := Option.some.inj hp
        exact ⟨feed, List.mem_of_find?_eq_some hfeed, hsource⟩
      · obtain ⟨value, -, hj⟩ := except_bind_eq_ok.mp hj
        obtain rfl := Except.ok.inj hj
        simp [hfree] at hp

theorem source_of_rewiredInput (hfree : i.source = none) (hj : rewiredInput c inner (copyIds pairs) source i = .ok j)
    (hp : j.source = some p) :
    c.FedBy p ∨ ∃ q ∈ pairs, ∃ index, source = .ofNode q.1.id index ∧ p = .ofNode q.2.id index := by
  obtain ⟨owner, index⟩ := source
  cases owner with
  | graph => exact .inl (fedBy_of_boundInput hfree hj hp)
  | node old =>
    unfold rewiredInput at hj
    split at hj
    · rename_i hgraph
      cases hgraph
    · rename_i hnode
      obtain rfl := Owner.node.inj hnode
      split at hj
      · rename_i new hcopy
        obtain rfl := Except.ok.inj hj
        obtain rfl := Option.some.inj hp
        obtain ⟨q, hq, rfl, rfl⟩ := lookup_copyIds hcopy
        exact .inr ⟨q, hq, index, rfl, rfl⟩
      · obtain rfl := Except.ok.inj hj
        simp [hfree] at hp

theorem source_of_readerInput {socket : Input} (hfree : i.source = none)
    (hj : readerInput c inner (copyIds pairs) socket i = .ok j) (hp : j.source = some p) :
    c.FedBy p ∨ ∃ q ∈ pairs, ∃ index, socket.source = some (.ofNode q.1.id index) ∧ p = .ofNode q.2.id index := by
  obtain ⟨channels, -, hj⟩ := except_bind_eq_ok.mp hj
  cases hsource : socket.source with
  | none =>
    simp only [hsource] at hj
    obtain ⟨value, -, hj⟩ := except_bind_eq_ok.mp hj
    obtain rfl := Except.ok.inj hj
    simp [hfree] at hp
  | some inside =>
    simp only [hsource] at hj
    rcases source_of_rewiredInput (i := { i with channels }) hfree hj hp with hfed | ⟨q, hq, index, rfl, hcopy⟩
    · exact .inl hfed
    · exact .inr ⟨q, hq, index, rfl, hcopy⟩

/-- An input outside reads what it has read; or it has read the compound, and reads what feeds the compound or a copy
of what an inner socket reads. -/
theorem source_of_outerInput (hj : outerInput c inner (copyIds pairs) i = .ok j) (hp : j.source = some p) :
    i.source = some p ∨ (∃ index, i.source = some (.ofNode c.id index)) ∧ (c.FedBy p ∨
      ∃ q ∈ pairs, ∃ socket ∈ inner.outputSockets, ∃ index, socket.source = some (.ofNode q.1.id index) ∧
        p = .ofNode q.2.id index) := by
  unfold outerInput at hj
  split at hj
  · rename_i id index hsource
    split at hj
    · rename_i hid
      subst hid
      refine .inr ⟨⟨index, hsource⟩, ?_⟩
      split at hj
      · rename_i socket hsocket
        rcases source_of_readerInput rfl hj hp with hfed | ⟨q, hq, index, hinside, hcopy⟩
        · exact .inl hfed
        · exact .inr ⟨q, hq, socket, List.mem_of_getElem? hsocket, index, hinside, hcopy⟩
      · obtain rfl := Except.ok.inj hj
        cases hp
    · obtain rfl := Except.ok.inj hj
      exact .inl hp
  · obtain rfl := Except.ok.inj hj
    exact .inl hp

theorem source_of_innerInput (hj : innerInput c inner (copyIds pairs) i = .ok j) (hp : j.source = some p) :
    c.FedBy p ∨ ∃ q ∈ pairs, ∃ index, i.source = some (.ofNode q.1.id index) ∧ p = .ofNode q.2.id index := by
  unfold innerInput at hj
  split at hj
  · rename_i source hsource
    rcases source_of_rewiredInput rfl hj hp with hfed | ⟨q, hq, index, rfl, hcopy⟩
    · exact .inl hfed
    · exact .inr ⟨q, hq, index, hsource, hcopy⟩
  · rename_i hfree
    obtain rfl := Except.ok.inj hj
    rw [hfree] at hp
    cases hp

theorem isRead_of_outerInput (hc : c ∈ g.nodes) (hread : ∀ p, i.source = some p → g.IsRead p)
    (hj : outerInput c inner (copyIds pairs) i = .ok j) (hp : j.source = some p) :
    g.IsRead p ∨ ∃ q ∈ pairs, ∃ index, p = .ofNode q.2.id index ∧ inner.IsRead (.ofNode q.1.id index) := by
  rcases source_of_outerInput hj hp with
    hsame | ⟨-, ⟨feed, hmem, hfeed⟩ | ⟨q, hq, socket, hsocket, index, hinside, rfl⟩⟩
  · exact .inl (hread p hsame)
  · exact .inl (.inr ⟨c, hc, feed, hmem, hfeed⟩)
  · exact .inr ⟨q, hq, index, rfl, .inl ⟨socket, hsocket, hinside⟩⟩

end

namespace Rewiring.Inlined

variable (hin : Inlined g c inner pairs h)
include hin

theorem isRead_cases (hg : g.Distinct) (hc : c ∈ g.nodes) {p : PinRef} (hp : h.IsRead p) :
    g.IsRead p ∨ ∃ q ∈ pairs, ∃ index, p = .ofNode q.2.id index ∧ inner.IsRead (.ofNode q.1.id index) := by
  rcases hp with ⟨j, hj, hp⟩ | ⟨m, hm, j, hj, hp⟩
  · obtain ⟨i, hi, hij⟩ := exists_of_forall₂ hin.sockets hj
    exact isRead_of_outerInput hc (fun p hp => .inl ⟨i, hi, hp⟩) hij hp
  · rcases hin.node_cases hg hm with ⟨n, hn, -, hreplaces⟩ | ⟨q, hq, hreplaces⟩
    · obtain ⟨i, hi, hij⟩ := exists_of_forall₂ hreplaces.inputs hj
      exact isRead_of_outerInput hc (fun p hp => .inr ⟨n, hn, i, hi, hp⟩) hij hp
    · obtain ⟨i, hi, hij⟩ := exists_of_forall₂ hreplaces.inputs hj
      rcases source_of_innerInput hij hp with ⟨feed, hmem, hfeed⟩ | ⟨q', hq', index, hinside, rfl⟩
      · exact .inl (.inr ⟨c, hc, feed, hmem, hfeed⟩)
      · exact .inr ⟨q', hq', index, rfl, .inr ⟨q.1, hin.mem_inner hq, i, hi, hinside⟩⟩

/-! ## Cycles -/

section
variable {width : Nat} {rank rankInner : NodeId → Nat} {i j : Input} {p : PinRef} {b : NodeId}

theorem refinedRank_copy {q : Node × Node} (hq : q ∈ pairs) :
    refinedRank c pairs width rank rankInner q.2.id = (width + 1) * rank c.id + rankInner q.1.id := by
  rw [refinedRank, hin.find_copy hq, Option.elim_some]

theorem refinedRank_kept {id : NodeId} (hid : id ∈ g.ids) :
    refinedRank c pairs width rank rankInner id = (width + 1) * rank id := by
  rw [refinedRank, hin.find_kept hid, Option.elim_none]

/-- What feeds the compound ranks below everything that is put in its place. -/
theorem refinedRank_feed (hg : g.Paired) (hc : c ∈ g.nodes) (hrank : g.Ranked rank) (hfed : c.FedBy p)
    (hb : p.owner = .node b) : refinedRank c pairs width rank rankInner b < (width + 1) * rank c.id := by
  obtain ⟨feed, hfeed, hp⟩ := hfed
  have hreads := hg.reads_of_source hc hfeed hp hb
  rw [hin.refinedRank_kept hreads.right]
  exact Nat.mul_lt_mul_of_pos_left (hrank _ _ hreads) (Nat.succ_pos width)

theorem refinedRank_outer (hg : g.Paired) (hc : c ∈ g.nodes) (hrank : g.Ranked rank)
    (hwidth : ∀ n ∈ inner.nodes, rankInner n.id < width) (hn : n ∈ g.nodes) (hi : i ∈ n.inputs)
    (hj : outerInput c inner (copyIds pairs) i = .ok j) (hp : j.source = some p) (hb : p.owner = .node b) :
    refinedRank c pairs width rank rankInner b < (width + 1) * rank n.id := by
  have hlower : ∀ {a b}, b < a → (width + 1) * b + width < (width + 1) * a := by
    intro a b hlt
    have := Nat.mul_le_mul_left (width + 1) hlt
    rw [Nat.mul_succ] at this
    omega
  rcases source_of_outerInput hj hp with hsame | ⟨⟨index, hsource⟩, hnew⟩
  · have hreads := hg.reads_of_source hn hi hsame hb
    rw [hin.refinedRank_kept hreads.right]
    have := hlower (hrank _ _ hreads)
    omega
  · have hbelow := hlower (hrank _ _ (hg.reads_of_source hn hi hsource rfl))
    rcases hnew with hfed | ⟨q, hq, -, -, index, -, rfl⟩
    · have hlt : refinedRank c pairs width rank rankInner b < (width + 1) * rank c.id :=
        hin.refinedRank_feed hg hc hrank hfed hb
      omega
    · obtain rfl := Owner.node.inj hb
      rw [hin.refinedRank_copy hq]
      have := hwidth q.1 (hin.mem_inner hq)
      omega

theorem refinedRank_inner (hg : g.Paired) (hc : c ∈ g.nodes) (hinner : inner.Paired) (hrank : g.Ranked rank)
    (hrankInner : inner.Ranked rankInner) {q : Node × Node} (hq : q ∈ pairs) (hi : i ∈ q.1.inputs)
    (hj : innerInput c inner (copyIds pairs) i = .ok j) (hp : j.source = some p) (hb : p.owner = .node b) :
    refinedRank c pairs width rank rankInner b < (width + 1) * rank c.id + rankInner q.1.id := by
  rcases source_of_innerInput hj hp with hfed | ⟨q', hq', index, hinside, rfl⟩
  · exact (hin.refinedRank_feed hg hc hrank hfed hb).trans_le (Nat.le_add_right _ _)
  · obtain rfl := Owner.node.inj hb
    rw [hin.refinedRank_copy hq']
    have := hrankInner _ _ (hinner.reads_of_source (hin.mem_inner hq) hi hinside rfl)
    omega

end

/-- If there is no cycle outside and none inside, there is none afterwards. -/
theorem not_cyclic (hg : g.Paired) (hc : c ∈ g.nodes) (hinner : inner.Paired) (hacyclic : ¬ g.Cyclic)
    (hacyclicInner : ¬ inner.Cyclic) : ¬ h.Cyclic := by
  obtain ⟨rank, hrank⟩ := exists_ranked hg.distinct hacyclic
  obtain ⟨rankInner, hrankInner⟩ := exists_ranked hinner.distinct hacyclicInner
  obtain ⟨width, hwidth⟩ := exists_bound (fun n : Node => rankInner n.id) inner.nodes
  suffices hranked : h.Ranked (refinedRank c pairs width rank rankInner) from hranked.not_cyclic
  intro a b hread
  obtain ⟨m, hm, hsource, -⟩ := hread
  obtain ⟨j, hj, index, hp⟩ := mem_sources_iff.mp hsource
  rcases hin.node_cases hg.distinct (mem_of_node? hm) with ⟨n, hn, hne, hreplaces⟩ | ⟨q, hq, hreplaces⟩
  · obtain ⟨i, hi, hij⟩ := exists_of_forall₂ hreplaces.inputs hj
    obtain rfl : n.id = a := hreplaces.id_eq.symm.trans (id_of_node? hm)
    rw [hin.refinedRank_kept (mem_ids_of_mem hn)]
    exact hin.refinedRank_outer hg hc hrank hwidth hn hi hij hp rfl
  · obtain ⟨i, hi, hij⟩ := exists_of_forall₂ hreplaces.inputs hj
    obtain rfl : q.2.id = a := hreplaces.id_eq.symm.trans (id_of_node? hm)
    rw [hin.refinedRank_copy hq]
    exact hin.refinedRank_inner hg hc hinner hrank hrankInner hq hi hij hp rfl

end Rewiring.Inlined

theorem not_mem_sources (hg : g.Distinct) (hacyclic : ¬ g.Cyclic) (hn : n ∈ g.nodes) : n.id ∉ n.sources :=
  fun hmem => hacyclic ⟨n.id, .single ⟨n, hg.node?_of_mem hn, hmem, mem_ids_of_mem hn⟩⟩

theorem inlined_of_acyclic {s s' : Graph × IdSupply} {a : Unit} (hpick : Function.Injective s.2.pick)
    (hissued : ∀ id ∈ s.1.ids, s.2.Issued id) (hg : s.1.Paired) (hacyclic : ¬ s.1.Cyclic) (hinner : inner.Paired)
    (hc : c ∈ s.1.nodes) (h : inlineCompound c inner s = .ok a s') :
    ∃ pairs, Inlined s.1 c inner pairs s'.1 ∧ s.2.Later s'.2 ∧ (∀ p ∈ pairs, ¬ s.2.Issued p.2.id) ∧
      ∀ id ∈ s'.1.ids, s'.2.Issued id := by
  obtain ⟨pairs, hin, hlater, hfresh⟩ := inlined_of_inlineCompound hpick hg hissued hinner.loose
    (hg.distinct.node?_of_mem hc) (not_mem_sources hg.distinct hacyclic hc) h
  refine ⟨pairs, hin, hlater, fun p hp => (hfresh p hp).1, fun id hid => ?_⟩
  rcases hin.mem_ids hg.distinct hid with hid | ⟨p, hp, rfl⟩
  · exact hlater.issued (hissued id hid)
  · exact (hfresh p hp).2

/-! ## Inputs -/

/-- What becomes of an input that is given what feeds a socket: it reads the same source, or takes over the literal. -/
inductive Relayed (feed i j : Input) : Prop
  | source {p : PinRef} {channels : Option String} (hsource : feed.source = some p)
      (hchannels : composeChannels feed.channels i.channels feed.type = .ok channels)
      (hj : j.source = some p ∧ j.channels = channels ∧ j.value = none)
  | literal {value : Option Value} (hfree : feed.source = none)
      (hvalue : literalFor feed.value i.channels i.type = .ok value) (hj : j.source = none ∧ j.value = value)

variable {copies : List (NodeId × NodeId)} {i j : Input} {socket : Output} {source : PinRef} {index : Nat}

theorem boundInput_spec (hsocket : inner.inputSockets[index]? = some socket) (hfree : i.source = none)
    (hj : boundInput c inner index i = .ok j) : (j.name = i.name ∧ j.type = i.type) ∧ Relayed (c.feed socket) i j := by
  rw [boundInput, hsocket] at hj
  unfold Node.feed
  cases hfeed : c.input? socket.name with
  | none =>
    simp only [hfeed] at hj
    obtain ⟨value, hvalue, hj⟩ := except_bind_eq_ok.mp hj
    obtain rfl := Except.ok.inj hj
    exact ⟨⟨rfl, rfl⟩, .literal rfl hvalue ⟨hfree, rfl⟩⟩
  | some feed =>
    cases hsource : feed.source with
    | none =>
      simp only [hfeed, hsource] at hj
      obtain ⟨value, hvalue, hj⟩ := except_bind_eq_ok.mp hj
      obtain rfl := Except.ok.inj hj
      exact ⟨⟨rfl, rfl⟩, .literal hsource hvalue ⟨hfree, rfl⟩⟩
    | some p =>
      simp only [hfeed, hsource] at hj
      obtain ⟨channels, hchannels, hj⟩ := except_bind_eq_ok.mp hj
      obtain rfl := Except.ok.inj hj
      exact ⟨⟨rfl, rfl⟩, .source hsource hchannels ⟨rfl, rfl, rfl⟩⟩

/-- What becomes of an input that has read an inner source. -/
inductive Carried (c : Node) (inner : Graph) (copies : List (NodeId × NodeId)) (source : PinRef) (i j : Input) : Prop
  | socket {index : Nat} {socket : Output} (hsource : source = .socket index)
      (hsocket : inner.inputSockets[index]? = some socket) (hj : Relayed (c.feed socket) i j)
  | node {old new : NodeId} {index : Nat} (hsource : source = .ofNode old index) (hcopy : copies.lookup old = some new)
      (hj : j.source = some (.ofNode new index) ∧ j.channels = i.channels ∧ j.value = none)

theorem rewiredInput_spec {o : Output} (hknown : inner.output? source = some o)
    (hcopies : ∀ n ∈ inner.nodes, ∃ new, copies.lookup n.id = some new) (hfree : i.source = none)
    (hj : rewiredInput c inner copies source i = .ok j) :
    (j.name = i.name ∧ j.type = i.type) ∧ Carried c inner copies source i j := by
  obtain ⟨owner, index⟩ := source
  cases owner with
  | graph =>
    obtain ⟨hlabel, hrelayed⟩ := boundInput_spec hknown hfree hj
    exact ⟨hlabel, .socket rfl hknown hrelayed⟩
  | node old =>
    obtain ⟨n, hn, -⟩ := Option.bind_eq_some_iff.mp hknown
    obtain ⟨new, hnew⟩ := hcopies n (mem_of_node? hn)
    rw [id_of_node? hn] at hnew
    simp only [rewiredInput, hnew] at hj
    obtain rfl := Except.ok.inj hj
    exact ⟨⟨rfl, rfl⟩, .node rfl hnew ⟨rfl, rfl, rfl⟩⟩

/-- What becomes of an input that has read the socket behind an output of the compound. -/
inductive Passed (c : Node) (inner : Graph) (copies : List (NodeId × NodeId)) (socket i j : Input) : Prop
  | source {p : PinRef} {channels : Option String} (hsource : socket.source = some p)
      (hchannels : composeChannels socket.channels i.channels socket.type = .ok channels)
      (hj : Carried c inner copies p { i with channels } j)
  | literal {channels : Option String} {value : Option Value} (hfree : socket.source = none)
      (hchannels : composeChannels socket.channels i.channels socket.type = .ok channels)
      (hvalue : literalFor socket.value channels i.type = .ok value) (hj : j.source = none ∧ j.value = value)

theorem readerInput_spec {socket : Input} (hsocket : socket ∈ inner.outputSockets) (hinner : inner.Paired)
    (hcopies : ∀ n ∈ inner.nodes, ∃ new, copies.lookup n.id = some new) (hfree : i.source = none)
    (hj : readerInput c inner copies socket i = .ok j) :
    (j.name = i.name ∧ j.type = i.type) ∧ Passed c inner copies socket i j := by
  obtain ⟨channels, hchannels, hj⟩ := except_bind_eq_ok.mp hj
  cases hsource : socket.source with
  | none =>
    simp only [hsource] at hj
    obtain ⟨value, hvalue, hj⟩ := except_bind_eq_ok.mp hj
    obtain rfl := Except.ok.inj hj
    exact ⟨⟨rfl, rfl⟩, .literal hsource hchannels hvalue ⟨hfree, rfl⟩⟩
  | some p =>
    simp only [hsource] at hj
    obtain ⟨o, ho⟩ := hinner.source_of_socket hsocket hsource
    obtain ⟨hlabel, hcarried⟩ := rewiredInput_spec (i := { i with channels }) ho hcopies hfree hj
    exact ⟨hlabel, .source hsource hchannels hcarried⟩

/-! ## Types -/

theorem Matches.of_kind {k : Graph} (hn : k.Matches n) (hkind : m.kind = n.kind) : k.Matches m := by
  have houtputs := congrArg (fun k : Kind => k.outputs.map Prod.snd) hkind
  have hinputs := congrArg Kind.inputs hkind
  simp only [Node.kind, List.map_map, Function.comp_def] at houtputs hinputs
  refine ⟨hn.outputs.trans houtputs.symm, fun socket hsocket => ?_⟩
  have hfind : (m.input? socket.name).map Input.type = (n.input? socket.name).map Input.type := by
    have := congrArg (fun l => (l.find? fun p => p.1 == socket.name).map Prod.snd) hinputs
    simpa [List.find?_map, Function.comp_def, Node.input?] using this
  rw [← hn.inputs socket hsocket, Node.feed, Node.feed]
  cases hm : m.input? socket.name <;> cases hn' : n.input? socket.name <;> simp_all

/-- A compound of a coherent graph, also inside, that has been replaced. -/
structure Replacement (g : Graph) (c : Node) (inner : Graph) (pairs : List (Node × Node)) (h : Graph) : Prop
    extends Inlined g c inner pairs h where
  coherent : g.Coherent
  coherent_inner : inner.Coherent
  mem : c ∈ g.nodes
  implementation : ∃ name function, c.implementation = .compound name function inner

/-- Connections behind each other follow a rule if the connection through the composed channels does. -/
def Composable (rule : DataType → Option String → DataType → Prop) : Prop :=
  ∀ {source first between second target channels}, rule source first between → rule between second target →
    composeChannels first second between = .ok channels → rule source channels target

namespace Replacement

variable {rule : DataType → Option String → DataType → Prop} (hr : Replacement g c inner pairs h)
include hr

theorem matches_inner : inner.Matches c := by
  obtain ⟨name, function, himplementation⟩ := hr.implementation
  exact hr.coherent.compound c hr.mem name function inner himplementation

theorem lookup : ∀ n ∈ inner.nodes, ∃ new, (copyIds pairs).lookup n.id = some new := by
  intro n hn
  obtain ⟨p, hp, rfl⟩ := hr.exists_pair hn
  exact ⟨p.2.id, hr.lookup_copy hr.coherent_inner.distinct hp⟩

theorem not_self {p : PinRef} (hi : i ∈ c.inputs) (hp : i.source = some p) : p.owner ≠ .node c.id := by
  intro howner
  exact hr.coherent.acyclic ⟨c.id, .single (hr.coherent.reads_of_source hr.mem hi hp howner)⟩

theorem output_outside {p : PinRef} (howner : p.owner ≠ .node c.id) {o : Output} (ho : g.output? p = some o) :
    ∃ r, h.output? p = some r ∧ r.type = o.type := by
  obtain ⟨owner, index⟩ := p
  cases owner with
  | graph =>
    have hsockets := congrArg (fun g : Graph => g.inputSockets[index]?) hr.frame
    simp only [Graph.frame, addNodes, dropNode, List.getElem?_map] at hsockets
    have ho : g.inputSockets[index]? = some o := ho
    rw [ho] at hsockets
    obtain ⟨r, hr, hframe⟩ := Option.map_eq_some_iff.mp hsockets
    have htype : r.frame.type = o.frame.type := by rw [hframe]
    exact ⟨r, hr, htype⟩
  | node id =>
    obtain ⟨n, hn, ho⟩ := Option.bind_eq_some_iff.mp ho
    obtain rfl := id_of_node? hn
    have hne : n.id ≠ c.id := fun heq => howner (by rw [heq])
    obtain ⟨m, hm, hreplaces⟩ := hr.exists_outside hr.coherent.distinct (mem_of_node? hn) hne
    obtain ⟨r, hr', htype⟩ := hreplaces.output ho
    refine ⟨r, ?_, htype⟩
    simp [output?, ← hreplaces.id_eq, hr.paired.distinct.node?_of_mem hm, hr']

theorem output_inside {p : Node × Node} (hp : p ∈ pairs) {o : Output} (ho : p.1.outputs[index]? = some o) :
    ∃ r, h.output? (.ofNode p.2.id index) = some r ∧ r.type = o.type := by
  obtain ⟨m, hm, hreplaces⟩ := hr.exists_inside hp
  obtain ⟨r, hr', htype⟩ := hreplaces.output ho
  refine ⟨r, ?_, htype⟩
  simp [output?, PinRef.ofNode, ← hreplaces.id_eq, hr.paired.distinct.node?_of_mem hm, hr']

theorem feed_source {p : PinRef} (hp : (c.feed socket).source = some p) :
    c.feed socket ∈ c.inputs ∧ p.owner ≠ .node c.id := by
  rcases c.feed_cases socket with hi | ⟨-, hfree, -⟩
  · exact ⟨hi, hr.not_self hi hp⟩
  · rw [hfree] at hp
    cases hp

theorem outerInput_spec (hi : g.Follows rule i) (hj : outerInput c inner (copyIds pairs) i = .ok j) :
    (j.name = i.name ∧ j.type = i.type) ∧ ((j = i ∧ ∀ p, i.source = some p → p.owner ≠ .node c.id) ∨
      ∃ index o socket, i.source = some (.ofNode c.id index) ∧ g.output? (.ofNode c.id index) = some o ∧
        inner.outputSockets[index]? = some socket ∧ socket.type = o.type ∧
        Passed c inner (copyIds pairs) socket { i with source := none } j) := by
  unfold outerInput at hj
  split at hj
  · rename_i id index hsource
    split at hj
    · rename_i hid
      subst hid
      obtain ⟨-, o, ho, -⟩ := hi.source _ hsource
      obtain ⟨name, function, himplementation⟩ := hr.implementation
      have ho' : c.outputs[index]? = some o := by
        simpa [output?, hr.coherent.distinct.node?_of_mem hr.mem] using ho
      obtain ⟨socket, hsocket, htype⟩ := hr.coherent.exists_socket hr.mem himplementation ho'
      simp only [hsocket] at hj
      obtain ⟨hlabel, hpassed⟩ :=
        readerInput_spec (List.mem_of_getElem? hsocket) hr.coherent_inner.toPaired hr.lookup rfl hj
      exact ⟨hlabel, .inr ⟨index, o, socket, hsource, ho, hsocket, htype, hpassed⟩⟩
    · rename_i hid
      obtain rfl := Except.ok.inj hj
      refine ⟨⟨rfl, rfl⟩, .inl ⟨rfl, fun p hp => ?_⟩⟩
      rw [hsource] at hp
      obtain rfl := Option.some.inj hp
      simpa using hid
  · rename_i hother
    obtain rfl := Except.ok.inj hj
    refine ⟨⟨rfl, rfl⟩, .inl ⟨rfl, fun p hp howner => ?_⟩⟩
    obtain ⟨owner, index⟩ := p
    simp only at howner
    subst howner
    exact hother _ _ hp

theorem innerInput_spec (hi : inner.Follows rule i) (hj : innerInput c inner (copyIds pairs) i = .ok j) :
    (j.name = i.name ∧ j.type = i.type) ∧ ((j = i ∧ i.source = none) ∨
      ∃ p, i.source = some p ∧ Carried c inner (copyIds pairs) p { i with source := none } j) := by
  unfold innerInput at hj
  split at hj
  · rename_i p hp
    obtain ⟨-, o, ho, -⟩ := hi.source p hp
    obtain ⟨hlabel, hcarried⟩ := rewiredInput_spec ho hr.lookup rfl hj
    exact ⟨hlabel, .inr ⟨p, hp, hcarried⟩⟩
  · rename_i hfree
    obtain rfl := Except.ok.inj hj
    exact ⟨⟨rfl, rfl⟩, .inl ⟨rfl, hfree⟩⟩

/-! ## Rules for connections -/

theorem accepts_feed (hsocket : socket ∈ inner.inputSockets) : g.Accepts (c.feed socket) :=
  hr.coherent.accepts.feed hr.coherent.distinct hr.mem (hr.coherent_inner.preset socket hsocket)

theorem follows_relayed (hrule : Composable rule) (hg : g.Obeys rule) (hsocket : socket ∈ inner.inputSockets)
    (hfits : rule socket.type i.channels i.type) (htype : j.type = i.type) (hj : Relayed (c.feed socket) i j) :
    h.Follows rule j := by
  have hfeed := hg.feed hr.coherent.distinct hr.mem (hr.coherent_inner.preset socket hsocket)
  rw [← hr.matches_inner.inputs socket hsocket] at hfits
  cases hj with
  | source hsource hchannels hj =>
    obtain ⟨hsource', hchannels', hvalue⟩ := hj
    obtain ⟨-, o, ho, hfits'⟩ := hfeed.source _ hsource
    obtain ⟨r, hr', hrtype⟩ := hr.output_outside (hr.feed_source hsource).2 ho
    refine ⟨fun p hp => ⟨hvalue, ?_⟩, fun v hv => ?_⟩
    · rw [hsource'] at hp
      obtain rfl := Option.some.inj hp
      refine ⟨r, hr', ?_⟩
      rw [hrtype, hchannels', htype]
      exact hrule hfits' hfits hchannels
    · rw [hvalue] at hv
      cases hv
  | literal hfree hvalue hj =>
    obtain ⟨hsource', hvalue'⟩ := hj
    refine ⟨fun p hp => ?_, fun v hv => ?_⟩
    · rw [hsource'] at hp
      cases hp
    · rw [htype]
      exact type_of_literalFor hvalue (hvalue'.symm.trans hv)

theorem follows_carried (hrule : Composable rule) (hg : g.Obeys rule) {o : Output} (ho : inner.output? source = some o)
    (hfits : rule o.type i.channels i.type) (htype : j.type = i.type)
    (hj : Carried c inner (copyIds pairs) source i j) : h.Follows rule j := by
  cases hj with
  | socket hsource hsocket hj =>
    subst hsource
    obtain rfl := Option.some.inj (hsocket.symm.trans ho)
    exact hr.follows_relayed hrule hg (List.mem_of_getElem? hsocket) hfits htype hj
  | node hsource hcopy hj =>
    subst hsource
    obtain ⟨hsource', hchannels, hvalue⟩ := hj
    obtain ⟨p, hp, rfl, rfl⟩ := lookup_copyIds hcopy
    obtain ⟨n, hn, ho⟩ := Option.bind_eq_some_iff.mp ho
    rw [hr.coherent_inner.distinct.node?_of_mem (hr.mem_inner hp)] at hn
    obtain rfl := Option.some.inj hn
    obtain ⟨r, hr', hrtype⟩ := hr.output_inside hp ho
    refine ⟨fun q hq => ⟨hvalue, ?_⟩, fun v hv => ?_⟩
    · rw [hsource'] at hq
      obtain rfl := Option.some.inj hq
      exact ⟨r, hr', by rw [hrtype, hchannels, htype]; exact hfits⟩
    · rw [hvalue] at hv
      cases hv

theorem follows_passed (hrule : Composable rule) (hg : g.Obeys rule) (hinner : inner.Obeys rule) {socket : Input}
    (hsocket : socket ∈ inner.outputSockets) (hfits : rule socket.type i.channels i.type) (htype : j.type = i.type)
    (hj : Passed c inner (copyIds pairs) socket i j) : h.Follows rule j := by
  cases hj with
  | @source p channels hsource hchannels hj =>
    obtain ⟨-, o, ho, hfits'⟩ := (hinner.of_socket hsocket).source _ hsource
    exact hr.follows_carried hrule hg (i := { i with channels }) ho (hrule hfits' hfits hchannels) htype hj
  | literal hfree hchannels hvalue hj =>
    obtain ⟨hsource', hvalue'⟩ := hj
    refine ⟨fun p hp => ?_, fun v hv => ?_⟩
    · rw [hsource'] at hp
      cases hp
    · rw [htype]
      exact type_of_literalFor hvalue (hvalue'.symm.trans hv)

theorem follows_outer (hrule : Composable rule) (hg : g.Obeys rule) (hinner : inner.Obeys rule) (hi : g.Follows rule i)
    (hj : outerInput c inner (copyIds pairs) i = .ok j) : h.Follows rule j := by
  obtain ⟨⟨-, htype⟩, ⟨rfl, hother⟩ | ⟨index, o, socket, hsource, ho, hsocket, hsame, hpassed⟩⟩ :=
    hr.outerInput_spec hi hj
  · refine ⟨fun p hp => ?_, hi.literal⟩
    obtain ⟨hvalue, o, ho, hfits⟩ := hi.source p hp
    obtain ⟨r, hr', hrtype⟩ := hr.output_outside (hother p hp) ho
    exact ⟨hvalue, r, hr', by rw [hrtype]; exact hfits⟩
  · obtain ⟨-, o', ho', hfits⟩ := hi.source _ hsource
    obtain rfl := Option.some.inj (ho.symm.trans ho')
    rw [← hsame] at hfits
    exact hr.follows_passed hrule hg hinner (i := { i with source := none }) (List.mem_of_getElem? hsocket) hfits htype
      hpassed

theorem follows_inner (hrule : Composable rule) (hg : g.Obeys rule) (hi : inner.Follows rule i)
    (hj : innerInput c inner (copyIds pairs) i = .ok j) : h.Follows rule j := by
  obtain ⟨⟨-, htype⟩, ⟨rfl, hfree⟩ | ⟨p, hp, hcarried⟩⟩ := hr.innerInput_spec hi hj
  · refine ⟨fun p hp => ?_, hi.literal⟩
    rw [hfree] at hp
    cases hp
  · obtain ⟨-, o, ho, hfits⟩ := hi.source p hp
    exact hr.follows_carried hrule hg (i := { i with source := none }) ho hfits htype hcarried

/-- Replacing a compound keeps every rule that composes along connections. -/
theorem obeys_inlined (hrule : Composable rule) (hg : g.Obeys rule) (hinner : inner.Obeys rule) : h.Obeys rule := by
  intro target j hj
  obtain ⟨owner, index⟩ := target
  cases owner with
  | graph =>
    obtain ⟨i, hi, hij⟩ := exists_of_forall₂ hr.sockets (List.mem_of_getElem? hj)
    exact hr.follows_outer hrule hg hinner (hg.of_socket hi) hij
  | node id =>
    obtain ⟨m, hm, hj⟩ := Option.bind_eq_some_iff.mp hj
    rcases hr.node_cases hr.coherent.distinct (mem_of_node? hm) with ⟨n, hn, -, hreplaces⟩ | ⟨p, hp, hreplaces⟩
    · obtain ⟨i, hi, hij⟩ := exists_of_forall₂ hreplaces.inputs (List.mem_of_getElem? hj)
      exact hr.follows_outer hrule hg hinner (hg.of_node hr.coherent.distinct hn hi) hij
    · obtain ⟨i, hi, hij⟩ := exists_of_forall₂ hreplaces.inputs (List.mem_of_getElem? hj)
      exact hr.follows_inner hrule hg (hinner.of_node hr.coherent_inner.distinct (hr.mem_inner hp) hi) hij

/-! ## Coherence -/

theorem accepts_inlined : h.Obeys fun source channels target => compatible source channels target :=
  hr.obeys_inlined compatible_composeChannels hr.coherent.accepts hr.coherent_inner.accepts

theorem coherent_inlined : h.Coherent where
  toPaired := hr.paired
  bare {target j} hj hs := by
    obtain ⟨p, hp⟩ := Option.isSome_iff_exists.mp hs
    exact ((hr.accepts_inlined _ _ hj).source p hp).1
  fits {target j p o} hj hp ho := by
    obtain ⟨-, o', ho', hfits⟩ := (hr.accepts_inlined _ _ hj).source p hp
    obtain rfl := Option.some.inj (ho.symm.trans ho')
    exact hfits
  acyclic := hr.not_cyclic hr.coherent.toPaired hr.mem hr.coherent_inner.toPaired hr.coherent.acyclic
    hr.coherent_inner.acyclic
  literal hj hv := (hr.accepts_inlined _ _ hj).literal _ hv
  preset := by
    intro s hs v hv
    have hsockets := congrArg Graph.inputSockets hr.frame
    have hmem : s.frame ∈ h.frame.inputSockets := List.mem_map_of_mem hs
    rw [hsockets] at hmem
    obtain ⟨t, ht, hframe⟩ := List.mem_map.mp hmem
    have hvalue : s.frame.value = t.frame.value := by rw [hframe]
    have htype : s.frame.type = t.frame.type := by rw [hframe]
    exact (hr.coherent.preset t ht v (hvalue.symm.trans hv)).trans htype.symm
  compound := by
    intro m hm name function k himplementation
    rcases hr.kind_cases hr.coherent.distinct hm with ⟨n, hn, hkind⟩ | ⟨n, hn, hkind⟩
    · have hn' := implementation_of_kind hkind himplementation
      exact (hr.coherent.compound n hn name function k hn').of_kind hkind
    · have hn' := implementation_of_kind hkind himplementation
      exact (hr.coherent_inner.compound n hn name function k hn').of_kind hkind

end Replacement

end Graph
end ShadeGraph
