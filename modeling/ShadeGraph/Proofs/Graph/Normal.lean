import Mathlib.Algebra.Ring.Nat
import ShadeGraph.Proofs.Graph.Flatten
import ShadeGraph.Proofs.Text.Fresh

/-!
# Flattening ends in a normal form

The *parts* of a graph are its nodes and those of the graphs inside of it, at every depth. Replacing a compound takes
one compound from the parts and leaves the others, so the loop ends after as many replacements as there are compounds.
What is left are the parts that are no compounds. Along the way every node can be traced back to the node of the first
graph that it comes from: to itself, or to the compound that it was inside of, at whatever depth.
-/

namespace ShadeGraph

mutual

/-- The nodes of a graph and of the graphs inside of it. -/
def Graph.parts : Graph → List Node
  | ⟨_, _, _, nodes, _, _⟩ => Graph.partsOf nodes

def Graph.partsOf : List Node → List Node
  | [] => []
  | ⟨id, name, category, nodedef, traits, inputs, outputs, implementation, scope⟩ :: rest =>
    ⟨id, name, category, nodedef, traits, inputs, outputs, implementation, scope⟩ ::
      (implementation.parts ++ Graph.partsOf rest)

def Implementation.parts : Implementation → List Node
  | .compound _ _ graph => graph.parts
  | .source _ => []
  | .procedural _ => []

end

mutual

theorem Graph.length_parts : ∀ g : Graph, g.parts.length = g.weight
  | ⟨_, _, _, nodes, _, _⟩ => by
    rw [Graph.parts, Graph.weight]
    exact Graph.length_partsOf nodes

theorem Graph.length_partsOf : ∀ nodes : List Node, (Graph.partsOf nodes).length = Graph.weightOf nodes
  | [] => by rw [Graph.partsOf, Graph.weightOf, List.length_nil]
  | ⟨_, _, _, _, _, _, _, implementation, _⟩ :: rest => by
    rw [Graph.partsOf, Graph.weightOf, List.length_cons, List.length_append, Implementation.length_parts implementation,
      Graph.length_partsOf rest]
    omega

theorem Implementation.length_parts : ∀ i : Implementation, i.parts.length = i.weight
  | .compound _ _ graph => by
    rw [Implementation.parts, Implementation.weight]
    exact Graph.length_parts graph
  | .source _ => by rw [Implementation.parts, Implementation.weight, List.length_nil]
  | .procedural _ => by rw [Implementation.parts, Implementation.weight, List.length_nil]

end

namespace Node

variable {n m : Node}

def parts (n : Node) : List Node := n :: n.implementation.parts

/-- The kinds of those parts that are no compounds. -/
def leaves (n : Node) : List Kind := (n.parts.filter fun m => !m.implementation.isCompound).map kind

/-- The number of those parts that are compounds. -/
def compounds (n : Node) : Nat := n.parts.countP fun m => m.implementation.isCompound

end Node

namespace Graph

variable {g : Graph} {n m : Node}

def leaves (g : Graph) : List Kind := g.nodes.flatMap Node.leaves

def compounds (g : Graph) : Nat := (g.nodes.map Node.compounds).sum

theorem partsOf_eq (nodes : List Node) : partsOf nodes = nodes.flatMap Node.parts := by
  induction nodes with
  | nil => simp [partsOf]
  | cons n nodes ih =>
    cases n
    simp [partsOf, ih, Node.parts]

theorem parts_eq (g : Graph) : g.parts = g.nodes.flatMap Node.parts := by
  cases g
  rw [parts, partsOf_eq]

theorem leaves_eq (g : Graph) : g.leaves = (g.parts.filter fun m => !m.implementation.isCompound).map Node.kind := by
  rw [leaves, parts_eq, List.filter_flatMap, List.map_flatMap]
  rfl

theorem compounds_eq (g : Graph) : g.compounds = g.parts.countP fun m => m.implementation.isCompound := by
  rw [compounds, parts_eq, List.countP_flatMap]
  rfl

theorem compounds_le_weight (g : Graph) : g.compounds ≤ g.weight := by
  rw [compounds_eq, ← length_parts]
  exact List.countP_le_length

end Graph

namespace Node

variable {n m : Node} {name function : String} {inner : Graph}

theorem leaves_of_kind (h : m.kind = n.kind) : m.leaves = n.leaves := by
  have himplementation : m.implementation = n.implementation := congrArg Kind.implementation h
  simp only [leaves, parts, himplementation, List.filter_cons]
  split <;> simp [h]

theorem compounds_of_kind (h : m.kind = n.kind) : m.compounds = n.compounds := by
  have himplementation : m.implementation = n.implementation := congrArg Kind.implementation h
  simp only [compounds, parts, himplementation, List.countP_cons]

theorem leaves_of_compound (h : n.implementation = .compound name function inner) : n.leaves = inner.leaves := by
  simp [leaves, parts, h, Implementation.isCompound, Implementation.parts, Graph.leaves_eq]

theorem compounds_of_compound (h : n.implementation = .compound name function inner) :
    n.compounds = inner.compounds + 1 := by
  simp [compounds, parts, h, Implementation.isCompound, Implementation.parts, Graph.compounds_eq]

theorem parts_of_not_compound (h : n.implementation.isCompound = false) : n.parts = [n] := by
  cases himplementation : n.implementation with
  | compound name function inner => simp [himplementation, Implementation.isCompound] at h
  | source _ => simp [parts, himplementation, Implementation.parts]
  | procedural _ => simp [parts, himplementation, Implementation.parts]

theorem leaves_of_not_compound (h : n.implementation.isCompound = false) : n.leaves = [n.kind] := by
  simp [leaves, parts_of_not_compound h, h]

theorem compounds_of_not_compound (h : n.implementation.isCompound = false) : n.compounds = 0 := by
  simp [compounds, parts_of_not_compound h, h]

theorem leaves_frame (n : Node) : n.frame.leaves = n.leaves := leaves_of_kind n.kind_frame

theorem name_of_frame (h : m.frame = n.frame) : m.name = n.name := by
  have hname : m.frame.name = n.frame.name := by rw [h]
  exact hname

end Node

namespace Graph

open Rewiring

variable {g h : Graph} {n c : Node} {inner : Graph} {s s' : Graph × IdSupply} {ids : IdSupply}

/-! ## One replacement -/

theorem names_of_copyNodes (nodes : List Node) : ∀ {s : Graph × IdSupply} {copies s'},
    nodes.mapM (copyNode c) s = .ok copies s' →
      ∃ new, s'.1.nodes = s.1.nodes ++ new ∧ (∀ n ∈ new, ∃ rest, n.name = c.name ++ "_" ++ rest) ∧
        ((s.1.nodes.map Node.name).Nodup → (s'.1.nodes.map Node.name).Nodup) := by
  induction nodes with
  | nil =>
    intro s copies s' h
    obtain ⟨-, rfl⟩ := state_pure_eq_ok.mp h
    exact ⟨[], (List.append_nil _).symm, by simp, id⟩
  | cons n nodes ih =>
    intro s copies s' h
    rw [List.mapM_cons] at h
    obtain ⟨p, s₁, hcopy, h₁⟩ := state_bind_eq_ok.mp h
    obtain ⟨ps, s₂, hrest, h₂⟩ := state_bind_eq_ok.mp h₁
    obtain ⟨-, rfl⟩ := state_pure_eq_ok.mp h₂
    obtain ⟨id, t, hfresh, h₃⟩ := state_bind_eq_ok.mp hcopy
    cases hfresh
    obtain ⟨_, t', hupdate, h₄⟩ := state_bind_eq_ok.mp h₃
    obtain rfl := update_eq_ok.mp hupdate
    obtain ⟨-, rfl⟩ := state_pure_eq_ok.mp h₄
    obtain ⟨new, hnodes, hnames, hnodup⟩ := ih hrest
    let m := n.detached s.2.fresh.1 (s.1.freshNodeName (c.name ++ "_" ++ n.name))
    refine ⟨m :: new, ?_, ?_, ?_⟩
    · rw [hnodes]
      simp [addNode, m, Node.detached]
    · intro x hx
      rcases List.mem_cons.mp hx with rfl | hx
      · obtain ⟨suffix, hsuffix⟩ := Text.freshName_eq_append (s.1.nodes.map Node.name) (c.name ++ "_" ++ n.name)
        exact ⟨n.name ++ suffix, hsuffix.trans String.append_assoc⟩
      · exact hnames x hx
    · intro hs
      refine hnodup ?_
      have hnew : m.name ∉ s.1.nodes.map Node.name := Text.freshName_not_mem _ _
      change ((s.1.nodes ++ [m]).map Node.name).Nodup
      rw [List.map_append, List.map_singleton, ← List.concat_eq_append]
      exact hs.concat hnew

theorem frame_inlineCompound {a : Unit} (hpick : Function.Injective s.2.pick)
    (h : inlineCompound c inner s = .ok a s') :
    ∃ pairs s₁, Copying inner.nodes pairs (s.1.removeNode c.id, s.2) s₁ ∧ s'.2 = s₁.2 ∧
      (∀ p ∈ pairs, ∃ rest, p.2.name = c.name ++ "_" ++ rest) ∧
      s'.1.frame = ((s.1.dropNode c.id).addNodes (pairs.map Prod.snd)).frame := by
  obtain ⟨copies, s₁, hcopy, hrest⟩ := inlineCompound_steps h
  obtain ⟨pairs, -, hcopying⟩ := copying_of_copyNodes (s := (s.1.removeNode c.id, s.2)) inner.nodes hpick hcopy
  obtain ⟨new, hnodes, hnames, -⟩ := names_of_copyNodes inner.nodes hcopy
  obtain ⟨hframe, hids⟩ := frame_rewireAll hrest
  refine ⟨pairs, s₁, hcopying, hids, ?_, ?_⟩
  · rw [hcopying.graph, addNodes, List.append_cancel_left_eq] at hnodes
    exact fun p hp => hnames p.2 (hnodes ▸ List.mem_map_of_mem hp)
  · rw [hframe, hcopying.graph, frame_addNodes, frame_removeNode, ← frame_addNodes]

theorem nodes_of_frame {nodes : List Node} (hframe : h.frame = ((g.dropNode c.id).addNodes nodes).frame) :
    h.nodes.map Node.frame = (g.nodes.filter (fun n => n.id != c.id) ++ nodes).map Node.frame :=
  congrArg Graph.nodes hframe

section
variable {nodes : List Node}
  (hnodes : h.nodes.map Node.frame = (g.nodes.filter (fun n => n.id != c.id) ++ nodes).map Node.frame)
include hnodes

theorem old_or_new_of_frames (hn : n ∈ h.nodes) :
    (∃ m ∈ g.nodes, n.frame = m.frame) ∨ ∃ m ∈ nodes, n.frame = m.frame := by
  have hmem := List.mem_map_of_mem (f := Node.frame) hn
  rw [hnodes] at hmem
  obtain ⟨m, hm, hmn⟩ := List.mem_map.mp hmem
  rcases List.mem_append.mp hm with hm | hm
  · exact .inl ⟨m, (List.mem_filter.mp hm).1, hmn.symm⟩
  · exact .inr ⟨m, hm, hmn.symm⟩

theorem stays_of_frames {m : Node} (hm : m ∈ g.nodes) (hne : m.id ≠ c.id) : ∃ n ∈ h.nodes, n.frame = m.frame := by
  have hmem : m.frame ∈ h.nodes.map Node.frame := by
    rw [hnodes]
    exact List.mem_map_of_mem (List.mem_append_left _ (List.mem_filter.mpr ⟨hm, by simpa using hne⟩))
  exact List.mem_map.mp hmem

end

theorem perm_cons_filter (hg : g.Distinct) (hc : c ∈ g.nodes) :
    g.nodes.Perm (c :: g.nodes.filter fun n => n.id != c.id) := by
  obtain ⟨before, after, hnodes⟩ := List.append_of_mem hc
  have hnodup : (before.map Node.id ++ c.id :: after.map Node.id).Nodup := by
    have hids : g.ids.Nodup := hg
    rwa [ids, hnodes, List.map_append, List.map_cons] at hids
  rw [List.nodup_append, List.nodup_cons] at hnodup
  have hbefore : before.filter (fun n => n.id != c.id) = before := by
    rw [List.filter_eq_self]
    intro n hn
    simpa using hnodup.2.2 n.id (List.mem_map_of_mem hn) c.id List.mem_cons_self
  have hafter : after.filter (fun n => n.id != c.id) = after := by
    rw [List.filter_eq_self]
    intro n hn
    have hne : n.id ≠ c.id := fun heq => hnodup.2.1.1 (heq ▸ List.mem_map_of_mem hn)
    simpa using hne
  rw [hnodes, List.filter_append, List.filter_cons, hbefore, hafter]
  simp

theorem map_kind_copies {nodes : List Node} {pairs : List (Node × Node)} {t t' : Graph × IdSupply}
    (h : Copying nodes pairs t t') : (pairs.map Prod.snd).map Node.kind = nodes.map Node.kind := by
  rw [← h.originals, List.map_map, List.map_map]
  refine List.map_congr_left fun p hp => ?_
  obtain ⟨id, name, heq⟩ := h.detached p hp
  simp only [Function.comp_apply]
  rw [heq, Node.kind_detached]

theorem map_congr_of_kind {α : Type} {f : Node → α} (hf : ∀ m n : Node, m.kind = n.kind → f m = f n)
    {nodes nodes' : List Node} (h : nodes.map Node.kind = nodes'.map Node.kind) : nodes.map f = nodes'.map f := by
  induction nodes generalizing nodes' with
  | nil => rw [List.map_eq_nil_iff.mp h.symm]
  | cons n nodes ih =>
    obtain ⟨m, rest, rfl, hm, hrest⟩ := List.map_eq_cons_iff.mp h.symm
    rw [List.map_cons, List.map_cons, ih hrest.symm, hf n m hm.symm]

theorem map_kind_of_frame {nodes nodes' : List Node} (h : nodes.map Node.frame = nodes'.map Node.frame) :
    nodes.map Node.kind = nodes'.map Node.kind := by
  have hkinds := congrArg (List.map Node.kind) h
  rw [List.map_map, List.map_map] at hkinds
  have hframe : Node.kind ∘ Node.frame = Node.kind := funext Node.kind_frame
  rwa [hframe] at hkinds

theorem compounds_inlineCompound {a : Unit} {name function : String} (hpick : Function.Injective s.2.pick)
    (hs : s.1.Distinct) (hc : c ∈ s.1.nodes) (himplementation : c.implementation = .compound name function inner)
    (h : inlineCompound c inner s = .ok a s') : s'.1.compounds + 1 = s.1.compounds := by
  obtain ⟨pairs, s₁, hcopying, -, -, hframe⟩ := frame_inlineCompound hpick h
  have hafter : s'.1.compounds =
      ((s.1.nodes.filter fun n => n.id != c.id).map Node.compounds).sum + inner.compounds := by
    rw [compounds, map_congr_of_kind (fun _ _ => Node.compounds_of_kind) (map_kind_of_frame (nodes_of_frame hframe)),
      List.map_append, List.sum_append,
      map_congr_of_kind (fun _ _ => Node.compounds_of_kind) (map_kind_copies hcopying), ← compounds]
  have hbefore : s.1.compounds = c.compounds + ((s.1.nodes.filter fun n => n.id != c.id).map Node.compounds).sum := by
    rw [compounds, ((perm_cons_filter hs hc).map Node.compounds).sum_nat, List.map_cons, List.sum_cons]
  rw [hafter, hbefore, Node.compounds_of_compound himplementation]
  omega

/-! ## The loop -/

/-- The loop that replaces the first compound as long as there is one, with the number of replacements that it tries. -/
inductive Loop : Graph × IdSupply → Nat → EStateM.Result Error (Graph × IdSupply) Unit → Prop
  | done {s : Graph × IdSupply} : firstCompound? s.1.nodes = none → Loop s 0 (.ok () s)
  | fail {s s' : Graph × IdSupply} {c : Node} {inner : Graph} {e : Error} :
    firstCompound? s.1.nodes = some (c, inner) → inlineCompound c inner s = .error e s' → Loop s 1 (.error e s')
  | step {s s₁ : Graph × IdSupply} {c : Node} {inner : Graph} {k : Nat}
    {r : EStateM.Result Error (Graph × IdSupply) Unit} :
    firstCompound? s.1.nodes = some (c, inner) → inlineCompound c inner s = .ok () s₁ → Loop s₁ k r → Loop s (k + 1) r

theorem compounds_eq_zero_iff : g.compounds = 0 ↔ firstCompound? g.nodes = none := by
  rw [compounds, List.sum_eq_zero_iff_forall_eq_nat]
  constructor
  · intro hzero
    cases hfirst : firstCompound? g.nodes with
    | none => rfl
    | some found =>
      obtain ⟨hc, name, function, himplementation⟩ := of_firstCompound? hfirst
      have hnone := hzero _ (List.mem_map_of_mem hc)
      rw [Node.compounds_of_compound himplementation] at hnone
      cases hnone
  · intro hnone k hk
    obtain ⟨n, hn, rfl⟩ := List.mem_map.mp hk
    exact Node.compounds_of_not_compound (firstCompound?_eq_none hnone n hn)

theorem inlineUpTo_succ_eq (count : Nat) (s : Graph × IdSupply) :
    inlineUpTo (count + 1) s = (match firstCompound? s.1.nodes with
      | none => (pure () : Rewiring Unit)
      | some (compound, inner) => do
        inlineCompound compound inner
        inlineUpTo count) s := rfl

theorem inlineUpTo_of_none (count : Nat) (h : firstCompound? s.1.nodes = none) : inlineUpTo count s = .ok () s := by
  cases count with
  | zero => rfl
  | succ count =>
    rw [inlineUpTo_succ_eq, h]
    rfl

theorem inlineUpTo_of_some (count : Nat) (h : firstCompound? s.1.nodes = some (c, inner)) :
    inlineUpTo (count + 1) s = match inlineCompound c inner s with
      | .ok _ s₁ => inlineUpTo count s₁
      | .error e s₁ => .error e s₁ := by
  rw [inlineUpTo_succ_eq, h]
  change EStateM.bind (inlineCompound c inner) (fun _ => inlineUpTo count) s = _
  unfold EStateM.bind
  cases inlineCompound c inner s <;> rfl

/-- The bounded loop is the loop, as long as the bound is no less than the number of compounds. -/
theorem loop_inlineUpTo (count : Nat) : ∀ {s : Graph × IdSupply}, Function.Injective s.2.pick → s.1.Owned s.2 →
    s.1.compounds ≤ count → ∃ k ≤ s.1.compounds, Loop s k (inlineUpTo count s) ∧
      ∀ s', inlineUpTo count s = .ok () s' → k = s.1.compounds := by
  induction count with
  | zero =>
    intro s _ _ hcount
    have hnone := compounds_eq_zero_iff.mp (Nat.le_zero.mp hcount)
    exact ⟨0, Nat.zero_le _, .done hnone, fun _ _ => (Nat.le_zero.mp hcount).symm⟩
  | succ count ih =>
    intro s hpick hs hcount
    cases hfirst : firstCompound? s.1.nodes with
    | none =>
      rw [inlineUpTo_of_none _ hfirst]
      exact ⟨0, Nat.zero_le _, .done hfirst, fun _ _ => (compounds_eq_zero_iff.mpr hfirst).symm⟩
    | some found =>
      obtain ⟨c, inner⟩ := found
      obtain ⟨hc, name, function, himplementation⟩ := of_firstCompound? hfirst
      rw [inlineUpTo_of_some _ hfirst]
      cases hinline : inlineCompound c inner s with
      | error e s₁ =>
        refine ⟨1, ?_, .fail hfirst hinline, fun s' h => by cases h⟩
        by_contra hlt
        rw [compounds_eq_zero_iff.mp (by omega)] at hfirst
        cases hfirst
      | ok a s₁ =>
        have hless := compounds_inlineCompound hpick hs.distinct hc himplementation hinline
        have hlater := (weight_inlineCompound hpick hc himplementation hinline).2
        obtain ⟨k, hk, hloop, hexact⟩ :=
          ih (hlater.injective hpick) (owned_inlineCompound hpick hs hinline) (by omega)
        refine ⟨k + 1, by omega, .step hfirst hinline hloop, fun s' h => ?_⟩
        rw [hexact s' h, hless]

/-! ## Names -/

theorem map_name_of_frame {nodes nodes' : List Node} (h : nodes.map Node.frame = nodes'.map Node.frame) :
    nodes.map Node.name = nodes'.map Node.name := by
  have hnames := congrArg (List.map Node.name) h
  rw [List.map_map, List.map_map] at hnames
  exact hnames

theorem names_inlineCompound {a : Unit} (h : inlineCompound c inner s = .ok a s')
    (hs : (s.1.nodes.map Node.name).Nodup) : (s'.1.nodes.map Node.name).Nodup := by
  obtain ⟨copies, s₁, hcopy, hrest⟩ := inlineCompound_steps h
  obtain ⟨-, -, -, hnodup⟩ := names_of_copyNodes inner.nodes hcopy
  have hkeeps := congrArg Graph.nodes (frame_rewireAll hrest).1
  rw [map_name_of_frame hkeeps]
  refine hnodup ?_
  have hremoved := congrArg Graph.nodes (frame_removeNode s.1 c.id)
  rw [map_name_of_frame hremoved]
  exact hs.sublist (List.filter_sublist.map Node.name)

/-! ## Where nodes come from -/

/-- The leaves of the nodes whose identities have some property. -/
def share (p : NodeId → Bool) (nodes : List Node) : List Kind := (nodes.filter fun n => p n.id).flatMap Node.leaves

theorem share_append (p : NodeId → Bool) (nodes nodes' : List Node) :
    share p (nodes ++ nodes') = share p nodes ++ share p nodes' := by
  simp [share]

theorem share_perm (p : NodeId → Bool) {nodes nodes' : List Node} (h : nodes.Perm nodes') :
    (share p nodes).Perm (share p nodes') := (h.filter _).flatMap_right _

theorem share_of_frame (p : NodeId → Bool) {nodes nodes' : List Node}
    (h : nodes.map Node.frame = nodes'.map Node.frame) : share p nodes = share p nodes' := by
  have hframe : ∀ l : List Node, share p (l.map Node.frame) = share p l := by
    intro l
    rw [share, List.filter_map, List.flatMap_map]
    exact congrArg (fun f => List.flatMap f _) (funext Node.leaves_frame)
  rw [← hframe nodes, h, hframe]

theorem share_congr {p q : NodeId → Bool} {nodes : List Node} (h : ∀ n ∈ nodes, p n.id = q n.id) :
    share p nodes = share q nodes := by
  rw [share, share, List.filter_congr h]

theorem share_of_forall {p : NodeId → Bool} {nodes : List Node} (h : ∀ n ∈ nodes, p n.id = true) :
    share p nodes = nodes.flatMap Node.leaves := by
  rw [share, List.filter_eq_self.mpr h]

theorem share_of_forall_not {p : NodeId → Bool} {nodes : List Node} (h : ∀ n ∈ nodes, p n.id = false) :
    share p nodes = [] := by
  rw [share, List.filter_eq_nil_iff.mpr fun n hn => by simp [h n hn]]
  rfl

/-- Nodes traced back to a first graph, whose identities come from a supply: its own nodes are still what they were, and
the others come from one of its compounds, with a name that says so. Of every node of the first graph there are as many
leaves as it had. -/
structure Traced (g : Graph) (ids : IdSupply) (origin : NodeId → NodeId) (s : Graph × IdSupply) : Prop where
  owned : s.1.Owned s.2
  later : ids.Later s.2
  self : ∀ id, ids.Issued id → origin id = id
  old : ∀ n ∈ s.1.nodes, ids.Issued n.id → ∃ m ∈ g.nodes, n.frame = m.frame
  new : ∀ n ∈ s.1.nodes, ¬ ids.Issued n.id → ∃ m ∈ g.nodes, m.id = origin n.id ∧ ∃ rest, n.name = m.name ++ "_" ++ rest
  kept : ∀ n ∈ g.nodes, n.implementation.isCompound = false → ∃ m ∈ s.1.nodes, m.frame = n.frame
  shares : ∀ n ∈ g.nodes, (share (fun id => origin id == n.id) s.1.nodes).Perm n.leaves
  leaves : s.1.leaves.Perm g.leaves
  inputs : s.1.inputSockets.map Output.frame = g.inputSockets.map Output.frame
  outputs : s.1.outputSockets.map Input.frame = g.outputSockets.map Input.frame

theorem share_cons (p : NodeId → Bool) (n : Node) (nodes : List Node) :
    share p (n :: nodes) = (if p n.id then n.leaves else []) ++ share p nodes := by
  rw [share, share, List.filter_cons]
  split <;> simp

theorem traced_start (hg : g.Owned ids) : Traced g ids id (g, ids) where
  owned := hg
  later := .refl ids
  self _ _ := rfl
  old n hn _ := ⟨n, hn, rfl⟩
  new n hn hnot := absurd (hg.issued n.id (mem_ids_of_mem hn)) hnot
  kept n hn _ := ⟨n, hn, rfl⟩
  shares n hn := by
    refine (share_perm _ (perm_cons_filter hg.distinct hn)).trans ?_
    rw [share_cons, share_of_forall_not]
    · simp
    · intro m hm
      simpa using (List.mem_filter.mp hm).2
  leaves := .refl _
  inputs := rfl
  outputs := rfl

/-- The leaves of a compound are those of the copies that take its place. -/
theorem share_inlined {p q : NodeId → Bool} {pairs : List (Node × Node)} {t t' : Graph × IdSupply}
    {name function : String} (hg : g.Distinct) (hc : c ∈ g.nodes)
    (himplementation : c.implementation = .compound name function inner) (hcopying : Copying inner.nodes pairs t t')
    (hnodes : h.nodes.map Node.frame
      = (g.nodes.filter (fun n => n.id != c.id) ++ pairs.map Prod.snd).map Node.frame)
    (hold : ∀ n ∈ g.nodes, q n.id = p n.id) (hnew : ∀ x ∈ pairs, q x.2.id = p c.id) :
    (share q h.nodes).Perm (share p g.nodes) := by
  have hkept : share q (g.nodes.filter fun n => n.id != c.id) = share p (g.nodes.filter fun n => n.id != c.id) :=
    share_congr fun n hn => hold n (List.mem_filter.mp hn).1
  have hcopies : share q (pairs.map Prod.snd) = if p c.id then c.leaves else [] := by
    have hleaves : (pairs.map Prod.snd).flatMap Node.leaves = c.leaves := by
      rw [Node.leaves_of_compound himplementation, leaves, List.flatMap_def, List.flatMap_def,
        map_congr_of_kind (fun _ _ => Node.leaves_of_kind) (map_kind_copies hcopying)]
    have hsame : ∀ n ∈ pairs.map Prod.snd, q n.id = p c.id := by
      intro n hn
      obtain ⟨x, hx, rfl⟩ := List.mem_map.mp hn
      exact hnew x hx
    cases hp : p c.id with
    | true => rw [share_of_forall (fun n hn => (hsame n hn).trans hp), hleaves, if_pos rfl]
    | false => rw [share_of_forall_not (fun n hn => (hsame n hn).trans hp), if_neg Bool.false_ne_true]
  rw [share_of_frame q hnodes, share_append, hkept, hcopies]
  refine List.perm_append_comm.trans ?_
  rw [← share_cons]
  exact (share_perm p (perm_cons_filter hg hc)).symm

variable {origin : NodeId → NodeId}

theorem Traced.source (h : Traced g ids origin s) (hn : n ∈ s.1.nodes) :
    ∃ m ∈ g.nodes, m.id = origin n.id ∧ (n.name = m.name ∨ ∃ rest, n.name = m.name ++ "_" ++ rest) := by
  by_cases hissued : ids.Issued n.id
  · obtain ⟨m, hm, hframe⟩ := h.old n hn hissued
    refine ⟨m, hm, ?_, .inl (Node.name_of_frame hframe)⟩
    rw [h.self n.id hissued, Node.id_of_frame hframe]
  · obtain ⟨m, hm, hid, hname⟩ := h.new n hn hissued
    exact ⟨m, hm, hid, .inr hname⟩

theorem Traced.source_of_copy (h : Traced g ids origin s) (hc : c ∈ s.1.nodes) (rest : String) :
    ∃ m ∈ g.nodes, m.id = origin c.id ∧ ∃ rest', c.name ++ "_" ++ rest = m.name ++ "_" ++ rest' := by
  obtain ⟨m, hm, hid, hname⟩ := h.source hc
  refine ⟨m, hm, hid, ?_⟩
  rcases hname with hname | ⟨rest', hname⟩
  · exact ⟨rest, by rw [hname]⟩
  · exact ⟨rest' ++ "_" ++ rest, by simp only [hname, String.append_assoc]⟩

theorem Traced.step {a : Unit} {name function : String} (hpick : Function.Injective s.2.pick)
    (h : Traced g ids origin s) (hc : c ∈ s.1.nodes)
    (himplementation : c.implementation = .compound name function inner)
    (hinline : inlineCompound c inner s = .ok a s') : ∃ origin', Traced g ids origin' s' := by
  obtain ⟨pairs, s₁, hcopying, hids, hnames, hframe⟩ := frame_inlineCompound hpick hinline
  have hnodes := nodes_of_frame hframe
  let origin' : NodeId → NodeId := fun id => if id ∈ pairs.map (fun p => p.2.id) then origin c.id else origin id
  have hold : ∀ id, s.2.Issued id → origin' id = origin id := by
    intro id hid
    refine if_neg fun hmem => ?_
    obtain ⟨p, hp, rfl⟩ := List.mem_map.mp hmem
    exact hcopying.fresh p hp hid
  have hnew : ∀ p ∈ pairs, origin' p.2.id = origin c.id := fun p hp => if_pos (List.mem_map_of_mem hp)
  have hissued : ∀ n ∈ s.1.nodes, s.2.Issued n.id := fun n hn => h.owned.issued n.id (mem_ids_of_mem hn)
  have hcases : ∀ n ∈ s'.1.nodes, (∃ m ∈ s.1.nodes, n.frame = m.frame) ∨ ∃ p ∈ pairs, n.frame = p.2.frame := by
    intro n hn
    rcases old_or_new_of_frames hnodes hn with hold | ⟨m, hm, hnm⟩
    · exact .inl hold
    · obtain ⟨p, hp, rfl⟩ := List.mem_map.mp hm
      exact .inr ⟨p, hp, hnm⟩
  refine ⟨origin', owned_inlineCompound hpick h.owned hinline, ?_, ?_, ?_, ?_, ?_, ?_, ?_, ?_, ?_⟩
  · rw [hids]
    exact h.later.trans hcopying.later
  · intro id hid
    rw [hold id (h.later.issued hid), h.self id hid]
  · intro n hn hid
    rcases hcases n hn with ⟨m, hm, hnm⟩ | ⟨p, hp, hnp⟩
    · rw [hnm]
      exact h.old m hm (Node.id_of_frame hnm ▸ hid)
    · exact absurd (h.later.issued (Node.id_of_frame hnp ▸ hid)) (hcopying.fresh p hp)
  · intro n hn hid
    rcases hcases n hn with ⟨m, hm, hnm⟩ | ⟨p, hp, hnp⟩
    · rw [Node.id_of_frame hnm] at hid ⊢
      rw [hold m.id (hissued m hm), Node.name_of_frame hnm]
      exact h.new m hm hid
    · obtain ⟨rest, hrest⟩ := hnames p hp
      rw [Node.id_of_frame hnp, hnew p hp, Node.name_of_frame hnp, hrest]
      exact h.source_of_copy hc rest
  · intro n hn hleaf
    obtain ⟨m, hm, hmn⟩ := h.kept n hn hleaf
    have hne : m.id ≠ c.id := by
      intro hid
      obtain rfl := h.owned.distinct.eq_of_id hm hc hid
      have himpl : m.implementation = n.implementation := congrArg Kind.implementation (Node.kind_of_frame hmn)
      rw [← himpl, himplementation] at hleaf
      cases hleaf
    obtain ⟨m', hm', hframe'⟩ := stays_of_frames hnodes hm hne
    exact ⟨m', hm', hframe'.trans hmn⟩
  · intro n hn
    refine (share_inlined h.owned.distinct hc himplementation hcopying hnodes ?_ ?_).trans (h.shares n hn)
    · exact fun m hm => by rw [hold m.id (hissued m hm)]
    · exact fun p hp => by rw [hnew p hp]
  · have hall := share_inlined (p := fun _ => true) (q := fun _ => true) h.owned.distinct hc himplementation hcopying
      hnodes (fun _ _ => rfl) fun _ _ => rfl
    rw [share_of_forall fun _ _ => rfl, share_of_forall fun _ _ => rfl] at hall
    exact hall.trans h.leaves
  · exact (congrArg Graph.inputSockets hframe).trans h.inputs
  · exact (congrArg Graph.outputSockets hframe).trans h.outputs

/-! ## Normal forms -/

theorem flatMap_leaves_of_not_compound {nodes : List Node} (h : ∀ n ∈ nodes, n.implementation.isCompound = false) :
    nodes.flatMap Node.leaves = nodes.map Node.kind := by
  rw [List.flatMap_def, List.map_congr_left fun n hn => Node.leaves_of_not_compound (h n hn), ← List.flatMap_def]
  exact (List.map_eq_flatMap ..).symm

theorem flatten_of_not_compound (h : ∀ n ∈ s.1.nodes, n.implementation.isCompound = false) :
    flatten s = .ok () s := by
  have hzero : s.1.compounds = 0 := by
    rw [compounds, List.sum_eq_zero_iff_forall_eq_nat]
    intro k hk
    obtain ⟨n, hn, rfl⟩ := List.mem_map.mp hk
    exact Node.compounds_of_not_compound (h n hn)
  exact inlineUpTo_of_none s.1.weight (compounds_eq_zero_iff.mp hzero)

theorem traced_flatten (hpick : Function.Injective ids.pick) (hg : g.Owned ids) (h : flatten (g, ids) = .ok () s') :
    ∃ origin, Traced g ids origin s' := by
  refine (flatten_keeps (P := fun s => ∃ origin, Traced g ids origin s) ?_ hpick ⟨id, traced_start hg⟩ h).2
  rintro s c inner name function a s' hpick ⟨origin, htraced⟩ hc himplementation hinline
  exact htraced.step hpick hc himplementation hinline

theorem names_flatten (hpick : Function.Injective ids.pick) (h : flatten (g, ids) = .ok () s')
    (hg : (g.nodes.map Node.name).Nodup) : (s'.1.nodes.map Node.name).Nodup :=
  (flatten_keeps (P := fun s => (s.1.nodes.map Node.name).Nodup)
    (fun _ hnames _ _ hinline => names_inlineCompound hinline hnames) hpick hg h).2

/-- **Flattening ends in a normal form.** The loop ends, well or with an error, after no more replacements than there
are compounds at every depth; when it ends well, it has made exactly so many. Then there is no compound left, so that
flattening again changes nothing. The sockets are what they were, up to what they are connected to. Every node that was
no compound is still there, every compound has been replaced by one new node for each leaf of its graph, with names that
begin with its own, and there is nothing else. Names that were distinct still are. -/
theorem flatten_normalizes (g : Graph) (ids : IdSupply) (hpick : Function.Injective ids.pick) (hg : g.Owned ids) :
    (∃ k ≤ g.compounds, Loop (g, ids) k (flatten (g, ids))) ∧
    ∀ g' ids', flatten (g, ids) = .ok () (g', ids') →
      Loop (g, ids) g.compounds (.ok () (g', ids')) ∧
      (∀ n ∈ g'.nodes, n.implementation.isCompound = false) ∧
      (∀ supply, flatten (g', supply) = .ok () (g', supply)) ∧
      g'.inputSockets.map Output.frame = g.inputSockets.map Output.frame ∧
      g'.outputSockets.map Input.frame = g.outputSockets.map Input.frame ∧
      (∀ n ∈ g.nodes, n.implementation.isCompound = false → ∃ m ∈ g'.nodes, m.frame = n.frame) ∧
      (g'.nodes.map Node.kind).Perm g.leaves ∧
      (∃ origin : NodeId → NodeId,
        (∀ m ∈ g'.nodes, ∃ n ∈ g.nodes, n.id = origin m.id) ∧
        (∀ n ∈ g.nodes, ((g'.nodes.filter fun m => origin m.id == n.id).map Node.kind).Perm n.leaves) ∧
        ∀ n ∈ g.nodes, n.implementation.isCompound = true → ∀ m ∈ g'.nodes, origin m.id = n.id →
          ¬ ids.Issued m.id ∧ ∃ rest, m.name = n.name ++ "_" ++ rest) ∧
      ((g.nodes.map Node.name).Nodup → (g'.nodes.map Node.name).Nodup) := by
  obtain ⟨k, hk, hloop, hexact⟩ := loop_inlineUpTo g.weight (s := (g, ids)) hpick hg (compounds_le_weight g)
  refine ⟨⟨k, hk, hloop⟩, fun g' ids' hflat => ?_⟩
  have hplain := isCompound_flatten hpick hflat
  obtain ⟨origin, htraced⟩ := traced_flatten hpick hg hflat
  refine ⟨?_, hplain, fun supply => flatten_of_not_compound hplain, htraced.inputs, htraced.outputs, htraced.kept, ?_,
    ⟨origin, ?_, ?_, ?_⟩, names_flatten hpick hflat⟩
  · have hk := hexact _ hflat
    rw [← hk, ← hflat]
    exact hloop
  · rw [← flatMap_leaves_of_not_compound hplain]
    exact htraced.leaves
  · intro m hm
    obtain ⟨n, hn, hid, -⟩ := htraced.source hm
    exact ⟨n, hn, hid⟩
  · intro n hn
    rw [← flatMap_leaves_of_not_compound fun m hm => hplain m (List.mem_filter.mp hm).1]
    exact htraced.shares n hn
  · intro n hn hcompound m hm horigin
    have hnew : ¬ ids.Issued m.id := by
      intro hissued
      obtain ⟨n', hn', hframe⟩ := htraced.old m hm hissued
      rw [htraced.self m.id hissued, Node.id_of_frame hframe] at horigin
      obtain rfl := hg.distinct.eq_of_id hn' hn horigin
      have himplementation : m.implementation = n'.implementation :=
        congrArg Kind.implementation (Node.kind_of_frame hframe)
      rw [← himplementation, hplain m hm] at hcompound
      cases hcompound
    obtain ⟨n', hn', hid, hname⟩ := htraced.new m hm hnew
    rw [hg.distinct.eq_of_id hn hn' (horigin.symm.trans hid.symm)]
    exact ⟨hnew, hname⟩

theorem lens_owned : lens.Owned { next := 2 } := by
  refine ⟨by decide +kernel, fun id hid => ?_⟩
  have hids : lens.ids = [⟨0⟩, ⟨1⟩] := by decide +kernel
  rw [hids] at hid
  rcases List.mem_pair.mp hid with rfl | rfl
  · exact ⟨0, by decide, rfl⟩
  · exact ⟨1, by decide, rfl⟩

theorem lens_normalizes :
    Function.Injective NodeId.mk ∧ lens.Owned { next := 2 } ∧ (lens.nodes.map Node.name).Nodup ∧ lens.compounds = 2 ∧
    ∃ g' ids', flatten (lens, { next := 2 }) = .ok () (g', ids') ∧
      Loop (lens, { next := 2 }) 2 (.ok () (g', ids')) ∧
      (∀ n ∈ g'.nodes, n.implementation.isCompound = false) ∧
      (∀ supply, flatten (g', supply) = .ok () (g', supply)) ∧
      (g'.nodes.map Node.kind).Perm lens.leaves ∧ (g'.nodes.map Node.name).Nodup := by
  have hpick : Function.Injective NodeId.mk := fun _ _ => NodeId.mk.inj
  have hnames : (lens.nodes.map Node.name).Nodup := by decide +kernel
  have hcompounds : lens.compounds = 2 := by decide +kernel
  have hends : (match flatten (lens, { next := 2 }) with
      | .ok _ _ => true
      | .error _ _ => false) = true := by decide +kernel
  cases hflat : flatten (lens, { next := 2 }) with
  | error e s => simp only [hflat, Bool.false_eq_true] at hends
  | ok a s =>
    obtain ⟨g', ids'⟩ := s
    obtain ⟨hloop, hplain, hagain, -, -, -, hleaves, -, hdistinct⟩ :=
      (flatten_normalizes lens { next := 2 } hpick lens_owned).2 g' ids' hflat
    rw [hcompounds] at hloop
    exact ⟨hpick, lens_owned, hnames, hcompounds, g', ids', rfl, hloop, hplain, hagain, hleaves, hdistinct hnames⟩

end Graph
end ShadeGraph
