import ShadeGraph.Proofs.Graph.Branches
import ShadeGraph.Proofs.Graph.Frame

/-!
# Nodes that feed no output

Nodes without a path to an output socket are not written, but they take part in the schedule and in the scopes. The
schedule of the other nodes does not depend on them: the search starts at the output sockets and meets no unused node.
The scopes do. An unused node that reads a used one needs it somewhere, and what it needs is merged with what the used
nodes need. So two graphs that differ in unused nodes only give the same scopes to the used ones exactly where this
makes no difference.
-/

namespace ShadeGraph

/-- The node apart from its readers and its place. -/
def Node.dry (n : Node) : Node := { n with outputs := n.outputs.map Output.frame, scope := .unknown }

namespace Graph

open Relation

variable {g h g₁ g₂ : Graph} {n m : Node} {id : NodeId}

/-- The graphs have the same output sockets and the same nodes that feed them. -/
structure SameUsed (g₁ g₂ : Graph) : Prop where
  sockets : g₁.outputSockets = g₂.outputSockets
  nodes : ∀ id, g₁.Feeds id ∨ g₂.Feeds id → (g₁.node? id).map Node.dry = (g₂.node? id).map Node.dry

/-- A node that feeds no output socket reads the node. -/
def ReadByUnused (g : Graph) (id : NodeId) : Prop := ∃ m ∈ g.nodes, ¬ g.Feeds m.id ∧ id ∈ m.sources

/-- The nodes that feed an output socket, in the order in which they are found. -/
def used (g : Graph) : List NodeId := g.reachable.toOption.getD []

def unusedWants (g : Graph) (id : NodeId) : List Scope := wantsOf (g.nodes.filter fun n => !g.used.contains n.id) id

/-- What the output sockets and the used nodes need of a node. -/
def usedWants (g : Graph) (id : NodeId) : List Scope := g.socketWants id ++ wantsOf (g.nodesOf g.used) id

def scope? (g : Graph) (id : NodeId) : Option Scope := (g.node? id).map Node.scope

/-! ## The same search -/

theorem SameUsed.symm (h : g₁.SameUsed g₂) : g₂.SameUsed g₁ :=
  ⟨h.sockets.symm, fun id hid => (h.nodes id hid.symm).symm⟩

theorem SameUsed.roots_eq (h : g₁.SameUsed g₂) : g₁.roots = g₂.roots := by rw [roots, roots, h.sockets]

theorem Feeds.mem_ids (h : g.Feeds id) : id ∈ g.ids := by
  obtain ⟨root, -, hroot, hpath⟩ := h
  rcases ReflTransGen.cases_tail hpath with rfl | ⟨a, -, hread⟩
  · exact hroot
  · exact hread.right

theorem SameUsed.exists_node (h : g₁.SameUsed g₂) (hid : g₁.Feeds id) (hn : g₁.node? id = some n) :
    ∃ m, g₂.node? id = some m ∧ m.dry = n.dry := by
  have hmap := h.nodes id (Or.inl hid)
  rw [hn, Option.map_some, eq_comm, Option.map_eq_some_iff] at hmap
  exact hmap

theorem sources_of_dry (h : m.dry = n.dry) : m.sources = n.sources := by
  have hsources : m.dry.sources = n.dry.sources := congrArg Node.sources h
  exact hsources

theorem SameUsed.feeds (h : g₁.SameUsed g₂) (hid : g₁.Feeds id) : g₂.Feeds id := by
  obtain ⟨root, hmem, hroot, hpath⟩ := hid
  have hknown : ∀ {a}, g₁.Feeds a → a ∈ g₂.ids := by
    intro a ha
    obtain ⟨n, hn⟩ := exists_node? ha.mem_ids
    obtain ⟨m, hm, -⟩ := h.exists_node ha hn
    exact mem_ids_of_node? hm
  have hstart : g₁.Feeds root := ⟨root, hmem, hroot, .refl⟩
  refine ⟨root, h.roots_eq ▸ hmem, hknown hstart, ?_⟩
  induction hpath with
  | refl => exact .refl
  | @tail a b hab hread ih =>
    have ha : g₁.Feeds a := ⟨root, hmem, hroot, hab⟩
    have hb := hknown (ha.of_reads hread)
    obtain ⟨n, hn, hsource, -⟩ := hread
    obtain ⟨m, hm, hdry⟩ := h.exists_node ha hn
    exact ih.tail ⟨m, hm, sources_of_dry hdry ▸ hsource, hb⟩

theorem SameUsed.feeds_iff (h : g₁.SameUsed g₂) : g₁.Feeds id ↔ g₂.Feeds id := ⟨h.feeds, h.symm.feeds⟩

theorem SameUsed.reachable (h : g₁.SameUsed g₂) {order : List NodeId} (hreach : g₁.reachable = .ok order) :
    g₂.reachable = .ok order := by
  -- On the way are used nodes and identities that neither graph knows.
  have hread : ∀ {id n source}, g₁.Feeds id → g₁.node? id = some n → source ∈ n.sources →
      source ∈ g₁.ids ∨ source ∈ g₂.ids → g₁.Feeds source := by
    intro id n source hid hn hsource hknown
    rcases hknown with hknown | hknown
    · exact hid.of_reads ⟨n, hn, hsource, hknown⟩
    · obtain ⟨m, hm, hdry⟩ := h.exists_node hid hn
      exact h.feeds_iff.mpr ((h.feeds hid).of_reads ⟨m, hm, sources_of_dry hdry ▸ hsource, hknown⟩)
  have hvisit : ∀ path order id order', (id ∈ g₁.ids ∨ id ∈ g₂.ids → g₁.Feeds id) →
      g₁.visit path order id = .ok order' → g₂.visit path order id = .ok order' := by
    refine visit_mono ?_ ?_
    · intro id hS hnone
      rw [node?_eq_none_iff] at hnone ⊢
      intro hknown
      exact hnone (hS (Or.inr hknown)).mem_ids
    · intro id hS n hn
      have hid := hS (Or.inl (mem_ids_of_node? hn))
      obtain ⟨m, hm, hdry⟩ := h.exists_node hid hn
      exact ⟨m, hm, sources_of_dry hdry, fun source hsource hknown => hread hid hn hsource hknown⟩
  rw [Graph.reachable, visitAll, ← h.roots_eq]
  refine except_foldlM_mono g₁.roots (fun order root hroot order' => hvisit [] order root order' ?_) [] order hreach
  rintro (hknown | hknown)
  · exact ⟨root, hroot, hknown, .refl⟩
  · exact h.feeds_iff.mpr ⟨root, h.roots_eq ▸ hroot, hknown, .refl⟩

/-! ## Scopes of used nodes -/

/-- What is known of a sorted graph with its scopes: the used nodes come first, in the order in which they are found. -/
structure Arranged (k : Graph) : Prop where
  distinct : k.Distinct
  scheduled : k.Scheduled
  solved : k.Solved
  found : k.reachable = .ok k.used
  mem_used : ∀ id, id ∈ k.used ↔ k.Feeds id
  split : ∃ rest, k.nodes = k.nodesOf k.used ++ rest ∧ ∀ n ∈ rest, ¬ k.Feeds n.id

theorem used_eq {order : List NodeId} (h : g.reachable = .ok order) : g.used = order := by rw [used, h]; rfl

theorem sameUsed_withScopes (hnode : ∀ id, h.node? id = g.node? id) (hsockets : h.outputSockets = g.outputSockets)
    (σ : NodeId → Scope) : g.SameUsed (h.withScopes σ) := by
  refine ⟨hsockets.symm, fun id _ => ?_⟩
  rw [node?_withScopes, hnode, Option.map_map]
  rfl

theorem arranged_of_sort (hg : g.Distinct) (hsort : g.sort = .ok h) :
    h.assignScopes.Arranged ∧ g.SameUsed h.assignScopes := by
  obtain ⟨σ, heq, hdistinct, hsched, hsolved⟩ := assignScopes_of_sort hg hsort
  obtain ⟨hperm, hrest, -, -⟩ := isSortOf_of_sort hg hsort
  have hnode := hg.node?_perm hperm
  have hsame : g.SameUsed (h.withScopes σ) := sameUsed_withScopes hnode (by rw [hrest]) σ
  obtain ⟨front, back, hh, -, hall, hfront, hback, hreach⟩ := order_of_sort hsort
  have hfound := hsame.reachable hreach
  have hused : (h.withScopes σ).used = front := used_eq hfound
  have hlookup : ∀ ids, (h.withScopes σ).nodesOf ids = rescoped σ (g.nodesOf ids) := by
    intro ids
    rw [nodesOf, nodesOf, rescoped, List.map_filterMap]
    refine List.filterMap_congr fun id _ => ?_
    rw [node?_withScopes, hnode]
  rw [heq] at hdistinct hsched hsolved ⊢
  refine ⟨⟨hdistinct, hsched, hsolved, hused ▸ hfound, ?_, rescoped σ (g.nodesOf back), ?_, ?_⟩, hsame⟩
  · intro id
    rw [hused, ← hsame.feeds_iff]
    exact (mem_reachable_iff hreach)
  · have hnodes : h.nodes = g.nodesOf (front ++ back) := by
      rw [hh]
      exact reorder_nodes fun id hid => (hall id).mpr hid
    rw [hused, hlookup, rescoped, rescoped, ← List.map_append, nodesOf, nodesOf, ← List.filterMap_append, ← nodesOf,
      ← hnodes]
    rfl
  · intro n hn hfeeds
    obtain ⟨m, hm, rfl⟩ := List.mem_map.mp hn
    obtain ⟨id, hid, hfound⟩ := List.mem_filterMap.mp hm
    rw [← hsame.feeds_iff] at hfeeds
    exact hback id hid (id_of_node? hfound ▸ hfeeds)

variable {k k₁ k₂ : Graph}

/-- The scope of a node is made of what the unused and the used nodes need of it. -/
theorem Arranged.scope_eq (hk : k.Arranged) (hn : n ∈ k.nodes) :
    n.scope = final (Scope.mergeAll (k.unusedWants n.id ++ k.usedWants n.id)) := by
  rw [hk.solved n hn]
  by_cases hroot : n.id ∈ k.roots
  · have hsocket : .everywhere ∈ k.socketWants n.id := by simp [socketWants, hroot]
    rw [demand, usedWants, Scope.mergeAll_of_everywhere (List.mem_append_left _ hsocket),
      Scope.mergeAll_of_everywhere (List.mem_append_right _ (List.mem_append_left _ hsocket))]
  · obtain ⟨rest, hsplit, hrest⟩ := hk.split
    have hunused : k.nodes.filter (fun n => !k.used.contains n.id) = rest := by
      have hfront : (k.nodesOf k.used).filter (fun n => !k.used.contains n.id) = [] := by
        rw [List.filter_eq_nil_iff]
        intro m hm
        obtain ⟨id, hid, hfound⟩ := List.mem_filterMap.mp hm
        simpa [id_of_node? hfound] using hid
      have hback : rest.filter (fun n => !k.used.contains n.id) = rest := by
        rw [List.filter_eq_self]
        intro m hm
        simpa [hk.mem_used] using hrest m hm
      rw [hsplit, List.filter_append, hfront, hback, List.nil_append]
    have hsocket : k.socketWants n.id = [] := if_neg hroot
    rw [demand, unusedWants, usedWants, hunused, hsocket, List.nil_append, List.nil_append, hsplit, wantsOf, wantsOf,
      wantsOf, List.reverse_append, List.flatMap_append]

theorem Arranged.scope?_eq (hk : k.Arranged) (hid : id ∈ k.ids) :
    k.scope? id = some (final (Scope.mergeAll (k.unusedWants id ++ k.usedWants id))) := by
  obtain ⟨n, hn⟩ := exists_node? hid
  obtain rfl := id_of_node? hn
  rw [scope?, hn, Option.map_some, hk.scope_eq (mem_of_node? hn)]

theorem wants_of_dry (h : m.dry = n.dry) (hscope : m.scope = n.scope) : wants m id = wants n id := by
  have hwants : ∀ x : Node, wants x id = wanted (passOn x.dry x.scope) id 0 x.dry.inputs := fun _ => rfl
  rw [hwants, hwants, h, hscope]

theorem SameUsed.usedWants_eq (h : k₁.SameUsed k₂) (hk₁ : k₁.Arranged)
    (hscopes : ∀ a m, k₁.Feeds a → k₁.node? a = some m → id ∈ m.sources → k₁.scope? a = k₂.scope? a) :
    k₁.usedWants id = k₂.usedWants id := by
  have hused : k₂.used = k₁.used := used_eq (h.reachable hk₁.found)
  have hnodes : ∀ ids : List NodeId, (∀ a ∈ ids, k₁.Feeds a) →
      wantsOf (k₁.nodesOf ids) id = wantsOf (k₂.nodesOf ids) id := by
    intro ids
    induction ids with
    | nil => intro _; rfl
    | cons a ids ih =>
      intro hids
      have ha := hids a List.mem_cons_self
      obtain ⟨n, hn⟩ := exists_node? ha.mem_ids
      obtain ⟨m, hm, hdry⟩ := h.exists_node ha hn
      have hwants : wants n id = wants m id := by
        by_cases hread : id ∈ n.sources
        · have hscope := hscopes a n ha hn hread
          rw [scope?, scope?, hn, hm, Option.map_some, Option.map_some] at hscope
          exact wants_of_dry hdry.symm (Option.some.inj hscope)
        · rw [wants_of_not_mem hread, wants_of_not_mem (sources_of_dry hdry ▸ hread)]
      rw [nodesOf, nodesOf, List.filterMap_cons_some hn, List.filterMap_cons_some hm, wantsOf_cons, wantsOf_cons,
        hwants]
      exact congrArg (· ++ wants m id) (ih fun x hx => hids x (List.mem_cons_of_mem a hx))
  rw [usedWants, usedWants, socketWants, socketWants, h.roots_eq, hused,
    hnodes k₁.used fun a ha => (hk₁.mem_used a).mp ha]

/-- Where unused nodes make no difference. -/
theorem scopes_agree_iff (h : k₁.SameUsed k₂) (hk₁ : k₁.Arranged) (hk₂ : k₂.Arranged) :
    (∀ id, k₁.Feeds id → k₁.scope? id = k₂.scope? id) ↔
      ∀ id, k₁.Feeds id → final (Scope.mergeAll (k₁.unusedWants id ++ k₁.usedWants id))
        = final (Scope.mergeAll (k₂.unusedWants id ++ k₁.usedWants id)) := by
  constructor
  · intro hscopes id hid
    have hsame := hscopes id hid
    rw [hk₁.scope?_eq hid.mem_ids, hk₂.scope?_eq (h.feeds hid).mem_ids, Option.some.injEq] at hsame
    rw [hsame, h.usedWants_eq hk₁ fun a m ha _ _ => hscopes a ha]
  · intro hmerge
    have hwalk : ∀ n ∈ k₁.nodes, k₁.Feeds n.id → k₁.scope? n.id = k₂.scope? n.id := by
      refine hk₁.scheduled.induction hk₁.distinct ?_
      intro n hn ih hid
      have hwants : k₁.usedWants n.id = k₂.usedWants n.id := by
        refine h.usedWants_eq hk₁ fun a m ha hm hread => ?_
        obtain rfl := id_of_node? hm
        exact ih m (mem_of_node? hm) hread ha
      rw [hk₁.scope?_eq hid.mem_ids, hk₂.scope?_eq (h.feeds hid).mem_ids, hmerge n.id hid, hwants]
    intro id hid
    obtain ⟨n, hn⟩ := exists_node? hid.mem_ids
    obtain rfl := id_of_node? hn
    exact hwalk n (mem_of_node? hn) hid

theorem unusedWants_eq_nil (hk : k.Arranged) (h : ¬ k.ReadByUnused id) : k.unusedWants id = [] := by
  rw [List.eq_nil_iff_forall_not_mem]
  intro s hs
  obtain ⟨m, hm, hwants⟩ := mem_wantsOf.mp hs
  obtain ⟨hmem, hunused⟩ := List.mem_filter.mp hm
  obtain ⟨j, i, hj, hsource, -⟩ := mem_wants.mp hwants
  exact h ⟨m, hmem, by simpa [hk.mem_used] using hunused, mem_sources hj hsource⟩

theorem scopes_agree_of_everywhere (h : k₁.SameUsed k₂) (hk₁ : k₁.Arranged) (hk₂ : k₂.Arranged)
    (hread : ∀ id, k₁.Feeds id → k₁.ReadByUnused id ∨ k₂.ReadByUnused id → .everywhere ∈ k₁.usedWants id) :
    ∀ id, k₁.Feeds id → k₁.scope? id = k₂.scope? id := by
  refine (scopes_agree_iff h hk₁ hk₂).mpr fun id hid => ?_
  by_cases hunused : k₁.ReadByUnused id ∨ k₂.ReadByUnused id
  · have hneed := hread id hid hunused
    rw [Scope.mergeAll_of_everywhere (List.mem_append_right _ hneed),
      Scope.mergeAll_of_everywhere (List.mem_append_right _ hneed)]
  · rw [not_or] at hunused
    rw [unusedWants_eq_nil hk₁ hunused.1, unusedWants_eq_nil hk₂ hunused.2]

theorem SameUsed.trans {k : Graph} (h₁ : g₁.SameUsed g₂) (h₂ : g₂.SameUsed k) : g₁.SameUsed k := by
  refine ⟨h₁.sockets.trans h₂.sockets, fun id hid => ?_⟩
  have hmid : g₂.Feeds id := by
    rcases hid with hid | hid
    · exact h₁.feeds hid
    · exact h₂.symm.feeds hid
  exact (h₁.nodes id (Or.inr hmid)).trans (h₂.nodes id (Or.inl hmid))

/-- **What unused nodes do to the scopes of used ones.** Two graphs without cycles that differ in unused nodes only can
both be sorted, and give the used nodes the same scopes exactly if what the unused nodes need of these comes to the same
in both, merged with what the used nodes need. So they do if all that unused nodes read is needed everywhere by used
nodes. -/
theorem used_scopes_agree_iff (g₁ g₂ : Graph) (hsame : g₁.SameUsed g₂) (hg₁ : g₁.Distinct) (hg₂ : g₂.Distinct)
    (hacyclic₁ : ¬ g₁.Cyclic) (hacyclic₂ : ¬ g₂.Cyclic) :
    ∃ h₁ h₂, g₁.sort = .ok h₁ ∧ g₂.sort = .ok h₂ ∧
      ((∀ id, g₁.Feeds id → h₁.assignScopes.scope? id = h₂.assignScopes.scope? id) ↔
        ∀ id, g₁.Feeds id →
          final (Scope.mergeAll (h₁.assignScopes.unusedWants id ++ h₁.assignScopes.usedWants id))
            = final (Scope.mergeAll (h₂.assignScopes.unusedWants id ++ h₁.assignScopes.usedWants id))) ∧
      ((∀ id, g₁.Feeds id → h₁.assignScopes.ReadByUnused id ∨ h₂.assignScopes.ReadByUnused id →
          .everywhere ∈ h₁.assignScopes.usedWants id) →
        ∀ id, g₁.Feeds id → h₁.assignScopes.scope? id = h₂.assignScopes.scope? id) := by
  obtain ⟨h₁, hsort₁⟩ := exists_sort hg₁ hacyclic₁
  obtain ⟨h₂, hsort₂⟩ := exists_sort hg₂ hacyclic₂
  obtain ⟨harranged₁, hkeep₁⟩ := arranged_of_sort hg₁ hsort₁
  obtain ⟨harranged₂, hkeep₂⟩ := arranged_of_sort hg₂ hsort₂
  have hsame' := hkeep₁.symm.trans (hsame.trans hkeep₂)
  simp only [hkeep₁.feeds_iff]
  exact ⟨h₁, h₂, hsort₁, hsort₂, scopes_agree_iff hsame' harranged₁ harranged₂,
    scopes_agree_of_everywhere hsame' harranged₁ harranged₂⟩

/-! ## A choice with unused readers -/

theorem sameUsed_of_reachable {order : List NodeId} (hsockets : g₁.outputSockets = g₂.outputSockets)
    (h₁ : g₁.reachable = .ok order) (h₂ : g₂.reachable = .ok order)
    (hnodes : ∀ id ∈ order, (g₁.node? id).map Node.dry = (g₂.node? id).map Node.dry) : g₁.SameUsed g₂ := by
  refine ⟨hsockets, fun id hid => hnodes id ?_⟩
  rcases hid with hid | hid
  · exact (mem_reachable_iff h₁).mpr hid
  · exact (mem_reachable_iff h₂).mpr hid

/-- The choice of three values, with a node that feeds no output and reads the given ones. -/
def forkReadBy (sources : List Nat) : Graph := { fork with nodes := fork.nodes ++ [adder 6 sources] }

theorem fork_sameUsed (sources : List Nat)
    (hreach : (forkReadBy sources).reachable = .ok [⟨3⟩, ⟨1⟩, ⟨2⟩, ⟨5⟩, ⟨4⟩, ⟨0⟩]) :
    fork.SameUsed (forkReadBy sources) := by
  refine sameUsed_of_reachable rfl (by decide +kernel) hreach ?_
  simp only [List.forall_mem_cons]
  exact ⟨rfl, rfl, rfl, rfl, rfl, rfl, by simp⟩

theorem exists_sort_of_check (g : Graph) (P : Graph → Prop) [DecidablePred P]
    (h : (match g.sort with | .ok h => decide (P h) | .error _ => false) = true) : ∃ h, g.sort = .ok h ∧ P h := by
  cases hsort : g.sort with
  | ok h' => exact ⟨h', rfl, by simpa [hsort] using h⟩
  | error e => simp [hsort] at h

/-- A node that feeds no output reads the first of the values, which then is computed whatever the choice. -/
theorem unused_reader_moves_code :
    fork.SameUsed (forkReadBy [1]) ∧ fork.Distinct ∧ (forkReadBy [1]).Distinct ∧
    (∃ h, fork.sort = .ok h ∧ h.assignScopes.scope? ⟨1⟩ = some (.branches ⟨0⟩ 0b001 0b111)) ∧
    ∃ h, (forkReadBy [1]).sort = .ok h ∧ h.assignScopes.scope? ⟨1⟩ = some .everywhere :=
  ⟨fork_sameUsed [1] (by decide +kernel), by decide, by decide,
    exists_sort_of_check _ _ (by decide +kernel), exists_sort_of_check _ _ (by decide +kernel)⟩

theorem eq_of_readByUnused {order : List NodeId} {only : NodeId} (hreach : k.reachable = .ok order)
    (hall : ∀ m ∈ k.nodes, m.id ∈ order ∨ m.sources = [only]) (h : k.ReadByUnused id) : id = only := by
  obtain ⟨m, hm, hunused, hread⟩ := h
  rcases hall m hm with hused | hsources
  · exact absurd ((mem_reachable_iff hreach).mp hused) hunused
  · rw [hsources] at hread
    exact List.mem_singleton.mp hread

/-- A node that feeds no output reads what makes the choice, which is needed everywhere anyway. -/
theorem fork_scopes_agree :
    fork.SameUsed (forkReadBy [5]) ∧ fork.Distinct ∧ (forkReadBy [5]).Distinct ∧
    ¬ fork.Cyclic ∧ ¬ (forkReadBy [5]).Cyclic ∧
    ∃ h₁ h₂, fork.sort = .ok h₁ ∧ (forkReadBy [5]).sort = .ok h₂ ∧
      ∀ id, fork.Feeds id → h₁.assignScopes.scope? id = h₂.assignScopes.scope? id := by
  let order : List NodeId := [⟨3⟩, ⟨1⟩, ⟨2⟩, ⟨5⟩, ⟨4⟩, ⟨0⟩]
  have hreach₁ : fork.reachable = .ok order := by decide +kernel
  have hreach₂ : (forkReadBy [5]).reachable = .ok order := by decide +kernel
  have hsame := fork_sameUsed [5] hreach₂
  have hdistinct₁ : fork.Distinct := by decide
  have hdistinct₂ : (forkReadBy [5]).Distinct := by decide
  obtain ⟨s₁, hsort₁, hneed, hall₁⟩ := exists_sort_of_check fork
    (fun h => .everywhere ∈ h.assignScopes.usedWants ⟨5⟩ ∧
      ∀ m ∈ h.assignScopes.nodes, m.id ∈ order ∨ m.sources = [⟨5⟩]) (by decide +kernel)
  obtain ⟨s₂, hsort₂, hall₂⟩ := exists_sort_of_check (forkReadBy [5])
    (fun h => ∀ m ∈ h.assignScopes.nodes, m.id ∈ order ∨ m.sources = [⟨5⟩]) (by decide +kernel)
  have hacyclic₁ := not_cyclic_of_sort hsort₁
  have hacyclic₂ := not_cyclic_of_sort hsort₂
  obtain ⟨h₁, h₂, hs₁, hs₂, -, hagree⟩ :=
    used_scopes_agree_iff fork (forkReadBy [5]) hsame hdistinct₁ hdistinct₂ hacyclic₁ hacyclic₂
  obtain rfl := Except.ok.inj (hsort₁.symm.trans hs₁)
  obtain rfl := Except.ok.inj (hsort₂.symm.trans hs₂)
  refine ⟨hsame, hdistinct₁, hdistinct₂, hacyclic₁, hacyclic₂, s₁, s₂, hs₁, hs₂, hagree fun id _ hread => ?_⟩
  have hid : id = ⟨5⟩ := by
    rcases hread with hread | hread
    · exact eq_of_readByUnused ((arranged_of_sort hdistinct₁ hsort₁).2.reachable hreach₁) hall₁ hread
    · exact eq_of_readByUnused ((arranged_of_sort hdistinct₂ hsort₂).2.reachable hreach₂) hall₂ hread
  rwa [hid]

end Graph
end ShadeGraph
