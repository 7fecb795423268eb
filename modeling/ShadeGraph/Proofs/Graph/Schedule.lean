import Mathlib.Data.List.Chain
import Mathlib.Data.List.TakeWhile
import Mathlib.Logic.Relation
import ShadeGraph.Graph.Schedule
import ShadeGraph.Proofs.Graph.Lookup
import ShadeGraph.Proofs.Outcome

/-!
# Schedules are topological orders

Sorting fails exactly on graphs with a cycle, and then names the nodes of one. Otherwise the nodes stay the same, each
stands behind the nodes it reads, and those that feed an output socket come first.

The search keeps two invariants. The order so far is *placed*: every node in it is listed once and stands behind all
nodes it reads. The way to the current node is a chain of nodes that each read the next one, so a node that is met
again on the way closes a cycle.
-/

namespace ShadeGraph.Graph

open Relation

/-- A node of the graph reads an output of another one. -/
def Reads (g : Graph) (a b : NodeId) : Prop := ∃ n, g.node? a = some n ∧ b ∈ n.sources ∧ b ∈ g.ids

/-- Some node reads its own output, perhaps through other nodes. -/
def Cyclic (g : Graph) : Prop := ∃ id, TransGen g.Reads id id

/-- A path leads from the node to an output socket. -/
def Feeds (g : Graph) (id : NodeId) : Prop := ∃ root ∈ g.roots, root ∈ g.ids ∧ ReflTransGen g.Reads root id

/-- A closed chain of nodes that each read an output of the next one. -/
structure IsCycle (g : Graph) (chain : List Node) : Prop where
  known : ∀ n ∈ chain, n ∈ g.nodes
  reads : chain.IsChain fun a b => b.id ∈ a.sources
  closed : ∃ n middle, chain = n :: middle ++ [n]

/-- Every node stands behind the nodes it reads. -/
def Scheduled (g : Graph) : Prop :=
  ∀ before n after, g.nodes = before ++ n :: after → ∀ m ∈ g.nodes, m.id ∈ n.sources → m ∈ before

/-- The nodes that feed an output socket stand before the others. -/
def FeedersFirst (g : Graph) : Prop :=
  ∃ front back, g.nodes = front ++ back ∧ (∀ n ∈ front, g.Feeds n.id) ∧ ∀ n ∈ back, ¬ g.Feeds n.id

/-- The graph that an attempt to sort it leaves behind. -/
def afterSort (g : Graph) : Graph := stateAfter (Edit.sort g)

variable {g : Graph} {a b id : NodeId} {path order order' : List NodeId}

theorem Reads.left (h : g.Reads a b) : a ∈ g.ids := by
  obtain ⟨n, hn, -⟩ := h
  exact mem_ids_of_node? hn

theorem Reads.right (h : g.Reads a b) : b ∈ g.ids := by
  obtain ⟨n, -, -, hb⟩ := h
  exact hb

theorem reads_congr {h : Graph} (hnode : ∀ id, h.node? id = g.node? id) (hids : ∀ id, id ∈ h.ids ↔ id ∈ g.ids) :
    h.Reads = g.Reads := by
  funext a b
  simp only [Reads, hnode, hids]

theorem Feeds.of_reads (h : g.Feeds a) (hab : g.Reads a b) : g.Feeds b := by
  obtain ⟨root, hmem, hroot, hpath⟩ := h
  exact ⟨root, hmem, hroot, hpath.tail hab⟩

/-! ## Placed nodes -/

/-- The listed nodes belong to the graph, are listed once, and stand behind the nodes they read. -/
structure Placed (g : Graph) (order : List NodeId) : Prop where
  nodup : order.Nodup
  known : ∀ id ∈ order, id ∈ g.ids
  behind : ∀ before id after, order = before ++ id :: after → ∀ source, g.Reads id source → source ∈ before

theorem Placed.nil : g.Placed [] :=
  ⟨List.nodup_nil, fun id h => by simp at h, fun before id after h => by simp at h⟩

theorem Placed.concat (h : g.Placed order) (hid : id ∈ g.ids) (hnew : id ∉ order)
    (hsources : ∀ source, g.Reads id source → source ∈ order) : g.Placed (order ++ [id]) := by
  refine ⟨?_, ?_, ?_⟩
  · rw [← List.concat_eq_append]
    exact h.nodup.concat hnew
  · intro x hx
    rcases List.mem_append.mp hx with hx | hx
    · exact h.known x hx
    · rw [List.mem_singleton] at hx
      exact hx ▸ hid
  · intro before x after heq source hread
    rcases List.eq_nil_or_concat after with rfl | ⟨after, last, rfl⟩
    · obtain ⟨rfl, hx⟩ := List.append_inj' heq rfl
      obtain rfl : id = x := by simpa using hx
      exact hsources source hread
    · have heq' : order ++ [id] = (before ++ x :: after) ++ [last] := by simpa using heq
      obtain ⟨hfront, -⟩ := List.append_inj' heq' rfl
      exact h.behind before x after hfront source hread

theorem Placed.front {rest : List NodeId} (h : g.Placed (order ++ rest)) : g.Placed order where
  nodup := h.nodup.of_append_left
  known := fun id hid => h.known id (List.mem_append_left rest hid)
  behind := fun before id after heq => h.behind before id (after ++ rest) (by simp [heq])

theorem Placed.new {id : NodeId} {rest : List NodeId} (h : g.Placed (order ++ id :: rest)) : id ∉ order :=
  fun hid => (List.nodup_append.mp h.nodup).2.2 id hid id List.mem_cons_self rfl

theorem Placed.reads_mem (h : g.Placed order) (hid : a ∈ order) (hread : g.Reads a b) : b ∈ order := by
  obtain ⟨before, after, heq⟩ := List.append_of_mem hid
  rw [heq]
  exact List.mem_append_left _ (h.behind before a after heq b hread)

theorem Placed.path_mem (h : g.Placed order) (hid : a ∈ order) (hpath : ReflTransGen g.Reads a b) : b ∈ order := by
  induction hpath with
  | refl => exact hid
  | tail _ hread ih => exact h.reads_mem ih hread

theorem Placed.path_before (h : g.Placed order) {before after : List NodeId} (heq : order = before ++ a :: after)
    (hpath : TransGen g.Reads a b) : b ∈ before := by
  induction hpath with
  | single hread => exact h.behind before a after heq _ hread
  | tail _ hread ih =>
    obtain ⟨front, back, hsplit⟩ := List.append_of_mem ih
    have hfront := h.behind front _ (back ++ a :: after) (by rw [heq, hsplit]; simp) _ hread
    rw [hsplit]
    exact List.mem_append_left _ hfront

theorem Placed.not_cyclic (h : g.Placed order) (hall : ∀ id ∈ g.ids, id ∈ order) : ¬ g.Cyclic := by
  rintro ⟨id, hcycle⟩
  have hid : id ∈ g.ids := by
    rcases TransGen.head'_iff.mp hcycle with ⟨c, hread, -⟩
    exact hread.left
  obtain ⟨before, after, heq⟩ := List.append_of_mem (hall id hid)
  have hbefore := h.path_before heq hcycle
  exact (heq ▸ h).new hbefore

/-! ## Visits -/

/-- What a visit of some nodes makes of an order: it appends nodes that these lead to, among them all of theirs that
exist, and none that is on the way. -/
structure Visited (g : Graph) (path order ids order' : List NodeId) : Prop where
  front : order <+: order'
  placed : g.Placed order'
  found : ∀ id ∈ ids, id ∈ g.ids → id ∈ order'
  away : ∀ p ∈ path, p ∉ order'
  led : ∀ x ∈ order', x ∉ order → ∃ id ∈ ids, id ∈ g.ids ∧ ReflTransGen g.Reads id x

theorem Visited.same (hplaced : g.Placed order) (haway : ∀ p ∈ path, p ∉ order)
    (hfound : id ∈ g.ids → id ∈ order) : g.Visited path order [id] order where
  front := List.prefix_refl order
  placed := hplaced
  found := fun _ hx => List.mem_singleton.mp hx ▸ hfound
  away := haway
  led := fun _ hx hnew => absurd hx hnew

theorem visited_of_foldlM (hstep : ∀ order id order', g.Placed order → (∀ p ∈ path, p ∉ order) →
      g.visit path order id = .ok order' → g.Visited path order [id] order') (ids : List NodeId) :
    ∀ order order', g.Placed order → (∀ p ∈ path, p ∉ order) →
      ids.foldlM (fun order id => g.visit path order id) order = .ok order' → g.Visited path order ids order' := by
  induction ids with
  | nil =>
    intro order order' hplaced haway h
    obtain rfl : order = order' := by simpa [pure, Except.pure] using h
    exact ⟨List.prefix_refl order, hplaced, fun _ hx => by simp at hx, haway, fun _ hx hnew => absurd hx hnew⟩
  | cons id ids ih =>
    intro order order' hplaced haway h
    rw [List.foldlM_cons, except_bind_eq_ok] at h
    obtain ⟨order₁, h₁, h₂⟩ := h
    have hfirst := hstep order id order₁ hplaced haway h₁
    have hrest := ih order₁ order' hfirst.placed hfirst.away h₂
    refine ⟨hfirst.front.trans hrest.front, hrest.placed, ?_, hrest.away, ?_⟩
    · intro x hx hknown
      rcases List.mem_cons.mp hx with rfl | hx
      · exact hrest.front.subset (hfirst.found x List.mem_cons_self hknown)
      · exact hrest.found x hx hknown
    · intro x hx hnew
      by_cases hmid : x ∈ order₁
      · obtain ⟨y, hy, hled⟩ := hfirst.led x hmid hnew
        rw [List.mem_singleton] at hy
        exact ⟨y, hy ▸ List.mem_cons_self, hled⟩
      · obtain ⟨y, hy, hled⟩ := hrest.led x hx hmid
        exact ⟨y, List.mem_cons_of_mem id hy, hled⟩

theorem visit_of_unknown (hdone : ¬ order.contains id = true) (hpath : ¬ path.contains id = true)
    (hnone : g.node? id = none) : g.visit path order id = .ok order := by
  rw [visit, if_neg hdone, dif_neg hpath]
  split
  · rfl
  · rename_i n hn
    rw [hnone] at hn
    cases hn

theorem visit_of_node {n : Node} (hdone : ¬ order.contains id = true) (hpath : ¬ path.contains id = true)
    (hn : g.node? id = some n) : g.visit path order id = (do
      let order ← n.sources.foldlM (fun order source => g.visit (path ++ [id]) order source) order
      pure (order ++ [id])) := by
  rw [visit, if_neg hdone, dif_neg hpath]
  split
  · rename_i hnone
    rw [hn] at hnone
    cases hnone
  · rename_i m hm
    rw [hn] at hm
    rw [Option.some.inj hm]

/-- A visit that ends well appends a node behind everything that it reads. -/
theorem visited_of_visit (g : Graph) (path order : List NodeId) (id : NodeId) :
    ∀ order', g.Placed order → (∀ p ∈ path, p ∉ order) → g.visit path order id = .ok order' →
      g.Visited path order [id] order' := by
  induction path, order, id using visit.induct g with
  | case1 path order id hdone =>
    intro order' hplaced haway h
    rw [visit, if_pos hdone] at h
    obtain rfl : order = order' := by simpa using h
    exact Visited.same hplaced haway fun _ => by simpa using hdone
  | case2 path order id hdone hpath =>
    intro order' hplaced haway h
    rw [visit, if_neg hdone, dif_pos hpath] at h
    cases h
  | case3 path order id hdone hpath hnone =>
    intro order' hplaced haway h
    rw [visit_of_unknown hdone hpath hnone] at h
    obtain rfl := Except.ok.inj h
    exact Visited.same hplaced haway fun hknown => absurd hknown (node?_eq_none_iff.mp hnone)
  | case4 path order id hdone hpath n hn ih =>
    intro order' hplaced haway h
    rw [visit_of_node hdone hpath hn, except_bind_eq_ok] at h
    obtain ⟨order₁, hloop, h⟩ := h
    obtain rfl : order₁ ++ [id] = order' := by simpa [pure, Except.pure] using h
    have haway' : ∀ p ∈ path ++ [id], p ∉ order := by
      intro p hp
      rcases List.mem_append.mp hp with hp | hp
      · exact haway p hp
      · rw [List.mem_singleton] at hp
        exact hp ▸ by simpa using hdone
    -- the sources are visited with this node on the way, so it is not among what they append
    have hall := visited_of_foldlM (fun order source order' hp ha hv => ih order source order' hp ha hv)
      n.sources order order₁ hplaced haway' hloop
    have hknown : id ∈ g.ids := mem_ids_of_node? hn
    have hnew : id ∉ order₁ := hall.away id (by simp)
    have hread : ∀ source, g.Reads id source → source ∈ n.sources := by
      rintro source ⟨m, hm, hsource, -⟩
      rw [hn] at hm
      exact Option.some.inj hm ▸ hsource
    refine ⟨hall.front.trans (List.prefix_append _ _), hall.placed.concat hknown hnew ?_, ?_, ?_, ?_⟩
    · intro source hsource
      exact hall.found source (hread source hsource) hsource.right
    · intro x hx _
      rw [List.mem_singleton] at hx
      simp [hx]
    · intro p hp hmem
      rcases List.mem_append.mp hmem with hmem | hmem
      · exact hall.away p (List.mem_append_left _ hp) hmem
      · rw [List.mem_singleton] at hmem
        exact hpath (by simpa using hmem ▸ hp)
    · intro x hx hxnew
      refine ⟨id, List.mem_singleton_self id, hknown, ?_⟩
      rcases List.mem_append.mp hx with hx | hx
      · obtain ⟨source, hsource, hexists, hled⟩ := hall.led x hx hxnew
        exact ReflTransGen.head ⟨n, hn, hsource, hexists⟩ hled
      · rw [List.mem_singleton] at hx
        exact hx ▸ ReflTransGen.refl

theorem visited_of_visitAll {ids : List NodeId} (hplaced : g.Placed order) (h : g.visitAll order ids = .ok order') :
    g.Visited [] order ids order' :=
  visited_of_foldlM (fun order id => visited_of_visit g [] order id) ids order order' hplaced (by simp) h

theorem visit_mono {g₁ g₂ : Graph} {S : NodeId → Prop}
    (hnone : ∀ id, S id → g₁.node? id = none → g₂.node? id = none)
    (hsome : ∀ id, S id → ∀ n, g₁.node? id = some n →
      ∃ m, g₂.node? id = some m ∧ m.sources = n.sources ∧ ∀ source ∈ n.sources, S source)
    (path order : List NodeId) (id : NodeId) :
    ∀ order', S id → g₁.visit path order id = .ok order' → g₂.visit path order id = .ok order' := by
  induction path, order, id using visit.induct g₁ with
  | case1 path order id hdone =>
    intro order' _ h
    rw [visit, if_pos hdone] at h
    rw [visit, if_pos hdone, h]
  | case2 path order id hdone hpath =>
    intro order' _ h
    rw [visit, if_neg hdone, dif_pos hpath] at h
    cases h
  | case3 path order id hdone hpath hn =>
    intro order' hS h
    rw [visit_of_unknown hdone hpath hn] at h
    rw [visit_of_unknown hdone hpath (hnone id hS hn), h]
  | case4 path order id hdone hpath n hn ih =>
    intro order' hS h
    obtain ⟨m, hm, hsources, hrest⟩ := hsome id hS n hn
    rw [visit_of_node hdone hpath hn, except_bind_eq_ok] at h
    obtain ⟨order₁, hloop, hend⟩ := h
    rw [visit_of_node hdone hpath hm, hsources, except_bind_eq_ok]
    refine ⟨order₁, ?_, hend⟩
    exact except_foldlM_mono n.sources
      (fun order source hsource order' hvisit => ih order source order' (hrest source hsource) hvisit) order order₁
      hloop

/-! ## Cycles -/

def nodesOf (g : Graph) (ids : List NodeId) : List Node := ids.filterMap g.node?

theorem names_eq (g : Graph) (ids : List NodeId) : g.names ids = (g.nodesOf ids).map Node.name := by
  rw [names, nodesOf, List.map_filterMap]

theorem node?_of_mem_nodesOf {ids : List NodeId} {n : Node} (hn : n ∈ g.nodesOf ids) : g.node? n.id = some n := by
  obtain ⟨id, -, hid⟩ := List.mem_filterMap.mp hn
  rw [id_of_node? hid, hid]

theorem map_id_nodesOf {ids : List NodeId} (hids : ∀ id ∈ ids, id ∈ g.ids) : (g.nodesOf ids).map Node.id = ids := by
  induction ids with
  | nil => rfl
  | cons id ids ih =>
    obtain ⟨n, hn⟩ := exists_node? (hids id List.mem_cons_self)
    have hrest := ih fun x hx => hids x (List.mem_cons_of_mem id hx)
    rw [nodesOf, List.filterMap_cons_some hn, List.map_cons, id_of_node? hn]
    exact congrArg (id :: ·) hrest

theorem isCycle_of_chain {first : NodeId} {middle : List NodeId} (hknown : first ∈ g.ids)
    (hchain : (first :: middle ++ [first]).IsChain g.Reads) : g.IsCycle (g.nodesOf (first :: middle ++ [first])) := by
  have hall : ∀ id ∈ first :: middle ++ [first], id ∈ g.ids := by
    refine hchain.induction (· ∈ g.ids) _ ?_ fun _ => hknown
    intro x y hread _
    exact hread.right
  refine ⟨?_, ?_, ?_⟩
  · intro n hn
    exact mem_of_node? (node?_of_mem_nodesOf hn)
  · rw [← map_id_nodesOf hall, List.isChain_map] at hchain
    refine hchain.imp_of_mem_imp ?_
    rintro a b ha - ⟨n, hn, hb, -⟩
    rw [node?_of_mem_nodesOf ha] at hn
    exact Option.some.inj hn ▸ hb
  · obtain ⟨n, hn⟩ := exists_node? hknown
    refine ⟨n, g.nodesOf middle, ?_⟩
    simp [nodesOf, hn]

theorem transGen_of_closed {first : NodeId} {middle : List NodeId}
    (h : (first :: middle ++ [first]).IsChain g.Reads) (hid : id ∈ first :: middle) : TransGen g.Reads id id := by
  have hpairs : (first :: middle ++ [first]).Pairwise (TransGen g.Reads) :=
    (h.imp fun _ _ hread => TransGen.single hread).pairwise
  have hback : ∀ x ∈ first :: middle, TransGen g.Reads x first :=
    fun x hx => (List.pairwise_append.mp hpairs).2.2 x hx first (List.mem_singleton_self first)
  rcases List.mem_cons.mp hid with rfl | hmid
  · exact hback id hid
  · have hthere : TransGen g.Reads first id :=
      (List.pairwise_cons.mp hpairs).1 id (List.mem_append_left _ hmid)
    exact (hback id hid).trans hthere

theorem isCycle_of_path (hmem : id ∈ path) (hknown : id ∈ g.ids) (hchain : (path ++ [id]).IsChain g.Reads) :
    ∃ chain, g.IsCycle chain ∧ g.cycleAt path id = .cycle g.name (chain.map Node.name) ∧
      ∀ n ∈ chain, n.id ∈ path ∧ TransGen g.Reads n.id n.id := by
  -- the end of the way from the first time that it met this node
  obtain ⟨rest, hrest⟩ : ∃ rest, path.dropWhile (fun p => p != id) = id :: rest := by
    cases hdrop : path.dropWhile (fun p => p != id) with
    | nil =>
      have hall := List.dropWhile_eq_nil_iff.mp hdrop id hmem
      simp at hall
    | cons x rest =>
      have hx := List.head_dropWhile_not (fun p => p != id) (l := path) (by simp [hdrop])
      exact ⟨rest, by simpa [hdrop] using hx⟩
  have hend : id :: rest <:+ path := hrest ▸ List.dropWhile_suffix (l := path) (fun p => p != id)
  have hsuffix : id :: rest ++ [id] <:+ path ++ [id] := by
    obtain ⟨front, hfront⟩ := hend
    exact ⟨front, by rw [← List.append_assoc, hfront]⟩
  have hclosed := hchain.suffix hsuffix
  refine ⟨_, isCycle_of_chain hknown hclosed, ?_, ?_⟩
  · rw [cycleAt, hrest, names_eq]
  · intro n hn
    obtain ⟨x, hx, hfound⟩ := List.mem_filterMap.mp hn
    obtain rfl := id_of_node? hfound
    have hx' : n.id ∈ id :: rest := by
      rcases List.mem_append.mp hx with hx | hx
      · exact hx
      · exact List.mem_singleton.mp hx ▸ List.mem_cons_self
    exact ⟨hend.subset hx', transGen_of_closed hclosed hx'⟩

/-- A visit that fails has met a node on the way to it, and reports the way from there. -/
theorem cycle_of_visit (g : Graph) (path order : List NodeId) (id : NodeId) :
    ∀ e, (∀ p ∈ path, p ∈ g.ids) → (id ∈ g.ids → (path ++ [id]).IsChain g.Reads) →
      g.visit path order id = .error e →
      ∃ chain, g.IsCycle chain ∧ e = .cycle g.name (chain.map Node.name) := by
  induction path, order, id using visit.induct g with
  | case1 path order id hdone =>
    intro e _ _ h
    rw [visit, if_pos hdone] at h
    cases h
  | case2 path order id hdone hpath =>
    intro e hknown hchain h
    rw [visit, if_neg hdone, dif_pos hpath] at h
    have hmem : id ∈ path := by simpa using hpath
    have hid := hknown id hmem
    obtain ⟨chain, hcycle, hreport, -⟩ := isCycle_of_path hmem hid (hchain hid)
    exact ⟨chain, hcycle, (Except.error.inj h).symm.trans hreport⟩
  | case3 path order id hdone hpath hnone =>
    intro e _ _ h
    rw [visit_of_unknown hdone hpath hnone] at h
    cases h
  | case4 path order id hdone hpath n hn ih =>
    intro e hknown hchain h
    have hid : id ∈ g.ids := mem_ids_of_node? hn
    rw [visit_of_node hdone hpath hn, except_bind_eq_error] at h
    rcases h with h | ⟨order₁, -, h⟩
    · -- one of the sources fails, with this node at the end of the way to it
      obtain ⟨order₁, source, hsource, hfail⟩ := except_foldlM_error _ _ h
      refine ih order₁ source e ?_ ?_ hfail
      · intro p hp
        rcases List.mem_append.mp hp with hp | hp
        · exact hknown p hp
        · rw [List.mem_singleton] at hp
          exact hp ▸ hid
      · intro hexists
        refine (hchain hid).append (List.isChain_singleton source) ?_
        intro x hx y hy
        have hx' : id = x := by simpa using hx
        have hy' : source = y := by simpa using hy
        rw [← hx', ← hy']
        exact ⟨n, hn, hsource, hexists⟩
    · simp [pure, Except.pure] at h

theorem IsCycle.cyclic {chain : List Node} (hg : g.Distinct) (h : g.IsCycle chain) : g.Cyclic := by
  obtain ⟨n, middle, rfl⟩ := h.closed
  have hreads : (n :: middle ++ [n]).IsChain fun a b => g.Reads a.id b.id := by
    refine h.reads.imp_of_mem_imp ?_
    intro a b ha hb hread
    exact ⟨a, hg.node?_of_mem (h.known a ha), hread, mem_ids_of_mem (h.known b hb)⟩
  refine ⟨n.id, ?_⟩
  cases middle with
  | nil => exact .single (by simpa using hreads)
  | cons m middle =>
    have hfirst : g.Reads n.id m.id := by simpa using hreads.rel_head? (by simp)
    refine TransGen.head' hfirst ?_
    exact hreads.tail.backwards_concat_induction (fun x => ReflTransGen g.Reads x.id n.id) _
      (fun _ _ hread hpath => hpath.head hread) ReflTransGen.refl m (by simp)

/-! ## Sorting -/

/-- Everything that feeds an output socket is visited first, and nothing else is. -/
theorem mem_visitAll_roots (h : g.visitAll [] g.roots = .ok order) : id ∈ order ↔ g.Feeds id := by
  have hvisited := visited_of_visitAll Placed.nil h
  constructor
  · intro hid
    exact hvisited.led id hid (by simp)
  · rintro ⟨root, hroot, hknown, hpath⟩
    exact hvisited.placed.path_mem (hvisited.found root hroot hknown) hpath

theorem mem_reachable_iff (h : g.reachable = .ok order) : id ∈ order ↔ g.Feeds id := mem_visitAll_roots h

/-- The search comes before the first change. -/
theorem Edit.sort_eq (g : Graph) : Edit.sort g =
    match g.visitAll [] (g.roots ++ g.nodes.map Node.id) with
    | .ok order => .ok () (g.reorder order)
    | .error e => .error e g := by
  rw [Edit.sort, state_get_bind]
  cases g.visitAll [] (g.roots ++ g.nodes.map Node.id) with
  | ok order => rfl
  | error e => rfl

theorem Edit.isAtomic_sort : Edit.sort.IsAtomic := by
  intro g e h hfail
  rw [sort_eq] at hfail
  split at hfail
  · cases hfail
  · exact (EStateM.Result.error.inj hfail).2.symm

theorem sort_eq (g : Graph) :
    g.sort = g.visitAll [] (g.roots ++ g.nodes.map Node.id) >>= fun order => pure (g.reorder order) := by
  rw [sort, Edit.result, Edit.sort_eq]
  cases g.visitAll [] (g.roots ++ g.nodes.map Node.id) with
  | ok order => rfl
  | error e => rfl

theorem afterSort_eq (g : Graph) : g.afterSort = g.sort.toOption.getD g := Edit.isAtomic_sort.stateAfter_eq g

theorem order_of_sort {h : Graph} (hsort : g.sort = .ok h) :
    ∃ front back, h = g.reorder (front ++ back) ∧ g.Placed (front ++ back) ∧ (∀ id, id ∈ front ++ back ↔ id ∈ g.ids) ∧
      (∀ id ∈ front, g.Feeds id) ∧ (∀ id ∈ back, ¬ g.Feeds id) ∧ g.reachable = .ok front := by
  rw [sort_eq, except_bind_eq_ok] at hsort
  obtain ⟨order, hvisit, h'⟩ := hsort
  obtain rfl : g.reorder order = h := by simpa [pure, Except.pure] using h'
  rw [visitAll, List.foldlM_append, except_bind_eq_ok] at hvisit
  obtain ⟨front, hfront, hrest⟩ := hvisit
  have hvisited := visited_of_visitAll (visited_of_visitAll Placed.nil hfront).placed hrest
  obtain ⟨back, rfl⟩ := hvisited.front
  refine ⟨front, back, rfl, hvisited.placed, ?_, ?_, ?_, hfront⟩
  · intro id
    exact ⟨hvisited.placed.known id, fun hid => hvisited.found id hid hid⟩
  · intro id hid
    exact (mem_visitAll_roots hfront).mp hid
  · intro id hid hfeeds
    have hnodup := hvisited.placed.nodup
    rw [List.nodup_append] at hnodup
    exact hnodup.2.2 id ((mem_visitAll_roots hfront).mpr hfeeds) id hid rfl

theorem reorder_nodes (hall : ∀ id ∈ g.ids, id ∈ order) : (g.reorder order).nodes = g.nodesOf order := by
  have hnone : (g.nodes.filter fun n => !order.contains n.id) = [] := by
    rw [List.filter_eq_nil_iff]
    intro n hn
    simpa using hall n.id (mem_ids_of_mem hn)
  rw [reorder, hnone, List.append_nil, nodesOf]

theorem ids_reorder (hplaced : g.Placed order) (hall : ∀ id ∈ g.ids, id ∈ order) : (g.reorder order).ids = order := by
  rw [ids, reorder_nodes hall, map_id_nodesOf hplaced.known]

theorem node?_reorder (hplaced : g.Placed order) (hall : ∀ id ∈ g.ids, id ∈ order) (id : NodeId) :
    (g.reorder order).node? id = g.node? id := by
  have hids := ids_reorder hplaced hall
  cases hn : g.node? id with
  | none =>
    rw [node?_eq_none_iff, hids]
    exact fun hid => node?_eq_none_iff.mp hn (hplaced.known id hid)
  | some n =>
    have hdistinct : (g.reorder order).Distinct := by
      rw [Distinct, hids]
      exact hplaced.nodup
    have hmem : n ∈ (g.reorder order).nodes := by
      rw [reorder_nodes hall]
      exact List.mem_filterMap.mpr ⟨id, hall id (mem_ids_of_node? hn), hn⟩
    rw [← id_of_node? hn]
    exact hdistinct.node?_of_mem hmem

theorem reads_reorder (hplaced : g.Placed order) (hall : ∀ id ∈ g.ids, id ∈ order) :
    (g.reorder order).Reads = g.Reads := by
  refine reads_congr (node?_reorder hplaced hall) fun id => ?_
  rw [ids_reorder hplaced hall]
  exact ⟨hplaced.known id, hall id⟩

theorem reorder_perm (hg : g.Distinct) (hplaced : g.Placed order) (hall : ∀ id, id ∈ order ↔ id ∈ g.ids) :
    (g.reorder order).nodes.Perm g.nodes := by
  have hperm : order.Perm g.ids := (List.perm_ext_iff_of_nodup hplaced.nodup hg).mpr hall
  have hnodes := hperm.filterMap g.node?
  rw [hg.filterMap_node?] at hnodes
  rwa [reorder_nodes fun id hid => (hall id).mpr hid]

theorem reorder_scheduled (hg : g.Distinct) (hplaced : g.Placed order) (hall : ∀ id, id ∈ order ↔ id ∈ g.ids) :
    (g.reorder order).Scheduled := by
  intro before n after heq m hm hread
  have hperm := reorder_perm hg hplaced hall
  have hmem : ∀ x ∈ before ++ n :: after, x ∈ g.nodes := fun x hx => hperm.subset (heq ▸ hx)
  rw [reorder_nodes fun id hid => (hall id).mpr hid] at heq
  have hids : order = before.map Node.id ++ n.id :: after.map Node.id := by
    have hmap := congrArg (List.map Node.id) heq
    rwa [map_id_nodesOf hplaced.known, List.map_append, List.map_cons] at hmap
  have hn := hg.node?_of_mem (hmem n (by simp))
  have hbefore := hplaced.behind _ _ _ hids m.id ⟨n, hn, hread, mem_ids_of_mem (hperm.subset hm)⟩
  obtain ⟨x, hx, hid⟩ := List.mem_map.mp hbefore
  rwa [← hg.eq_of_id (hmem x (by simp [hx])) (hperm.subset hm) hid]

theorem feeds_congr {h : Graph} (hnode : ∀ id, h.node? id = g.node? id) (hids : ∀ id, id ∈ h.ids ↔ id ∈ g.ids)
    (hsockets : h.outputSockets = g.outputSockets) : h.Feeds id ↔ g.Feeds id := by
  simp only [Feeds, roots, hsockets, reads_congr hnode hids, hids]

theorem cycle_of_sort {e : Error} (h : g.sort = .error e) :
    ∃ chain, g.IsCycle chain ∧ e = .cycle g.name (chain.map Node.name) := by
  rw [sort_eq, except_bind_eq_error] at h
  rcases h with h | ⟨order, -, h⟩
  · obtain ⟨order, id, -, hvisit⟩ := except_foldlM_error _ _ h
    exact cycle_of_visit g [] order id e (by simp) (fun _ => List.isChain_singleton id) hvisit
  · simp [pure, Except.pure] at h

theorem exists_sort (hg : g.Distinct) (hacyclic : ¬ g.Cyclic) : ∃ h, g.sort = .ok h := by
  cases hsort : g.sort with
  | ok h => exact ⟨h, rfl⟩
  | error e =>
    obtain ⟨chain, hcycle, -⟩ := cycle_of_sort hsort
    exact absurd (hcycle.cyclic hg) hacyclic

theorem not_cyclic_of_sort {h : Graph} (hsort : g.sort = .ok h) : ¬ g.Cyclic := by
  obtain ⟨front, back, -, hplaced, hall, -⟩ := order_of_sort hsort
  exact hplaced.not_cyclic fun id hid => (hall id).mpr hid

theorem not_cyclic_of_isOk (hsort : g.sort.isOk = true) : ¬ g.Cyclic := by
  cases h : g.sort with
  | error e => simp [h, Except.isOk, Except.toBool] at hsort
  | ok sorted => exact not_cyclic_of_sort h

/-- What a sort that ends well makes of a graph. -/
structure IsSortOf (h g : Graph) : Prop where
  perm : h.nodes.Perm g.nodes
  rest : h = { g with nodes := h.nodes }
  scheduled : h.Scheduled
  feedersFirst : h.FeedersFirst

theorem isSortOf_of_sort {h : Graph} (hg : g.Distinct) (hsort : g.sort = .ok h) : h.IsSortOf g := by
  obtain ⟨front, back, rfl, hplaced, hall, hfront, hback, -⟩ := order_of_sort hsort
  have hperm := reorder_perm hg hplaced hall
  have hfeeds : ∀ {id}, (g.reorder (front ++ back)).Feeds id ↔ g.Feeds id :=
    feeds_congr (hg.node?_perm hperm) (fun _ => mem_ids_perm hperm) rfl
  refine ⟨hperm, rfl, reorder_scheduled hg hplaced hall, g.nodesOf front, g.nodesOf back, ?_, ?_, ?_⟩
  · rw [reorder_nodes fun id hid => (hall id).mpr hid, nodesOf, List.filterMap_append]
    rfl
  · intro n hn
    obtain ⟨id, hid, hfound⟩ := List.mem_filterMap.mp hn
    rw [hfeeds, id_of_node? hfound]
    exact hfront id hid
  · intro n hn
    obtain ⟨id, hid, hfound⟩ := List.mem_filterMap.mp hn
    rw [hfeeds, id_of_node? hfound]
    exact hback id hid

/-- **Sorting finds a schedule or a cycle.** It fails exactly on graphs with a cycle; then the graph stays as it is and
the error names the nodes of a cycle. Otherwise nothing but the order of the nodes changes, every node stands behind
the nodes it reads, and the nodes that feed an output socket come first. -/
theorem sort_schedules_or_finds_cycle (g : Graph) (hg : g.Distinct) :
    ((∃ e, g.sort = .error e) ↔ g.Cyclic) ∧
    (∀ e, g.sort = .error e →
      g.afterSort = g ∧ ∃ chain, g.IsCycle chain ∧ e = .cycle g.name (chain.map Node.name)) ∧
    (∀ h, g.sort = .ok h →
      g.afterSort = h ∧ h.nodes.Perm g.nodes ∧ h = { g with nodes := h.nodes } ∧ h.Scheduled ∧ h.FeedersFirst) := by
  refine ⟨⟨?_, ?_⟩, ?_, ?_⟩
  · rintro ⟨e, h⟩
    obtain ⟨chain, hcycle, -⟩ := cycle_of_sort h
    exact hcycle.cyclic hg
  · intro hcyclic
    cases h : g.sort with
    | error e => exact ⟨e, rfl⟩
    | ok s =>
      obtain ⟨front, back, -, hplaced, hall, -⟩ := order_of_sort h
      exact absurd hcyclic (hplaced.not_cyclic fun id hid => (hall id).mpr hid)
  · intro e h
    exact ⟨by rw [afterSort_eq, h]; rfl, cycle_of_sort h⟩
  · intro s h
    obtain ⟨hperm, hrest, hscheduled, hfirst⟩ := isSortOf_of_sort hg h
    exact ⟨by rw [afterSort_eq, h]; rfl, hperm, hrest, hscheduled, hfirst⟩

def adder (id : Nat) (sources : List Nat) : Node :=
  { Node.make ⟨id⟩ ("n" ++ toString id) "add" "ND_add_float" default .texture with
    inputs := sources.map fun source => { name := "in", type := .float, source := some (.ofNode ⟨source⟩ 0) }
    outputs := [{ name := "out", type := .float }] }

/-- An output socket in front of three nodes; apart from them two nodes read each other. -/
def tangle : Graph :=
  { Graph.empty "tangle" with
    nodes := [adder 0 [1, 2, 7], adder 1 [2], adder 2 [], adder 3 [4, 0], adder 4 [3]]
    outputSockets := [{ name := "out", type := .float, source := some (.ofNode ⟨0⟩ 0) }] }

theorem tangle_sort_fails :
    tangle.Distinct ∧ tangle.Cyclic ∧ (∃ e, tangle.sort = .error e) ∧ tangle.afterSort = tangle := by
  have hdistinct : tangle.Distinct := by decide
  have hthere : tangle.Reads ⟨3⟩ ⟨4⟩ := ⟨adder 3 [4, 0], by rfl, by decide, by decide⟩
  have hback : tangle.Reads ⟨4⟩ ⟨3⟩ := ⟨adder 4 [3], by rfl, by decide, by decide⟩
  have hcyclic : tangle.Cyclic := ⟨⟨3⟩, .tail (.single hthere) hback⟩
  obtain ⟨hiff, herror, -⟩ := sort_schedules_or_finds_cycle tangle hdistinct
  obtain ⟨e, he⟩ := hiff.mpr hcyclic
  exact ⟨hdistinct, hcyclic, ⟨e, he⟩, (herror e he).1⟩

end ShadeGraph.Graph
