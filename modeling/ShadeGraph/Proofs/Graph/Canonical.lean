import ShadeGraph.Proofs.Graph.Schedule

/-!
# The schedule is canonical

A schedule is a fixed point: sorting a sorted graph changes nothing, because each node is met when all that it reads has
been placed. And the nodes that feed an output socket are placed by a search from the sockets, which looks nodes up by
identity. So their part of the schedule does not depend on the order in which the nodes were added.
-/

namespace ShadeGraph.Graph

open Relation

variable {g h : Graph} {id : NodeId} {path order rest : List NodeId}

/-! ## Visits of placed nodes -/

theorem visit_of_mem (hid : id ∈ order) : g.visit path order id = .ok order := by
  rw [visit, if_pos (by simpa using hid)]

theorem visit_of_placed (hplaced : g.Placed (order ++ [id])) : g.visit [] order id = .ok (order ++ [id]) := by
  have hnew : id ∉ order := hplaced.new
  have hknown : id ∈ g.ids := hplaced.known id (by simp)
  obtain ⟨n, hn⟩ := exists_node? hknown
  rw [visit_of_node (by simpa using hnew) (by simp) hn, except_foldlM_same n.sources]
  · rfl
  · intro source hsource
    by_cases hexists : source ∈ g.ids
    · exact visit_of_mem (hplaced.behind order id [] rfl source ⟨n, hn, hsource, hexists⟩)
    · have hdone : source ∉ order := fun hmem => hexists (hplaced.front.known source hmem)
      have hpath : source ≠ id := fun heq => hexists (heq ▸ hknown)
      exact visit_of_unknown (by simpa using hdone) (by simpa using hpath) (node?_eq_none_iff.mpr hexists)

theorem visitAll_append {ids more order₁ order₂ : List NodeId} (h₁ : g.visitAll order ids = .ok order₁)
    (h₂ : g.visitAll order₁ more = .ok order₂) : g.visitAll order (ids ++ more) = .ok order₂ := by
  rw [visitAll, List.foldlM_append, except_bind_eq_ok]
  exact ⟨order₁, h₁, h₂⟩

theorem visitAll_of_placed (rest : List NodeId) : ∀ order, g.Placed (order ++ rest) →
    g.visitAll order rest = .ok (order ++ rest) := by
  induction rest with
  | nil =>
    intro order _
    rw [List.append_nil]
    rfl
  | cons id rest ih =>
    intro order hplaced
    have hsplit : order ++ id :: rest = order ++ [id] ++ rest := by simp
    rw [hsplit] at hplaced ⊢
    rw [visitAll, List.foldlM_cons, visit_of_placed hplaced.front]
    exact ih (order ++ [id]) hplaced

/-! ## Graphs that find the same nodes -/

theorem Placed.congr (hreads : h.Reads = g.Reads) (hids : ∀ id, id ∈ h.ids ↔ id ∈ g.ids) (hplaced : g.Placed order) :
    h.Placed order where
  nodup := hplaced.nodup
  known := fun id hid => (hids id).mpr (hplaced.known id hid)
  behind := fun before id after heq source hread => hplaced.behind before id after heq source (hreads ▸ hread)

theorem reachable_congr (hnode : ∀ id, h.node? id = g.node? id) (hsockets : h.outputSockets = g.outputSockets)
    (hreach : g.reachable = .ok order) : h.reachable = .ok order := by
  rw [reachable, roots, hsockets]
  refine except_foldlM_mono _ (fun order id _ order' hvisit => ?_) [] order hreach
  refine visit_mono (S := fun _ => True) ?_ ?_ [] order id order' trivial hvisit
  · intro id _ hnone
    rw [hnode, hnone]
  · intro id _ n hn
    exact ⟨n, by rw [hnode, hn], rfl, fun _ _ => trivial⟩

/-! ## Sorting again -/

theorem sort_of_sort (hsort : g.sort = .ok h) : h.sort = .ok h := by
  obtain ⟨front, back, rfl, hplaced, hall, -, -, hreach⟩ := order_of_sort hsort
  have hall' : ∀ id ∈ g.ids, id ∈ front ++ back := fun id hid => (hall id).mpr hid
  have hnode := node?_reorder hplaced hall'
  have hids := ids_reorder hplaced hall'
  have hplaced' : (g.reorder (front ++ back)).Placed (front ++ back) :=
    hplaced.congr (reads_reorder hplaced hall') fun id => by rw [hids, hall]
  -- the search from the sockets finds the front again, and the nodes behind it are met one by one
  have hfront : (g.reorder (front ++ back)).visitAll front front = .ok front :=
    except_foldlM_same front fun id hid => visit_of_mem hid
  have hvisit := visitAll_append (reachable_congr hnode rfl hreach)
    (visitAll_append hfront (visitAll_of_placed back front hplaced'))
  rw [sort_eq, ← ids, hids, hvisit]
  have hnodes : ((g.reorder (front ++ back)).reorder (front ++ back)).nodes = (g.reorder (front ++ back)).nodes := by
    rw [reorder_nodes fun id hid => hids ▸ hid, reorder_nodes hall', nodesOf, nodesOf]
    exact List.filterMap_congr fun id _ => hnode id
  calc Except.ok ((g.reorder (front ++ back)).reorder (front ++ back))
      = .ok { g with nodes := ((g.reorder (front ++ back)).reorder (front ++ back)).nodes } := rfl
    _ = .ok (g.reorder (front ++ back)) := by rw [hnodes]; rfl

/-! ## Another order of the nodes -/

/-- The nodes that feed an output socket stand at the front of the schedule, in the order in which they are found. -/
theorem nodes_of_sort (hsort : g.sort = .ok h) : ∃ front back, g.reachable = .ok front ∧
    h.nodes = g.nodesOf front ++ g.nodesOf back ∧ (∀ n ∈ g.nodesOf front, g.Feeds n.id) ∧
    ∀ n ∈ g.nodesOf back, ¬ g.Feeds n.id := by
  obtain ⟨front, back, rfl, -, hall, hfront, hback, hreach⟩ := order_of_sort hsort
  have hmem : ∀ {ids n}, n ∈ g.nodesOf ids → n.id ∈ ids := by
    intro ids n hn
    obtain ⟨id, hid, hfound⟩ := List.mem_filterMap.mp hn
    rwa [id_of_node? hfound]
  refine ⟨front, back, hreach, ?_, fun n hn => hfront n.id (hmem hn), fun n hn => hback n.id (hmem hn)⟩
  rw [reorder_nodes fun id hid => (hall id).mpr hid, nodesOf, nodesOf, nodesOf, List.filterMap_append]

/-- **The schedule is canonical.** Sorting a sorted graph leaves it as it is. Of two graphs that differ only in the order
of their nodes, both can be sorted or none; and then both schedules hold the nodes of their graph, and the nodes that
feed an output socket stand at the front of both, in the same order. -/
theorem schedule_canonical (g₁ g₂ : Graph) (hg : g₁.Distinct) (hperm : g₂.nodes.Perm g₁.nodes)
    (hrest : g₂ = { g₁ with nodes := g₂.nodes }) :
    (∀ h, g₁.sort = .ok h → h.sort = .ok h) ∧
    ((∃ h, g₁.sort = .ok h) ↔ ∃ h, g₂.sort = .ok h) ∧
    ∀ h₁ h₂, g₁.sort = .ok h₁ → g₂.sort = .ok h₂ → h₁.nodes.Perm g₁.nodes ∧ h₂.nodes.Perm g₂.nodes ∧
      ∃ front back₁ back₂, h₁.nodes = front ++ back₁ ∧ h₂.nodes = front ++ back₂ ∧
        (∀ n ∈ front, g₁.Feeds n.id ∧ g₂.Feeds n.id) ∧ (∀ n ∈ back₁, ¬ g₁.Feeds n.id) ∧
        ∀ n ∈ back₂, ¬ g₂.Feeds n.id := by
  have hnode := hg.node?_perm hperm
  have hids : ∀ id, id ∈ g₂.ids ↔ id ∈ g₁.ids := fun id => mem_ids_perm hperm
  have hsockets : g₂.outputSockets = g₁.outputSockets := by rw [hrest]
  have hfeeds : ∀ {id}, g₂.Feeds id ↔ g₁.Feeds id := feeds_congr hnode hids hsockets
  have hcyclic : g₂.Cyclic ↔ g₁.Cyclic := by
    simp only [Cyclic, reads_congr hnode hids]
  refine ⟨fun h hsort => sort_of_sort hsort, ⟨?_, ?_⟩, ?_⟩
  · rintro ⟨h, hsort⟩
    exact exists_sort (hg.perm hperm) (hcyclic.not.mpr (not_cyclic_of_sort hsort))
  · rintro ⟨h, hsort⟩
    exact exists_sort hg (hcyclic.not.mp (not_cyclic_of_sort hsort))
  · intro h₁ h₂ hsort₁ hsort₂
    refine ⟨(isSortOf_of_sort hg hsort₁).perm, (isSortOf_of_sort (hg.perm hperm) hsort₂).perm, ?_⟩
    obtain ⟨front, back₁, hreach₁, hnodes₁, hfront, hback₁⟩ := nodes_of_sort hsort₁
    obtain ⟨front₂, back₂, hreach₂, hnodes₂, -, hback₂⟩ := nodes_of_sort hsort₂
    obtain rfl : front = front₂ := Except.ok.inj ((reachable_congr hnode hsockets hreach₁).symm.trans hreach₂)
    have hfind : ∀ ids, g₂.nodesOf ids = g₁.nodesOf ids := fun ids => List.filterMap_congr fun id _ => hnode id
    refine ⟨g₁.nodesOf front, g₁.nodesOf back₁, g₂.nodesOf back₂, hnodes₁, ?_, ?_, hback₁, hback₂⟩
    · rw [hnodes₂, hfind front]
    · exact fun n hn => ⟨hfront n hn, hfeeds.mpr (hfront n hn)⟩

/-- Two output sockets with a diamond of nodes behind them, and two nodes that feed neither. -/
def lattice : Graph :=
  { Graph.empty "lattice" with
    nodes := [adder 5 [4, 0], adder 0 [1, 2], adder 1 [3], adder 4 [9], adder 2 [3], adder 3 []]
    outputSockets := [{ name := "first", type := .float, source := some (.ofNode ⟨2⟩ 0) },
      { name := "second", type := .float, source := some (.ofNode ⟨0⟩ 0) }] }

theorem lattice_schedule_canonical : ∃ h₁ h₂,
    lattice.sort = .ok h₁ ∧ ({ lattice with nodes := lattice.nodes.reverse } : Graph).sort = .ok h₂ ∧
    h₁.sort = .ok h₁ ∧ h₁.nodes.Perm lattice.nodes ∧ h₂.nodes.Perm lattice.nodes.reverse ∧
    ∃ front back₁ back₂, h₁.nodes = front ++ back₁ ∧ h₂.nodes = front ++ back₂ ∧
      (∀ n ∈ front, lattice.Feeds n.id) ∧ ∀ n ∈ back₁, ¬ lattice.Feeds n.id := by
  have hdistinct : lattice.Distinct := by decide
  have hends : lattice.sort.isOk = true := by decide +kernel
  obtain ⟨hagain, hboth, hfront⟩ := schedule_canonical lattice { lattice with nodes := lattice.nodes.reverse }
    hdistinct (List.reverse_perm lattice.nodes) rfl
  obtain ⟨h₁, hsort₁⟩ := exists_sort hdistinct (not_cyclic_of_isOk hends)
  obtain ⟨h₂, hsort₂⟩ := hboth.mp ⟨h₁, hsort₁⟩
  obtain ⟨hperm₁, hperm₂, front, back₁, back₂, hnodes₁, hnodes₂, hfeeds, hback₁, -⟩ := hfront h₁ h₂ hsort₁ hsort₂
  exact ⟨h₁, h₂, hsort₁, hsort₂, hagain h₁ hsort₁, hperm₁, hperm₂, front, back₁, back₂, hnodes₁, hnodes₂,
    fun n hn => (hfeeds n hn).1, hback₁⟩

end ShadeGraph.Graph
