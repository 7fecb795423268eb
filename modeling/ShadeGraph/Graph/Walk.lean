import ShadeGraph.Graph.Schedule

/-!
# Walks

The connections on all ways that lead to an input, followed backwards and depth first. A walk lists one connection after
another. It remembers the way to where it stands, but not where it has been before, so a connection is listed once for
each way it lies on, and the walk ends where a way comes back to a node it has passed.

No way is longer than there are nodes, so what is left to follow can be counted, and it becomes less with each
connection.
-/

namespace ShadeGraph

/-- A connection: the output that is read and the input that reads it. -/
structure Edge where
  source : PinRef
  target : PinRef
  deriving DecidableEq, Inhabited

namespace Graph

/-- A stop on a way: a node, or the input where the walk starts, and the connections that are left to follow there. -/
structure Stop where
  node? : Option NodeId
  left : List Edge
  deriving DecidableEq, Inhabited

/-- The nodes on a way, which has its last stop in front. -/
def pathOf (way : List Stop) : List NodeId := (way.filterMap Stop.node?).reverse

/-- The connections of a node's inputs. -/
def edgesInto (g : Graph) (id : NodeId) : List Edge :=
  match g.node? id with
  | none => []
  | some n => n.inputs.zipIdx.filterMap fun (i, index) => i.source.map fun source => ⟨source, .ofNode id index⟩

/-- The connection of an input, if it has one. -/
def edgesTo (g : Graph) (target : PinRef) : List Edge :=
  (((g.input? target).bind Input.source).map fun source => ⟨source, target⟩).toList

/-- The way on which a walk starts. -/
def wayTo (g : Graph) (target : PinRef) : List Stop := [⟨none, g.edgesTo target⟩]

/-- Follows a connection from the end of a way. The walk goes on at the node behind it; a node on the way ends it. -/
def follow (g : Graph) (way : List Stop) (edge : Edge) : Except Error Edge × List Stop :=
  match edge.source.owner with
  | .graph => (.ok edge, way)
  | .node id =>
    if (pathOf way).contains id then (.error (g.cycleAt (pathOf way) id), [])
    else (.ok edge, ⟨some id, g.edgesInto id⟩ :: way)

/-- What a walk lists next, and the way from which it goes on. -/
def next? (g : Graph) : List Stop → Option (Except Error Edge × List Stop)
  | [] => none
  | ⟨_, []⟩ :: way => next? g way
  | ⟨id, edge :: left⟩ :: way => some (g.follow (⟨id, left⟩ :: way) edge)

/-! ## What is left to follow -/

/-- The number of inputs of all nodes, which no node has more connections than. -/
def fanIn (g : Graph) : Nat := (g.nodes.map Node.inputs).flatten.length

/-- At least the number of connections that a walk still lists. Behind each of them there are no more than `fanIn`
others, and so on for as long as there are nodes that are not on the way. -/
def pending (g : Graph) : List Stop → Nat
  | [] => 0
  | stop :: way => stop.left.length * Nat.pow (g.fanIn + 1) (g.awayFrom (pathOf (stop :: way))) + pending g way

theorem length_edgesInto_le (g : Graph) (id : NodeId) : (g.edgesInto id).length ≤ g.fanIn := by
  unfold edgesInto
  split
  · exact Nat.zero_le _
  · rename_i n hn
    have hmem : n.inputs ∈ g.nodes.map Node.inputs := List.mem_map_of_mem (List.mem_of_find?_eq_some hn)
    refine Nat.le_trans (List.length_filterMap_le _ _) ?_
    rw [List.length_zipIdx]
    exact (List.sublist_flatten_of_mem hmem).length_le

theorem pending_behind_lt (g : Graph) (path : List NodeId) (id : NodeId) (haway : path.contains id = false) :
    (g.edgesInto id).length * Nat.pow (g.fanIn + 1) (g.awayFrom (path ++ [id])) <
      Nat.pow (g.fanIn + 1) (g.awayFrom path) := by
  cases hn : g.node? id with
  | none =>
    have hnone : g.edgesInto id = [] := by rw [edgesInto, hn]
    rw [hnone, List.length_nil, Nat.zero_mul]
    exact Nat.pow_pos (Nat.succ_pos _)
  | some n =>
    have hless := awayFrom_lt g path id n hn haway
    calc (g.edgesInto id).length * Nat.pow (g.fanIn + 1) (g.awayFrom (path ++ [id]))
        ≤ g.fanIn * Nat.pow (g.fanIn + 1) (g.awayFrom (path ++ [id])) :=
          Nat.mul_le_mul_right _ (length_edgesInto_le g id)
      _ < (g.fanIn + 1) * Nat.pow (g.fanIn + 1) (g.awayFrom (path ++ [id])) :=
          Nat.mul_lt_mul_of_pos_right (Nat.lt_succ_self _) (Nat.pow_pos (Nat.succ_pos _))
      _ = Nat.pow (g.fanIn + 1) (g.awayFrom (path ++ [id]) + 1) := Nat.mul_comm _ _
      _ ≤ Nat.pow (g.fanIn + 1) (g.awayFrom path) := Nat.pow_le_pow_right (Nat.succ_pos _) hless

theorem pathOf_cons_some (id : NodeId) (left : List Edge) (way : List Stop) :
    pathOf (⟨some id, left⟩ :: way) = pathOf way ++ [id] := by
  simp [pathOf]

theorem pathOf_left (id : Option NodeId) (left left' : List Edge) (way : List Stop) :
    pathOf (⟨id, left⟩ :: way) = pathOf (⟨id, left'⟩ :: way) := by
  cases id <;> simp [pathOf]

theorem pending_follow_lt (g : Graph) (id : Option NodeId) (edge : Edge) (left : List Edge) (way : List Stop) :
    g.pending (g.follow (⟨id, left⟩ :: way) edge).2 < g.pending (⟨id, edge :: left⟩ :: way) := by
  have hpath := pathOf_left id (edge :: left) left way
  have hpos : 0 < Nat.pow (g.fanIn + 1) (g.awayFrom (pathOf (⟨id, left⟩ :: way))) := Nat.pow_pos (Nat.succ_pos _)
  have hcount : g.pending (⟨id, edge :: left⟩ :: way)
      = Nat.pow (g.fanIn + 1) (g.awayFrom (pathOf (⟨id, left⟩ :: way))) + g.pending (⟨id, left⟩ :: way) := by
    simp only [pending, hpath, List.length_cons, Nat.succ_mul]
    omega
  rw [hcount, follow]
  split
  · exact Nat.lt_add_of_pos_left hpos
  · rename_i source _
    split
    · exact Nat.lt_of_lt_of_le hpos (Nat.le_add_right _ _)
    · rename_i haway
      rw [pending, pathOf_cons_some]
      exact Nat.add_lt_add_right (pending_behind_lt g _ source (by simpa using haway)) _

theorem pending_next?_lt {g : Graph} {item : Except Error Edge} {way' : List Stop} :
    ∀ {way : List Stop}, g.next? way = some (item, way') → g.pending way' < g.pending way
  | [], h => by cases h
  | ⟨id, []⟩ :: way, h => by
    have hless : g.pending way' < g.pending way := pending_next?_lt h
    rw [pending, List.length_nil, Nat.zero_mul, Nat.zero_add]
    exact hless
  | ⟨id, edge :: left⟩ :: way, h => by
    have hless := pending_follow_lt g id edge left way
    rw [Option.some.inj h] at hless
    exact hless

/-! ## Walking -/

/-- The edges that a walk lists, and the cycle that ends it. -/
abbrev Walk := List Edge × Option Error

/-- Walks from the end of a way. -/
def walk (g : Graph) (way : List Stop) : Walk :=
  match _ : g.next? way with
  | none => ([], none)
  | some (.error e, _) => ([], some e)
  | some (.ok edge, way') =>
    let (edges, error) := walk g way'
    (edge :: edges, error)
termination_by g.pending way
decreasing_by exact pending_next?_lt ‹_›

def walkTo (g : Graph) (target : PinRef) : Walk := g.walk (g.wayTo target)

/-- The edges of a walk that is not ended by a cycle. -/
def Walk.complete : Walk → Except Error (List Edge)
  | (_, some e) => .error e
  | (edges, none) => .ok edges

/-- What stands on the ways to the output sockets. -/
def upstream (g : Graph) : Except Error (List NodeId) := do
  let walks ← (List.range g.outputSockets.length).mapM fun index => (g.walkTo (.socket index)).complete
  pure (walks.flatten.filterMap fun edge => edge.source.node?)

/-- The nodes from which an output socket can be reached, in the order of the graph. -/
def reachableNodes (g : Graph) : Except Error (List Node) :=
  g.upstream.map fun ids => g.nodes.filter fun n => ids.contains n.id

end Graph
end ShadeGraph
