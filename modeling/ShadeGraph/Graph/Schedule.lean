import ShadeGraph.Graph.Basic

/-!
# Schedules and scopes

An order of the nodes in which every node stands behind the nodes it reads. It is found depth first from the output
sockets, so that the nodes that reach an output come first; a node that is met again on the way to itself closes a
cycle, which is reported with the names along it.

The scope of every node is found by walking a schedule backwards: what reads a node has its final scope before the node
itself. A node that nothing reads counts as needed everywhere.
-/

namespace ShadeGraph.Graph

def names (g : Graph) (ids : List NodeId) : List String := ids.filterMap fun id => (g.node? id).map Node.name

/-- The cycle that ends at a node on the way: the way from there on, and the node again. -/
def cycleAt (g : Graph) (path : List NodeId) (id : NodeId) : Error :=
  .cycle g.name (g.names (path.dropWhile (fun p => p != id) ++ [id]))

/-- The number of nodes that are not on the way. -/
def awayFrom (g : Graph) (path : List NodeId) : Nat := (g.nodes.filter fun n => !path.contains n.id).length

theorem awayFrom_lt (g : Graph) (path : List NodeId) (id : NodeId) (n : Node) (found : g.node? id = some n)
    (away : path.contains id = false) : g.awayFrom (path ++ [id]) < g.awayFrom path := by
  have member := List.mem_of_find?_eq_some found
  have same : n.id = id := by simpa using List.find?_some found
  unfold awayFrom
  simp only [← List.countP_eq_length_filter]
  have split := List.countP_eq_countP_filter_add g.nodes (fun n => !path.contains n.id) (fun n => n.id == id)
  rw [split]
  have rest : (List.filter (fun n => !(n.id == id)) g.nodes).countP (fun n => !path.contains n.id)
      = g.nodes.countP (fun n => !(path ++ [id]).contains n.id) := by
    rw [List.countP_filter]
    apply List.countP_congr
    intro m _
    simp only [List.contains_append, List.contains_cons, List.contains_nil, Bool.or_false]
    cases path.contains m.id <;> simp [Bool.beq_comm]
  have positive : 0 < (List.filter (fun n => n.id == id) g.nodes).countP (fun n => !path.contains n.id) := by
    rw [List.countP_pos_iff]
    exact ⟨n, by simp [member, same], by rw [same, away]; rfl⟩
  omega

/-- Appends a node to an order, behind all the nodes it reads. -/
def visit (g : Graph) (path order : List NodeId) (id : NodeId) : Except Error (List NodeId) :=
  if order.contains id then .ok order
  else if _ : path.contains id then .error (g.cycleAt path id)
  else
    match _ : g.node? id with
    | none => .ok order
    | some n => do
      let order ← n.sources.foldlM (fun order source => visit g (path ++ [id]) order source) order
      pure (order ++ [id])
termination_by g.awayFrom path
decreasing_by exact awayFrom_lt g path id n ‹_› (by simp_all)

def visitAll (g : Graph) (order ids : List NodeId) : Except Error (List NodeId) :=
  ids.foldlM (fun order id => g.visit [] order id) order

/-- The nodes in a given order, and the remaining nodes behind them. -/
def reorder (g : Graph) (order : List NodeId) : Graph :=
  { g with nodes := order.filterMap g.node? ++ g.nodes.filter fun n => !order.contains n.id }

/-- Puts every node behind the nodes it reads. -/
def Edit.sort : Edit Unit := do
  let g ← get
  let order ← g.visitAll [] (g.roots ++ g.nodes.map Node.id)
  set (g.reorder order)

def sort (g : Graph) : Except Error Graph := Edit.sort.result g

/-- The nodes from which an output socket can be reached. -/
def reachable (g : Graph) : Except Error (List NodeId) := g.visitAll [] g.roots

/-! ## Scopes -/

/-- Merges a scope into the one of a node. -/
def widen (g : Graph) (id : NodeId) (scope : Scope) : Graph :=
  g.modifyNode id fun n => { n with scope := n.scope.merge scope }

/-- What a node with a scope needs of the node at one of its inputs. -/
def passOn (n : Node) (scope : Scope) (index : Nat) : Scope :=
  match n.branchMask? with
  | some full => if (full &&& branchBit index) != 0 then scope.throughBranch n.id index full else scope
  | none => scope

/-- Passes the scope of a node on to the nodes it reads, from the input at a position on. -/
def passAll (n : Node) (scope : Scope) : Graph → Nat → List Input → Graph
  | g, _, [] => g
  | g, index, i :: rest =>
    let g :=
      match i.sourceNode? with
      | some id => g.widen id (passOn n scope index)
      | none => g
    passAll n scope g (index + 1) rest

/-- Settles the scope of a node and passes it on. -/
def settle (g : Graph) (id : NodeId) : Graph :=
  match g.node? id with
  | none => g
  | some n =>
    let scope := if n.scope = .unknown then .everywhere else n.scope
    passAll n scope (g.modifyNode id fun n => { n with scope }) 0 n.inputs

/-- Gives every node its scope. The nodes must be in the order of a schedule. -/
def assignScopes (g : Graph) : Graph :=
  let g : Graph := { g with nodes := g.nodes.map fun n => { n with scope := .unknown } }
  let g := g.roots.foldl (fun g id => g.widen id .everywhere) g
  (g.nodes.map Node.id).reverse.foldl settle g

end ShadeGraph.Graph
