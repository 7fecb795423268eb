import Mathlib.Algebra.Ring.Nat
import ShadeGraph.Graph.Walk
import ShadeGraph.Proofs.Graph.Schedule

/-!
# Walks end and miss nothing

A walk lists connections until there is none left, or until its way comes back to a node on it. It ends on every graph,
because each connection leaves less to follow. It ends at a cycle exactly if one lies upstream of the input where it
starts, and otherwise comes to every node upstream.

Two invariants say why. Each stop on a way is read from the stop below it, so that a node met again closes a cycle. And
if a walk is not ended by a cycle, then whatever lies behind the connections that were left at a stop is listed, is on no
cycle, and is not on the way to that stop.
-/

namespace ShadeGraph.Graph

open Relation

/-- The node is read by the input, perhaps through other nodes. -/
def Upstream (g : Graph) (target : PinRef) (id : NodeId) : Prop :=
  ∃ first, (g.input? target).bind Input.sourceNode? = some first ∧ first ∈ g.ids ∧ ReflTransGen g.Reads first id

/-- A walk to its end: what it lists, one item after the other, until there is nothing left. -/
inductive RunsOut (g : Graph) : List Stop → List (Except Error Edge) → Prop where
  | done {way : List Stop} : g.next? way = none → RunsOut g way []
  | item {way way' : List Stop} {item : Except Error Edge} {items : List (Except Error Edge)} :
      g.next? way = some (item, way') → RunsOut g way' items → RunsOut g way (item :: items)

def Walk.items (w : Walk) : List (Except Error Edge) := w.1.map .ok ++ (w.2.map .error).toList

variable {g : Graph} {target : PinRef} {id source : NodeId} {top : Option NodeId} {edge : Edge} {left : List Edge}
  {way way' : List Stop}

/-! ## Single steps -/

theorem follow_socket (h : edge.source.node? = none) : g.follow way edge = (.ok edge, way) := by
  obtain ⟨⟨owner, index⟩, target⟩ := edge
  cases owner with
  | graph => rfl
  | node id => cases h

theorem follow_back (h : edge.source.node? = some source) (hback : source ∈ pathOf way) :
    g.follow way edge = (.error (g.cycleAt (pathOf way) source), []) := by
  obtain ⟨⟨owner, index⟩, target⟩ := edge
  cases owner with
  | graph => cases h
  | node id =>
    obtain rfl := Option.some.inj h
    simp [follow, hback]

theorem follow_on (h : edge.source.node? = some source) (hnew : source ∉ pathOf way) :
    g.follow way edge = (.ok edge, ⟨some source, g.edgesInto source⟩ :: way) := by
  obtain ⟨⟨owner, index⟩, target⟩ := edge
  cases owner with
  | graph => cases h
  | node id =>
    obtain rfl := Option.some.inj h
    simp [follow, hnew]

theorem walk_nil : g.walk [] = ([], none) := by
  rw [walk]
  rfl

theorem walk_pop : g.walk (⟨top, []⟩ :: way) = g.walk way := by
  rw [walk, walk, next?]

theorem walk_of_ok (h : g.next? way = some (.ok edge, way')) :
    g.walk way = (edge :: (g.walk way').1, (g.walk way').2) := by
  rw [walk]
  split <;> simp_all

theorem walk_of_error {e : Error} (h : g.next? way = some (.error e, way')) : g.walk way = ([], some e) := by
  rw [walk]
  split <;> simp_all

theorem walk_socket (h : edge.source.node? = none) :
    g.walk (⟨top, edge :: left⟩ :: way)
      = (edge :: (g.walk (⟨top, left⟩ :: way)).1, (g.walk (⟨top, left⟩ :: way)).2) :=
  walk_of_ok (by rw [next?, follow_socket h])

theorem walk_back (h : edge.source.node? = some source) (hback : source ∈ pathOf (⟨top, left⟩ :: way)) :
    g.walk (⟨top, edge :: left⟩ :: way) = ([], some (g.cycleAt (pathOf (⟨top, left⟩ :: way)) source)) :=
  walk_of_error (by rw [next?, follow_back h hback])

theorem walk_on (h : edge.source.node? = some source) (hnew : source ∉ pathOf (⟨top, left⟩ :: way)) :
    g.walk (⟨top, edge :: left⟩ :: way)
      = (edge :: (g.walk (⟨some source, g.edgesInto source⟩ :: ⟨top, left⟩ :: way)).1,
          (g.walk (⟨some source, g.edgesInto source⟩ :: ⟨top, left⟩ :: way)).2) :=
  walk_of_ok (by rw [next?, follow_on h hnew])

/-- Induction along a walk: at a stop with nothing left it goes back, and otherwise it follows the next connection,
which comes from a socket, leads back to the way, or leads on to another node. -/
theorem walk_induction {P : List Stop → Prop} (g : Graph) (nil : P []) (pop : ∀ top way, P way → P (⟨top, []⟩ :: way))
    (socket : ∀ top edge left way, edge.source.node? = none → P (⟨top, left⟩ :: way) →
      P (⟨top, edge :: left⟩ :: way))
    (back : ∀ top edge left way source, edge.source.node? = some source → source ∈ pathOf (⟨top, left⟩ :: way) →
      P (⟨top, edge :: left⟩ :: way))
    (on : ∀ top edge left way source, edge.source.node? = some source → source ∉ pathOf (⟨top, left⟩ :: way) →
      P (⟨some source, g.edgesInto source⟩ :: ⟨top, left⟩ :: way) → P (⟨top, edge :: left⟩ :: way)) :
    ∀ way, P way
  | [] => nil
  | ⟨top, []⟩ :: way => pop top way (walk_induction g nil pop socket back on way)
  | ⟨top, edge :: left⟩ :: way => by
    cases hsource : edge.source.node? with
    | none => exact socket top edge left way hsource (walk_induction g nil pop socket back on _)
    | some source =>
      by_cases hback : source ∈ pathOf (⟨top, left⟩ :: way)
      · exact back top edge left way source hsource hback
      · exact on top edge left way source hsource hback (walk_induction g nil pop socket back on _)
termination_by way => (g.pending way, way.length)
decreasing_by
  · simp [Prod.lex_def, pending]
  · have hless := pending_follow_lt g top edge left way
    rw [follow_socket hsource] at hless
    exact Prod.Lex.left _ _ hless
  · have hless := pending_follow_lt g top edge left way
    rw [follow_on hsource hback] at hless
    exact Prod.Lex.left _ _ hless

/-! ## Walks end -/

theorem next?_nil_of_error {e : Error} : ∀ {way : List Stop}, g.next? way = some (.error e, way') → way' = []
  | [], h => by cases h
  | ⟨_, []⟩ :: way, h => next?_nil_of_error (show g.next? way = _ from h)
  | ⟨top, edge :: left⟩ :: way, h => by
    have hfollow : g.follow (⟨top, left⟩ :: way) edge = (.error e, way') := Option.some.inj h
    cases hsource : edge.source.node? with
    | none =>
      rw [follow_socket hsource] at hfollow
      cases hfollow
    | some source =>
      by_cases hback : source ∈ pathOf (⟨top, left⟩ :: way)
      · rw [follow_back hsource hback] at hfollow
        exact (Prod.mk.inj hfollow).2.symm
      · rw [follow_on hsource hback] at hfollow
        cases hfollow

/-- A walk comes to its end, and lists no more than was left to follow. -/
theorem runsOut_walk (g : Graph) (way : List Stop) :
    g.RunsOut way (g.walk way).items ∧ (g.walk way).items.length ≤ g.pending way := by
  fun_induction walk g way with
  | case1 way h => exact ⟨.done h, Nat.zero_le _⟩
  | case2 way e way' h =>
    have hless := pending_next?_lt h
    obtain rfl := next?_nil_of_error h
    exact ⟨.item h (.done rfl), hless⟩
  | case3 way edge way' h edges error hwalk ih =>
    have hless := pending_next?_lt h
    rw [hwalk] at ih
    obtain ⟨hruns, hle⟩ := ih
    refine ⟨.item h hruns, ?_⟩
    have hlength : (Walk.items (edge :: edges, error)).length = (Walk.items (edges, error)).length + 1 := rfl
    omega

theorem pending_wayTo (g : Graph) (target : PinRef) :
    g.pending (g.wayTo target) ≤ (g.fanIn + 1) ^ g.nodes.length := by
  have hone : (g.edgesTo target).length ≤ 1 := by
    rw [edgesTo, Option.length_toList]
    split <;> omega
  have haway : g.awayFrom (pathOf (g.wayTo target)) = g.nodes.length := by
    simp [awayFrom, wayTo, pathOf]
  rw [wayTo, pending, ← wayTo, haway, pending, Nat.add_zero]
  exact Nat.le_trans (Nat.mul_le_mul_right _ hone) (Nat.le_of_eq (Nat.one_mul _))

/-! ## Connections of a node -/

theorem nodes_edgesInto {n : Node} (hn : g.node? id = some n) :
    (g.edgesInto id).filterMap (fun edge => edge.source.node?) = n.sources := by
  have hsources : n.sources = n.inputs.zipIdx.filterMap (Input.sourceNode? ∘ Prod.fst) := by
    rw [← List.filterMap_map, List.zipIdx_map_fst, Node.sources]
  rw [hsources, edgesInto, hn, List.filterMap_filterMap]
  refine List.filterMap_congr fun p _ => ?_
  cases hsource : p.1.source <;> simp [Input.sourceNode?, hsource]

theorem nodes_edgesTo (g : Graph) (target : PinRef) :
    (g.edgesTo target).filterMap (fun edge => edge.source.node?) = ((g.input? target).bind Input.sourceNode?).toList := by
  rw [edgesTo]
  cases g.input? target with
  | none => rfl
  | some i =>
    cases hsource : i.source with
    | none => simp [Input.sourceNode?, hsource]
    | some pin => cases hnode : pin.node? <;> simp [Input.sourceNode?, hsource, hnode]

theorem mem_sources_of_edge (hedge : edge ∈ g.edgesInto id) (hsource : edge.source.node? = some source) :
    ∃ n, g.node? id = some n ∧ source ∈ n.sources := by
  cases hn : g.node? id with
  | none => simp [edgesInto, hn] at hedge
  | some n =>
    exact ⟨n, rfl, nodes_edgesInto hn ▸ List.mem_filterMap.mpr ⟨edge, hedge, hsource⟩⟩

theorem exists_edge_of_reads (h : g.Reads id source) : ∃ edge ∈ g.edgesInto id, edge.source.node? = some source := by
  obtain ⟨n, hn, hsource, -⟩ := h
  rw [← nodes_edgesInto hn] at hsource
  exact List.mem_filterMap.mp hsource

/-! ## Ways are chains -/

/-- The input where the walk starts, or the node at a stop, reads the node. -/
def LeadsTo (g : Graph) (target : PinRef) : Option NodeId → NodeId → Prop
  | none, source => (g.input? target).bind Input.sourceNode? = some source
  | some id, source => ∃ n, g.node? id = some n ∧ source ∈ n.sources

def LeftAt (g : Graph) (target : PinRef) (top : Option NodeId) (left : List Edge) : Prop :=
  ∀ edge ∈ left, ∀ source, edge.source.node? = some source → g.LeadsTo target top source

/-- The way starts at the input, and each node on it is read at the stop below. -/
inductive Climbs (g : Graph) (target : PinRef) : List Stop → Prop where
  | nil : Climbs g target []
  | bottom {left : List Edge} : g.LeftAt target none left → Climbs g target [⟨none, left⟩]
  | above {below : Stop} {way : List Stop} {id : NodeId} {left : List Edge} : Climbs g target (below :: way) →
      g.LeadsTo target below.node? id → g.LeftAt target (some id) left →
      Climbs g target (⟨some id, left⟩ :: below :: way)

theorem climbs_wayTo (g : Graph) (target : PinRef) : g.Climbs target (g.wayTo target) := by
  refine .bottom fun edge hedge source hsource => ?_
  rw [LeadsTo, ← Option.mem_toList, ← nodes_edgesTo]
  exact List.mem_filterMap.mpr ⟨edge, hedge, hsource⟩

theorem Climbs.pop (h : g.Climbs target (⟨top, []⟩ :: way)) : g.Climbs target way := by
  cases h with
  | bottom => exact .nil
  | above hbelow => exact hbelow

theorem Climbs.leadsTo (h : g.Climbs target (⟨top, edge :: left⟩ :: way)) (hsource : edge.source.node? = some source) :
    g.LeadsTo target top source := by
  cases h with
  | bottom hleft => exact hleft edge List.mem_cons_self source hsource
  | above _ _ hleft => exact hleft edge List.mem_cons_self source hsource

theorem Climbs.rest (h : g.Climbs target (⟨top, edge :: left⟩ :: way)) : g.Climbs target (⟨top, left⟩ :: way) := by
  cases h with
  | bottom hleft => exact .bottom fun e he => hleft e (List.mem_cons_of_mem edge he)
  | above hbelow hread hleft => exact .above hbelow hread fun e he => hleft e (List.mem_cons_of_mem edge he)

theorem Climbs.on (h : g.Climbs target (⟨top, edge :: left⟩ :: way)) (hsource : edge.source.node? = some source) :
    g.Climbs target (⟨some source, g.edgesInto source⟩ :: ⟨top, left⟩ :: way) :=
  .above h.rest (h.leadsTo hsource) fun _ he _ hs => mem_sources_of_edge he hs

theorem LeadsTo.known (h : g.LeadsTo target (some id) source) : id ∈ g.ids := by
  obtain ⟨n, hn, -⟩ := h
  exact mem_ids_of_node? hn

theorem Climbs.known {stop : Stop} (h : g.Climbs target (stop :: way)) :
    (∀ id, stop.node? = some id → id ∈ g.ids) → ∀ p ∈ pathOf (stop :: way), p ∈ g.ids := by
  generalize hstops : stop :: way = stops at h
  induction h generalizing stop way with
  | nil => cases hstops
  | bottom _ =>
    intro _ p hp
    cases hp
  | @above below rest id left hbelow hid _ ih =>
    obtain ⟨rfl, rfl⟩ := List.cons.inj hstops
    intro hlast p hp
    rw [pathOf_cons_some] at hp
    rcases List.mem_append.mp hp with hp | hp
    · exact ih rfl (fun b hb => (hb ▸ hid : g.LeadsTo target (some b) id).known) p hp
    · exact List.mem_singleton.mp hp ▸ hlast id rfl

theorem Climbs.chain {stop : Stop} (h : g.Climbs target (stop :: way)) :
    ∀ source, g.LeadsTo target stop.node? source → source ∈ g.ids →
      (pathOf (stop :: way) ++ [source]).IsChain g.Reads ∧ ∀ p ∈ pathOf (stop :: way) ++ [source], g.Upstream target p := by
  generalize hstops : stop :: way = stops at h
  induction h generalizing stop way with
  | nil => cases hstops
  | bottom hleft =>
    obtain ⟨rfl, rfl⟩ := List.cons.inj hstops
    intro source hfirst hknown
    refine ⟨List.isChain_singleton source, fun p hp => ?_⟩
    rw [List.mem_singleton.mp hp]
    exact ⟨source, hfirst, hknown, .refl⟩
  | @above below rest id left hbelow hid hleft ih =>
    obtain ⟨rfl, rfl⟩ := List.cons.inj hstops
    intro source hread hknown
    obtain ⟨n, hn, hsource⟩ := hread
    have hreads : g.Reads id source := ⟨n, hn, hsource, hknown⟩
    obtain ⟨hchain, hup⟩ := ih rfl id hid hreads.left
    rw [pathOf_cons_some]
    refine ⟨hchain.append (List.isChain_singleton source) ?_, ?_⟩
    · intro x hx y hy
      obtain rfl : id = x := by simpa using hx
      obtain rfl : source = y := by simpa using hy
      exact hreads
    · intro p hp
      rcases List.mem_append.mp hp with hp | hp
      · exact hup p hp
      · obtain ⟨first, hfirst, hfirstKnown, hpath⟩ := hup id (by simp)
        rw [List.mem_singleton.mp hp]
        exact ⟨first, hfirst, hfirstKnown, hpath.tail hreads⟩

/-- What a walk reports is a cycle upstream, and the nodes that it lists are upstream. -/
theorem walk_sound (g : Graph) (target : PinRef) (way : List Stop) : g.Climbs target way →
    (∀ e, (g.walk way).2 = some e → ∃ chain, g.IsCycle chain ∧ e = .cycle g.name (chain.map Node.name) ∧
      ∀ n ∈ chain, g.Upstream target n.id ∧ TransGen g.Reads n.id n.id) ∧
    ∀ edge ∈ (g.walk way).1, ∀ source, edge.source.node? = some source → source ∈ g.ids → g.Upstream target source := by
  induction way using walk_induction g with
  | nil => simp [walk_nil]
  | pop top way ih =>
    intro h
    rw [walk_pop]
    exact ih h.pop
  | socket top edge left way hsource ih =>
    intro h
    obtain ⟨herror, hlisted⟩ := ih h.rest
    rw [walk_socket hsource]
    refine ⟨herror, fun e he source hs => ?_⟩
    rcases List.mem_cons.mp he with rfl | he
    · rw [hsource] at hs
      cases hs
    · exact hlisted e he source hs
  | back top edge left way source hsource hback =>
    intro h
    have hread := h.leadsTo hsource
    have hknown : source ∈ g.ids :=
      h.rest.known (fun id hid => (hid ▸ hread : g.LeadsTo target (some id) source).known) source hback
    obtain ⟨hchain, hup⟩ := h.rest.chain source hread hknown
    obtain ⟨chain, hcycle, hreport, hpath⟩ := isCycle_of_path hback hknown hchain
    rw [walk_back hsource hback]
    refine ⟨fun e he => ⟨chain, hcycle, (Option.some.inj he).symm.trans hreport, fun n hn => ?_⟩, by simp⟩
    exact ⟨hup n.id (List.mem_append_left _ (hpath n hn).1), (hpath n hn).2⟩
  | on top edge left way source hsource hnew ih =>
    intro h
    obtain ⟨herror, hlisted⟩ := ih (h.on hsource)
    rw [walk_on hsource hnew]
    refine ⟨herror, fun e he s hs hknown => ?_⟩
    rcases List.mem_cons.mp he with rfl | he
    · obtain rfl : source = s := Option.some.inj (hsource.symm.trans hs)
      exact (h.rest.chain source (h.leadsTo hsource) hknown).2 source (by simp)
    · exact hlisted e he s hs hknown

/-! ## What is left is listed -/

/-- Everything behind the connection is on no cycle, is not on the way, and is listed. -/
def Covered (g : Graph) (listed : List Edge) (path : List NodeId) (edge : Edge) : Prop :=
  ∀ first, edge.source.node? = some first → first ∈ g.ids → ∀ x, ReflTransGen g.Reads first x →
    x ∉ path ∧ ¬ TransGen g.Reads x x ∧ ∃ e ∈ listed, e.source.node? = some x

theorem Covered.mono {listed : List Edge} {path : List NodeId} {e : Edge} (h : g.Covered listed path edge) :
    g.Covered (e :: listed) path edge := by
  intro first hfirst hknown x hx
  obtain ⟨haway, hacyclic, e', he', hsource⟩ := h first hfirst hknown x hx
  exact ⟨haway, hacyclic, e', List.mem_cons_of_mem e he', hsource⟩

theorem Covered.of_edgesInto {listed : List Edge} {path : List NodeId} (hsource : edge.source.node? = some source)
    (haway : source ∉ path) (h : ∀ e ∈ g.edgesInto source, g.Covered listed (path ++ [source]) e) :
    g.Covered (edge :: listed) path edge := by
  have hbehind : ∀ y, g.Reads source y → ∀ x, ReflTransGen g.Reads y x →
      x ∉ path ++ [source] ∧ ¬ TransGen g.Reads x x ∧ ∃ e ∈ listed, e.source.node? = some x := by
    intro y hread x hx
    obtain ⟨e, he, hy⟩ := exists_edge_of_reads hread
    exact h e he y hy hread.right x hx
  intro first hfirst hknown x hx
  obtain rfl : source = first := Option.some.inj (hsource.symm.trans hfirst)
  rcases ReflTransGen.cases_head hx with rfl | ⟨y, hread, hyx⟩
  · refine ⟨haway, fun hcycle => ?_, edge, List.mem_cons_self, hsource⟩
    -- a cycle through the node leads back to it, but behind it nothing does
    obtain ⟨y, hread, hback⟩ := TransGen.head'_iff.mp hcycle
    exact (hbehind y hread source hback).1 (by simp)
  · obtain ⟨hx, hacyclic, e, he, hsource⟩ := hbehind y hread x hyx
    exact ⟨fun hmem => hx (List.mem_append_left _ hmem), hacyclic, e, List.mem_cons_of_mem edge he, hsource⟩

/-- What is left at each stop of a way is covered. -/
def Clear (g : Graph) (listed : List Edge) : List Stop → Prop
  | [] => True
  | stop :: way => (∀ edge ∈ stop.left, g.Covered listed (pathOf (stop :: way)) edge) ∧ Clear g listed way

theorem Clear.mono {listed : List Edge} {e : Edge} : ∀ {way : List Stop}, g.Clear listed way → g.Clear (e :: listed) way
  | [], _ => trivial
  | _ :: _, h => ⟨fun edge hedge => (h.1 edge hedge).mono, Clear.mono h.2⟩

theorem Clear.cons {listed : List Edge} (hedge : g.Covered listed (pathOf (⟨top, left⟩ :: way)) edge)
    (h : g.Clear listed (⟨top, left⟩ :: way)) : g.Clear listed (⟨top, edge :: left⟩ :: way) := by
  refine ⟨fun e he => ?_, h.2⟩
  rw [pathOf_left top (edge :: left) left]
  rcases List.mem_cons.mp he with rfl | he
  · exact hedge
  · exact h.1 e he

/-- A walk that no cycle ends covers all that was left. -/
theorem walk_clear (g : Graph) (way : List Stop) : (g.walk way).2 = none → g.Clear (g.walk way).1 way := by
  induction way using walk_induction g with
  | nil => exact fun _ => trivial
  | pop top way ih =>
    rw [walk_pop]
    exact fun h => ⟨by simp, ih h⟩
  | socket top edge left way hsource ih =>
    rw [walk_socket hsource]
    intro h
    refine .cons (fun first hfirst => ?_) (ih h).mono
    rw [hsource] at hfirst
    cases hfirst
  | back top edge left way source hsource hback =>
    rw [walk_back hsource hback]
    intro h
    cases h
  | on top edge left way source hsource hnew ih =>
    rw [walk_on hsource hnew]
    intro h
    obtain ⟨hinto, hrest⟩ := ih h
    rw [pathOf_cons_some] at hinto
    exact .cons (.of_edgesInto hsource hnew hinto) hrest.mono

/-! ## Walks to an input -/

theorem walkTo_clear (h : (g.walkTo target).2 = none) (hid : g.Upstream target id) :
    ¬ TransGen g.Reads id id ∧ ∃ edge ∈ (g.walkTo target).1, edge.source.node? = some id := by
  obtain ⟨first, hfirst, hknown, hpath⟩ := hid
  rw [← Option.mem_toList, ← nodes_edgesTo] at hfirst
  obtain ⟨edge, hedge, hnode⟩ := List.mem_filterMap.mp hfirst
  have hcovered := (walk_clear g (g.wayTo target) h).1 edge hedge
  exact (hcovered first hnode hknown id hpath).2

theorem walkTo_fails_iff (g : Graph) (target : PinRef) :
    (∃ e, (g.walkTo target).2 = some e) ↔ ∃ id, g.Upstream target id ∧ TransGen g.Reads id id := by
  constructor
  · rintro ⟨e, he⟩
    obtain ⟨chain, hcycle, -, hchain⟩ := (walk_sound g target _ (climbs_wayTo g target)).1 e he
    obtain ⟨n, middle, rfl⟩ := hcycle.closed
    exact ⟨n.id, hchain n (by simp)⟩
  · rintro ⟨id, hup, hcycle⟩
    cases herror : (g.walkTo target).2 with
    | none => exact absurd hcycle (walkTo_clear herror hup).1
    | some e => exact ⟨e, rfl⟩

/-! ## Walks and visits -/

/-- What a visit makes of the rest of a walk: the walk fails like the visit, or goes on as if there was nothing to
visit. -/
def Tracks (result : Except Error (List NodeId)) (before after : Option Error) : Prop :=
  (∀ e, result = .error e → before = some e) ∧ ∀ order, result = .ok order → before = after

theorem edgesInto_of_unknown (h : id ∉ g.ids) : g.edgesInto id = [] := by
  rw [edgesInto, node?_eq_none_iff.mpr h]

/-- A walk passes over nodes that have been placed: it goes through them again, but does not come back to its way. -/
theorem walk_placed (order : List NodeId) (top : Option NodeId) (edges : List Edge) (way : List Stop)
    (hplaced : g.Placed order) (hpath : ∀ p ∈ pathOf (⟨top, edges⟩ :: way), p ∈ g.ids ∧ p ∉ order)
    (hedges : ∀ edge ∈ edges, ∀ source, edge.source.node? = some source → source ∈ g.ids → source ∈ order)
    (left : List Edge) : (g.walk (⟨top, edges ++ left⟩ :: way)).2 = (g.walk (⟨top, left⟩ :: way)).2 := by
  induction edges with
  | nil => rfl
  | cons edge edges ih =>
    rw [pathOf_left top (edge :: edges) edges] at hpath
    have hrest := ih hpath fun e he => hedges e (List.mem_cons_of_mem edge he)
    rw [pathOf_left top edges (edges ++ left)] at hpath
    rw [List.cons_append]
    cases hsource : edge.source.node? with
    | none =>
      rw [walk_socket hsource]
      exact hrest
    | some source =>
      by_cases hknown : source ∈ g.ids
      · have hmem := hedges edge List.mem_cons_self source hsource hknown
        have hnew : source ∉ pathOf (⟨top, edges ++ left⟩ :: way) := fun h => (hpath source h).2 hmem
        obtain ⟨before, after, hsplit⟩ := List.append_of_mem hmem
        -- behind this node there are only nodes that are placed before it
        have hbehind := walk_placed before (some source) (g.edgesInto source) (⟨top, edges ++ left⟩ :: way)
          (hsplit ▸ hplaced).front ?_ ?_ []
        · rw [List.append_nil, walk_pop] at hbehind
          rw [walk_on hsource hnew, hbehind]
          exact hrest
        · intro p hp
          rw [pathOf_cons_some] at hp
          rcases List.mem_append.mp hp with hp | hp
          · exact ⟨(hpath p hp).1, fun h => (hpath p hp).2 (hsplit ▸ List.mem_append_left _ h)⟩
          · rw [List.mem_singleton.mp hp]
            exact ⟨hknown, (hsplit ▸ hplaced).new⟩
        · intro e he y hy hyknown
          obtain ⟨n, hn, hread⟩ := mem_sources_of_edge he hy
          exact hplaced.behind before source after hsplit y ⟨n, hn, hread, hyknown⟩
      · have hnew : source ∉ pathOf (⟨top, edges ++ left⟩ :: way) := fun h => hknown (hpath source h).1
        rw [walk_on hsource hnew, edgesInto_of_unknown hknown, walk_pop]
        exact hrest
termination_by order.length
decreasing_by simp [hsplit]

theorem tracks_of_foldlM {path : List NodeId}
    (hstep : ∀ edge left order source, edge.source.node? = some source → g.Placed order → (∀ p ∈ path, p ∉ order) →
      Tracks (g.visit path order source) (g.walk (⟨top, edge :: left⟩ :: way)).2 (g.walk (⟨top, left⟩ :: way)).2)
    (edges : List Edge) : ∀ order, g.Placed order → (∀ p ∈ path, p ∉ order) →
      Tracks ((edges.filterMap fun edge => edge.source.node?).foldlM (fun order id => g.visit path order id) order)
        (g.walk (⟨top, edges⟩ :: way)).2 (g.walk way).2 := by
  induction edges with
  | nil =>
    intro order _ _
    rw [walk_pop]
    exact ⟨fun e h => (by cases h), fun _ _ => rfl⟩
  | cons edge edges ih =>
    intro order hplaced haway
    cases hsource : edge.source.node? with
    | none =>
      simp only [List.filterMap_cons, hsource]
      rw [walk_socket hsource]
      exact ih order hplaced haway
    | some source =>
      obtain ⟨herror, hok⟩ := hstep edge edges order source hsource hplaced haway
      simp only [List.filterMap_cons, hsource]
      rw [List.foldlM_cons]
      cases hvisit : g.visit path order source with
      | error e =>
        refine ⟨fun e' h => ?_, fun _ h => (by cases h)⟩
        rw [herror e hvisit]
        exact congrArg some (Except.error.inj h)
      | ok order₁ =>
        have hvisited := visited_of_visit g path order source order₁ hplaced haway hvisit
        rw [hok order₁ hvisit]
        exact ih order₁ hvisited.placed hvisited.away

theorem tracks_of_visit (g : Graph) (path order : List NodeId) (id : NodeId) :
    ∀ (edge : Edge) (top : Option NodeId) (left : List Edge) (way : List Stop), edge.source.node? = some id →
      pathOf (⟨top, left⟩ :: way) = path → (∀ p ∈ path, p ∈ g.ids) → g.Placed order → (∀ p ∈ path, p ∉ order) →
      Tracks (g.visit path order id) (g.walk (⟨top, edge :: left⟩ :: way)).2 (g.walk (⟨top, left⟩ :: way)).2 := by
  induction path, order, id using visit.induct g with
  | case1 path order id hdone =>
    intro edge top left way hsource hpath hknown hplaced haway
    have hmem : id ∈ order := by simpa using hdone
    rw [visit, if_pos hdone]
    refine ⟨fun e h => (by cases h), fun _ _ => walk_placed order top [edge] way hplaced ?_ ?_ left⟩
    · intro p hp
      rw [pathOf_left top [edge] left, hpath] at hp
      exact ⟨hknown p hp, haway p hp⟩
    · intro e he source hs _
      rw [List.mem_singleton.mp he, hsource] at hs
      exact Option.some.inj hs ▸ hmem
  | case2 path order id hdone hback =>
    intro edge top left way hsource hpath hknown hplaced haway
    have hmem : id ∈ pathOf (⟨top, left⟩ :: way) := by simpa [hpath] using hback
    rw [visit, if_neg hdone, dif_pos hback, walk_back hsource hmem, hpath]
    exact ⟨fun e h => congrArg some (Except.error.inj h), fun _ h => (by cases h)⟩
  | case3 path order id hdone hnew hnone =>
    intro edge top left way hsource hpath hknown hplaced haway
    have hmem : id ∉ pathOf (⟨top, left⟩ :: way) := by simpa [hpath] using hnew
    rw [visit_of_unknown hdone hnew hnone, walk_on hsource hmem, edgesInto_of_unknown (node?_eq_none_iff.mp hnone),
      walk_pop]
    exact ⟨fun e h => (by cases h), fun _ _ => rfl⟩
  | case4 path order id hdone hnew n hn ih =>
    intro edge top left way hsource hpath hknown hplaced haway
    have hmem : id ∉ pathOf (⟨top, left⟩ :: way) := by simpa [hpath] using hnew
    have hknown' : ∀ p ∈ path ++ [id], p ∈ g.ids :=
      List.forall_mem_append.mpr ⟨hknown, List.forall_mem_singleton.mpr (mem_ids_of_node? hn)⟩
    have haway' : ∀ p ∈ path ++ [id], p ∉ order :=
      List.forall_mem_append.mpr ⟨haway, List.forall_mem_singleton.mpr (by simpa using hdone)⟩
    have hpath' : ∀ left', pathOf (⟨some id, left'⟩ :: ⟨top, left⟩ :: way) = path ++ [id] := by
      intro left'
      rw [pathOf_cons_some, hpath]
    obtain ⟨herror, hok⟩ := tracks_of_foldlM
      (fun e l o s hs ho ha => ih o s e (some id) l (⟨top, left⟩ :: way) hs (hpath' l) hknown' ho ha)
      (g.edgesInto id) order hplaced haway'
    rw [nodes_edgesInto hn] at herror hok
    rw [visit_of_node hdone hnew hn, walk_on hsource hmem]
    refine ⟨fun e h => ?_, fun _ h => ?_⟩
    · rcases except_bind_eq_error.mp h with h | ⟨_, -, h⟩
      · exact herror e h
      · cases h
    · obtain ⟨order₁, h₁, -⟩ := except_bind_eq_ok.mp h
      exact hok order₁ h₁

/-! ## Walks to the output sockets -/

theorem complete_eq_ok {w : Walk} {edges : List Edge} : w.complete = .ok edges ↔ w = (edges, none) := by
  obtain ⟨listed, _ | e⟩ := w <;> simp [Walk.complete]

theorem complete_eq_error {w : Walk} {e : Error} : w.complete = .error e ↔ w.2 = some e := by
  obtain ⟨listed, _ | e'⟩ := w <;> simp [Walk.complete]

theorem tracks_walkTo {order : List NodeId} (hplaced : g.Placed order) :
    Tracks (g.visitAll order ((g.input? target).bind Input.sourceNode?).toList) (g.walkTo target).2 none := by
  have hstep : ∀ (edge : Edge) (left : List Edge) (order : List NodeId) (source : NodeId),
      edge.source.node? = some source → g.Placed order → (∀ p ∈ [], p ∉ order) →
      Tracks (g.visit [] order source) (g.walk [⟨none, edge :: left⟩]).2 (g.walk [⟨none, left⟩]).2 :=
    fun edge left order source hsource =>
      tracks_of_visit g [] order source edge none left [] hsource rfl (fun p hp => absurd hp List.not_mem_nil)
  have htracks := tracks_of_foldlM hstep (g.edgesTo target) order hplaced (fun p hp => absurd hp List.not_mem_nil)
  rw [nodes_edgesTo, walk_nil] at htracks
  exact htracks

def rootsAt (g : Graph) (sockets : List Nat) : List NodeId :=
  sockets.flatMap fun index => ((g.input? (.socket index)).bind Input.sourceNode?).toList

theorem rootsAt_range (g : Graph) : g.rootsAt (List.range g.outputSockets.length) = g.roots := by
  have hindices : List.range g.outputSockets.length = g.outputSockets.zipIdx.map Prod.snd := by
    rw [List.zipIdx_map_snd, List.range_eq_range']
  calc g.rootsAt (List.range g.outputSockets.length)
      = g.outputSockets.zipIdx.flatMap fun p => p.1.sourceNode?.toList := by
        rw [rootsAt, hindices, List.flatMap_map]
        refine List.flatMap_congr fun ⟨s, index⟩ hs => ?_
        have hfound : g.input? (.socket index) = some s := List.mem_zipIdx_iff_getElem?.mp hs
        rw [hfound]
        rfl
    _ = g.roots := by
        rw [← List.flatMap_map (f := Prod.fst) (g := fun s : Input => s.sourceNode?.toList), List.zipIdx_map_fst, roots,
          List.filterMap_eq_flatMap_toList]

theorem walks_track (g : Graph) (sockets : List Nat) : ∀ order, g.Placed order →
    (∀ e, g.visitAll order (g.rootsAt sockets) = .error e →
      sockets.mapM (fun index => (g.walkTo (.socket index)).complete) = .error e) ∧
    ∀ order', g.visitAll order (g.rootsAt sockets) = .ok order' →
      ∃ walks, sockets.mapM (fun index => (g.walkTo (.socket index)).complete) = .ok walks := by
  induction sockets with
  | nil => exact fun order _ => ⟨fun e h => (by cases h), fun _ _ => ⟨[], rfl⟩⟩
  | cons index sockets ih =>
    intro order hplaced
    obtain ⟨herror, hok⟩ : Tracks _ (g.walkTo (.socket index)).2 none := tracks_walkTo hplaced
    rw [rootsAt, List.flatMap_cons, visitAll, List.foldlM_append, List.mapM_cons]
    cases hvisit : g.visitAll order ((g.input? (.socket index)).bind Input.sourceNode?).toList with
    | error e =>
      have hwalk := complete_eq_error.mpr (herror e hvisit)
      rw [visitAll] at hvisit
      rw [hvisit, hwalk]
      refine ⟨fun e' h => ?_, fun _ h => (by cases h)⟩
      obtain rfl : e = e' := Except.error.inj h
      rfl
    | ok order₁ =>
      have hwalk : (g.walkTo (.socket index)).complete = .ok (g.walkTo (.socket index)).1 :=
        complete_eq_ok.mpr (Prod.ext rfl (hok order₁ hvisit))
      obtain ⟨hfails, hends⟩ := ih order₁ (visited_of_visitAll hplaced hvisit).placed
      rw [visitAll] at hvisit
      rw [hvisit, hwalk]
      refine ⟨fun e h => ?_, fun order' h => ?_⟩
      · exact except_bind_eq_error.mpr (Or.inr ⟨_, rfl, except_bind_eq_error.mpr (Or.inl (hfails e h))⟩)
      · obtain ⟨walks, hwalks⟩ := hends order' h
        exact ⟨_, except_bind_eq_ok.mpr ⟨_, rfl, except_bind_eq_ok.mpr ⟨walks, hwalks, rfl⟩⟩⟩

theorem upstream_eq_ok {ids : List NodeId} : g.upstream = .ok ids ↔
    ∃ walks, (List.range g.outputSockets.length).mapM (fun index => (g.walkTo (.socket index)).complete) = .ok walks ∧
      walks.flatten.filterMap (fun edge => edge.source.node?) = ids := by
  rw [upstream, except_bind_eq_ok]
  simp [pure, Except.pure]

/-- The search that goes to each node once reports the same cycle as the walks. -/
theorem upstream_error_iff (g : Graph) (e : Error) : g.upstream = .error e ↔ g.reachable = .error e := by
  obtain ⟨herror, hok⟩ := walks_track g (List.range g.outputSockets.length) [] Placed.nil
  rw [rootsAt_range, ← reachable] at herror hok
  have hwalks : g.upstream = .error e ↔
      (List.range g.outputSockets.length).mapM (fun index => (g.walkTo (.socket index)).complete) = .error e := by
    rw [upstream, except_bind_eq_error]
    simp [pure, Except.pure]
  rw [hwalks]
  refine ⟨fun h => ?_, herror e⟩
  cases hreach : g.reachable with
  | error e' =>
    rw [herror e' hreach] at h
    rw [Except.error.inj h]
  | ok order =>
    obtain ⟨walks, hwalks⟩ := hok order hreach
    rw [hwalks] at h
    cases h

theorem feeds_iff_upstream : g.Feeds id ↔ ∃ index < g.outputSockets.length, g.Upstream (.socket index) id := by
  have hroot : ∀ root, root ∈ g.roots ↔ ∃ index < g.outputSockets.length,
      (g.input? (.socket index)).bind Input.sourceNode? = some root := by
    intro root
    rw [← rootsAt_range, rootsAt, List.mem_flatMap]
    simp only [List.mem_range, Option.mem_toList]
  constructor
  · rintro ⟨root, hmem, hknown, hpath⟩
    obtain ⟨index, hindex, hfirst⟩ := (hroot root).mp hmem
    exact ⟨index, hindex, root, hfirst, hknown, hpath⟩
  · rintro ⟨index, hindex, root, hfirst, hknown, hpath⟩
    exact ⟨root, (hroot root).mpr ⟨index, hindex, hfirst⟩, hknown, hpath⟩

theorem mem_upstream_iff {ids : List NodeId} (h : g.upstream = .ok ids) (hid : id ∈ g.ids) : id ∈ ids ↔ g.Feeds id := by
  obtain ⟨walks, hwalks, rfl⟩ := upstream_eq_ok.mp h
  rw [List.mem_filterMap, feeds_iff_upstream]
  constructor
  · rintro ⟨edge, hedge, hsource⟩
    obtain ⟨listed, hlisted, hedge⟩ := List.mem_flatten.mp hedge
    obtain ⟨index, hindex, hwalk⟩ := except_mapM_mem hwalks listed hlisted
    rw [complete_eq_ok] at hwalk
    refine ⟨index, List.mem_range.mp hindex, ?_⟩
    have hsound := (walk_sound g (.socket index) _ (climbs_wayTo g (.socket index))).2
    exact hsound edge (by rw [← walkTo, hwalk]; exact hedge) id hsource hid
  · rintro ⟨index, hindex, hup⟩
    obtain ⟨listed, hlisted, hwalk⟩ := except_mapM_exists hwalks index (List.mem_range.mpr hindex)
    rw [complete_eq_ok] at hwalk
    obtain ⟨-, edge, hedge, hsource⟩ := walkTo_clear (by rw [hwalk]) hup
    rw [hwalk] at hedge
    exact ⟨edge, List.mem_flatten.mpr ⟨listed, hlisted, hedge⟩, hsource⟩

theorem reachableNodes_eq_ok {found : List Node} : g.reachableNodes = .ok found ↔
    ∃ ids, g.upstream = .ok ids ∧ g.nodes.filter (fun n => ids.contains n.id) = found := by
  rw [reachableNodes]
  cases g.upstream <;> simp [Except.map]

theorem mem_reachableNodes_iff {found : List Node} (h : g.reachableNodes = .ok found) (n : Node) :
    n ∈ found ↔ n ∈ g.nodes ∧ g.Feeds n.id := by
  obtain ⟨ids, hids, rfl⟩ := reachableNodes_eq_ok.mp h
  rw [List.mem_filter, List.contains_iff_mem]
  exact and_congr_right fun hn => mem_upstream_iff hids (List.mem_map_of_mem hn)

theorem exists_upstream (hacyclic : ¬ g.Cyclic) : ∃ ids, g.upstream = .ok ids := by
  have hends : ∀ index ∈ List.range g.outputSockets.length,
      ∃ edges, (g.walkTo (.socket index)).complete = .ok edges := by
    intro index _
    cases herror : (g.walkTo (.socket index)).2 with
    | none => exact ⟨_, complete_eq_ok.mpr (Prod.ext rfl herror)⟩
    | some e =>
      obtain ⟨id, -, hcycle⟩ := (walkTo_fails_iff g (.socket index)).mp ⟨e, herror⟩
      exact absurd ⟨id, hcycle⟩ hacyclic
  obtain ⟨walks, hwalks⟩ := exists_forall₂ hends
  exact ⟨_, upstream_eq_ok.mpr ⟨walks, except_mapM_eq_ok_iff.mpr hwalks, rfl⟩⟩

/-- **Walks end and are exact.** On every graph a walk to an input lists finitely many connections. It ends at a cycle
exactly if a node on one lies upstream, and then names the nodes of such a cycle. Without one, the nodes of the graph that
stand on the ways to the output sockets are those that feed them; the search that goes to each node once finds the same
nodes and reports the same cycles. After sorting there is none. -/
theorem walks_end_and_are_exact (g : Graph) (target : PinRef) :
    (g.RunsOut (g.wayTo target) (g.walkTo target).items ∧
      (g.walkTo target).items.length ≤ (g.fanIn + 1) ^ g.nodes.length) ∧
    ((∃ e, .error e ∈ (g.walkTo target).items) ↔ ∃ id, g.Upstream target id ∧ TransGen g.Reads id id) ∧
    (∀ e, .error e ∈ (g.walkTo target).items → ∃ chain, g.IsCycle chain ∧ e = .cycle g.name (chain.map Node.name) ∧
      ∀ n ∈ chain, g.Upstream target n.id) ∧
    (∀ ids, g.upstream = .ok ids → ∀ id ∈ g.ids, id ∈ ids ↔ g.Feeds id) ∧
    (∀ found, g.reachableNodes = .ok found → ∀ n, n ∈ found ↔ n ∈ g.nodes ∧ g.Feeds n.id) ∧
    (∀ ids, g.reachable = .ok ids → ∀ id, id ∈ ids ↔ g.Feeds id) ∧
    (∀ e, g.upstream = .error e ↔ g.reachable = .error e) ∧
    ∀ h, g.sort = .ok h → (∃ found, h.reachableNodes = .ok found) ∧ ∃ ids, h.reachable = .ok ids := by
  have hitems : ∀ e, .error e ∈ (g.walkTo target).items ↔ (g.walkTo target).2 = some e := by
    intro e
    simp [Walk.items]
  obtain ⟨hruns, hlength⟩ := runsOut_walk g (g.wayTo target)
  refine ⟨⟨hruns, hlength.trans (pending_wayTo g target)⟩, ?_, ?_, fun ids h id hid => mem_upstream_iff h hid,
    fun found h n => mem_reachableNodes_iff h n, fun ids h id => mem_reachable_iff h, upstream_error_iff g, ?_⟩
  · simp only [hitems]
    exact walkTo_fails_iff g target
  · intro e he
    obtain ⟨chain, hcycle, hreport, hchain⟩ :=
      (walk_sound g target _ (climbs_wayTo g target)).1 e ((hitems e).mp he)
    exact ⟨chain, hcycle, hreport, fun n hn => (hchain n hn).1⟩
  · intro h hsort
    have hacyclic : ¬ h.Cyclic := by
      obtain ⟨front, back, rfl, hplaced, hall, -⟩ := order_of_sort hsort
      rw [Cyclic, reads_reorder hplaced fun id hid => (hall id).mpr hid]
      exact not_cyclic_of_sort hsort
    obtain ⟨ids, hids⟩ := exists_upstream hacyclic
    refine ⟨⟨_, reachableNodes_eq_ok.mpr ⟨ids, hids, rfl⟩⟩, ?_⟩
    cases hreach : h.reachable with
    | ok order => exact ⟨order, rfl⟩
    | error e =>
      rw [← upstream_error_iff, hids] at hreach
      cases hreach

end ShadeGraph.Graph
