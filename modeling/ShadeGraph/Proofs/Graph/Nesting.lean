import Mathlib.Data.Finset.Card
import Mathlib.Logic.Relation
import ShadeGraph.Proofs.Graph.Correspondence
import ShadeGraph.Shader.Generate

/-!
# Building ends

Building a graph goes through names: the instances of a node graph lead to definitions, and these to node graphs again.
It ends all the same. Each graph on the way down has a name that is not on the stack, so that there are no more levels
than names, and a single node is noted before the nodes that it reads. What would happen further down is replaced by
an alarm that may do anything, and which never goes off. A node graph that instantiates itself, over whatever other
graphs, is found.
-/

namespace ShadeGraph

open Function Relation

/-! ## Names that are left -/

/-- The number of different names of a list that do not stand on another one. -/
def away (names known : List String) : Nat := (names.toFinset \ known.toFinset).card

theorem away_le_card (names known : List String) : away names known ≤ names.toFinset.card :=
  Finset.card_le_card Finset.sdiff_subset

theorem away_le_length (names known : List String) : away names known ≤ names.length :=
  (away_le_card names known).trans (List.toFinset_card_le names)

theorem away_anti (names : List String) {known known' : List String} (h : known ⊆ known') :
    away names known' ≤ away names known := by
  apply Finset.card_le_card
  apply Finset.sdiff_subset_sdiff le_rfl
  intro name hname
  rw [List.mem_toFinset] at hname ⊢
  exact h hname

theorem away_cons_lt {names known : List String} {name : String} (hname : name ∈ names) (hnew : name ∉ known) :
    away names (name :: known) < away names known := by
  apply Finset.card_lt_card
  rw [Finset.ssubset_iff_of_subset (by intro x; simp; tauto)]
  exact ⟨name, by simp [hname, hnew], by simp⟩

def Document.graphNames (d : Document) : List String := d.nodegraphs.map NodeGraph.name

theorem Document.mem_graphNames {d : Document} {g : NodeGraph} (hg : g ∈ d.nodegraphs) : g.name ∈ d.graphNames :=
  List.mem_map_of_mem hg

theorem Document.length_graphNames (d : Document) : d.graphNames.length = d.nodegraphs.length := List.length_map _

namespace Build

variable {r : Request} {s s' : BuildState}

/-! ## Levels -/

/-- Pairwise different names, and no more than there are node graphs of different names. -/
def Orderly (d : Document) (stack : List String) : Prop := stack.Nodup ∧ stack.length ≤ d.graphNames.toFinset.card

instance (d : Document) (stack : List String) : Decidable (Orderly d stack) := by unfold Orderly; infer_instance

/-- The names on the stack are those of node graphs, and different ones. -/
structure Entered (d : Document) (stack : List String) : Prop where
  distinct : stack.Nodup
  known : stack.toFinset ⊆ d.graphNames.toFinset

theorem Entered.nil (d : Document) : Entered d [] := ⟨.nil, by simp⟩

theorem Entered.cons {d : Document} {stack : List String} (h : Entered d stack) {g : NodeGraph}
    (hg : g ∈ d.nodegraphs) (hnew : g.name ∉ stack) : Entered d (g.name :: stack) := by
  refine ⟨List.nodup_cons.mpr ⟨hnew, h.distinct⟩, ?_⟩
  rw [List.toFinset_cons, Finset.insert_subset_iff]
  exact ⟨List.mem_toFinset.mpr (Document.mem_graphNames hg), h.known⟩

theorem Entered.orderly {d : Document} {stack : List String} (h : Entered d stack) : Orderly d stack := by
  refine ⟨h.distinct, ?_⟩
  rw [← List.toFinset_card_of_nodup h.distinct]
  exact Finset.card_le_card h.known

/-- One level of building, given what is done further down. The stack is checked first. -/
def supervise (r : Request) (check : List String → Prop) [DecidablePred check] (alarm build : NodeGraph → Build Graph)
    (g : NodeGraph) : Build Graph := fun s =>
  if check s.stack then assemble r (compound r build) g s else alarm g s

/-- As many levels of building as there are names and one more, with an alarm below them and at each stack that is not
orderly. -/
def levels (r : Request) (alarm : NodeGraph → Build Graph) : NodeGraph → Build Graph :=
  (supervise r (Orderly r.document) alarm)^[r.document.graphNames.toFinset.card + 1] alarm

theorem eq_of_simulates {α : Type} {φ : α → α} (hφ : ∀ a, φ a = a) {m m' : Build α}
    (h : Simulates (At Eq s.stack) φ m m') : m s = m' s := by
  have hmatch := h s s ⟨rfl, rfl, rfl⟩
  generalize m s = x, m' s = y at hmatch ⊢
  cases hmatch with
  | ok states => rw [hφ, states.2.2]
  | error states => rw [states.2.2]

 /-- What is built at each level does not depend on what is done further down than there are graphs that are not
entered. -/
theorem supervise_eq_nestedGraph {check : List String → Prop} [DecidablePred check] {alarm : NodeGraph → Build Graph}
    {I : List String → Prop} (hcheck : ∀ stack, I stack → check stack)
    (hI : ∀ stack, I stack → ∀ g ∈ r.document.nodegraphs, g.name ∉ stack → I (g.name :: stack)) (n : Nat) :
    ∀ {m s} (g : NodeGraph), I s.stack → away r.document.graphNames s.stack < n →
      away r.document.graphNames s.stack < m → (supervise r check alarm)^[n] alarm g s = nestedGraph r m g s := by
  -- The induction is on the number of levels; a graph that is entered is one less.
  induction n with
  | zero => exact fun g _ hn _ => absurd hn (Nat.not_lt_zero _)
  | succ n ih =>
    intro m s g hs hn hm
    obtain ⟨m, rfl⟩ := Nat.exists_eq_succ_of_ne_zero (Nat.ne_zero_of_lt hm)
    rw [iterate_succ_apply', supervise, if_pos (hcheck _ hs)]
    refine eq_of_simulates Graph.rename_id ((tracks_eq r).assemble (fun d => (tracks_eq r).compound ?_ d) g)
    rintro inner hmem hnew t _ ⟨ht, -, rfl⟩
    have haway := away_cons_lt (Document.mem_graphNames hmem) hnew
    rw [ih (m := m) inner (ht ▸ hI _ hs inner hmem hnew) (by rw [ht]; omega) (by rw [ht]; omega)]
    exact (tracks_eq r).nestedGraph m _ inner t t ⟨ht, ht, rfl⟩

theorem levels_eq_nodeGraph (alarm : NodeGraph → Build Graph) (g : NodeGraph) (hs : Entered r.document s.stack) :
    levels r alarm g s = nodeGraph r g s := by
  have hlength := away_le_length r.document.graphNames s.stack
  rw [Document.length_graphNames] at hlength
  exact supervise_eq_nestedGraph (fun _ h => h.orderly) (fun _ h inner hmem hnew => h.cons hmem hnew) _ g hs
    (Nat.lt_succ_of_le (away_le_card _ _)) (Nat.lt_succ_of_le hlength)

/-- The depth of nesting does not matter, as long as it is larger than the number of graphs that are not entered. -/
theorem nestedGraph_depth {m n : Nat} (g : NodeGraph) (hm : away r.document.graphNames s.stack < m)
    (hn : away r.document.graphNames s.stack < n) : nestedGraph r m g s = nestedGraph r n g s := by
  let alarm : NodeGraph → Build Graph := fun g => throw (.cyclicCompound g.name)
  have h {k : Nat} (hk : away r.document.graphNames s.stack < k) :
      (supervise r (fun _ => True) alarm)^[m] alarm g s = nestedGraph r k g s :=
    supervise_eq_nestedGraph (I := fun _ => True) (fun _ h => h) (fun _ _ _ _ _ => trivial) m g trivial hm hk
  rw [← h hm, h hn]

theorem nodeGraph_eq (g : NodeGraph) : nodeGraph r g = assemble r (compound r (nodeGraph r)) g := by
  funext s
  refine eq_of_simulates Graph.rename_id ((tracks_eq r).assemble (fun d => (tracks_eq r).compound ?_ d) g)
  rintro inner hmem hnew t _ ⟨ht, -, rfl⟩
  have haway := away_cons_lt (Document.mem_graphNames hmem) hnew
  have hlength := away_le_length r.document.graphNames s.stack
  rw [Document.length_graphNames] at hlength
  have haway : away r.document.graphNames t.stack < r.document.nodegraphs.length + 1 := by
    rw [ht]
    omega
  rw [nodeGraph, nestedGraph_depth inner (by rw [ht]; omega) haway]
  exact (tracks_eq r).nestedGraph _ _ inner t t ⟨ht, ht, rfl⟩

/-! ## Upstream -/

/-- Adds a node and what it reads, given how graphs are built and how the nodes that it reads are added. -/
def addWith (r : Request) (build : NodeGraph → Build Graph)
    (add : NodeInstance → Graph × NodeNames → Build (NodeId × Graph × NodeNames)) (n : NodeInstance)
    (x : Graph × NodeNames) : Build (NodeId × Graph × NodeNames) :=
  match List.lookup n.name x.2 with
  | some id => pure (id, x)
  | none => do
    let added ← node r (compound r build) "" n
    let y ← n.inputs.foldlM (addSource r add added.id) (x.1.addNode added, (n.name, added.id) :: x.2)
    pure (added.id, y)

theorem addUpstream_succ (depth : Nat) : addUpstream r (depth + 1) = addWith r (nodeGraph r) (addUpstream r depth) := by
  funext n ⟨g, names⟩
  rfl

def NodeNames.keys (names : NodeNames) : List String := names.map Prod.fst

theorem NodeNames.lookup_eq_none {names : NodeNames} {name : String} :
    List.lookup name names = none ↔ name ∉ names.keys := by
  rw [List.lookup_eq_none_iff, keys, List.mem_map]
  constructor
  · rintro h ⟨p, hp, rfl⟩
    simpa using h p hp
  · intro h p hp
    simpa using fun heq : name = p.1 => h ⟨p, hp, heq.symm⟩

theorem addUpstream_suffix (depth : Nat) : ∀ {n : NodeInstance} {x : Graph × NodeNames}
    {s : BuildState} {y : NodeId × Graph × NodeNames} {s' : BuildState},
    addUpstream r depth n x s = .ok y s' → x.2 <:+ y.2.2 := by
  induction depth with
  | zero => exact fun h => absurd h state_throw_ne_ok
  | succ depth ih =>
    rintro n ⟨g, names⟩ s ⟨id, x⟩ s' h
    rcases addUpstream_cases h with ⟨_, -, heq, -⟩ | ⟨-, added, t, -, -, hloop⟩
    · cases heq
      exact List.suffix_rfl
    · refine (List.suffix_cons _ names).trans (state_foldlM_inv
        (P := fun _ (x : Graph × NodeNames) => (n.name, added.id) :: names <:+ x.2) n.inputs ?_ t _ x s'
        List.suffix_rfl hloop)
      intro t x b _ hx y t' hstep
      rcases addSource_cases hstep with ⟨-, rfl, -⟩ | ⟨_, _, _, _, -, -, hadd, -⟩
      · exact hx
      · exact hx.trans (ih hadd)

theorem node_stack {n : NodeInstance} {m : Node} (h : node r (compound r (nodeGraph r)) "" n s = .ok m s') :
    s'.stack = s.stack := by
  have hstack := stack_after (s := s) ((tracks_eq r).node
    (fun d => (tracks_eq r).compound (fun inner _ _ => (tracks_eq r).nodeGraph inner) d) "" n)
  rw [h] at hstack
  exact hstack

theorem addUpstream_stack (depth : Nat) : ∀ {n : NodeInstance} {x : Graph × NodeNames}
    {s : BuildState} {y : NodeId × Graph × NodeNames} {s' : BuildState},
    addUpstream r depth n x s = .ok y s' → s'.stack = s.stack := by
  induction depth with
  | zero => exact fun h => absurd h state_throw_ne_ok
  | succ depth ih =>
    rintro n ⟨g, names⟩ s ⟨id, x⟩ s' h
    rcases addUpstream_cases h with ⟨_, -, -, rfl⟩ | ⟨-, added, t, hnode, -, hloop⟩
    · rfl
    · refine state_foldlM_inv (P := fun t _ => t.stack = s.stack) n.inputs ?_ t _ x s' (node_stack hnode) hloop
      intro t x b _ ht y t' hstep
      rcases addSource_cases hstep with ⟨-, -, rfl⟩ | ⟨_, _, _, _, -, -, hadd, -⟩
      · exact ht
      · exact (ih hadd).trans ht

section
variable {alarm : NodeGraph → Build Graph}
  {beyond : NodeInstance → Graph × NodeNames → Build (NodeId × Graph × NodeNames)}

theorem node_levels (n : NodeInstance) (hs : Entered r.document s.stack) :
    node r (compound r (levels r alarm)) "" n s = node r (compound r (nodeGraph r)) "" n s := by
  refine eq_of_simulates Graph.node_rename_id ((tracks_eq r).node (fun d => (tracks_eq r).compound ?_ d) "" n)
  rintro inner hmem hnew t _ ⟨ht, -, rfl⟩
  rw [levels_eq_nodeGraph alarm inner (ht ▸ hs.cons hmem hnew)]
  exact (tracks_eq r).nodeGraph inner t t ⟨ht, ht, rfl⟩

theorem addSource_congr {add add' : NodeInstance → Graph × NodeNames → Build (NodeId × Graph × NodeNames)}
    {target : NodeId} {x : Graph × NodeNames} (h : ∀ n ∈ r.document.nodes, add n x s = add' n x s) (b : InputBinding) :
    addSource r add target x b s = addSource r add' target x b s := by
  unfold addSource
  cases b.nodeName with
  | none => rfl
  | some name =>
    dsimp only
    cases habove : r.document.node? name with
    | none => rfl
    | some above =>
      change EStateM.bind _ _ s = EStateM.bind _ _ s
      unfold EStateM.bind
      rw [h above (List.mem_of_find?_eq_some habove)]

theorem addWith_eq {add : NodeInstance → Graph × NodeNames → Build (NodeId × Graph × NodeNames)} {depth : Nat}
    (hadd : ∀ {s : BuildState}, ∀ n ∈ r.document.nodes, ∀ x : Graph × NodeNames, Entered r.document s.stack →
      away (r.document.nodes.map NodeInstance.name) x.2.keys < depth → add n x s = addUpstream r depth n x s)
    (n : NodeInstance) (x : Graph × NodeNames) (hs : Entered r.document s.stack)
    (hx : List.lookup n.name x.2 = none → away (r.document.nodes.map NodeInstance.name) (n.name :: x.2.keys) < depth) :
    addWith r (levels r alarm) add n x s = addUpstream r (depth + 1) n x s := by
  rw [addUpstream_succ, addWith, addWith]
  cases hnoted : List.lookup n.name x.2 with
  | some id => rfl
  | none =>
    change EStateM.bind _ _ s = EStateM.bind _ _ s
    unfold EStateM.bind
    rw [node_levels n hs]
    cases hnode : node r (compound r (nodeGraph r)) "" n s with
    | error e t => rfl
    | ok added t =>
      have hloop := state_foldlM_congr (f := addSource r add added.id)
        (g := addSource r (addUpstream r depth) added.id)
        (P := fun t (x : Graph × NodeNames) => Entered r.document t.stack ∧
          away (r.document.nodes.map NodeInstance.name) x.2.keys < depth) n.inputs ?_ t
        (x.1.addNode added, (n.name, added.id) :: x.2) ⟨node_stack hnode ▸ hs, hx hnoted⟩
      · dsimp only
        change EStateM.bind _ _ t = EStateM.bind _ _ t
        unfold EStateM.bind
        rw [hloop]
      rintro t y b - ⟨ht, hy⟩
      refine ⟨addSource_congr (fun above habove => hadd above habove y ht hy) b, fun z t' hstep => ?_⟩
      rcases addSource_cases hstep with ⟨-, rfl, rfl⟩ | ⟨_, above, _, _, -, -, habove, -⟩
      · exact ⟨ht, hy⟩
      · refine ⟨addUpstream_stack depth habove ▸ ht, lt_of_le_of_lt (away_anti _ ?_) hy⟩
        exact ((addUpstream_suffix depth habove).map Prod.fst).subset

theorem upstream_eq (depth : Nat) : ∀ {s : BuildState}, ∀ n ∈ r.document.nodes, ∀ x : Graph × NodeNames,
    Entered r.document s.stack → away (r.document.nodes.map NodeInstance.name) x.2.keys < depth →
      (addWith r (levels r alarm))^[depth] beyond n x s = addUpstream r depth n x s := by
  -- The induction is on the depth: a node that is noted is one less.
  induction depth with
  | zero => exact fun n _ x _ hx => absurd hx (Nat.not_lt_zero _)
  | succ depth ih =>
    intro s n hn x hs hx
    rw [iterate_succ_apply']
    refine addWith_eq ih n x hs fun hnoted => ?_
    have hlt := away_cons_lt (List.mem_map_of_mem (f := NodeInstance.name) hn) (NodeNames.lookup_eq_none.mp hnoted)
    omega

theorem upstream_start (n : NodeInstance) (x : Graph × NodeNames) (hs : Entered r.document s.stack) :
    (addWith r (levels r alarm))^[r.document.nodes.length + 2] beyond n x s
      = addUpstream r (r.document.nodes.length + 2) n x s := by
  rw [iterate_succ_apply']
  refine addWith_eq (upstream_eq _) n x hs fun _ => ?_
  have hlength := away_le_length (r.document.nodes.map NodeInstance.name) (n.name :: x.2.keys)
  rw [List.length_map] at hlength
  omega

end

/-! ## Graphs that contain themselves -/

/-- The node graph that implements an instance, where generated code and source code do not come first. -/
def graphOf? (r : Request) (n : NodeInstance) : Option NodeGraph :=
  match r.document.definitionOf? n with
  | none => none
  | some d =>
    if (r.generator.registry.find? d.category).isNone
        && (r.document.source? d.name r.generator.language.name (target r)).isNone then
      r.document.graphFor? d.name
    else none

/-- Some instance of the first graph is implemented by the second one. -/
def Instantiates (r : Request) (g h : NodeGraph) : Prop := ∃ n ∈ g.nodes, graphOf? r n = some h

theorem graphOf?_built {build : NodeGraph → Build Graph} {scope : String} {n : NodeInstance} {m : Node}
    {inner : NodeGraph} (h : node r (compound r build) scope n s = .ok m s') (hinner : graphOf? r n = some inner) :
    ∃ t graph t', build inner t = .ok graph t' := by
  obtain ⟨d, _, how, _, _, t, hd, -, himplementation, -, -, -, -⟩ := node_cases h
  simp only [graphOf?, hd] at hinner
  split at hinner
  · rename_i hneither
    rw [Bool.and_eq_true, Option.isNone_iff_eq_none, Option.isNone_iff_eq_none] at hneither
    rcases implementation_cases himplementation with ⟨p, hp, -, -⟩ | ⟨-, ⟨code, hsource, -, -⟩ | ⟨-, hentered⟩⟩
    · rw [hneither.1] at hp
      cases hp
    · exact absurd hneither.2 hsource
    · obtain ⟨inner', graph, t', hgraph, -, hbuild, -, -⟩ := compound_cases hentered
      obtain rfl := Option.some.inj (hinner.symm.trans hgraph)
      exact ⟨_, graph, t', hbuild⟩
  · cases hinner

theorem graphOf?_of_compound {build : NodeGraph → Build Graph} {scope name function : String} {n : NodeInstance}
    {m : Node} {graph : Graph} (h : node r (compound r build) scope n s = .ok m s')
    (hm : m.implementation = .compound name function graph) :
    ∃ inner t, graphOf? r n = some inner ∧ build inner { s with stack := inner.name :: s.stack } = .ok graph t := by
  obtain ⟨d, _, how, _, _, t, hd, -, himplementation, -, -, rfl, -⟩ := node_cases h
  obtain rfl : how = .compound name function graph := hm
  rcases implementation_cases himplementation with ⟨p, -, hhow, -⟩ | ⟨hfind, ⟨code, -, hhow, -⟩ | ⟨hsource, hentered⟩⟩
  · cases hhow
  · cases hhow
  · obtain ⟨inner, graph', t', hinner, -, hbuild, hhow, -⟩ := compound_cases hentered
    obtain rfl : graph = graph' := by simpa using (Implementation.compound.inj hhow).2.2
    refine ⟨inner, t', ?_, hbuild⟩
    simp [graphOf?, hd, hfind, hsource, hinner]

theorem nestedGraph_instantiates {depth : Nat} {g inner : NodeGraph} {graph : Graph}
    (h : nestedGraph r (depth + 1) g s = .ok graph s') (hinner : Instantiates r g inner) :
    ∃ t graph' t', nestedGraph r depth inner t = .ok graph' t' := by
  obtain ⟨n, hn, hgraph⟩ := hinner
  obtain ⟨w, t, hwire, -⟩ := assemble_cases h
  obtain ⟨_, _, nodes, _, -, -, hnodes, -, -⟩ := wire_cases hwire
  have hall := state_mapM_forall₂ (I := fun _ => True) g.nodes (fun _ _ _ _ _ _ _ => trivial) trivial hnodes
  obtain ⟨m, -, t₁, t₂, -, hnode⟩ := exists_right_of_forall₂ hall hn
  exact graphOf?_built hnode hgraph

/-- A graph is only built with all graphs below it, and each of them with less depth. -/
theorem nestedGraph_transGen {depth : Nat} {g h : NodeGraph} {graph : Graph} (hpath : TransGen (Instantiates r) g h)
    (hg : nestedGraph r depth g s = .ok graph s') :
    ∃ depth' < depth, ∃ t graph' t', nestedGraph r depth' h t = .ok graph' t' := by
  induction hpath with
  | single hinner =>
    cases depth with
    | zero => exact absurd hg state_throw_ne_ok
    | succ depth => exact ⟨depth, Nat.lt_succ_self depth, nestedGraph_instantiates hg hinner⟩
  | tail _ hinner ih =>
    obtain ⟨depth', hlt, t, graph', t', hbuilt⟩ := ih
    cases depth' with
    | zero => exact absurd hbuilt state_throw_ne_ok
    | succ depth' => exact ⟨depth', by omega, nestedGraph_instantiates hbuilt hinner⟩

theorem not_instantiates_itself (depth : Nat) : ∀ {s g graph s'}, nestedGraph r depth g s = .ok graph s' →
    ¬ TransGen (Instantiates r) g g := by
  induction depth using Nat.strong_induction_on with
  | _ depth ih =>
    intro s g graph s' hg hloop
    obtain ⟨depth', hlt, t, graph', t', hbuilt⟩ := nestedGraph_transGen hloop hg
    exact ih depth' hlt hbuilt hloop

theorem nodeGraph_not_looping {g h : NodeGraph} {graph : Graph} (hg : nodeGraph r g s = .ok graph s')
    (hpath : ReflTransGen (Instantiates r) g h) : ¬ TransGen (Instantiates r) h h := by
  rcases reflTransGen_iff_eq_or_transGen.mp hpath with rfl | hpath
  · exact not_instantiates_itself _ hg
  · obtain ⟨depth, -, t, graph', t', hbuilt⟩ := nestedGraph_transGen hpath hg
    exact not_instantiates_itself depth hbuilt

/-! ## Nodes that read each other -/

/-- The node of a name, for a build that starts with some node. -/
def named? (r : Request) (start : NodeInstance) (name : String) : Option NodeInstance :=
  if name = start.name then some start else r.document.node? name

def Upstream (r : Request) (start n m : NodeInstance) : Prop :=
  ∃ b ∈ n.inputs, ∃ name, b.nodeName = some name ∧ named? r start name = some m

theorem name_of_named? {start n : NodeInstance} {name : String} (h : named? r start name = some n) : n.name = name := by
  unfold named? at h
  split at h
  · rename_i hname
    cases h
    exact hname.symm
  · simpa using List.find?_some h

theorem noted_start {start n : NodeInstance} {names : NodeNames} (h : n = start ∨ start.name ∈ names.keys) (id : NodeId) :
    start.name ∈ NodeNames.keys ((n.name, id) :: names) := by
  rcases h with rfl | h
  · exact List.mem_cons_self
  · exact List.mem_cons_of_mem _ h

/-- From the first names to the second ones only nodes are added that are made, with everything that they read. -/
structure Grows (r : Request) (start : NodeInstance) (names names' : NodeNames) : Prop where
  noted : names.keys ⊆ names'.keys
  made : ∀ n, n.name ∈ names'.keys → n.name ∉ names.keys → named? r start n.name = some n →
    ∃ s m s', node r (compound r (nodeGraph r)) "" n s = .ok m s'
  reads : ∀ n, n.name ∈ names'.keys → n.name ∉ names.keys → named? r start n.name = some n →
    ∀ m, Upstream r start n m → m.name ∈ names'.keys

theorem Grows.refl (start : NodeInstance) (names : NodeNames) : Grows r start names names :=
  ⟨fun _ h => h, fun _ h h' => absurd h h', fun _ h h' => absurd h h'⟩

theorem Grows.trans {start : NodeInstance} {names₁ names₂ names₃ : NodeNames} (h : Grows r start names₁ names₂)
    (h' : Grows r start names₂ names₃) : Grows r start names₁ names₃ := by
  refine ⟨fun _ hname => h'.noted (h.noted hname), fun n hn hnew hnamed => ?_, fun n hn hnew hnamed m hm => ?_⟩
  · by_cases hmid : n.name ∈ names₂.keys
    · exact h.made n hmid hnew hnamed
    · exact h'.made n hn hmid hnamed
  · by_cases hmid : n.name ∈ names₂.keys
    · exact h'.noted (h.reads n hmid hnew hnamed m hm)
    · exact h'.reads n hn hmid hnamed m hm

theorem grows_addSource {start : NodeInstance} {depth : Nat} {target : NodeId}
    (hadd : ∀ {n : NodeInstance} {x : Graph × NodeNames} {s : BuildState} {y : NodeId × Graph × NodeNames}
      {s' : BuildState}, start.name ∈ x.2.keys → n.name ∈ x.2.keys ∨ named? r start n.name = some n →
        addUpstream r depth n x s = .ok y s' → Grows r start x.2 y.2.2 ∧ n.name ∈ y.2.2.keys)
    (inputs : List InputBinding) : ∀ {x : Graph × NodeNames} {s : BuildState} {y : Graph × NodeNames} {s' : BuildState},
      start.name ∈ x.2.keys → inputs.foldlM (addSource r (addUpstream r depth) target) x s = .ok y s' →
        Grows r start x.2 y.2 ∧ ∀ b ∈ inputs, ∀ name, b.nodeName = some name → name ∈ y.2.keys := by
  induction inputs with
  | nil =>
    intro x s y s' _ h
    obtain ⟨rfl, rfl⟩ := state_pure_eq_ok.mp h
    exact ⟨.refl start _, fun b hb => absurd hb List.not_mem_nil⟩
  | cons b inputs ih =>
    intro x s y s' hstart h
    rw [List.foldlM_cons] at h
    obtain ⟨x₁, s₁, hstep, hrest⟩ := state_bind_eq_ok.mp h
    have hfirst : Grows r start x.2 x₁.2 ∧ ∀ name, b.nodeName = some name → name ∈ x₁.2.keys := by
      rcases addSource_cases hstep with ⟨hnone, rfl, rfl⟩ | ⟨name, above, _, _, hname, habove, hsource, -⟩
      · exact ⟨.refl start _, fun name hname => by rw [hnone] at hname; cases hname⟩
      have heq : above.name = name := by simpa using List.find?_some habove
      have hnamed : above.name ∈ x.2.keys ∨ named? r start above.name = some above := by
        by_cases hfirst : above.name = start.name
        · exact .inl (hfirst ▸ hstart)
        · exact .inr (by rw [named?, if_neg hfirst, heq, habove])
      obtain ⟨hgrows, hnoted⟩ := hadd hstart hnamed hsource
      refine ⟨hgrows, fun name' hname' => ?_⟩
      obtain rfl := Option.some.inj (hname.symm.trans hname')
      exact heq ▸ hnoted
    obtain ⟨hgrows, hnoted⟩ := ih (hfirst.1.noted hstart) hrest
    refine ⟨hfirst.1.trans hgrows, fun c hc name hname => ?_⟩
    rcases List.mem_cons.mp hc with rfl | hc
    · exact hgrows.noted (hfirst.2 name hname)
    · exact hnoted c hc name hname

theorem grows_addUpstream {start : NodeInstance} (depth : Nat) : ∀ {n : NodeInstance} {x : Graph × NodeNames}
    {s : BuildState} {y : NodeId × Graph × NodeNames} {s' : BuildState}, n = start ∨ start.name ∈ x.2.keys →
      n.name ∈ x.2.keys ∨ named? r start n.name = some n → addUpstream r depth n x s = .ok y s' →
        Grows r start x.2 y.2.2 ∧ n.name ∈ y.2.2.keys := by
  -- A node that has been noted before the others is not looked up in the document.
  induction depth with
  | zero => exact fun _ _ h => absurd h state_throw_ne_ok
  | succ depth ih =>
    rintro n ⟨g, names⟩ s ⟨id, x⟩ s' hstart hnamed h
    rcases addUpstream_cases h with ⟨_, hnoted, heq, -⟩ | ⟨hnew, added, t, hnode, -, hloop⟩
    · cases heq
      refine ⟨.refl start _, ?_⟩
      by_contra habsent
      rw [NodeNames.lookup_eq_none.mpr habsent] at hnoted
      cases hnoted
    rw [NodeNames.lookup_eq_none] at hnew
    have hnamed := hnamed.resolve_left hnew
    obtain ⟨hgrows, hread⟩ :=
      grows_addSource (fun hfirst => ih (.inr hfirst)) n.inputs (noted_start hstart added.id) hloop
    have hmem : n.name ∈ x.2.keys := hgrows.noted List.mem_cons_self
    refine ⟨⟨fun _ hname => hgrows.noted (List.mem_cons_of_mem _ hname), ?_, ?_⟩, hmem⟩
    · intro k hk hkeys hknamed
      by_cases heq : k.name = n.name
      · obtain rfl : k = n := Option.some.inj (hknamed.symm.trans (heq ▸ hnamed))
        exact ⟨s, added, t, hnode⟩
      · exact hgrows.made k hk (by simpa [NodeNames.keys, heq] using hkeys) hknamed
    · intro k hk hkeys hknamed m hm
      by_cases heq : k.name = n.name
      · obtain rfl : k = n := Option.some.inj (hknamed.symm.trans (heq ▸ hnamed))
        obtain ⟨b, hb, name, hname, hsource⟩ := hm
        exact name_of_named? hsource ▸ hread b hb name hname
      · exact hgrows.reads k hk (by simpa [NodeNames.keys, heq] using hkeys) hknamed m hm

/-- Every node above a node that is built has been made. -/
theorem singleNode_upstream {start n : NodeInstance} {graph : Graph} (h : singleNode r start s = .ok graph s')
    (hpath : ReflTransGen (Upstream r start) start n) :
    ∃ t m t', node r (compound r (nodeGraph r)) "" n t = .ok m t' := by
  obtain ⟨id, g₁, names, t, _, _, _, _, hadd, -⟩ := singleNode_cases h
  have hself : named? r start start.name = some start := if_pos rfl
  obtain ⟨hgrows, hstart⟩ := grows_addUpstream _ (.inl rfl) (.inr hself) hadd
  have hreached : n.name ∈ names.keys ∧ named? r start n.name = some n := by
    induction hpath with
    | refl => exact ⟨hstart, hself⟩
    | tail _ hstep ih =>
      refine ⟨hgrows.reads _ ih.1 List.not_mem_nil ih.2 _ hstep, ?_⟩
      obtain ⟨b, -, name, -, hnamed⟩ := hstep
      rwa [name_of_named? hnamed]
  exact hgrows.made n hreached.1 List.not_mem_nil hreached.2

section
variable {P : BuildState → Graph → Prop} {start : NodeInstance}
  (hadd : ∀ n m g s s', ReflTransGen (Upstream r start) start n → P s g →
    node r (compound r (nodeGraph r)) "" n s = .ok m s' → P s' (g.addNode m))
  (hbind : ∀ {g g' s channels a b j k}, P s g →
    connectThrough g channels (.ofNode a j) (.ofNode b k) = .ok g' → P s g')
include hadd hbind

theorem addUpstream_keeps (depth : Nat) : ∀ {n : NodeInstance} {x : Graph × NodeNames} {s : BuildState}
    {y : NodeId × Graph × NodeNames} {s' : BuildState}, n = start ∨ start.name ∈ x.2.keys →
      n.name ∈ x.2.keys ∨ ReflTransGen (Upstream r start) start n → P s x.1 → addUpstream r depth n x s = .ok y s' →
        P s' y.2.1 := by
  -- A node that is not noted yet is one that is reached.
  induction depth with
  | zero => exact fun _ _ _ h => absurd h state_throw_ne_ok
  | succ depth ih =>
    rintro n ⟨g, names⟩ s ⟨id, x⟩ s' hstart hreached hg h
    rcases addUpstream_cases h with ⟨_, -, heq, rfl⟩ | ⟨hnew, added, s₁, hnode, -, hloop⟩
    · cases heq
      exact hg
    have hreached := hreached.resolve_left (NodeNames.lookup_eq_none.mp hnew)
    refine (state_foldlM_inv (P := fun t (x : Graph × NodeNames) => start.name ∈ x.2.keys ∧ P t x.1) n.inputs ?_
      s₁ _ x s' ⟨noted_start hstart added.id, hadd n added g s s₁ hreached hg hnode⟩ hloop).2
    rintro t x b hb ⟨hnoted, hx⟩ y t' hstep
    rcases addSource_cases hstep with ⟨-, rfl, rfl⟩ | ⟨name, above, source, g₁, hname, habove, hadded, hconnect⟩
    · exact ⟨hnoted, hx⟩
    have heq : above.name = name := by simpa using List.find?_some habove
    have habove' : above.name ∈ x.2.keys ∨ ReflTransGen (Upstream r start) start above := by
      by_cases hfirst : above.name = start.name
      · exact .inl (hfirst ▸ hnoted)
      · exact .inr (hreached.tail ⟨b, hb, name, hname, by rw [named?, if_neg (heq ▸ hfirst), habove]⟩)
    obtain ⟨j, k, hconnect⟩ := bindNode_cases hconnect
    exact ⟨((addUpstream_suffix depth hadded).map Prod.fst).mem hnoted,
      hbind (ih (.inr hnoted) habove' hx hadded) hconnect⟩

/-- **The rule for single nodes**: what holds of an empty graph, and is kept when a node that is reached is added, when
two nodes are connected, and when a socket is added and connected, holds of the graph before it is finished. An input
socket stands for an input of a graph for which this holds. -/
theorem singleNode_keeps_sockets {V : Output → Prop} {graph : Graph} (hstart : P s (Graph.empty start.name))
    (hsocket : ∀ {g s p i}, P s g → g.input? p = some i → V (socketFor i))
    (hinput : ∀ {g g' s o a k}, P s g → V o →
      (g.addInputSocket o).connect (.socket g.inputSockets.length) (.ofNode a k) = .ok g' → P s g')
    (houtput : ∀ {g g' s i a k}, P s g → i.source = none → i.value = none →
      (g.addOutputSocket i).connect (.ofNode a k) (.socket g.outputSockets.length) = .ok g' → P s g')
    (h : singleNode r start s = .ok graph s') :
    ∃ g t, P t g ∧ finish r t.stack.isEmpty g t = .ok graph s' := by
  obtain ⟨id, g₁, names, t, inputs, outputs, g₂, g₃, hadded, hpins, hinputs, houtputs, hfinish⟩ := singleNode_cases h
  have hg₁ : P t g₁ := addUpstream_keeps (P := P) hadd hbind _ (.inl rfl) (.inr .refl) hstart hadded
  have hsockets : ∀ i ∈ inputs, V (socketFor i) := by
    intro i hi
    cases hn : g₁.node? id with
    | none =>
      rw [hn] at hpins
      obtain ⟨rfl, -⟩ := Prod.mk.inj hpins
      exact absurd hi List.not_mem_nil
    | some n =>
      rw [hn] at hpins
      obtain ⟨rfl, -⟩ := Prod.mk.inj hpins
      obtain ⟨k, hk⟩ := List.mem_iff_getElem?.mp hi
      exact hsocket (p := .ofNode id k) hg₁ (by simp [Graph.input?, PinRef.ofNode, hn, hk])
  have hg₂ : P t g₂ := exposeInputs_keeps (P := P t) hinput inputs hsockets hg₁ hinputs
  exact ⟨g₃, t, exposeOutputs_keeps (P := P t) houtput outputs hg₂ houtputs, hfinish⟩

theorem singleNode_keeps {graph : Graph} (hstart : P s (Graph.empty start.name))
    (hinput : ∀ {g g' s o a k}, P s g → o.readers = [] →
      (g.addInputSocket o).connect (.socket g.inputSockets.length) (.ofNode a k) = .ok g' → P s g')
    (houtput : ∀ {g g' s i a k}, P s g → i.source = none →
      (g.addOutputSocket i).connect (.ofNode a k) (.socket g.outputSockets.length) = .ok g' → P s g')
    (h : singleNode r start s = .ok graph s') :
    ∃ g t, P t g ∧ finish r t.stack.isEmpty g t = .ok graph s' :=
  singleNode_keeps_sockets hadd hbind (V := fun o => o.readers = []) hstart (fun _ _ => rfl) hinput
    (fun hg hi _ => houtput hg hi) h

end

end Build

/-! ## The main result -/

/-- The node graphs that an element is built from: those that are reached from a node graph over instances, and those
that are reached from the node graphs of a node and of all nodes above it. -/
def Build.Contains (r : Request) : Shader.Element → NodeGraph → Prop
  | .graph g, h => ReflTransGen (Instantiates r) g h
  | .node n, h => ∃ m g, ReflTransGen (Upstream r n) n m ∧ graphOf? r m = some g ∧ ReflTransGen (Instantiates r) g h

theorem Build.not_looping_of_build {r : Request} {s s' : BuildState} {element : Shader.Element} {graph : Graph}
    {h : NodeGraph} (hbuild : element.build r s = .ok graph s') (hcontains : Contains r element h) :
    ¬ TransGen (Instantiates r) h h := by
  cases element with
  | graph g => exact nodeGraph_not_looping hbuild hcontains
  | node n =>
    obtain ⟨m, g, hpath, hgraph, hbelow⟩ := hcontains
    obtain ⟨t, made, t', hnode⟩ := singleNode_upstream hbuild hpath
    obtain ⟨t₁, graph', t₂, hg⟩ := graphOf?_built hnode hgraph
    exact nodeGraph_not_looping hg hbelow

open Build in
/-- **Building ends, and graphs that contain themselves are rejected.** From a state in which no compound is entered,
and whatever an alarm would do: no more levels of graphs are entered than there are names of node graphs, the names on
the stack are different at every level, and no more nodes are added above a node than the document has. Building is one
level over itself, so that the bounds cut nothing off. And no element is built from a node graph that instantiates
itself, over whatever other graphs. -/
theorem build_ends_or_rejects (r : Request) (s : BuildState) (hstack : s.stack = []) :
    (∀ (alarm : NodeGraph → Build Graph) (g : NodeGraph), levels r alarm g s = nodeGraph r g s) ∧
    (∀ (alarm : NodeGraph → Build Graph)
        (beyond : NodeInstance → Graph × NodeNames → Build (NodeId × Graph × NodeNames)) (n : NodeInstance),
      (addWith r (levels r alarm))^[r.document.nodes.length + 2] beyond n (Graph.empty n.name, []) s
        = addUpstream r (r.document.nodes.length + 2) n (Graph.empty n.name, []) s) ∧
    (∀ g, nodeGraph r g = assemble r (compound r (nodeGraph r)) g) ∧
    ∀ (element : Shader.Element) (h : NodeGraph), Contains r element h → TransGen (Instantiates r) h h →
      ∃ e t, element.build r s = .error e t := by
  have hentered : Entered r.document s.stack := hstack ▸ Entered.nil _
  refine ⟨fun alarm g => levels_eq_nodeGraph alarm g hentered, fun alarm beyond n => upstream_start n _ hentered,
    nodeGraph_eq, fun element h hcontains hloop => ?_⟩
  cases hbuild : element.build r s with
  | error e t => exact ⟨e, t, rfl⟩
  | ok graph t => exact absurd hloop (not_looping_of_build hbuild hcontains)

/-- A graph with an instance of the other one of two definitions, whose input is passed on. -/
def turn (name nodedef category : String) : NodeGraph :=
  { name, nodedef := some nodedef
    nodes := [{ name := "inner", category, typeName := "float"
                inputs := [{ name := "in", typeName := "float", interfaceName := some "in" }] }]
    outputs := [{ name := "out", typeName := "float", nodeName := "inner" }] }

/-- Two graphs that instantiate each other, and two nodes that read each other. -/
def winding : Document :=
  { nodedefs := ["left", "right"].map fun category =>
      { name := "ND_" ++ category, category
        inputs := [{ name := "in", typeName := "float" }], outputs := [{ name := "out", typeName := "float" }] }
    nodegraphs := [turn "NG_left" "ND_left" "right", turn "NG_right" "ND_right" "left"]
    nodes := [("first", "second"), ("second", "first")].map fun (name, above) =>
      { name, category := "left", typeName := "float"
        inputs := [{ name := "in", typeName := "float", nodeName := some above }] } }

open Build in
theorem winding_rejected : ({} : BuildState).stack = [] ∧
    ∃ start, winding.node? "first" = some start ∧
      Contains { document := winding, generator := { language := .osl } } (.node start)
        (turn "NG_left" "ND_left" "right") ∧
      TransGen (Instantiates { document := winding, generator := { language := .osl } })
        (turn "NG_left" "ND_left" "right") (turn "NG_left" "ND_left" "right") ∧
      ∃ e t, (Shader.Element.node start).build { document := winding, generator := { language := .osl } } {}
        = .error e t := by
  refine ⟨rfl, _, rfl, ?_⟩
  have hcontains : Contains { document := winding, generator := { language := .osl } }
      (.node (winding.nodes.get ⟨0, by decide⟩)) (turn "NG_left" "ND_left" "right") :=
    ⟨winding.nodes.get ⟨1, by decide⟩, _, .single ⟨_, List.mem_cons_self, "second", rfl, rfl⟩, rfl, .refl⟩
  have hloop : TransGen (Instantiates { document := winding, generator := { language := .osl } })
      (turn "NG_left" "ND_left" "right") (turn "NG_left" "ND_left" "right") :=
    .tail (b := turn "NG_right" "ND_right" "left") (.single ⟨_, List.mem_cons_self, rfl⟩) ⟨_, List.mem_cons_self, rfl⟩
  exact ⟨hcontains, hloop, (build_ends_or_rejects _ {} rfl).2.2.2 _ _ hcontains hloop⟩

end ShadeGraph
