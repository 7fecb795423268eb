import ShadeGraph.Proofs.Graph.Scoping

/-!
# Graphs that can be written

What a graph must be like for its code to be well scoped: the nodes have identities of their own, are scheduled and
scoped, and only conditionals have branches. The graphs inside of it are written as functions, in which no input is
published.
-/

namespace ShadeGraph.Graph

open Relation

variable {g : Graph} {n m : Node} {a b : NodeId}

/-- A node reads an output of another one through an input that is no branch. -/
def Needs (g : Graph) (a b : NodeId) : Prop :=
  ∃ n k i, g.node? a = some n ∧ n.inputs[k]? = some i ∧ n.isBranch k = false ∧ i.sourceNode? = some b ∧ b ∈ g.ids

theorem Needs.reads (h : g.Needs a b) : g.Reads a b := by
  obtain ⟨n, k, i, hn, hk, -, hsource, hb⟩ := h
  exact ⟨n, hn, mem_sources hk hsource, hb⟩

/-- The nodes of a graph have identities of their own, stand behind what they read, and have the scopes that follow from
who reads them. -/
structure InPlace (g : Graph) : Prop where
  distinct : g.Distinct
  scheduled : g.Scheduled
  scopes : g.Scoped

/-- What a graph must be like for its code to be well scoped. -/
structure Writable (g : Graph) : Prop extends g.InPlace where
  conditional : ∀ n ∈ g.nodes, n.traits.has .conditional = true → n.implementation.IsConditional

theorem InPlace.withTraits (hg : g.InPlace) (traits : Traits) : InPlace { g with traits } :=
  ⟨hg.distinct, hg.scheduled, ⟨hg.scopes.covers, hg.scopes.rooted, hg.scopes.inside⟩⟩

theorem Writable.withTraits (hg : g.Writable) (traits : Traits) : Writable { g with traits } :=
  ⟨hg.toInPlace.withTraits traits, hg.conditional⟩

theorem Writable.no_branch_of_source (hg : g.Writable) (hn : n ∈ g.nodes) (h : ∃ code, n.implementation = .source code)
    (k : Nat) : n.isBranch k = false := by
  obtain ⟨code, hcode⟩ := h
  by_contra hbranch
  rcases hg.conditional n hn (Node.conditional_of_isBranch (by simpa using hbranch)) with h | ⟨c, h⟩
  · simp [hcode] at h
  · simp [hcode] at h

theorem InPlace.mem_before (hg : g.InPlace) (hpath : TransGen g.Reads a b) (hm : m ∈ g.nodes) (hb : m.id = b) :
    ∀ before n after, g.nodes = before ++ n :: after → n.id = a → m ∈ before := by
  induction hpath generalizing m with
  | single hread =>
    intro before n after hnodes hn
    obtain ⟨n', hn', hsource, -⟩ := hread
    rw [← hn, hg.distinct.node?_of_mem (by rw [hnodes]; simp)] at hn'
    obtain rfl := Option.some.inj hn'
    exact hg.scheduled before n after hnodes m hm (hb ▸ hsource)
  | tail _ hread ih =>
    intro before n after hnodes hn
    obtain ⟨c, hc, hsource, -⟩ := hread
    have hbefore := ih (mem_of_node? hc) (id_of_node? hc) before n after hnodes hn
    obtain ⟨front, back, hsplit⟩ := List.append_of_mem hbefore
    have hfront := hg.scheduled front c (back ++ n :: after) (by rw [hnodes, hsplit]; simp) m hm (hb ▸ hsource)
    rw [hsplit]
    exact List.mem_append_left _ hfront

theorem InPlace.mem_before_filter (hg : g.InPlace) {p : Node → Bool} {before after : List Node}
    (hfilter : g.nodes.filter p = before ++ n :: after) (hm : m ∈ g.nodes) (hp : p m = true)
    (hpath : TransGen g.Reads n.id m.id) : m ∈ before := by
  obtain ⟨front, rest, hnodes, rfl, hrest⟩ := List.filter_eq_append_iff.mp hfilter
  obtain ⟨skipped, back, rfl, hskipped, -, -⟩ := List.filter_eq_cons_iff.mp hrest
  have hmem := hg.mem_before hpath hm rfl (front ++ skipped) n back (by rw [hnodes]; simp) rfl
  rcases List.mem_append.mp hmem with hmem | hmem
  · exact List.mem_filter.mpr ⟨hmem, hp⟩
  · exact absurd hp (hskipped m hmem)

theorem Writable.covers_of_needs (hg : g.Writable) (hn : n ∈ g.nodes) (hpath : TransGen g.Needs n.id b) :
    ∀ m ∈ g.nodes, m.id = b → m.scope.Covers n.scope := by
  have hstep : ∀ x ∈ g.nodes, ∀ y ∈ g.nodes, g.Needs x.id y.id → y.scope.Covers x.scope := by
    intro x hx y hy hneeds
    obtain ⟨x', k, i, hx', hk, hplain, hsource, -⟩ := hneeds
    rw [hg.distinct.node?_of_mem hx] at hx'
    obtain rfl := Option.some.inj hx'
    have hcovers := hg.scopes.covers x hx k i hk y hy hsource
    rwa [passOn_of_not_isBranch hplain] at hcovers
  induction hpath with
  | single hneeds =>
    rintro m hm rfl
    exact hstep n hn m hm hneeds
  | tail _ hneeds ih =>
    rintro m hm rfl
    obtain ⟨c, hc⟩ := exists_node? hneeds.reads.left
    have hneeds' : g.Needs c.id m.id := by rwa [id_of_node? hc]
    exact (hstep c (mem_of_node? hc) m hm hneeds').trans (ih c (mem_of_node? hc) (id_of_node? hc))

/-! ## Graphs inside of graphs -/

/-- A property of a graph and of all graphs inside of it. -/
inductive Throughout (P : Graph → Prop) : Graph → Prop
  | intro (g : Graph) (own : P g)
      (inner : ∀ n ∈ g.nodes, ∀ name function h, n.implementation = .compound name function h → Throughout P h) :
      Throughout P g

theorem Throughout.own {P : Graph → Prop} (hg : g.Throughout P) : P g := by
  cases hg
  assumption

theorem Throughout.mono {P Q : Graph → Prop} (hPQ : ∀ g, P g → Q g) (hg : g.Throughout P) : g.Throughout Q := by
  induction hg with
  | intro g own _ ih => exact .intro g (hPQ g own) ih

theorem Throughout.inside {P : Graph → Prop} (hg : g.Throughout P) {n : Node} (hn : n ∈ g.nodes)
    {name function : String} {h : Graph} (himplementation : n.implementation = .compound name function h) :
    h.Throughout P := by
  obtain ⟨_, _, hinner⟩ := hg
  exact hinner n hn name function h himplementation

/-- A graph whose code can be a function: no input is published. -/
structure Callable (g : Graph) : Prop extends g.Writable where
  unpublished : ∀ n ∈ g.nodes, ∀ i ∈ n.inputs, i.variableName = ""

/-- A graph whose code can be a whole shader: so can the graphs inside of it be functions. -/
structure Generable (g : Graph) : Prop extends g.Writable where
  inner : ∀ n ∈ g.nodes, ∀ name function h, n.implementation = .compound name function h → h.Throughout Callable

end ShadeGraph.Graph
