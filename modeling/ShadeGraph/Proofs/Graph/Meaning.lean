import ShadeGraph.Proofs.Graph.Channels
import ShadeGraph.Proofs.Graph.Links
import ShadeGraph.Proofs.Graph.Writable

/-!
# What a graph means

A value is a list of components, and what a node computes is left open: an interpretation gives a function of the
values of the inputs for each kind of node. A connected input stands for the channels of its source that it reads, any
other one for its literal or for the default of its type. A compound computes what its graph does, with the input
sockets bound by name to its inputs and the outputs taken by position from the output sockets.

The meaning of a graph is a solution of these equations, one for each pin. In a graph without cycles the equations have
exactly one solution: the nodes can be computed in the order of a rank that falls along every connection.
-/

namespace ShadeGraph

/-- What a node computes depends on this and on the values of its inputs. -/
structure Kind where
  category : String
  nodedef : String
  traits : Traits
  implementation : Implementation
  inputs : List (String × DataType)
  outputs : List (String × DataType)

def Node.kind (n : Node) : Kind where
  category := n.category
  nodedef := n.nodedef
  traits := n.traits
  implementation := n.implementation
  inputs := n.inputs.map fun i => (i.name, i.type)
  outputs := n.outputs.map fun o => (o.name, o.type)

/-- The components of a value of some type that the channels name, in their order. -/
def swizzled {C : Type} (absent : C) (type : DataType) (channels : String) (v : List C) : List C :=
  channels.toList.map fun c => ((type.channelIndex? c).bind fun index => v[index]?).getD absent

/-- What the parts of a graph stand for, apart from its connections. -/
structure Interpretation (C : Type) where
  /-- A number of a literal. -/
  number : Single → C
  /-- A literal that is not made of such numbers. -/
  other : Value → List C
  /-- The default of a type. -/
  initial : DataType → List C
  /-- The component that an index out of range stands for. -/
  absent : C
  /-- The outputs of a node that is no compound, for the values of its inputs. -/
  node : Kind → List (List C) → Nat → List C
  /-- A swizzled default is a default. -/
  swizzled_initial : ∀ {source channels target}, compatible source (some channels) target →
    swizzled absent source channels (initial source) = initial target

namespace Interpretation

variable {C : Type} (I : Interpretation C)

/-- The value that an input receives through channels from a source of some type. -/
def through (type : DataType) (channels : Option String) (v : List C) : List C :=
  match channels with
  | some channels => swizzled I.absent type channels v
  | none => v

def literal (v : Value) : List C :=
  match v.components? with
  | some components => components.map I.number
  | none => I.other v

/-- The value of a pin that reads nothing. -/
def constant (value : Option Value) (type : DataType) : List C :=
  match value with
  | some v => I.literal v
  | none => I.initial type

end Interpretation

/-! ## Channels -/

section
variable {C : Type} {I : Interpretation C} {source between target : DataType} {first second channels : Option String}

theorem through_composeChannels (hfirst : first = none → source = between)
    (h : composeChannels first second between = .ok channels) (v : List C) :
    I.through source channels v = I.through between second (I.through source first v) := by
  cases first with
  | none =>
    obtain rfl := hfirst rfl
    cases second <;> obtain rfl := Except.ok.inj h <;> rfl
  | some first =>
    cases second with
    | none =>
      obtain rfl := Except.ok.inj h
      rfl
    | some second =>
      obtain ⟨chars, rfl, hchars⟩ := composeChannels_some_iff.mp h
      simp only [Interpretation.through, swizzled, String.toList_ofList]
      clear h
      generalize second.toList = letters at hchars
      induction hchars with
      | nil => rfl
      | cons hpick _ ih =>
        obtain ⟨index, hindex, hfound⟩ := hpick
        rw [List.map_cons, List.map_cons, ih]
        simp [hindex, hfound]

/-! ## Literals -/

theorem literal_swizzle {v w : Value} {channels : String} (h : v.swizzle channels target = .ok w) :
    I.literal w = swizzled I.absent v.type channels (I.literal v) := by
  obtain ⟨-, components, picked, hv, hw, hpicked⟩ := Value.swizzle_eq_ok h
  simp only [Interpretation.literal, hv, hw, swizzled]
  clear hw h
  generalize channels.toList = letters at hpicked
  induction hpicked with
  | nil => rfl
  | cons hpick _ ih =>
    obtain ⟨index, hindex, hfound⟩ := hpick
    rw [List.map_cons, List.map_cons, ih]
    simp [hindex, hfound]

/-- Numbers as they are, and one number for all components of all defaults. -/
def Interpretation.plain (number : Single → C) (zero : C) (node : Kind → List (List C) → Nat → List C) :
    Interpretation C where
  number
  other _ := []
  initial type := List.replicate type.size zero
  absent := zero
  node
  swizzled_initial := by
    intro source channels target hfits
    obtain ⟨-, hlength⟩ := compatible_some.mp hfits
    rw [← hlength, swizzled, List.eq_replicate_iff]
    refine ⟨List.length_map _, fun x hx => ?_⟩
    obtain ⟨c, -, rfl⟩ := List.mem_map.mp hx
    cases source.channelIndex? c with
    | none => rfl
    | some index =>
      rw [Option.bind_some, List.getElem?_replicate]
      split <;> rfl

variable {value received : Option Value}

theorem constant_literalFor (htype : ∀ v, value = some v → v.type = source) (hfits : compatible source channels target)
    (h : literalFor value channels target = .ok received) :
    I.constant received target = I.through source channels (I.constant value source) := by
  cases value with
  | none =>
    obtain rfl := Except.ok.inj h
    cases channels with
    | none =>
      obtain rfl := compatible_none.mp hfits
      rfl
    | some channels => exact (I.swizzled_initial hfits).symm
  | some v =>
    cases channels with
    | none =>
      simp only [literalFor] at h
      split at h
      · cases h
        rfl
      · cases h
    | some channels =>
      obtain ⟨w, hw, rfl⟩ := except_map_eq_ok.mp h
      have hliteral := literal_swizzle (I := I) hw
      rw [htype v rfl] at hliteral
      exact hliteral

end

/-! ## Solutions -/

/-- What feeds an input socket of a compound's graph: the input of that name, or else the value of the socket itself. -/
def Node.feed (n : Node) (socket : Output) : Input :=
  (n.input? socket.name).getD { name := socket.name, type := socket.type, value := socket.value }

def Node.graph? (n : Node) : Option Graph :=
  match n.implementation with
  | .compound _ _ h => some h
  | _ => none

def Graph.typeAt (g : Graph) (p : PinRef) : DataType := ((g.output? p).map Output.type).getD default

theorem Node.feed_cases (n : Node) (socket : Output) : n.feed socket ∈ n.inputs ∨
    n.input? socket.name = none ∧ (n.feed socket).source = none ∧
      n.feed socket = { name := socket.name, type := socket.type, value := socket.value } := by
  unfold feed
  cases hi : n.input? socket.name with
  | none => exact .inr ⟨rfl, rfl, rfl⟩
  | some i => exact .inl (List.mem_of_find?_eq_some hi)

namespace Interpretation

variable {C : Type} (I : Interpretation C)

/-- The value of an input, for the values of the sources in its graph. -/
def read (g : Graph) (val : PinRef → List C) (i : Input) : List C :=
  match i.source with
  | some p => I.through (g.typeAt p) i.channels (val p)
  | none => I.constant i.value i.type

/-- The values at the input sockets of a compound's graph. -/
def bound (g : Graph) (val : PinRef → List C) (n : Node) (inner : Graph) (index : Nat) : List C :=
  match inner.inputSockets[index]? with
  | some socket => I.read g val (n.feed socket)
  | none => []

/-- Values of all sources that satisfy the equations of a graph, for the values at its input sockets. -/
inductive Solves : Graph → (Nat → List C) → (PinRef → List C) → Prop
  | intro {g : Graph} {σ : Nat → List C} {val : PinRef → List C} (inside : NodeId → PinRef → List C)
      (socket : ∀ index, val (.socket index) = σ index)
      (node : ∀ n ∈ g.nodes, n.implementation.isCompound = false → ∀ index,
        val (.ofNode n.id index) = I.node n.kind (n.inputs.map (I.read g val)) index)
      (inner : ∀ n ∈ g.nodes, ∀ name function h, n.implementation = .compound name function h →
        Solves h (I.bound g val n h) (inside n.id))
      (compound : ∀ n ∈ g.nodes, ∀ name function h, n.implementation = .compound name function h →
        ∀ index s, h.outputSockets[index]? = some s → val (.ofNode n.id index) = I.read h (inside n.id) s) :
      Solves g σ val

variable {I} {g : Graph} {n : Node} {val val' : PinRef → List C}

theorem read_congr {i : Input} (h : ∀ p, i.source = some p → val p = val' p) : I.read g val i = I.read g val' i := by
  unfold read
  split
  · rename_i p hp
    rw [h p hp]
  · rfl

theorem bound_congr (h : ∀ i ∈ n.inputs, I.read g val i = I.read g val' i) (inner : Graph) :
    I.bound g val n inner = I.bound g val' n inner := by
  funext index
  unfold bound
  split
  · rename_i socket _
    rcases n.feed_cases socket with hi | ⟨-, hfree, -⟩
    · exact h _ hi
    · exact read_congr fun p hp => by rw [hfree] at hp; cases hp
  · rfl

variable (I) in
/-- Some solution inside of a compound. -/
noncomputable def inside (g : Graph) (val : PinRef → List C) (n : Node) : PinRef → List C :=
  match n.graph? with
  | some h => Classical.epsilon (I.Solves h (I.bound g val n h))
  | none => fun _ => []

theorem inside_congr (h : ∀ i ∈ n.inputs, I.read g val i = I.read g val' i) : I.inside g val n = I.inside g val' n := by
  unfold inside
  cases n.graph? with
  | none => rfl
  | some k => exact congrArg (fun σ => Classical.epsilon (I.Solves k σ)) (bound_congr h k)

variable (I) in
/-- What a node computes, with that solution inside of a compound. -/
noncomputable def compute (g : Graph) (val : PinRef → List C) (n : Node) (index : Nat) : List C :=
  match n.graph? with
  | some h => (h.outputSockets[index]?).elim [] (I.read h (I.inside g val n))
  | none => I.node n.kind (n.inputs.map (I.read g val)) index

theorem compute_congr (h : ∀ i ∈ n.inputs, I.read g val i = I.read g val' i) :
    I.compute g val n = I.compute g val' n := by
  funext index
  unfold compute
  rw [inside_congr h, List.map_congr_left h]

end Interpretation

namespace Graph

/-- The graph of a compound has output sockets for its outputs, and the sockets bound to its inputs have their types. -/
structure Matches (h : Graph) (n : Node) : Prop where
  outputs : h.outputSockets.map Input.type = n.outputs.map Output.type
  inputs : ∀ socket ∈ h.inputSockets, (n.feed socket).type = socket.type

/-- A graph whose connections are consistent, typed and free of cycles, with compounds that fit their graphs. -/
structure Coherent (g : Graph) : Prop extends g.Linked where
  acyclic : ¬ g.Cyclic
  literal : ∀ {target i v}, g.input? target = some i → i.value = some v → v.type = i.type
  preset : ∀ socket ∈ g.inputSockets, ∀ v, socket.value = some v → v.type = socket.type
  compound : ∀ n ∈ g.nodes, ∀ name function h, n.implementation = .compound name function h → h.Matches n

/-- An input whose literal has its type, and whose connection follows a rule for the type of the source, the channels
and its own type. -/
structure Follows (rule : DataType → Option String → DataType → Prop) (g : Graph) (i : Input) : Prop where
  source : ∀ p, i.source = some p → i.value = none ∧ ∃ o, g.output? p = some o ∧ rule o.type i.channels i.type
  literal : ∀ v, i.value = some v → v.type = i.type

/-- All inputs and output sockets follow a rule. -/
def Obeys (rule : DataType → Option String → DataType → Prop) (g : Graph) : Prop :=
  ∀ target i, g.input? target = some i → g.Follows rule i

/-- An input whose literal or connection has its type. -/
abbrev Accepts (g : Graph) (i : Input) : Prop :=
  g.Follows (fun source channels target => compatible source channels target) i

section
variable {rule : DataType → Option String → DataType → Prop} {g : Graph} {n : Node} {i : Input}

theorem Obeys.of_node (hg : g.Obeys rule) (hdistinct : g.Distinct) (hn : n ∈ g.nodes) (hi : i ∈ n.inputs) :
    g.Follows rule i := by
  obtain ⟨index, hindex⟩ := List.mem_iff_getElem?.mp hi
  have hinput : g.input? (.ofNode n.id index) = some i := by
    simp [input?, PinRef.ofNode, hdistinct.node?_of_mem hn, hindex]
  exact hg _ _ hinput

theorem Obeys.of_socket (hg : g.Obeys rule) (hi : i ∈ g.outputSockets) : g.Follows rule i := by
  obtain ⟨index, hindex⟩ := List.mem_iff_getElem?.mp hi
  have hinput : g.input? (.socket index) = some i := hindex
  exact hg _ _ hinput

theorem Obeys.feed (hg : g.Obeys rule) (hdistinct : g.Distinct) (hn : n ∈ g.nodes) {socket : Output}
    (hpreset : ∀ v, socket.value = some v → v.type = socket.type) : g.Follows rule (n.feed socket) := by
  rcases n.feed_cases socket with hi | ⟨-, -, heq⟩
  · exact hg.of_node hdistinct hn hi
  · rw [heq]
    exact ⟨fun p hp => (by cases hp), hpreset⟩

theorem Coherent.obeys (hg : g.Coherent)
    (hrule : ∀ {target i p o}, g.input? target = some i → i.source = some p → g.output? p = some o →
      compatible o.type i.channels i.type → rule o.type i.channels i.type) : g.Obeys rule := by
  intro target i hi
  refine ⟨fun p hp => ?_, fun v hv => hg.literal hi hv⟩
  obtain ⟨o, ho⟩ := hg.source_known hi hp
  exact ⟨hg.bare hi (by simp [hp]), o, ho, hrule hi hp ho (hg.fits hi hp ho)⟩

theorem Coherent.accepts (hg : g.Coherent) : g.Obeys fun source channels target => compatible source channels target :=
  hg.obeys fun _ _ _ => id

theorem Coherent.accepts_of_node (hg : g.Coherent) (hn : n ∈ g.nodes) (hi : i ∈ n.inputs) : g.Accepts i :=
  hg.accepts.of_node hg.distinct hn hi

theorem Coherent.accepts_of_socket (hg : g.Coherent) (hi : i ∈ g.outputSockets) : g.Accepts i := hg.accepts.of_socket hi

end

/-- A rank that falls along every connection. -/
def Ranked (g : Graph) (rank : NodeId → Nat) : Prop := ∀ a b, g.Reads a b → rank b < rank a

section
variable {g : Graph} {n : Node} {rank : NodeId → Nat}

theorem exists_ranked (hg : g.Distinct) (hacyclic : ¬ g.Cyclic) : ∃ rank, g.Ranked rank := by
  cases hsort : g.sort with
  | error e =>
    obtain ⟨chain, hchain, -⟩ := cycle_of_sort hsort
    exact absurd (hchain.cyclic hg) hacyclic
  | ok h =>
    obtain ⟨front, back, -, hplaced, hall, -⟩ := order_of_sort hsort
    refine ⟨(front ++ back).idxOf, fun a b hread => ?_⟩
    obtain ⟨before, after, heq⟩ := List.append_of_mem ((hall a).mpr hread.left)
    have hbefore := hplaced.behind before a after heq b hread
    have hnodup := hplaced.nodup
    rw [heq] at hnodup ⊢
    have ha : a ∉ before := fun hmem => (List.nodup_append.mp hnodup).2.2 a hmem a List.mem_cons_self rfl
    beta_reduce
    rw [List.idxOf_append_of_mem hbefore, List.idxOf_append_of_notMem ha]
    have := List.idxOf_lt_length_of_mem hbefore
    omega

theorem Ranked.not_cyclic (hrank : g.Ranked rank) : ¬ g.Cyclic := by
  have hpath : ∀ {a b}, Relation.TransGen g.Reads a b → rank b < rank a := by
    intro a b hpath
    induction hpath with
    | single hread => exact hrank _ _ hread
    | tail _ hread ih => exact (hrank _ _ hread).trans ih
  rintro ⟨id, hcycle⟩
  exact Nat.lt_irrefl _ (hpath hcycle)

theorem Paired.reads_of_source (hg : g.Paired) (hn : n ∈ g.nodes) {i : Input} (hi : i ∈ n.inputs) {p : PinRef}
    (hp : i.source = some p) {b : NodeId} (hb : p.owner = .node b) : g.Reads n.id b := by
  obtain ⟨o, ho⟩ := hg.source_of_node hn hi hp
  simp only [output?, hb] at ho
  obtain ⟨m, hm, -⟩ := Option.bind_eq_some_iff.mp ho
  refine ⟨n, hg.distinct.node?_of_mem hn, List.mem_filterMap.mpr ⟨i, hi, ?_⟩, mem_ids_of_node? hm⟩
  simp [Input.sourceNode?, hp, PinRef.node?, hb, Owner.node?]

end

/-! ## Checking -/

section
variable {g h : Graph} {n : Node}

instance : Decidable (h.Matches n) :=
  decidable_of_iff (h.outputSockets.map Input.type = n.outputs.map Output.type ∧
      ∀ socket ∈ h.inputSockets, (n.feed socket).type = socket.type)
    ⟨fun hmatches => ⟨hmatches.1, hmatches.2⟩, fun hmatches => ⟨hmatches.outputs, hmatches.inputs⟩⟩

def insides (g : Graph) : List Graph := g.nodes.filterMap Node.graph?

theorem mem_insides (hn : n ∈ g.nodes) {name function : String}
    (himplementation : n.implementation = .compound name function h) : h ∈ g.insides :=
  List.mem_filterMap.mpr ⟨n, hn, by rw [Node.graph?, himplementation]⟩

theorem exists_of_mem_insides (hh : h ∈ g.insides) :
    ∃ n ∈ g.nodes, ∃ name function, n.implementation = .compound name function h := by
  obtain ⟨n, hn, hgraph⟩ := List.mem_filterMap.mp hh
  unfold Node.graph? at hgraph
  split at hgraph
  · rename_i name function inner himplementation
    obtain rfl := Option.some.inj hgraph
    exact ⟨n, hn, name, function, himplementation⟩
  · cases hgraph

theorem Throughout.of_insides {P : Graph → Prop} (hown : P g) (hinner : ∀ h ∈ g.insides, h.Throughout P) :
    g.Throughout P :=
  .intro g hown fun _ hn _ _ h himplementation => hinner h (mem_insides hn himplementation)

theorem Throughout.of_mem_insides {P : Graph → Prop} (hg : g.Throughout P) (hh : h ∈ g.insides) : h.Throughout P := by
  obtain ⟨n, hn, name, function, himplementation⟩ := exists_of_mem_insides hh
  exact hg.inside hn himplementation

def fitsType (type : DataType) (value : Option Value) : Bool := value.all fun v => v.type == type

theorem Linked.coherent (hg : g.Linked) (hsort : g.sort.isOk = true)
    (hinputs : ∀ n ∈ g.nodes, ∀ i ∈ n.inputs, fitsType i.type i.value = true)
    (houtputs : ∀ i ∈ g.outputSockets, fitsType i.type i.value = true)
    (hsockets : ∀ s ∈ g.inputSockets, fitsType s.type s.value = true)
    (hcompounds : ∀ n ∈ g.nodes, n.graph?.all (fun h => decide (h.Matches n)) = true) : g.Coherent := by
  have hliteral : ∀ {type value v}, fitsType type value = true → value = some v → v.type = type := by
    intro type value v hfits hv
    rw [fitsType, hv] at hfits
    simpa using hfits
  refine ⟨hg, not_cyclic_of_isOk hsort, ?_, fun s hs v => hliteral (hsockets s hs), ?_⟩
  · rintro ⟨owner, index⟩ i v hi
    cases owner with
    | graph => exact hliteral (houtputs i (List.mem_of_getElem? hi))
    | node id =>
      obtain ⟨n, hn, hi⟩ := Option.bind_eq_some_iff.mp hi
      exact hliteral (hinputs n (mem_of_node? hn) i (List.mem_of_getElem? hi))
  · intro n hn name function h himplementation
    have hmatches := hcompounds n hn
    rw [Node.graph?, himplementation] at hmatches
    simpa using hmatches

end

/-! ## There is exactly one solution -/

section
variable {C : Type} {I : Interpretation C} {g : Graph} {σ : Nat → List C}

theorem Coherent.exists_socket (hg : g.Coherent) {n : Node} (hn : n ∈ g.nodes) {name function : String} {h : Graph}
    (himplementation : n.implementation = .compound name function h) {index : Nat} {o : Output}
    (ho : n.outputs[index]? = some o) : ∃ socket, h.outputSockets[index]? = some socket ∧ socket.type = o.type := by
  have htypes := congrArg (fun l => l[index]?) (hg.compound n hn name function h himplementation).outputs
  simp only [List.getElem?_map, ho, Option.map_some] at htypes
  exact Option.map_eq_some_iff.mp htypes

/-- Two solutions agree on every source. -/
theorem eq_of_solves (hg : g.Throughout Coherent) : ∀ {σ val val'}, I.Solves g σ val → I.Solves g σ val' →
    ∀ {p o}, g.output? p = some o → val p = val' p := by
  -- the induction on the graph goes down into compounds, the one on the rank goes through the nodes of one graph
  induction hg with
  | intro g own hinner ih =>
    intro σ val val' hval hval'
    obtain ⟨inside, socket, node, inner, compound⟩ := hval
    obtain ⟨inside', socket', node', inner', compound'⟩ := hval'
    obtain ⟨rank, hrank⟩ := exists_ranked own.distinct own.acyclic
    -- along the rank, the sources that a node reads are known to agree
    have hnode : ∀ r id, rank id = r → ∀ index o, g.output? (.ofNode id index) = some o →
        val (.ofNode id index) = val' (.ofNode id index) := by
      intro r
      induction r using Nat.strong_induction_on with
      | _ r ihr =>
        intro id hr index o ho
        obtain ⟨n, hn, ho⟩ := Option.bind_eq_some_iff.mp ho
        obtain rfl := id_of_node? hn
        have hmem := mem_of_node? hn
        have hread : ∀ i ∈ n.inputs, I.read g val i = I.read g val' i := by
          intro i hi
          refine Interpretation.read_congr fun p hp => ?_
          obtain ⟨o', ho'⟩ := own.source_of_node hmem hi hp
          obtain ⟨owner, index⟩ := p
          cases owner with
          | graph => exact (socket index).trans (socket' index).symm
          | node b => exact ihr _ (hr ▸ hrank _ _ (own.reads_of_source hmem hi hp rfl)) b rfl index o' ho'
        have hplain : n.implementation.isCompound = false → val (.ofNode n.id index) = val' (.ofNode n.id index) := by
          intro hplain
          rw [node n hmem hplain, node' n hmem hplain, List.map_congr_left hread]
        cases himplementation : n.implementation with
        | compound name function h =>
          obtain ⟨s, hs, -⟩ := own.exists_socket hmem himplementation ho
          rw [compound n hmem name function h himplementation index s hs,
            compound' n hmem name function h himplementation index s hs]
          refine Interpretation.read_congr fun p hp => ?_
          have hsolves := inner n hmem name function h himplementation
          rw [Interpretation.bound_congr hread] at hsolves
          obtain ⟨o', ho'⟩ := (hinner n hmem name function h himplementation).own.source_of_socket
            (List.mem_of_getElem? hs) hp
          exact ih n hmem name function h himplementation hsolves (inner' n hmem name function h himplementation) ho'
        | source code => exact hplain (by rw [himplementation]; rfl)
        | procedural p => exact hplain (by rw [himplementation]; rfl)
    intro p o ho
    obtain ⟨owner, index⟩ := p
    cases owner with
    | graph => exact (socket index).trans (socket' index).symm
    | node id => exact hnode _ id rfl index o ho

theorem exists_bound {α : Type} (f : α → Nat) (l : List α) : ∃ r, ∀ a ∈ l, f a < r := by
  induction l with
  | nil => exact ⟨0, by simp⟩
  | cons a l ih =>
    obtain ⟨r, hr⟩ := ih
    refine ⟨max r (f a + 1), fun b hb => ?_⟩
    rcases List.mem_cons.mp hb with rfl | hb
    · omega
    · have := hr b hb
      omega

variable (I) in
/-- The values with those of the nodes of one rank computed anew. -/
noncomputable def recomputed (g : Graph) (rank : NodeId → Nat) (r : Nat) (val : PinRef → List C) : PinRef → List C
  | ⟨.graph, index⟩ => val ⟨.graph, index⟩
  | ⟨.node id, index⟩ =>
    if rank id = r then (g.node? id).elim [] fun n => I.compute g val n index else val ⟨.node id, index⟩

theorem exists_values (hg : g.Paired) {rank : NodeId → Nat} (hrank : g.Ranked rank) (σ : Nat → List C) (r : Nat) :
    ∃ val : PinRef → List C, (∀ index, val (.socket index) = σ index) ∧
      ∀ n ∈ g.nodes, rank n.id < r → ∀ index, val (.ofNode n.id index) = I.compute g val n index := by
  induction r with
  | zero => exact ⟨fun p => σ p.index, fun _ => rfl, fun n _ hlt => absurd hlt (Nat.not_lt_zero _)⟩
  | succ r ih =>
    obtain ⟨val, hsocket, hval⟩ := ih
    have hother : ∀ {id index}, rank id ≠ r → recomputed I g rank r val (.ofNode id index) = val (.ofNode id index) :=
      fun hne => if_neg hne
    have hread : ∀ n ∈ g.nodes, rank n.id ≤ r → ∀ i ∈ n.inputs,
        I.read g val i = I.read g (recomputed I g rank r val) i := by
      intro n hn hle i hi
      refine Interpretation.read_congr fun p hp => ?_
      obtain ⟨owner, index⟩ := p
      cases owner with
      | graph => rfl
      | node b =>
        have hlt := hrank _ _ (hg.reads_of_source hn hi hp rfl)
        exact (hother (by omega)).symm
    refine ⟨recomputed I g rank r val, hsocket, fun n hn hlt index => ?_⟩
    rw [← Interpretation.compute_congr (hread n hn (by omega))]
    by_cases hr : rank n.id = r
    · simp [recomputed, PinRef.ofNode, hr, hg.distinct.node?_of_mem hn]
    · rw [hother hr, hval n hn (by omega)]

/-- **Every coherent graph has a meaning**, whatever the values at its input sockets. -/
theorem exists_solves (hg : g.Throughout Coherent) : ∀ σ, ∃ val, I.Solves g σ val := by
  induction hg with
  | intro g own _ ih =>
    intro σ
    obtain ⟨rank, hrank⟩ := exists_ranked own.distinct own.acyclic
    obtain ⟨r, hr⟩ := exists_bound (fun n : Node => rank n.id) g.nodes
    obtain ⟨val, hsocket, hval⟩ := exists_values (I := I) own.toPaired hrank σ r
    have hinside : ∀ n ∈ g.nodes, (g.node? n.id).elim (fun _ => []) (I.inside g val) = I.inside g val n := by
      intro n hn
      rw [own.distinct.node?_of_mem hn, Option.elim_some]
    refine ⟨val, .intro (fun id => (g.node? id).elim (fun _ => []) (I.inside g val)) hsocket ?_ ?_ ?_⟩
    · intro n hn hplain index
      have hgraph : n.graph? = none := by
        unfold Node.graph?
        split
        · rename_i himplementation
          rw [himplementation] at hplain
          cases hplain
        · rfl
      rw [hval n hn (hr n hn), Interpretation.compute, hgraph]
    · intro n hn name function h himplementation
      have hgraph : n.graph? = some h := by rw [Node.graph?, himplementation]
      rw [hinside n hn, Interpretation.inside, hgraph]
      exact Classical.epsilon_spec (ih n hn name function h himplementation _)
    · intro n hn name function h himplementation index s hs
      have hgraph : n.graph? = some h := by rw [Node.graph?, himplementation]
      simp only [hinside n hn]
      rw [hval n hn (hr n hn), Interpretation.compute, hgraph]
      simp only [hs, Option.elim_some]

end

end Graph

end ShadeGraph
