import ShadeGraph.Proofs.Graph.Inlining

/-!
# Flattening keeps the meaning of a graph

A solution of a graph with a compound, together with the solution inside of it, gives a solution behind the replacement
of the compound, and the other way round: the copies have the values of the inner nodes, and every input has the value
of the one it has been made of. So each replacement keeps what the output sockets and the remaining nodes mean, and with
it the whole run.

There is one exception. An output socket of a compound's graph that reads nothing means its literal, whatever its
channels say, but flattening applies the channels. The meaning is kept if the channels of such a socket, where it is
read, do not change its literal; for an output socket that shows the literal this is exact.
-/

namespace ShadeGraph.Graph

open Rewiring

/-- The channels of a socket that reads nothing do not change its literal, in the graph of any compound whose output
there is read. -/
def Steady (g : Graph) : Prop :=
  ∀ n ∈ g.nodes, ∀ name function inner, n.implementation = .compound name function inner →
    ∀ index socket, inner.outputSockets[index]? = some socket → g.IsRead (.ofNode n.id index) →
      socket.source = none → ∀ v ∈ socket.value, ∀ channels ∈ socket.channels, v.swizzle channels socket.type = .ok v

variable {C : Type} {I : Interpretation C} {g h inner : Graph} {c n m : Node} {pairs : List (Node × Node)}
  {val inside val' : PinRef → List C} {i j : Input}

theorem typeAt_eq {p : PinRef} {o : Output} (ho : g.output? p = some o) : g.typeAt p = o.type := by
  rw [typeAt, ho]
  rfl

theorem constant_of_steady {between target : DataType} {first second channels : Option String}
    {value received : Option Value} (htype : ∀ v, value = some v → v.type = between)
    (hsteady : ∀ v, value = some v → ∀ cs, first = some cs → v.swizzle cs between = .ok v)
    (hfits : compatible between second target) (hchannels : composeChannels first second between = .ok channels)
    (hvalue : literalFor value channels target = .ok received) :
    I.constant received target = I.through between second (I.constant value between) := by
  cases value with
  | none =>
    obtain rfl := Except.ok.inj hvalue
    exact constant_literalFor htype hfits rfl
  | some v =>
    cases first with
    | none =>
      obtain rfl : channels = second := by cases second <;> exact (Except.ok.inj hchannels).symm
      exact constant_literalFor htype hfits hvalue
    | some cs =>
      have hcs := hsteady v rfl cs rfl
      have hliteral : I.through between (some cs) (I.literal v) = I.literal v := by
        have := literal_swizzle (I := I) hcs
        rw [htype v rfl] at this
        exact this.symm
      -- the first channels change nothing, so all of them together do what the second ones do
      have hcomposed : I.through between channels (I.literal v) =
          I.through between second (I.through between (some cs) (I.literal v)) :=
        through_composeChannels (by simp) hchannels _
      rw [hliteral] at hcomposed
      simp only [Interpretation.constant]
      rw [← hcomposed]
      cases second with
      | none =>
        obtain rfl := Except.ok.inj hchannels
        obtain rfl := compatible_none.mp hfits
        obtain ⟨w, hw, rfl⟩ := except_map_eq_ok.mp hvalue
        obtain rfl := Except.ok.inj (hcs.symm.trans hw)
        exact hliteral.symm
      | some ds =>
        obtain ⟨chars, rfl, -⟩ := composeChannels_some_iff.mp hchannels
        obtain ⟨w, hw, rfl⟩ := except_map_eq_ok.mp hvalue
        have := literal_swizzle (I := I) hw
        rw [htype v rfl] at this
        exact this

/-! ## Values that belong together -/

theorem owner_of_output? {p : PinRef} {o : Output} (ho : g.output? p = some o) :
    ∀ id, p.owner = .node id → id ∈ g.ids := by
  intro id hid
  simp only [output?, hid] at ho
  obtain ⟨n, hn, -⟩ := Option.bind_eq_some_iff.mp ho
  exact mem_ids_of_node? hn

/-- Values outside of a compound, inside of it, and behind its replacement. -/
structure Agree (I : Interpretation C) (g : Graph) (c : Node) (inner : Graph) (pairs : List (Node × Node))
    (val inside val' : PinRef → List C) : Prop where
  outside : ∀ {p}, p.owner ≠ .node c.id → (∀ id, p.owner = .node id → id ∈ g.ids) → val' p = val p
  copies : ∀ p ∈ pairs, ∀ index, val' (.ofNode p.2.id index) = inside (.ofNode p.1.id index)
  socket : ∀ index, inside (.socket index) = I.bound g val c inner index
  compound : ∀ index socket, inner.outputSockets[index]? = some socket →
    val (.ofNode c.id index) = I.read inner inside socket

section
variable (hr : Replacement g c inner pairs h) (ha : Agree I g c inner pairs val inside val')
include hr ha

theorem Agree.read_relayed {socket : Output} (hsocket : socket ∈ inner.inputSockets)
    (hfits : compatible socket.type i.channels i.type) (htype : j.type = i.type) (hj : Relayed (c.feed socket) i j) :
    I.read h val' j = I.through socket.type i.channels (I.read g val (c.feed socket)) := by
  have hfeed := hr.accepts_feed hsocket
  have hsame := hr.matches_inner.inputs socket hsocket
  rw [← hsame] at hfits ⊢
  cases hj with
  | source hsource hchannels hj =>
    obtain ⟨hsource', hchannels', -⟩ := hj
    obtain ⟨-, o, ho, hfits'⟩ := hfeed.source _ hsource
    obtain ⟨-, howner⟩ := hr.feed_source hsource
    obtain ⟨r, hr', hrtype⟩ := hr.output_outside howner ho
    simp only [Interpretation.read, hsource, hsource', hchannels', typeAt_eq ho, typeAt_eq hr', hrtype,
      ha.outside howner (owner_of_output? ho)]
    refine through_composeChannels (fun hnone => ?_) hchannels _
    rw [hnone] at hfits'
    exact compatible_none.mp hfits'
  | literal hfree hvalue hj =>
    obtain ⟨hsource', hvalue'⟩ := hj
    simp only [Interpretation.read, hfree, hsource', hvalue', htype]
    exact constant_literalFor hfeed.literal hfits hvalue

theorem Agree.read_carried {source : PinRef} {o : Output} (ho : inner.output? source = some o)
    (hfits : compatible o.type i.channels i.type) (htype : j.type = i.type)
    (hj : Carried c inner (copyIds pairs) source i j) :
    I.read h val' j = I.through o.type i.channels (inside source) := by
  cases hj with
  | @socket index socket hsource hsocket hj =>
    subst hsource
    obtain rfl := Option.some.inj (hsocket.symm.trans ho)
    rw [ha.read_relayed hr (List.mem_of_getElem? hsocket) hfits htype hj, ha.socket, Interpretation.bound, hsocket]
  | @node old new index hsource hcopy hj =>
    subst hsource
    obtain ⟨hsource', hchannels, -⟩ := hj
    obtain ⟨p, hp, rfl, rfl⟩ := lookup_copyIds hcopy
    obtain ⟨n, hn, ho⟩ := Option.bind_eq_some_iff.mp ho
    rw [hr.coherent_inner.distinct.node?_of_mem (hr.mem_inner hp)] at hn
    obtain rfl := Option.some.inj hn
    obtain ⟨r, hr', hrtype⟩ := hr.output_inside hp ho
    have htypeAt : h.typeAt (.ofNode p.2.id index) = o.type := (typeAt_eq hr').trans hrtype
    simp only [Interpretation.read, hsource', hchannels, htypeAt, ha.copies p hp]

theorem Agree.read_inner (hi : inner.Accepts i) (hj : innerInput c inner (copyIds pairs) i = .ok j) :
    I.read h val' j = I.read inner inside i := by
  obtain ⟨⟨-, htype⟩, ⟨rfl, hfree⟩ | ⟨p, hp, hcarried⟩⟩ := hr.innerInput_spec hi hj
  · simp only [Interpretation.read, hfree]
  · obtain ⟨-, o, ho, hfits⟩ := hi.source p hp
    rw [ha.read_carried hr (i := { i with source := none }) ho hfits htype hcarried]
    simp only [Interpretation.read, hp, typeAt_eq ho]

/-- The only place where the channels of a socket that reads nothing matter. -/
theorem Agree.read_passed (hsteady : g.Steady) {socket : Input} {index : Nat}
    (hsocket : inner.outputSockets[index]? = some socket) (hread : g.IsRead (.ofNode c.id index))
    (hfits : compatible socket.type i.channels i.type) (htype : j.type = i.type)
    (hj : Passed c inner (copyIds pairs) socket i j) :
    I.read h val' j = I.through socket.type i.channels (I.read inner inside socket) := by
  have haccepts := hr.coherent_inner.accepts_of_socket (List.mem_of_getElem? hsocket)
  cases hj with
  | @source p channels hsource hchannels hj =>
    obtain ⟨-, o, ho, hfits'⟩ := haccepts.source _ hsource
    have hfits'' := compatible_composeChannels hfits' hfits hchannels
    rw [ha.read_carried hr (i := { i with channels }) ho hfits'' htype hj]
    simp only [Interpretation.read, hsource, typeAt_eq ho]
    refine through_composeChannels (fun hnone => ?_) hchannels _
    rw [hnone] at hfits'
    exact compatible_none.mp hfits'
  | @literal channels value hfree hchannels hvalue hj =>
    obtain ⟨hsource', hvalue'⟩ := hj
    simp only [Interpretation.read, hfree, hsource', hvalue', htype]
    obtain ⟨name, function, himplementation⟩ := hr.implementation
    refine constant_of_steady haccepts.literal (fun v hv cs hcs => ?_) hfits hchannels hvalue
    exact hsteady c hr.mem name function inner himplementation index socket hsocket hread hfree v hv cs hcs

theorem Agree.read_outer (hsteady : g.Steady) (hi : g.Accepts i) (hread : ∀ p, i.source = some p → g.IsRead p)
    (hj : outerInput c inner (copyIds pairs) i = .ok j) :
    I.read h val' j = I.read g val i := by
  obtain ⟨⟨-, htype⟩, ⟨rfl, hother⟩ | ⟨index, o, socket, hsource, ho, hsocket, hsame, hpassed⟩⟩ :=
    hr.outerInput_spec hi hj
  · unfold Interpretation.read
    split
    · rename_i p hp
      obtain ⟨-, o, ho, -⟩ := hi.source p hp
      obtain ⟨r, hr', hrtype⟩ := hr.output_outside (hother p hp) ho
      rw [typeAt_eq ho, typeAt_eq hr', hrtype, ha.outside (hother p hp) (owner_of_output? ho)]
    · rfl
  · obtain ⟨-, o', ho', hfits⟩ := hi.source _ hsource
    obtain rfl := Option.some.inj (ho.symm.trans ho')
    rw [← hsame] at hfits
    rw [ha.read_passed hr hsteady (i := { i with source := none }) hsocket (hread _ hsource) hfits htype hpassed]
    simp only [Interpretation.read, hsource, typeAt_eq ho, ha.compound index socket hsocket, hsame]

end

/-! ## Nodes -/

section
variable {k : Graph} {f : Input → Except Error Input} {id : NodeId}

/-- Inputs that are rewired without a change of their values. -/
structure SameReads (I : Interpretation C) (h : Graph) (val' : PinRef → List C) (k : Graph) (val : PinRef → List C)
    (i j : Input) : Prop where
  name_eq : j.name = i.name
  read_eq : I.read h val' j = I.read k val i

theorem map_read_eq {l l' : List Input} (hl : List.Forall₂ (SameReads I h val' k val) l l') :
    l'.map (I.read h val') = l.map (I.read k val) := by
  induction hl with
  | nil => rfl
  | cons hij _ ih => rw [List.map_cons, List.map_cons, hij.read_eq, ih]

theorem read_find? {l l' : List Input} (hl : List.Forall₂ (SameReads I h val' k val) l l') (name : String)
    (other : Input) (hother : other.source = none) :
    I.read h val' ((l'.find? fun i => i.name == name).getD other) =
      I.read k val ((l.find? fun i => i.name == name).getD other) := by
  induction hl with
  | nil => simp only [List.find?_nil, Option.getD_none, Interpretation.read, hother]
  | @cons i j _ _ hij _ ih =>
    rw [List.find?_cons, List.find?_cons, hij.name_eq]
    cases i.name == name with
    | true => exact hij.read_eq
    | false => exact ih

theorem bound_eq (hinputs : List.Forall₂ (SameReads I h val' k val) n.inputs m.inputs) (inner : Graph) :
    I.bound h val' m inner = I.bound k val n inner := by
  funext index
  unfold Interpretation.bound
  split
  · exact read_find? hinputs _ _ rfl
  · rfl

/-- The equations of one node, with a solution inside of it if it is a compound. -/
structure Satisfies (I : Interpretation C) (g : Graph) (val : PinRef → List C) (n : Node) (within : PinRef → List C) :
    Prop where
  node : n.implementation.isCompound = false →
    ∀ index, val (.ofNode n.id index) = I.node n.kind (n.inputs.map (I.read g val)) index
  inner : ∀ name function h, n.implementation = .compound name function h → I.Solves h (I.bound g val n h) within
  compound : ∀ name function h, n.implementation = .compound name function h →
    ∀ index s, h.outputSockets[index]? = some s → val (.ofNode n.id index) = I.read h within s

theorem solves_iff {σ : Nat → List C} : I.Solves g σ val ↔ (∀ index, val (.socket index) = σ index) ∧
    ∃ insides : NodeId → PinRef → List C, ∀ n ∈ g.nodes, Satisfies I g val n (insides n.id) := by
  constructor
  · rintro ⟨insides, socket, node, inner, compound⟩
    exact ⟨socket, insides, fun n hn => ⟨node n hn, inner n hn, compound n hn⟩⟩
  · rintro ⟨socket, insides, hnode⟩
    exact .intro insides socket (fun n hn => (hnode n hn).node) (fun n hn => (hnode n hn).inner)
      fun n hn => (hnode n hn).compound

theorem satisfies_iff {within : PinRef → List C} (hkind : m.kind = n.kind)
    (hinputs : List.Forall₂ (SameReads I h val' k val) n.inputs m.inputs)
    (hval : ∀ index, val' (.ofNode m.id index) = val (.ofNode n.id index)) :
    Satisfies I h val' m within ↔ Satisfies I k val n within := by
  have himplementation : m.implementation = n.implementation := implementation_of_kind hkind.symm rfl
  constructor
  · rintro ⟨node, inner, compound⟩
    simp only [himplementation, hval, hkind, map_read_eq hinputs, bound_eq hinputs] at node inner compound
    exact ⟨node, inner, compound⟩
  · rintro ⟨node, inner, compound⟩
    refine ⟨?_, ?_, ?_⟩ <;> simp only [himplementation, hval, hkind, map_read_eq hinputs, bound_eq hinputs]
    · exact node
    · exact inner
    · exact compound

end

/-! ## Replacing one compound -/

/-- The values behind a replacement, made up of those outside and inside. -/
def replacedValues (pairs : List (Node × Node)) (val inside : PinRef → List C) : PinRef → List C
  | ⟨.graph, index⟩ => val ⟨.graph, index⟩
  | ⟨.node id, index⟩ =>
    (pairs.find? fun q => q.2.id == id).elim (val ⟨.node id, index⟩) fun q => inside (.ofNode q.1.id index)

/-- The values inside of a compound, taken from those behind its replacement. -/
def innerValues (I : Interpretation C) (g : Graph) (c : Node) (inner : Graph) (pairs : List (Node × Node))
    (val' : PinRef → List C) : PinRef → List C
  | ⟨.graph, index⟩ => I.bound g val' c inner index
  | ⟨.node id, index⟩ => ((copyIds pairs).lookup id).elim [] fun new => val' (.ofNode new index)

/-- The values outside of a compound, taken from those behind its replacement. -/
def outerValues (I : Interpretation C) (c : Node) (inner : Graph) (inside val' : PinRef → List C) (p : PinRef) :
    List C :=
  if p.owner = .node c.id then (inner.outputSockets[p.index]?).elim [] (I.read inner inside) else val' p

section
variable (hr : Replacement g c inner pairs h) (hsteady : g.Steady)
include hr

section
variable (ha : Agree I g c inner pairs val inside val')
include ha

include hsteady in
theorem Agree.satisfies_outside {within : PinRef → List C} (hn : n ∈ g.nodes) (hne : n.id ≠ c.id)
    (hm : m.Replaces (outerInput c inner (copyIds pairs)) n.id n) :
    Satisfies I h val' m within ↔ Satisfies I g val n within := by
  refine satisfies_iff hm.kind_eq (forall₂_imp_of_mem hm.inputs fun i hi j hij => ?_) fun index => ?_
  · have haccepts := hr.coherent.accepts_of_node hn hi
    have hread := ha.read_outer hr hsteady haccepts (fun p hp => .inr ⟨n, hn, i, hi, hp⟩) hij
    exact ⟨(hr.outerInput_spec haccepts hij).1.1, hread⟩
  · rw [hm.id_eq]
    refine ha.outside (by simpa [PinRef.ofNode] using hne) fun id hid => ?_
    rw [← Owner.node.inj hid]
    exact mem_ids_of_mem hn

theorem Agree.satisfies_inside {within : PinRef → List C} {p : Node × Node} (hp : p ∈ pairs)
    (hm : m.Replaces (innerInput c inner (copyIds pairs)) p.2.id p.1) :
    Satisfies I h val' m within ↔ Satisfies I inner inside p.1 within := by
  refine satisfies_iff hm.kind_eq (forall₂_imp_of_mem hm.inputs fun i hi j hij => ?_) fun index => ?_
  · have haccepts := hr.coherent_inner.accepts_of_node (hr.mem_inner hp) hi
    exact ⟨(hr.innerInput_spec haccepts hij).1.1, ha.read_inner hr haccepts hij⟩
  · rw [hm.id_eq]
    exact ha.copies p hp index

end

theorem exists_agree (σ : Nat → List C) (hval : I.Solves g σ val) :
    ∃ inside val', Agree I g c inner pairs val inside val' ∧ I.Solves inner (I.bound g val c inner) inside := by
  obtain ⟨-, insides, hnodes⟩ := solves_iff.mp hval
  obtain ⟨name, function, himplementation⟩ := hr.implementation
  have hc := hnodes c hr.mem
  have hinner := hc.inner name function inner himplementation
  refine ⟨insides c.id, replacedValues pairs val (insides c.id), ⟨?_, ?_, ?_, ?_⟩, hinner⟩
  · rintro ⟨owner, index⟩ hne hknown
    cases owner with
    | graph => rfl
    | node id => simp only [replacedValues, hr.find_kept (hknown id rfl), Option.elim_none]
  · intro p hp index
    simp only [replacedValues, PinRef.ofNode, hr.find_copy hp, Option.elim_some]
  · exact (solves_iff.mp hinner).1
  · exact hc.compound name function inner himplementation

theorem exists_agree_back (I : Interpretation C) (val' : PinRef → List C) :
    ∃ val inside, Agree I g c inner pairs val inside val' := by
  have hother : ∀ {inside : PinRef → List C} {p}, p.owner ≠ .node c.id → outerValues I c inner inside val' p = val' p :=
    fun hne => if_neg hne
  refine ⟨outerValues I c inner (innerValues I g c inner pairs val') val', innerValues I g c inner pairs val',
    fun hne _ => (hother hne).symm, ?_, ?_, ?_⟩
  · intro p hp index
    simp only [innerValues, PinRef.ofNode, hr.lookup_copy hr.coherent_inner.distinct hp, Option.elim_some]
  · intro index
    refine congrFun (Interpretation.bound_congr (fun i hi => ?_) inner) index
    exact Interpretation.read_congr fun p hp => (hother (hr.not_self hi hp)).symm
  · intro index socket hsocket
    simp only [outerValues, PinRef.ofNode, if_true, hsocket, Option.elim_some]

include hsteady

theorem solves_inlined {σ : Nat → List C} (ha : Agree I g c inner pairs val inside val') (hval : I.Solves g σ val)
    (hinside : I.Solves inner (I.bound g val c inner) inside) : I.Solves h σ val' := by
  obtain ⟨socket, insides, hnodes⟩ := solves_iff.mp hval
  obtain ⟨-, innerInsides, hinnerNodes⟩ := solves_iff.mp hinside
  -- a copy that is a compound itself has inside what its original has
  refine solves_iff.mpr ⟨fun index => ?_,
    fun id => (pairs.find? fun q => q.2.id == id).elim (insides id) fun q => innerInsides q.1.id, fun m hm => ?_⟩
  · rw [← socket index]
    exact ha.outside (by simp [PinRef.socket]) (by simp [PinRef.socket])
  · rcases hr.node_cases hr.coherent.distinct hm with ⟨n, hn, hne, hreplaces⟩ | ⟨p, hp, hreplaces⟩
    · rw [ha.satisfies_outside hr hsteady hn hne hreplaces, hreplaces.id_eq]
      simp only [hr.find_kept (mem_ids_of_mem hn), Option.elim_none]
      exact hnodes n hn
    · rw [ha.satisfies_inside hr hp hreplaces, hreplaces.id_eq]
      simp only [hr.find_copy hp, Option.elim_some]
      exact hinnerNodes p.1 (hr.mem_inner hp)

theorem solves_of_inlined {σ : Nat → List C} (ha : Agree I g c inner pairs val inside val')
    (hval' : I.Solves h σ val') : I.Solves g σ val := by
  obtain ⟨socket, insides, hnodes⟩ := solves_iff.mp hval'
  -- the copies solve the inner graph, and this is the solution inside of the compound
  have hinside : I.Solves inner (I.bound g val c inner) inside := by
    refine solves_iff.mpr ⟨ha.socket, fun id => ((copyIds pairs).lookup id).elim (fun _ => []) insides, fun n hn => ?_⟩
    obtain ⟨p, hp, rfl⟩ := hr.exists_pair hn
    obtain ⟨m, hm, hreplaces⟩ := hr.exists_inside hp
    simp only [hr.lookup_copy hr.coherent_inner.distinct hp, Option.elim_some]
    rw [← ha.satisfies_inside hr hp hreplaces, ← hreplaces.id_eq]
    exact hnodes m hm
  refine solves_iff.mpr ⟨fun index => ?_, fun id => if id = c.id then inside else insides id, fun n hn => ?_⟩
  · rw [← socket index]
    exact (ha.outside (by simp [PinRef.socket]) (by simp [PinRef.socket])).symm
  · by_cases hne : n.id = c.id
    · obtain rfl := hr.coherent.distinct.eq_of_id hn hr.mem hne
      obtain ⟨name, function, himplementation⟩ := hr.implementation
      simp only [if_true]
      refine ⟨fun hplain => ?_, fun _ _ k hk => ?_, fun _ _ k hk => ?_⟩
      · rw [himplementation] at hplain
        cases hplain
      · rw [himplementation] at hk
        cases hk
        exact hinside
      · rw [himplementation] at hk
        cases hk
        exact ha.compound
    · simp only [hne, if_false]
      obtain ⟨m, hm, hreplaces⟩ := hr.exists_outside hr.coherent.distinct hn hne
      rw [← ha.satisfies_outside hr hsteady hn hne hreplaces, ← hreplaces.id_eq]
      exact hnodes m hm

end

/-! ## Runs -/

/-- The output sockets and the nodes that two graphs have in common have the same values. -/
structure SameValues (I : Interpretation C) (g h : Graph) (val val' : PinRef → List C) : Prop where
  sockets : List.Forall₂ (fun i j => I.read h val' j = I.read g val i) g.outputSockets h.outputSockets
  nodes : ∀ id ∈ g.ids, id ∈ h.ids → ∀ index, val' (.ofNode id index) = val (.ofNode id index)

/-- Each solution of one graph comes with one of the other graph that has the same values. -/
structure Equivalent (I : Interpretation C) (σ : Nat → List C) (g h : Graph) : Prop where
  forth : ∀ val, I.Solves g σ val → ∃ val', I.Solves h σ val' ∧ SameValues I g h val val'
  back : ∀ val', I.Solves h σ val' → ∃ val, I.Solves g σ val ∧ SameValues I g h val val'

section
variable {σ : Nat → List C}

theorem SameValues.refl (I : Interpretation C) (g : Graph) (val : PinRef → List C) : SameValues I g g val val :=
  ⟨List.forall₂_same.mpr fun _ _ => rfl, fun _ _ _ _ => rfl⟩

theorem SameValues.trans {k : Graph} {val'' : PinRef → List C} (h₁ : SameValues I g h val val')
    (h₂ : SameValues I h k val' val'') (hids : ∀ id ∈ g.ids, id ∈ k.ids → id ∈ h.ids) : SameValues I g k val val'' := by
  refine ⟨?_, fun id hg hk index => (h₂.nodes id (hids id hg hk) hk index).trans (h₁.nodes id hg (hids id hg hk) index)⟩
  have hsockets := h₁.sockets
  have hsockets' := h₂.sockets
  rw [List.forall₂_iff_get] at hsockets hsockets' ⊢
  refine ⟨hsockets.1.trans hsockets'.1, fun index hi hk => ?_⟩
  exact (hsockets'.2 index (hsockets.1 ▸ hi) hk).trans (hsockets.2 index hi (hsockets.1 ▸ hi))

theorem Equivalent.refl (I : Interpretation C) (σ : Nat → List C) (g : Graph) : Equivalent I σ g g :=
  ⟨fun val hval => ⟨val, hval, .refl I g val⟩, fun val hval => ⟨val, hval, .refl I g val⟩⟩

theorem Equivalent.trans {k : Graph} (h₁ : Equivalent I σ g h) (h₂ : Equivalent I σ h k)
    (hids : ∀ id ∈ g.ids, id ∈ k.ids → id ∈ h.ids) : Equivalent I σ g k := by
  constructor
  · intro val hval
    obtain ⟨val', hval', hsame⟩ := h₁.forth val hval
    obtain ⟨val'', hval'', hsame'⟩ := h₂.forth val' hval'
    exact ⟨val'', hval'', hsame.trans hsame' hids⟩
  · intro val'' hval''
    obtain ⟨val', hval', hsame'⟩ := h₂.back val'' hval''
    obtain ⟨val, hval, hsame⟩ := h₁.back val' hval'
    exact ⟨val, hval, hsame.trans hsame' hids⟩

theorem Agree.sameValues (hr : Replacement g c inner pairs h) (hsteady : g.Steady)
    (ha : Agree I g c inner pairs val inside val') : SameValues I g h val val' := by
  refine ⟨forall₂_imp_of_mem hr.sockets fun i hi j hij => ?_, fun id hid hid' index => ?_⟩
  · exact ha.read_outer hr hsteady (hr.coherent.accepts_of_socket hi) (fun p hp => .inl ⟨i, hi, hp⟩) hij
  · obtain ⟨m, hm, rfl⟩ := List.mem_map.mp hid'
    refine ha.outside (fun howner => ?_) fun id' hid' => Owner.node.inj hid' ▸ hid
    have howner : m.id = c.id := Owner.node.inj howner
    rcases hr.node_cases hr.coherent.distinct hm with ⟨n, -, hne, hreplaces⟩ | ⟨p, hp, hreplaces⟩
    · exact hne (hreplaces.id_eq.symm.trans howner)
    · exact hr.fresh p hp (hreplaces.id_eq ▸ hid)

theorem equivalent_inlined (hr : Replacement g c inner pairs h) (hsteady : g.Steady) (I : Interpretation C)
    (σ : Nat → List C) : Equivalent I σ g h := by
  constructor
  · intro val hval
    obtain ⟨inside, val', ha, hinside⟩ := exists_agree hr σ hval
    exact ⟨val', solves_inlined hr hsteady ha hval hinside, ha.sameValues hr hsteady⟩
  · intro val' hval'
    obtain ⟨val, inside, ha⟩ := exists_agree_back hr I val'
    exact ⟨val, solves_of_inlined hr hsteady ha hval', ha.sameValues hr hsteady⟩

theorem steady_inlined (hr : Replacement g c inner pairs h) (hg : g.Steady) (hinner : inner.Steady) : h.Steady := by
  intro m hm name function k himplementation index socket hsocket hread
  rcases hr.node_cases hr.coherent.distinct hm with ⟨n, hn, -, hreplaces⟩ | ⟨p, hp, hreplaces⟩
  · rw [hreplaces.id_eq] at hread
    refine hg n hn name function k (implementation_of_kind hreplaces.kind_eq himplementation) index socket hsocket ?_
    rcases hr.isRead_cases hr.coherent.distinct hr.mem hread with hread | ⟨q, hq, k, heq, -⟩
    · exact hread
    · have heq : n.id = q.2.id := Owner.node.inj (congrArg PinRef.owner heq)
      exact absurd (mem_ids_of_mem hn) (heq ▸ hr.fresh q hq)
  · rw [hreplaces.id_eq] at hread
    refine hinner p.1 (hr.mem_inner hp) name function k (implementation_of_kind hreplaces.kind_eq himplementation) index
      socket hsocket ?_
    rcases hr.isRead_cases hr.coherent.distinct hr.mem hread with hread | ⟨q, hq, k, heq, hread⟩
    · obtain ⟨o, ho⟩ := hread.known hr.coherent.toPaired
      exact absurd (owner_of_output? ho p.2.id rfl) (hr.fresh p hp)
    · have hid : p.2.id = q.2.id := Owner.node.inj (congrArg PinRef.owner heq)
      have hindex : index = k := congrArg PinRef.index heq
      rwa [hindex, hr.eq_of_copy hp hq hid]

/-- A state in which compounds can be replaced: the graph is coherent at every depth, and the supply does not give out
the identities of its nodes again. -/
structure Ready (s : Graph × IdSupply) : Prop where
  injective : Function.Injective s.2.pick
  issued : ∀ id ∈ s.1.ids, s.2.Issued id
  coherent : s.1.Throughout Coherent

/-- A step of a run: a compound has been replaced, and the copies have identities that were not given out before. -/
def Inlines (s s' : Graph × IdSupply) : Prop :=
  ∃ c inner pairs, Replacement s.1 c inner pairs s'.1 ∧ s.2.Later s'.2 ∧ ∀ p ∈ pairs, ¬ s.2.Issued p.2.id

theorem Ready.inlineCompound {s s' : Graph × IdSupply} {a : Unit} (hs : Ready s) (hc : c ∈ s.1.nodes)
    {name function : String} (himplementation : c.implementation = .compound name function inner)
    (h : inlineCompound c inner s = .ok a s') :
    Ready s' ∧ Inlines s s' := by
  have own := hs.coherent.own
  have hinner := hs.coherent.inside hc himplementation
  obtain ⟨pairs, hin, hlater, hfresh, hissued⟩ := inlined_of_acyclic hs.injective hs.issued own.toPaired own.acyclic
    hinner.own.toPaired hc h
  have hr : Replacement s.1 c inner pairs s'.1 := ⟨hin, own, hinner.own, hc, name, function, himplementation⟩
  refine ⟨⟨hlater.injective hs.injective, hissued, ?_⟩, c, inner, pairs, hr, hlater, hfresh⟩
  exact hr.throughout own.distinct hs.coherent hinner hr.coherent_inlined

theorem Ready.flatten {P : Graph × IdSupply → Prop} (step : ∀ s s', P s → Inlines s s' → P s') {s s' : Graph × IdSupply}
    {a : Unit} (hs : Ready s) (hp : P s) (h : Rewiring.flatten s = .ok a s') : Ready s' ∧ P s' := by
  refine (flatten_keeps (P := fun s => Ready s ∧ P s) ?_ hs.injective ⟨hs, hp⟩ h).2
  rintro s c inner name function a s' - ⟨hs, hp⟩ hc himplementation hinline
  obtain ⟨hs₁, hstep⟩ := hs.inlineCompound hc himplementation hinline
  exact ⟨hs₁, step s s' hp hstep⟩

theorem equivalent_flatten {s s' : Graph × IdSupply} {a : Unit} (hs : Ready s) (hsteady : s.1.Throughout Steady)
    (h : Rewiring.flatten s = .ok a s') (I : Interpretation C) (σ : Nat → List C) :
    Ready s' ∧ Equivalent I σ s.1 s'.1 := by
  let P (t : Graph × IdSupply) : Prop := t.1.Throughout Steady ∧ s.2.Later t.2 ∧ Equivalent I σ s.1 t.1
  have hstep : ∀ t t', P t → Inlines t t' → P t' := by
    rintro t t' ⟨hsteady, hbefore, hequivalent⟩ ⟨c, inner, pairs, hr, hlater, hfresh⟩
    obtain ⟨name, function, himplementation⟩ := hr.implementation
    have hinner := hsteady.inside hr.mem himplementation
    have hsteady' := hr.throughout hr.coherent.distinct hsteady hinner (steady_inlined hr hsteady.own hinner.own)
    refine ⟨hsteady', hbefore.trans hlater, ?_⟩
    refine hequivalent.trans (equivalent_inlined hr hsteady.own I σ) fun id hid hid' => ?_
    -- no old identity comes back, so a node that is there at the end has been there all the time
    rcases hr.mem_ids hr.coherent.distinct hid' with hid' | ⟨p, hp, rfl⟩
    · exact hid'
    · exact absurd (hbefore.issued (hs.issued _ hid)) (hfresh p hp)
  obtain ⟨hs', -, -, hequivalent⟩ := hs.flatten hstep ⟨hsteady, .refl _, .refl I σ _⟩ h
  exact ⟨hs', hequivalent⟩

end

/-! ## Meaning -/

/-- A value of a source, for values at the input sockets. -/
def Yields (I : Interpretation C) (g : Graph) (σ : Nat → List C) (p : PinRef) (v : List C) : Prop :=
  ∃ val, I.Solves g σ val ∧ val p = v

/-- A value of an input or an output socket, for values at the input sockets. -/
def Receives (I : Interpretation C) (g : Graph) (σ : Nat → List C) (p : PinRef) (v : List C) : Prop :=
  ∃ val i, I.Solves g σ val ∧ g.input? p = some i ∧ I.read g val i = v

section
variable {σ : Nat → List C} {w : List C}

theorem yields_iff (hg : g.Throughout Coherent) {p : PinRef} {v : List C} (hp : ∀ val, I.Solves g σ val → val p = v) :
    Yields I g σ p w ↔ w = v := by
  constructor
  · rintro ⟨val, hval, rfl⟩
    exact hp val hval
  · rintro rfl
    obtain ⟨val, hval⟩ := exists_solves (I := I) hg σ
    exact ⟨val, hval, hp val hval⟩

theorem receives_iff (hg : g.Throughout Coherent) {p : PinRef} {v : List C} (hi : g.input? p = some i)
    (hread : ∀ val, I.Solves g σ val → I.read g val i = v) : Receives I g σ p w ↔ w = v := by
  constructor
  · rintro ⟨val, j, hval, hj, rfl⟩
    obtain rfl := Option.some.inj (hi.symm.trans hj)
    exact hread val hval
  · rintro rfl
    obtain ⟨val, hval⟩ := exists_solves (I := I) hg σ
    exact ⟨val, i, hval, hi, hread val hval⟩

theorem receives_same (hg : g.Throughout Coherent) (hh : h.Throughout Coherent) (heq : Equivalent I σ g h) {index : Nat}
    (hindex : index < g.outputSockets.length) :
    ∃ v, ∀ w, (Receives I g σ (.socket index) w ↔ w = v) ∧ (Receives I h σ (.socket index) w ↔ w = v) := by
  obtain ⟨val, hval⟩ := exists_solves (I := I) hg σ
  obtain ⟨val', -, hsame⟩ := heq.forth val hval
  have hlength := hsame.sockets.length_eq
  have hi : g.input? (.socket index) = some g.outputSockets[index] := List.getElem?_eq_getElem hindex
  have hj : h.input? (.socket index) = some (h.outputSockets.get ⟨index, hlength ▸ hindex⟩) :=
    List.getElem?_eq_getElem (hlength ▸ hindex)
  have hunique : ∀ val₁, I.Solves g σ val₁ →
      I.read g val₁ g.outputSockets[index] = I.read g val g.outputSockets[index] := by
    intro val₁ hval₁
    refine Interpretation.read_congr fun p hp => ?_
    obtain ⟨o, ho⟩ := hg.own.source_known hi hp
    exact eq_of_solves hg hval₁ hval ho
  refine ⟨_, fun w => ⟨receives_iff hg hi hunique, receives_iff hh hj fun val₂ hval₂ => ?_⟩⟩
  obtain ⟨val₁, hval₁, hsame₁⟩ := heq.back val₂ hval₂
  exact (hsame₁.sockets.get hindex (hlength ▸ hindex)).trans (hunique val₁ hval₁)

theorem yields_same (hg : g.Throughout Coherent) (hh : h.Throughout Coherent) (heq : Equivalent I σ g h)
    (hn : n ∈ g.nodes) (hkept : n.id ∈ h.ids) {index : Nat} (hindex : index < n.outputs.length) :
    ∃ v, ∀ w, (Yields I g σ (.ofNode n.id index) w ↔ w = v) ∧ (Yields I h σ (.ofNode n.id index) w ↔ w = v) := by
  obtain ⟨val, hval⟩ := exists_solves (I := I) hg σ
  have ho : g.output? (.ofNode n.id index) = some n.outputs[index] := by
    simp [output?, PinRef.ofNode, hg.own.distinct.node?_of_mem hn]
  have hunique : ∀ val₁, I.Solves g σ val₁ → val₁ (.ofNode n.id index) = val (.ofNode n.id index) :=
    fun val₁ hval₁ => eq_of_solves hg hval₁ hval ho
  refine ⟨_, fun w => ⟨yields_iff hg hunique, yields_iff hh fun val₂ hval₂ => ?_⟩⟩
  obtain ⟨val₁, hval₁, hsame⟩ := heq.back val₂ hval₂
  exact (hsame.nodes _ (mem_ids_of_mem hn) hkept index).trans (hunique val₁ hval₁)

/-- **Flattening keeps the meaning.** Behind a run that ends well, every output socket and every output of a node that
is still there has exactly one value, the one it had before, whatever the nodes compute and whatever the values at the
input sockets are. -/
theorem flatten_keeps_meaning (I : Interpretation C) (σ : Nat → List C) (g g' : Graph) (ids ids' : IdSupply)
    (hpick : Function.Injective ids.pick) (hissued : ∀ id ∈ g.ids, ids.Issued id) (hcoherent : g.Throughout Coherent)
    (hsteady : g.Throughout Steady) (h : flatten (g, ids) = .ok () (g', ids')) :
    (∀ index < g.outputSockets.length, ∃ v, ∀ w,
      (Receives I g σ (.socket index) w ↔ w = v) ∧ (Receives I g' σ (.socket index) w ↔ w = v)) ∧
    ∀ n ∈ g.nodes, n.id ∈ g'.ids → ∀ index < n.outputs.length, ∃ v, ∀ w,
      (Yields I g σ (.ofNode n.id index) w ↔ w = v) ∧ (Yields I g' σ (.ofNode n.id index) w ↔ w = v) := by
  obtain ⟨hready, heq⟩ := equivalent_flatten ⟨hpick, hissued, hcoherent⟩ hsteady h I σ
  refine ⟨fun index => receives_same hcoherent hready.coherent heq, fun n hn hkept index => ?_⟩
  exact yields_same hcoherent hready.coherent heq hn hkept

end

/-- Counts the ones among all components of all inputs. -/
def totals : Interpretation Nat :=
  .plain (fun x => if x = Value.one then 1 else 0) 0 fun _ values _ => [values.flatten.foldl (· + ·) 0]

/-- A compound with some inputs and with outputs for the sockets of its graph. -/
def compoundOf (id : Nat) (inner : Graph) (inputs : List Input) : Node :=
  { Node.make ⟨id⟩ inner.name inner.name inner.name (.compound inner.name inner.name inner) .texture with
    inputs
    outputs := inner.outputSockets.map fun s => { name := s.name, type := s.type } }

def sumNode (second : Input) : Node :=
  { Node.make ⟨1⟩ "sum" "add" "ND_add_float" (.inline "ND_add_float" "sum") .texture with
    inputs := [{ name := "in1", type := .float }, second]
    outputs := [{ name := "out", type := .float }] }

def white : Value := .tuple .color3 (Vector.replicate 3 Value.one)

/-- The green channel of a colour, and white. -/
def splitter : Graph :=
  let g := (Graph.empty "splitter").addInputSocket { name := "in", type := .tuple .color3 }
  let g := g.addOutputSocket { name := "green", type := .float, channels := some "g" }
  let g := g.addOutputSocket { name := "white", type := .tuple .color3, value := some white, channels := some "bgr" }
  g.afterConnect (.socket 0) (.socket 0)

/-- The sum of the two, for a colour that is read backwards. -/
def mixer : Graph :=
  let g := (Graph.empty "mixer").addInputSocket { name := "tint", type := .tuple .color3 }
  let g := g.addOutputSocket { name := "out", type := .float }
  let g := g.addNode (compoundOf 0 splitter [{ name := "in", type := .tuple .color3, channels := some "bgr" }])
  let g := g.addNode (sumNode { name := "in2", type := .float, channels := some "r" })
  let g := g.afterConnect (.socket 0) (.ofNode ⟨0⟩ 0)
  let g := g.afterConnect (.ofNode ⟨0⟩ 0) (.ofNode ⟨1⟩ 0)
  let g := g.afterConnect (.ofNode ⟨0⟩ 1) (.ofNode ⟨1⟩ 1)
  g.afterConnect (.ofNode ⟨1⟩ 0) (.socket 0)

/-- A compound with a compound inside, between a socket and a node that stays. -/
def lens : Graph :=
  let g := (Graph.empty "lens").addInputSocket { name := "at", type := .tuple .vector3 }
  let g := g.addOutputSocket { name := "out", type := .float }
  let g := g.addNode (compoundOf 0 mixer [{ name := "tint", type := .tuple .color3, channels := some "zyx" }])
  let g := g.addNode (sumNode { name := "in2", type := .float, channels := some "x" })
  let g := g.afterConnect (.socket 0) (.ofNode ⟨0⟩ 0)
  let g := g.afterConnect (.ofNode ⟨0⟩ 0) (.ofNode ⟨1⟩ 0)
  let g := g.afterConnect (.socket 0) (.ofNode ⟨1⟩ 1)
  g.afterConnect (.ofNode ⟨1⟩ 0) (.socket 0)

theorem unconnected_compoundOf {inner : Graph} {inputs : List Input} (hinputs : ∀ i ∈ inputs, i.source = none)
    (id : Nat) :
    (compoundOf id inner inputs).Unconnected := ⟨hinputs, by simp [compoundOf]⟩

theorem unconnected_sumNode {second : Input} (hsecond : second.source = none) : (sumNode second).Unconnected :=
  ⟨by simp [sumNode, hsecond], by simp [sumNode]⟩

theorem splitter_linked : splitter.Linked := by
  refine .step ?_ (.connect _ _ _)
  refine .step ?_ (.addOutputSocket rfl)
  refine .step ?_ (.addOutputSocket rfl)
  exact .step (.empty _) (.addInputSocket rfl)

theorem mixer_linked : mixer.Linked := by
  refine .step (.step (.step (.step ?_ (.connect _ _ _)) (.connect _ _ _)) (.connect _ _ _)) (.connect _ _ _)
  refine .step ?_ (.addNode (by decide) (unconnected_sumNode rfl))
  refine .step ?_ (.addNode (by decide) (unconnected_compoundOf (by simp) 0))
  exact .step (.step (.empty _) (.addInputSocket rfl)) (.addOutputSocket rfl)

theorem lens_linked : lens.Linked := by
  refine .step (.step (.step (.step ?_ (.connect _ _ _)) (.connect _ _ _)) (.connect _ _ _)) (.connect _ _ _)
  refine .step ?_ (.addNode (by decide) (unconnected_sumNode rfl))
  refine .step ?_ (.addNode (by decide) (unconnected_compoundOf (by simp) 0))
  exact .step (.step (.empty _) (.addInputSocket rfl)) (.addOutputSocket rfl)

theorem lens_coherent : lens.Throughout Coherent := by
  have hsplitter : splitter.Throughout Coherent := by
    refine .of_insides (splitter_linked.coherent ?_ ?_ ?_ ?_ ?_) fun h hh => by cases hh
    all_goals decide +kernel
  have hmixer : mixer.Throughout Coherent := by
    refine .of_insides (mixer_linked.coherent ?_ ?_ ?_ ?_ ?_) fun h hh => List.mem_singleton.mp hh ▸ hsplitter
    all_goals decide +kernel
  refine .of_insides (lens_linked.coherent ?_ ?_ ?_ ?_ ?_) fun h hh => List.mem_singleton.mp hh ▸ hmixer
  all_goals decide +kernel

theorem Steady.of_insides (h : ∀ h ∈ g.insides, ∀ socket ∈ h.outputSockets, socket.source = none → ∀ v ∈ socket.value,
    ∀ channels ∈ socket.channels, v.swizzle channels socket.type = .ok v) : g.Steady :=
  fun _ hn _ _ inner himplementation _ socket hsocket _ =>
    h inner (mem_insides hn himplementation) socket (List.mem_of_getElem? hsocket)

theorem lens_steady : lens.Throughout Steady := by
  have hsplitter : splitter.Throughout Steady := .of_insides (.of_insides (by decide +kernel)) fun h hh => by cases hh
  have hmixer : mixer.Throughout Steady :=
    .of_insides (.of_insides (by decide +kernel)) fun h hh => List.mem_singleton.mp hh ▸ hsplitter
  exact .of_insides (.of_insides (by decide +kernel)) fun h hh => List.mem_singleton.mp hh ▸ hmixer

theorem lens_keeps_meaning : ∃ g' ids', flatten (lens, { next := 2 }) = .ok () (g', ids') ∧ ⟨1⟩ ∈ g'.ids ∧
    (∃ v, ∀ w, (Receives totals lens (fun _ => [1, 2, 3]) (.socket 0) w ↔ w = v) ∧
      (Receives totals g' (fun _ => [1, 2, 3]) (.socket 0) w ↔ w = v)) ∧
    ∃ v, ∀ w, (Yields totals lens (fun _ => [1, 2, 3]) (.ofNode ⟨1⟩ 0) w ↔ w = v) ∧
      (Yields totals g' (fun _ => [1, 2, 3]) (.ofNode ⟨1⟩ 0) w ↔ w = v) := by
  have hends : (match flatten (lens, { next := 2 }) with
      | .ok _ s => decide (⟨1⟩ ∈ s.1.ids)
      | .error _ _ => false) = true := by decide +kernel
  cases hflat : flatten (lens, { next := 2 }) with
  | error e s => simp only [hflat, Bool.false_eq_true] at hends
  | ok a s =>
    obtain ⟨g', ids'⟩ := s
    simp only [hflat, decide_eq_true_eq] at hends
    have hissued : ∀ id ∈ lens.ids, IdSupply.Issued { next := 2 } id := by
      intro id hid
      have hids : lens.ids = [⟨0⟩, ⟨1⟩] := by decide +kernel
      rw [hids] at hid
      rcases List.mem_pair.mp hid with rfl | rfl
      · exact ⟨0, by decide, rfl⟩
      · exact ⟨1, by decide, rfl⟩
    have hnode : ∃ n ∈ lens.nodes, n.id = ⟨1⟩ ∧ n.outputs.length = 1 := by decide +kernel
    obtain ⟨hsockets, hnodes⟩ := flatten_keeps_meaning totals (fun _ => [1, 2, 3]) lens g' { next := 2 } ids'
      (fun _ _ => NodeId.mk.inj) hissued lens_coherent lens_steady hflat
    obtain ⟨n, hn, hid, hlength⟩ := hnode
    have hvalue := hnodes n hn (hid ▸ hends) 0 (hlength ▸ Nat.one_pos)
    rw [hid] at hvalue
    exact ⟨g', ids', rfl, hends, hsockets 0 (by decide), hvalue⟩

/-! ## Literals behind sockets -/

/-- An output socket reads a compound without channels, and the socket inside, which is the given one, reads nothing. -/
def Shows (g : Graph) (index : Nat) (socket : Input) : Prop :=
  ∃ t c name function inner k, g.outputSockets[index]? = some t ∧ t.channels = none ∧ t.source = some (.ofNode c.id k) ∧
    c ∈ g.nodes ∧ c.implementation = .compound name function inner ∧ inner.outputSockets[k]? = some socket ∧
    socket.source = none

/-- An output socket has the literal that another one hands on through its channels. -/
def HasLiteral (g : Graph) (index : Nat) (socket : Input) : Prop :=
  ∃ t, g.outputSockets[index]? = some t ∧ t.source = none ∧
    literalFor socket.value socket.channels socket.type = .ok t.value

section
variable {index : Nat} {socket : Input} (hr : Replacement g c inner pairs h)
include hr

theorem shows_inlined (hg : g.Shows index socket) : h.Shows index socket ∨ h.HasLiteral index socket := by
  obtain ⟨t, d, name, function, k, at', ht, hplain, hsource, hd, himplementation, hsocket, hfree⟩ := hg
  obtain ⟨j, hj, hj'⟩ := hr.outside (q := .socket index) (by simp [PinRef.socket]) ht
  have haccepts := hr.coherent.accepts_of_socket (List.mem_of_getElem? ht)
  -- another compound has been replaced, or the one that the socket reads
  obtain ⟨-, ⟨rfl, hother⟩ | ⟨k', o, s, hsource', ho, hs, hsame, hpassed⟩⟩ := hr.outerInput_spec haccepts hj
  · have hne : d.id ≠ c.id := fun heq => hother _ hsource (congrArg Owner.node heq)
    obtain ⟨m, hm, hreplaces⟩ := hr.exists_outside hr.coherent.distinct hd hne
    refine .inl ⟨j, m, name, function, k, at', hj', hplain, hreplaces.id_eq ▸ hsource, hm, ?_, hsocket, hfree⟩
    exact implementation_of_kind hreplaces.kind_eq.symm himplementation
  · have hpin : PinRef.ofNode d.id at' = .ofNode c.id k' := Option.some.inj (hsource.symm.trans hsource')
    obtain rfl : d = c := hr.coherent.distinct.eq_of_id hd hr.mem (Owner.node.inj (congrArg PinRef.owner hpin))
    obtain rfl : at' = k' := congrArg PinRef.index hpin
    obtain ⟨name', function', himplementation'⟩ := hr.implementation
    obtain ⟨-, -, rfl⟩ := Implementation.compound.inj (himplementation.symm.trans himplementation')
    obtain rfl := Option.some.inj (hsocket.symm.trans hs)
    obtain ⟨-, o', ho', hfits⟩ := haccepts.source _ hsource'
    obtain rfl := Option.some.inj (ho.symm.trans ho')
    rw [hplain] at hfits
    have htype : t.type = socket.type := (compatible_none.mp hfits).symm.trans hsame.symm
    cases hpassed with
    | source hsource'' _ _ =>
      rw [hfree] at hsource''
      cases hsource''
    | @literal channels value _ hchannels hvalue hj'' =>
      obtain rfl : channels = socket.channels := by
        simp only [hplain] at hchannels
        cases hcs : socket.channels <;> rw [hcs] at hchannels <;> exact (Except.ok.inj hchannels).symm
      obtain ⟨hsource'', rfl⟩ := hj''
      refine .inr ⟨j, hj', hsource'', ?_⟩
      rw [← htype]
      exact hvalue

theorem hasLiteral_inlined (hg : g.HasLiteral index socket) : h.HasLiteral index socket := by
  obtain ⟨t, ht, hfree, hvalue⟩ := hg
  obtain ⟨j, hj, hj'⟩ := hr.outside (q := .socket index) (by simp [PinRef.socket]) ht
  simp only [outerInput, hfree] at hj
  obtain rfl := Except.ok.inj hj
  exact ⟨t, hj', hfree, hvalue⟩

end

theorem hasLiteral_flatten {s s' : Graph × IdSupply} {a : Unit} {index : Nat} {socket : Input} (hs : Ready s)
    (hshows : s.1.Shows index socket) (h : flatten s = .ok a s') : Ready s' ∧ s'.1.HasLiteral index socket := by
  obtain ⟨hs', hshows | hliteral⟩ := hs.flatten (P := fun t => t.1.Shows index socket ∨ t.1.HasLiteral index socket)
    (fun t t' hp ⟨c, inner, pairs, hr, _⟩ => hp.elim (shows_inlined hr) fun hp => .inr (hasLiteral_inlined hr hp))
    (.inl hshows) h
  · obtain ⟨t, c, name, function, inner, k, -, -, -, hc, himplementation, -⟩ := hshows
    have hnone := isCompound_flatten hs.injective h c hc
    rw [himplementation] at hnone
    cases hnone
  · exact ⟨hs', hliteral⟩

section
variable {σ : Nat → List C} {w : List C} {index : Nat} {socket : Input}

theorem receives_of_shows (hg : g.Throughout Coherent) (hshows : g.Shows index socket) :
    Receives I g σ (.socket index) w ↔ w = I.constant socket.value socket.type := by
  obtain ⟨t, c, name, function, inner, k, ht, hplain, hsource, hc, himplementation, hsocket, hfree⟩ := hshows
  refine receives_iff (i := t) hg ht fun val hval => ?_
  obtain ⟨inside, -, -, -, hcompound⟩ := hval
  simp only [Interpretation.read, hsource, hplain, Interpretation.through]
  rw [hcompound c hc name function inner himplementation k socket hsocket]
  simp only [Interpretation.read, hfree]

theorem receives_of_free {t : Input} (hg : g.Throughout Coherent) (ht : g.outputSockets[index]? = some t)
    (hfree : t.source = none) : Receives I g σ (.socket index) w ↔ w = I.constant t.value t.type := by
  refine receives_iff (i := t) hg ht fun val hval => ?_
  simp only [Interpretation.read, hfree]

end

/-- The condition is exact: an output socket that shows a literal keeps its meaning if and only if the channels do not
change the literal. -/
theorem shows_keeps_meaning_iff {s s' : Graph × IdSupply} {a : Unit} {index : Nat} {socket : Input} {v : Value}
    {channels : String} (hs : Ready s) (hshows : s.1.Shows index socket) (hvalue : socket.value = some v)
    (hchannels : socket.channels = some channels) (h : flatten s = .ok a s') :
    (∀ (C : Type) (I : Interpretation C) σ w,
      Receives I s.1 σ (.socket index) w ↔ Receives I s'.1 σ (.socket index) w) ↔
      v.swizzle channels socket.type = .ok v := by
  obtain ⟨hs', t, ht, hfree, hliteral⟩ := hasLiteral_flatten hs hshows h
  rw [hvalue, hchannels] at hliteral
  obtain ⟨u, hu, heq⟩ := except_map_eq_ok.mp hliteral
  have hbefore : ∀ {C : Type} {I : Interpretation C} {σ w}, Receives I s.1 σ (.socket index) w ↔ w = I.literal v := by
    intro C I σ w
    rw [receives_of_shows hs.coherent hshows, hvalue]
    rfl
  have hafter : ∀ {C : Type} {I : Interpretation C} {σ w}, Receives I s'.1 σ (.socket index) w ↔ w = I.literal u := by
    intro C I σ w
    rw [receives_of_free hs'.coherent ht hfree, ← heq]
    rfl
  rw [hu]
  constructor
  · intro hsame
    obtain ⟨hutype, components, picked, hv, hpicked, -⟩ := Value.swizzle_eq_ok hu
    have hvtype : v.type = socket.type := by
      obtain ⟨_, c, name, function, inner, k, -, -, -, hc, himplementation, hsocket, -⟩ := hshows
      have hinner := (hs.coherent.inside hc himplementation).own
      exact (hinner.accepts_of_socket (List.mem_of_getElem? hsocket)).literal v hvalue
    -- numbers that stand for themselves tell literals apart
    have hkept := (hsame Single (.plain id Value.one fun _ _ _ => []) (fun _ => []) _).mp (hbefore.mpr rfl)
    have hliterals := hafter.mp hkept
    simp only [Interpretation.literal, hv, hpicked, Interpretation.plain, List.map_id] at hliterals
    rw [Value.eq_of_components (hutype.trans hvtype.symm) hpicked (hliterals ▸ hv)]
  · intro huv
    obtain rfl := Except.ok.inj huv
    exact fun C I σ w => hbefore.trans hafter.symm

def red : Value := .tuple .color3 #v[Value.one, .zero false, .zero false]

/-- Red, with channels that are those of blue. -/
def mirror : Graph :=
  (Graph.empty "mirror").addOutputSocket
    { name := "red", type := .tuple .color3, value := some red, channels := some "bgr" }

def mirrored : Graph :=
  let g := (Graph.empty "mirrored").addOutputSocket { name := "out", type := .tuple .color3 }
  let g := g.addNode (compoundOf 0 mirror [])
  g.afterConnect (.ofNode ⟨0⟩ 0) (.socket 0)

theorem mirrored_coherent : mirrored.Throughout Coherent := by
  have hmirror : mirror.Linked := .step (.empty _) (.addOutputSocket rfl)
  have hmirrored : mirrored.Linked := by
    refine .step ?_ (.connect _ _ _)
    exact .step (.step (.empty _) (.addOutputSocket rfl)) (.addNode (by decide) (unconnected_compoundOf (by simp) 0))
  have hinside : mirror.Throughout Coherent := by
    refine .of_insides (hmirror.coherent ?_ ?_ ?_ ?_ ?_) fun h hh => by cases hh
    all_goals decide +kernel
  refine .of_insides (hmirrored.coherent ?_ ?_ ?_ ?_ ?_) fun h hh => List.mem_singleton.mp hh ▸ hinside
  all_goals decide +kernel

/-- Flattening turns red into blue. -/
theorem mirrored_changes_meaning : ∃ s', flatten (mirrored, { next := 1 }) = .ok () s' ∧
    ¬ ∀ (C : Type) (I : Interpretation C) σ w,
      Receives I mirrored σ (.socket 0) w ↔ Receives I s'.1 σ (.socket 0) w := by
  have hends : (match flatten (mirrored, { next := 1 }) with
      | .ok _ _ => true
      | .error _ _ => false) = true := by decide +kernel
  cases hflat : flatten (mirrored, { next := 1 }) with
  | error e s => simp only [hflat, Bool.false_eq_true] at hends
  | ok a s =>
    have hids : mirrored.ids = [⟨0⟩] := by decide +kernel
    have hready : Ready (mirrored, { next := 1 }) := by
      refine ⟨fun _ _ => NodeId.mk.inj, fun id hid => ⟨0, by decide, ?_⟩, mirrored_coherent⟩
      rw [hids] at hid
      exact (List.mem_singleton.mp hid).symm
    have hshows : mirrored.Shows 0
        { name := "red", type := .tuple .color3, value := some red, channels := some "bgr" } :=
      ⟨_, _, _, _, mirror, 0, rfl, rfl, rfl, List.mem_singleton_self _, rfl, rfl, rfl⟩
    refine ⟨s, rfl, fun hsame => ?_⟩
    exact absurd ((shows_keeps_meaning_iff hready hshows rfl rfl hflat).mp hsame) (by decide +kernel)

end ShadeGraph.Graph
