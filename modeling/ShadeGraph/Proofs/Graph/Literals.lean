import ShadeGraph.Proofs.Graph.Flatten
import ShadeGraph.Proofs.Simulation

/-!
# Literals behind connections

Connections through channels are accepted by their letters and their number alone, while a literal in the place of the
source is swizzled by its components. The two agree exactly where both types are made of numbers: integers, booleans
and texts have a channel for connections but no component, and only numbers and tuples are made of components. In a
graph in which channels stand between such types only, flattening does not fail.
-/

namespace ShadeGraph

/-! ## Numbers -/

/-- Whether values are made of floating point numbers, as many as there are components. -/
def DataType.isNumeric : DataType → Bool
  | .float | .tuple _ => true
  | _ => false

section
variable {source target type : DataType} {channels : String} {v : Value}

theorem DataType.size_pos_of_isNumeric (h : type.isNumeric) : 0 < type.size := by
  cases type with
  | tuple shape => cases shape <;> decide
  | float => decide
  | _ => cases h

theorem Value.size_le_of_components? {components : List Single} (hv : v.components? = some components) :
    v.type.size ≤ components.length := by
  cases v with
  | float x =>
    obtain rfl := Option.some.inj hv
    exact Nat.le_refl 1
  | tuple shape xs =>
    obtain rfl := Option.some.inj hv
    exact Vector.length_toList.ge
  | floatArray xs => exact Nat.zero_le _
  | _ => cases hv

theorem Value.isNumeric_of_channelIndex? {components : List Single} {c : Char} {index : Nat}
    (hv : v.components? = some components) (hc : v.type.channelIndex? c = some index) : v.type.isNumeric := by
  cases v with
  | float x => rfl
  | tuple shape xs => rfl
  | floatArray xs => exact absurd (DataType.lt_size_of_channelIndex? hc) (Nat.not_lt_zero index)
  | _ => cases hv

theorem Value.exists_assemble?_iff {components : List Single} :
    (∃ w, Value.assemble? type components = some w) ↔ type.isNumeric ∧ components.length = type.size := by
  cases type with
  | float =>
    rcases components with _ | ⟨x, _ | ⟨y, rest⟩⟩ <;>
      simp [Value.assemble?, Value.ofComponents?, DataType.isNumeric, DataType.size]
  | tuple shape =>
    by_cases hlength : components.length = shape.size <;>
      simp [Value.assemble?, Value.ofComponents?, DataType.isNumeric, DataType.size, hlength]
  | _ => simp [Value.assemble?, Value.ofComponents?, DataType.isNumeric]

theorem Value.swizzle_of_names {components picked : List Single} (hv : v.components? = some components)
    (hpicked : List.Forall₂ (Names v.type components) channels.toList picked) (target : DataType) :
    v.swizzle channels target = match Value.assemble? target picked with
      | some w => .ok w
      | none => .error (.typeMismatch target.name (v.type.name ++ "." ++ channels)) := by
  simp only [Value.swizzle, hv, Value.mapM_pick_eq_ok.mpr hpicked, bind, Except.bind]
  cases Value.assemble? target picked <;> rfl

/-- Where a connection through channels is accepted, a literal in the place of the source can be swizzled if both types
are made of numbers, and does not have the type of the input if they are not. -/
theorem Value.swizzle_of_compatible (hfits : compatible v.type (some channels) target) :
    (v.type.isNumeric ∧ target.isNumeric → ∃ w, v.swizzle channels target = .ok w ∧ w.type = target) ∧
    (¬ (v.type.isNumeric ∧ target.isNumeric) →
      ∃ actual, v.swizzle channels target = .error (.typeMismatch target.name actual)) := by
  obtain ⟨hvalid, hcount⟩ := compatible_some.mp hfits
  cases hv : v.components? with
  | none =>
    have hsource : ¬ v.type.isNumeric := by
      cases v with
      | float x => cases hv
      | tuple shape xs => cases hv
      | _ => exact Bool.false_ne_true
    exact ⟨fun hnumeric => absurd hnumeric.1 hsource, fun _ => ⟨v.type.name, by simp only [Value.swizzle, hv]; rfl⟩⟩
  | some components =>
    obtain ⟨picked, hpicked⟩ :=
      exists_forall₂ fun c hc => exists_names (Value.size_le_of_components? hv) (hvalid c hc)
    have hlength : picked.length = target.size := hpicked.length_eq.symm.trans hcount
    rw [Value.swizzle_of_names hv hpicked]
    cases hw : Value.assemble? target picked with
    | none =>
      have htarget : ¬ target.isNumeric := by
        intro htarget
        obtain ⟨w, hw'⟩ := Value.exists_assemble?_iff.mpr ⟨htarget, hlength⟩
        cases hw.symm.trans hw'
      exact ⟨fun hnumeric => absurd hnumeric.2 htarget, fun _ => ⟨_, rfl⟩⟩
    | some w =>
      have htarget := (Value.exists_assemble?_iff.mp ⟨w, hw⟩).1
      refine ⟨fun _ => ⟨w, rfl, (Value.of_assemble? hw).2⟩, fun hnot => absurd ⟨?_, htarget⟩ hnot⟩
      -- a target that is made of numbers needs at least one channel
      obtain ⟨c, hc⟩ := List.exists_mem_of_length_pos (hcount ▸ DataType.size_pos_of_isNumeric htarget)
      obtain ⟨index, hindex⟩ := hvalid c hc
      exact Value.isNumeric_of_channelIndex? hv hindex

/-- A connection that is accepted and whose channels, if there are any, stand between types that are made of numbers. -/
def CarriesLiterals (source : DataType) (channels : Option String) (target : DataType) : Prop :=
  compatible source channels target ∧ (channels ≠ none → source.isNumeric ∧ target.isNumeric)

instance {channels : Option String} : Decidable (CarriesLiterals source channels target) :=
  inferInstanceAs (Decidable (_ ∧ _))

theorem exists_literalFor {value : Option Value} {channels : Option String}
    (hfits : CarriesLiterals source channels target) (hvalue : ∀ v, value = some v → v.type = source) :
    ∃ r, literalFor value channels target = .ok r := by
  cases value with
  | none => exact ⟨none, rfl⟩
  | some v =>
    obtain rfl := hvalue v rfl
    cases channels with
    | none =>
      obtain rfl := compatible_none.mp hfits.1
      exact ⟨some v, by simp [literalFor]⟩
    | some channels =>
      obtain ⟨w, hw, -⟩ := (Value.swizzle_of_compatible hfits.1).1 (hfits.2 (Option.some_ne_none channels))
      exact ⟨some w, by simp only [literalFor, hw]; rfl⟩

end

namespace Graph

open Rewiring

theorem composable_carriesLiterals : Composable CarriesLiterals := by
  rintro source first between second target channels ⟨hfirst, hnumeric⟩ ⟨hsecond, hnumeric'⟩ h
  refine ⟨compatible_composeChannels hfirst hsecond h, fun hsome => ?_⟩
  cases first with
  | none =>
    obtain rfl := compatible_none.mp hfirst
    cases second <;> obtain rfl := Except.ok.inj h <;> exact hnumeric' hsome
  | some first =>
    cases second with
    | none =>
      obtain rfl := Except.ok.inj h
      obtain rfl := compatible_none.mp hsecond
      exact hnumeric hsome
    | some second => exact ⟨(hnumeric (by simp)).1, (hnumeric' (by simp)).2⟩

/-! ## What becomes of an input -/

/-- A compound of a graph in which literals can be handed on, also inside. -/
structure Inlinable (g : Graph) (c : Node) (inner : Graph) : Prop where
  coherent : g.Coherent
  coherent_inner : inner.Coherent
  mem : c ∈ g.nodes
  implementation : ∃ name function, c.implementation = .compound name function inner
  obeys : g.Obeys CarriesLiterals
  obeys_inner : inner.Obeys CarriesLiterals
  socket : ∀ s ∈ inner.outputSockets, s.source = none → CarriesLiterals s.type s.channels s.type

section
variable {g inner : Graph} {c : Node} {copies : List (NodeId × NodeId)} {i : Input} {source : PinRef} {index : Nat}

theorem exists_boundInput {socket : Output} (hsocket : inner.inputSockets[index]? = some socket)
    (hfeed : g.Follows CarriesLiterals (c.feed socket))
    (hfits : CarriesLiterals (c.feed socket).type i.channels i.type) : ∃ j, boundInput c inner index i = .ok j := by
  rw [boundInput, hsocket]
  unfold Node.feed at hfeed hfits
  cases hc : c.input? socket.name with
  | none =>
    rw [hc] at hfeed hfits
    obtain ⟨value, hvalue⟩ := exists_literalFor hfits hfeed.literal
    exact ⟨_, by simp only [hc]; exact except_bind_eq_ok.mpr ⟨value, hvalue, rfl⟩⟩
  | some feed =>
    rw [hc] at hfeed hfits
    cases hsource : feed.source with
    | none =>
      obtain ⟨value, hvalue⟩ := exists_literalFor hfits hfeed.literal
      exact ⟨_, by simp only [hc, hsource]; exact except_bind_eq_ok.mpr ⟨value, hvalue, rfl⟩⟩
    | some p =>
      obtain ⟨-, o, -, hfits'⟩ := hfeed.source p hsource
      obtain ⟨channels, hchannels⟩ := exists_composeChannels hfits'.1 hfits.1
      exact ⟨_, by simp only [hc, hsource]; exact except_bind_eq_ok.mpr ⟨channels, hchannels, rfl⟩⟩

namespace Inlinable

variable (hc : Inlinable g c inner)
include hc

theorem exists_rewiredInput {o : Output} (ho : inner.output? source = some o)
    (hfits : CarriesLiterals o.type i.channels i.type) : ∃ j, rewiredInput c inner copies source i = .ok j := by
  obtain ⟨owner, index⟩ := source
  cases owner with
  | graph =>
    have hsocket : inner.inputSockets[index]? = some o := ho
    have hmem := List.mem_of_getElem? hsocket
    obtain ⟨name, function, himplementation⟩ := hc.implementation
    have hsame := (hc.coherent.compound c hc.mem name function inner himplementation).inputs o hmem
    have hfeed := hc.obeys.feed hc.coherent.distinct hc.mem (hc.coherent_inner.preset o hmem)
    exact exists_boundInput hsocket hfeed (hsame ▸ hfits)
  | node old =>
    cases hnew : copies.lookup old with
    | none => exact ⟨i, by simp only [rewiredInput, hnew]⟩
    | some new =>
      refine ⟨{ i with source := some (.ofNode new index), value := none }, ?_⟩
      simp only [rewiredInput, hnew]

theorem exists_readerInput {s : Input} (hs : s ∈ inner.outputSockets)
    (hfits : CarriesLiterals s.type i.channels i.type) : ∃ j, readerInput c inner copies s i = .ok j := by
  have hfollows := hc.obeys_inner.of_socket hs
  cases hsource : s.source with
  | none =>
    have hown := hc.socket s hs hsource
    obtain ⟨channels, hchannels⟩ := exists_composeChannels hown.1 hfits.1
    obtain ⟨value, hvalue⟩ := exists_literalFor (composable_carriesLiterals hown hfits hchannels) hfollows.literal
    refine ⟨{ i with value, channels := none }, except_bind_eq_ok.mpr ⟨channels, hchannels, ?_⟩⟩
    simp only [hsource]
    exact except_bind_eq_ok.mpr ⟨value, hvalue, rfl⟩
  | some p =>
    obtain ⟨-, o, ho, hfits'⟩ := hfollows.source p hsource
    obtain ⟨channels, hchannels⟩ := exists_composeChannels hfits'.1 hfits.1
    obtain ⟨j, hj⟩ := hc.exists_rewiredInput (i := { i with channels }) ho
      (composable_carriesLiterals hfits' hfits hchannels)
    refine ⟨j, except_bind_eq_ok.mpr ⟨channels, hchannels, ?_⟩⟩
    simp only [hsource]
    exact hj

end Inlinable

theorem exists_copyNodes (nodes : List Node) :
    ∀ s : Graph × IdSupply, ∃ copies s', nodes.mapM (copyNode c) s = .ok copies s' := by
  induction nodes with
  | nil => exact fun s => ⟨[], s, rfl⟩
  | cons n nodes ih =>
    intro s
    rw [List.mapM_cons]
    obtain ⟨copies, s', hcopies⟩ := ih (s.1.addNode (n.detached s.2.fresh.1
      (s.1.freshNodeName (c.name ++ "_" ++ n.name))), s.2.fresh.2)
    exact state_exists_bind (a := (n.id, s.2.fresh.1)) rfl (state_exists_bind hcopies ⟨_, s', rfl⟩)

section
variable {s : Graph × IdSupply} (hc : Inlinable s.1 c inner)
include hc

theorem Inlinable.ready_jobs {s₁ : Graph × IdSupply} {pairs : List (Node × Node)} (hp : Prepared s c inner pairs s₁)
    {job : Job} (hjob : job ∈ allJobs c inner (copyIds pairs)) {i : Input} (hi : s₁.1.input? job.target = some i) :
    ∃ j, job.change i = .ok j := by
  rcases hp.job_cases hjob hi with ⟨p, -, k, x, source, -, hx, hsource, rfl, hchange⟩ |
    ⟨index, output, socket, x, houtput, -, hsocket, hx, hsource, rfl, hchange⟩
  · obtain ⟨-, o, ho, hfits⟩ := (hc.obeys_inner _ _ hx).source source hsource
    rw [hchange]
    exact hc.exists_rewiredInput (i := { x with source := none }) ho hfits
  · obtain ⟨-, o, ho, hfits⟩ := (hc.obeys _ _ hx).source _ hsource
    obtain rfl := Option.some.inj ((hp.output_of_compound houtput).symm.trans ho)
    obtain ⟨name, function, himplementation⟩ := hc.implementation
    obtain ⟨socket', hsocket', htype⟩ := hc.coherent.exists_socket hc.mem himplementation houtput
    obtain rfl := Option.some.inj (hsocket.symm.trans hsocket')
    rw [hchange]
    exact hc.exists_readerInput (i := { x with source := none }) (List.mem_of_getElem? hsocket) (htype ▸ hfits)

theorem Inlinable.exists_inlineCompound (hpick : Function.Injective s.2.pick)
    (hissued : ∀ id ∈ s.1.ids, s.2.Issued id) : ∃ a s', inlineCompound c inner s = .ok a s' := by
  have hg := hc.coherent.toPaired
  have hfound := hg.distinct.node?_of_mem hc.mem
  have hself := not_mem_sources hg.distinct hc.coherent.acyclic hc.mem
  obtain ⟨copies, s₁, hcopy⟩ := exists_copyNodes (c := c) inner.nodes (s.1.removeNode c.id, s.2)
  obtain ⟨pairs, rfl, hcopying⟩ := copying_of_copyNodes (s := (s.1.removeNode c.id, s.2)) inner.nodes hpick hcopy
  have hp : Prepared s c inner pairs s₁ :=
    ⟨⟨hg.distinct, hissued⟩, hg.listed, hfound, hc.coherent_inner.distinct, hcopying⟩
  have hdoes := hp.does hg hc.coherent_inner.toPaired.loose hself
  have hrest := hdoes.completes s₁ (hp.ready (hp.paired hg)) fun _ hjob _ => hc.ready_jobs hp hjob
  exact state_exists_bind (a := ()) rfl (state_exists_bind hcopy hrest)

end

end

/-! ## Runs -/

/-- An input that reads numbers and is made of numbers itself, if it is connected through channels. -/
def SwizzlesNumbers (g : Graph) (i : Input) : Prop :=
  ∀ p ∈ i.source, ∀ o ∈ g.output? p, i.channels ≠ none → o.type.isNumeric ∧ i.type.isNumeric

/-- All channels stand between types that are made of numbers, also those of literals behind sockets of compounds. -/
structure Numeric (g : Graph) : Prop where
  node : ∀ n ∈ g.nodes, ∀ i ∈ n.inputs, g.SwizzlesNumbers i
  socket : ∀ i ∈ g.outputSockets, g.SwizzlesNumbers i
  literal : ∀ h ∈ g.insides, ∀ i ∈ h.outputSockets, i.source = none → CarriesLiterals i.type i.channels i.type

section
variable {g h inner : Graph} {c : Node}

theorem Numeric.obeys (hg : g.Numeric) (hcoherent : g.Coherent) : g.Obeys CarriesLiterals := by
  refine hcoherent.obeys fun {target i p o} hi hp ho hfits => ⟨hfits, ?_⟩
  obtain ⟨owner, index⟩ := target
  cases owner with
  | graph => exact hg.socket i (List.mem_of_getElem? hi) p hp o ho
  | node id =>
    obtain ⟨n, hn, hi⟩ := Option.bind_eq_some_iff.mp hi
    exact hg.node n (mem_of_node? hn) i (List.mem_of_getElem? hi) p hp o ho

theorem Follows.swizzlesNumbers {i : Input} (hi : g.Follows CarriesLiterals i) : g.SwizzlesNumbers i := by
  intro p hp o ho
  obtain ⟨-, o', ho', hfits⟩ := hi.source p hp
  obtain rfl := Option.some.inj (ho'.symm.trans ho)
  exact hfits.2

theorem numeric_inlined {pairs : List (Node × Node)} (hr : Replacement g c inner pairs h) (hg : g.Numeric)
    (hinner : inner.Numeric) : h.Numeric := by
  have hobeys := hr.obeys_inlined composable_carriesLiterals (hg.obeys hr.coherent) (hinner.obeys hr.coherent_inner)
  refine ⟨fun n hn i hi => (hobeys.of_node hr.paired.distinct hn hi).swizzlesNumbers,
    fun i hi => (hobeys.of_socket hi).swizzlesNumbers, fun k hk => ?_⟩
  obtain ⟨m, hm, name, function, himplementation⟩ := exists_of_mem_insides hk
  rcases hr.kind_cases hr.coherent.distinct hm with ⟨n, hn, hkind⟩ | ⟨n, hn, hkind⟩
  · exact hg.literal k (mem_insides hn (implementation_of_kind hkind himplementation))
  · exact hinner.literal k (mem_insides hn (implementation_of_kind hkind himplementation))

theorem Inlines.numeric {s s' : Graph × IdSupply} (h : Inlines s s') (hs : s.1.Throughout Numeric) :
    s'.1.Throughout Numeric := by
  obtain ⟨c, inner, pairs, hr, -, -⟩ := h
  obtain ⟨name, function, himplementation⟩ := hr.implementation
  have hinner := hs.inside hr.mem himplementation
  exact hr.throughout hr.coherent.distinct hs hinner (numeric_inlined hr hs.own hinner.own)

theorem Ready.exists_inlineUpTo (count : Nat) : ∀ {s : Graph × IdSupply}, Ready s → s.1.Throughout Numeric →
    ∃ a s', inlineUpTo count s = .ok a s' := by
  -- Behind each step the graph is ready and numeric again, so the next compound can be replaced as well.
  induction count with
  | zero => exact fun {s} _ _ => ⟨(), s, rfl⟩
  | succ count ih =>
    intro s hs hnumeric
    refine state_exists_bind (current_eq_ok.mpr ⟨rfl, rfl⟩) ?_
    cases hfirst : firstCompound? s.1.nodes with
    | none => exact ⟨(), s, rfl⟩
    | some found =>
      obtain ⟨c, inner⟩ := found
      obtain ⟨hc, name, function, himplementation⟩ := of_firstCompound? hfirst
      have hinner := hs.coherent.inside hc himplementation
      have hnumeric' := hnumeric.inside hc himplementation
      have hinlinable : Inlinable s.1 c inner := ⟨hs.coherent.own, hinner.own, hc, ⟨name, function, himplementation⟩,
        hnumeric.own.obeys hs.coherent.own, hnumeric'.own.obeys hinner.own,
        hnumeric.own.literal inner (mem_insides hc himplementation)⟩
      obtain ⟨a, s₁, hinline⟩ := hinlinable.exists_inlineCompound hs.injective hs.issued
      obtain ⟨hs₁, hstep⟩ := hs.inlineCompound hc himplementation hinline
      exact state_exists_bind hinline (ih hs₁ (hstep.numeric hnumeric))

theorem exists_flatten {s : Graph × IdSupply} (hs : Ready s) (hnumeric : s.1.Throughout Numeric) :
    ∃ a s', flatten s = .ok a s' :=
  state_exists_bind (current_eq_ok.mpr ⟨rfl, rfl⟩) (hs.exists_inlineUpTo _ hnumeric)

/-- **Literals can stand for sources** exactly where the types are made of numbers. Behind a connection through channels
that has been accepted, every literal of the source's type is swizzled to one of the input's type if both types are, and
has the wrong type if they are not. In a graph in which no other channels occur, at any depth, flattening does not fail:
literals are handed on to all inputs that could be connected instead. -/
theorem literals_carried_iff_numeric (g : Graph) :
    (∀ (g' : Graph) (source target : PinRef) (o : Output) (i : Input) (channels : String) (v : Value),
      g.output? source = some o → g.input? target = some i → i.channels = some channels →
      g.connect source target = .ok g' → v.type = o.type →
      (o.type.isNumeric ∧ i.type.isNumeric → ∃ w, v.swizzle channels i.type = .ok w ∧ w.type = i.type) ∧
      (¬ (o.type.isNumeric ∧ i.type.isNumeric) →
        ∃ actual, v.swizzle channels i.type = .error (.typeMismatch i.type.name actual))) ∧
    ∀ ids : IdSupply, Function.Injective ids.pick → (∀ id ∈ g.ids, ids.Issued id) → g.Throughout Coherent →
      g.Throughout Numeric → ∃ g' ids', flatten (g, ids) = .ok () (g', ids') := by
  constructor
  · intro g' source target o i channels v ho hi hchannels hconnect hv
    obtain ⟨o', i', ho', hi', hfits, -⟩ := connect_cases hconnect
    obtain rfl := Option.some.inj (ho.symm.trans ho')
    obtain rfl := Option.some.inj (hi.symm.trans hi')
    rw [hchannels] at hfits
    exact hv ▸ Value.swizzle_of_compatible (hv ▸ hfits)
  · intro ids hpick hissued hcoherent hnumeric
    obtain ⟨⟨⟩, ⟨g', ids'⟩, hflatten⟩ := exists_flatten (s := (g, ids)) ⟨hpick, hissued, hcoherent⟩ hnumeric
    exact ⟨g', ids', hflatten⟩

instance {i : Input} : Decidable (g.SwizzlesNumbers i) :=
  inferInstanceAs (Decidable (∀ p ∈ i.source, ∀ o ∈ g.output? p, _ → _))

theorem lens_numeric : lens.Throughout Numeric := by
  have hsplitter : splitter.Throughout Numeric := .of_insides ⟨by decide +kernel, by decide +kernel, by decide +kernel⟩
    fun h hh => by cases hh
  have hmixer : mixer.Throughout Numeric := .of_insides ⟨by decide +kernel, by decide +kernel, by decide +kernel⟩
    fun h hh => List.mem_singleton.mp hh ▸ hsplitter
  exact .of_insides ⟨by decide +kernel, by decide +kernel, by decide +kernel⟩
    fun h hh => List.mem_singleton.mp hh ▸ hmixer

/-- A number that is added to the first channel of an integer. -/
def counter : Graph :=
  let g := (Graph.empty "counter").addInputSocket { name := "count", type := .integer }
  let g := g.addOutputSocket { name := "out", type := .float }
  let g := g.addNode (sumNode { name := "in2", type := .float, channels := some "r" })
  let g := g.afterConnect (.socket 0) (.ofNode ⟨1⟩ 1)
  g.afterConnect (.ofNode ⟨1⟩ 0) (.socket 0)

theorem lens_carries_literals :
    (∃ w, (Value.tuple .vector3 (Vector.replicate 3 Value.one)).swizzle "x" .float = .ok w ∧ w.type = .float) ∧
    (∃ actual, (Value.integer 1).swizzle "r" .float = .error (.typeMismatch "float" actual)) ∧
    ∃ g' ids', flatten (lens, { next := 2 }) = .ok () (g', ids') := by
  obtain ⟨hlens, hflatten⟩ := literals_carried_iff_numeric lens
  obtain ⟨hcounter, -⟩ := literals_carried_iff_numeric counter
  have hids : ∀ id ∈ lens.ids, id.index < 2 := by decide +kernel
  refine ⟨?_, ?_, hflatten { next := 2 } (fun _ _ => NodeId.mk.inj)
    (fun id hid => IdSupply.issued_of_index_lt (hids id hid)) lens_coherent lens_numeric⟩
  · exact (hlens _ (.socket 0) (.ofNode ⟨1⟩ 1) _ _ "x" _ rfl rfl rfl rfl rfl).1 ⟨rfl, rfl⟩
  · exact (hcounter _ (.socket 0) (.ofNode ⟨1⟩ 1) _ _ "r" _ rfl rfl rfl rfl rfl).2 (by decide)

def tally : Graph :=
  let g := (Graph.empty "tally").addInputSocket { name := "at", type := .integer }
  let g := g.addOutputSocket { name := "out", type := .float }
  let g := g.addNode (compoundOf 0 counter [{ name := "count", type := .integer, value := some (.integer 1) }])
  g.afterConnect (.ofNode ⟨0⟩ 0) (.socket 0)

theorem counter_linked : counter.Linked := by
  refine .step (.step ?_ (.connect _ _ _)) (.connect _ _ _)
  refine .step ?_ (.addNode (by decide) (unconnected_sumNode rfl))
  exact .step (.step (.empty _) (.addInputSocket rfl)) (.addOutputSocket rfl)

theorem tally_linked : tally.Linked := by
  refine .step ?_ (.connect _ _ _)
  refine .step ?_ (.addNode (by decide) (unconnected_compoundOf (by simp) 0))
  exact .step (.step (.empty _) (.addInputSocket rfl)) (.addOutputSocket rfl)

/-- Without the condition on types, literals are not handed on. The first channel of an integer is accepted for a
number, and the tally can be flattened if its integer is connected, but not if it is a literal. -/
theorem integer_literal_not_carried : (counter.connect (.socket 0) (.ofNode ⟨1⟩ 1)).isOk = true ∧
    tally.Throughout Coherent ∧
    outcome (flatten (tally, { next := 1 })) = .error (.typeMismatch "float" "integer") ∧
    outcome (flatten (tally.afterConnect (.socket 0) (.ofNode ⟨0⟩ 0), { next := 1 })) = .ok () := by
  refine ⟨by decide +kernel, ?_, by decide +kernel, by decide +kernel⟩
  have hcounter : counter.Throughout Coherent := by
    refine .of_insides (counter_linked.coherent ?_ ?_ ?_ ?_ ?_) fun h hh => by cases hh
    all_goals decide +kernel
  refine .of_insides (tally_linked.coherent ?_ ?_ ?_ ?_ ?_) fun h hh => List.mem_singleton.mp hh ▸ hcounter
  all_goals decide +kernel

end

end Graph

end ShadeGraph
