import ShadeGraph.Proofs.Graph.Interface
import ShadeGraph.Proofs.Graph.Variables

/-!
# Finished graphs

The variables of a finished graph differ from each other. Its inputs are *proper*: a literal has the type of its input,
and an input that is connected has none. Both hold of the graphs of compounds, too. Flattening gives inputs new sources
and new literals, but only to those that read nothing at that time, so that they stay proper.
-/

namespace ShadeGraph

open Function

/-- An input holds a literal of its own type only, and none while it is connected. -/
structure Input.Proper (i : Input) : Prop where
  typed : ∀ v, i.value = some v → v.type = i.type
  bare : i.source.isSome → i.value = none

namespace Graph

variable {g h base inner : Graph} {c : Node} {i : Input} {o : Output} {id : NodeId} {target : PinRef}

def ProperInputs (g : Graph) : Prop := ∀ target i, g.input? target = some i → i.Proper

/-- The inputs of a graph are proper, and the default values of its input sockets have their types. -/
structure Proper (g : Graph) : Prop where
  inputs : g.ProperInputs
  presets : ∀ {k socket}, g.output? (.socket k) = some socket → ∀ v, socket.value = some v → v.type = socket.type

theorem Proper.sameWiring (hg : g.Proper) (hsame : SameWiring g h) : h.Proper := by
  refine ⟨fun target i hi => ?_, fun ho v hv => ?_⟩
  · obtain ⟨j, hj, hbare⟩ := hsame.exists_input hi
    obtain ⟨htyped, hbare'⟩ := hg.inputs _ j hj
    have htype := congrArg Input.type hbare
    have hvalue := congrArg Input.value hbare
    have hsource := congrArg Input.source hbare
    simp only [Input.bare] at htype hvalue hsource
    exact ⟨htype ▸ hvalue ▸ htyped, hvalue ▸ hsource ▸ hbare'⟩
  · obtain ⟨p, hp, hbare⟩ := hsame.exists_output ho
    have htype := congrArg Output.type hbare
    have hvalue := congrArg Output.value hbare
    simp only [Output.bare] at htype hvalue
    exact htype ▸ hg.presets hp v (hvalue.trans hv)

/-! ## Flattening -/

/-- A graph on the way to one without compounds, with proper inputs in all graphs. -/
structure Clean (ids : IdSupply) (g : Graph) : Prop extends g.Tidy ids where
  listed : g.Listed
  proper : g.ProperInputs
  compounds : ∀ n ∈ g.nodes, ∀ name function inner, n.implementation = .compound name function inner →
    inner.ProperInputs

namespace Rewiring

variable {s s' : Graph × IdSupply} {copies : List (NodeId × NodeId)} {j : Input} {a : Unit} {name function : String}

theorem proper_of_literal (hvalue : ∀ v, i.value = some v → v.type = i.type) (hfree : i.source = none) : i.Proper := by
  refine ⟨hvalue, fun hconnected => ?_⟩
  rw [hfree] at hconnected
  cases hconnected

theorem proper_of_released (hi : i.Proper) : Input.Proper { i with source := none } := proper_of_literal hi.typed rfl

theorem proper_of_linked (hvalue : i.value = none) : i.Proper := by
  refine ⟨fun v hv => ?_, fun _ => hvalue⟩
  rw [hvalue] at hv
  cases hv

theorem proper_boundInput {index : Nat} (hi : i.Proper) (hfree : i.source = none)
    (hj : boundInput c inner index i = .ok j) : j.Proper := by
  unfold boundInput at hj
  split at hj
  · exact Except.ok.inj hj ▸ hi
  · split at hj
    · obtain ⟨value, hvalue, hj⟩ := except_bind_eq_ok.mp hj
      exact Except.ok.inj hj ▸ proper_of_literal (fun _ => type_of_literalFor hvalue) hfree
    · split at hj
      · obtain ⟨channels, -, hj⟩ := except_bind_eq_ok.mp hj
        exact Except.ok.inj hj ▸ proper_of_linked rfl
      · obtain ⟨value, hvalue, hj⟩ := except_bind_eq_ok.mp hj
        exact Except.ok.inj hj ▸ proper_of_literal (fun _ => type_of_literalFor hvalue) hfree

theorem proper_rewiredInput {source : PinRef} (hi : i.Proper) (hfree : i.source = none)
    (hj : rewiredInput c inner copies source i = .ok j) : j.Proper := by
  unfold rewiredInput at hj
  split at hj
  · exact proper_boundInput hi hfree hj
  · split at hj
    · exact Except.ok.inj hj ▸ proper_of_linked rfl
    · exact Except.ok.inj hj ▸ hi

theorem proper_readerInput {socket : Input} (hi : i.Proper) (hfree : i.source = none)
    (hj : readerInput c inner copies socket i = .ok j) : j.Proper := by
  obtain ⟨channels, -, hj⟩ := except_bind_eq_ok.mp hj
  split at hj
  · exact proper_rewiredInput (i := { i with channels }) ⟨hi.typed, hi.bare⟩ hfree hj
  · obtain ⟨value, hvalue, hj⟩ := except_bind_eq_ok.mp hj
    exact Except.ok.inj hj ▸ proper_of_literal (fun _ => type_of_literalFor hvalue) hfree

theorem clean_inlineCompound (hpick : Injective s.2.pick) (hs : s.1.Clean s.2) (hc : c ∈ s.1.nodes)
    (himplementation : c.implementation = .compound name function inner) (h : inlineCompound c inner s = .ok a s') :
    s'.1.Clean s'.2 := by
  have hplain := hs.inner c hc name function inner himplementation
  have hfound := hs.distinct.node?_of_mem hc
  obtain ⟨pairs, s₁, hp, hdone⟩ := done_of_inlineCompound hpick hs.toOwned hs.listed hfound hplain.toLoose h
  refine ⟨tidy_inlineCompound hpick hs.toTidy hc himplementation h, hdone.records, fun target j hj => ?_,
    fun n hn name' function' inner' hn' => ?_⟩
  · rcases hp.input_of_done hdone hj with ⟨i, hi, houter⟩ | ⟨q, hq, k, i, rfl, hi, hj⟩
    · have hproper := hs.proper target i hi
      cases houter with
      | kept hother => exact hproper
      | released houtput hreader hsocket => exact proper_of_released hproper
      | reader houtput hreader hsocket hj => exact proper_readerInput (proper_of_released hproper) rfl hj
    · have hproper := hs.compounds c hc name function inner himplementation _ i hi
      unfold innerInput at hj
      split at hj
      · exact proper_rewiredInput (proper_of_released hproper) rfl hj
      · exact Except.ok.inj hj ▸ hproper
  · obtain ⟨m, hm, hm', -⟩ := compound_of_inlineCompound hpick hplain.flat h hn hn'
    exact hs.compounds m hm name' function' inner' hm'

theorem clean_flatten (hpick : Injective s.2.pick) (hs : s.1.Clean s.2) (h : Rewiring.flatten s = .ok a s') :
    s'.1.Clean s'.2 :=
  (flatten_keeps (P := fun s => s.1.Clean s.2) clean_inlineCompound hpick hs h).2

end Rewiring

/-! ## Connections -/

theorem Proper.presets_of_frame (hg : g.Proper) (hframe : h.frame.inputSockets = g.frame.inputSockets) {k : Nat}
    {socket : Output} (hsocket : h.output? (.socket k) = some socket) (v : Value) (hv : socket.value = some v) :
    v.type = socket.type := by
  have hmap := congrArg (fun sockets => sockets[k]?) hframe
  have hsocket : h.inputSockets[k]? = some socket := hsocket
  simp only [frame, List.getElem?_map, hsocket, Option.map_some] at hmap
  obtain ⟨o, ho, heq⟩ := Option.map_eq_some_iff.mp hmap.symm
  have htype : o.type = socket.type := (congrArg Output.type heq :)
  have hvalue : o.value = socket.value := (congrArg Output.value heq :)
  exact htype ▸ hg.presets ho v (hvalue.trans hv)

theorem Proper.empty (name : String) : (Graph.empty name).Proper := by
  refine ⟨?_, fun hsocket => by cases hsocket⟩
  rintro ⟨owner, k⟩ i hi
  cases owner <;> cases hi

theorem Proper.modifyChannels (hg : g.Proper) (target : PinRef) (channels : Option String) :
    (g.modifyInput target fun i => { i with channels }).Proper := by
  have hframe : (g.modifyInput target fun i => { i with channels }).frame = g.frame :=
    frame_modifyInput (by intro i; rfl) g target
  refine ⟨fun q j hj => ?_, hg.presets_of_frame (congrArg Graph.inputSockets hframe)⟩
  rw [input?_modifyInput, Option.map_eq_some_iff] at hj
  obtain ⟨i, hi, rfl⟩ := hj
  obtain ⟨htyped, hbare⟩ := hg.inputs q i hi
  split
  · exact ⟨htyped, hbare⟩
  · exact ⟨htyped, hbare⟩

theorem Proper.connect {source : PinRef} (hg : g.Proper) (hc : g.connect source target = .ok h) : h.Proper := by
  refine ⟨fun q j hj => ?_, hg.presets_of_frame (congrArg Graph.inputSockets (frame_connect hc))⟩
  obtain ⟨_, _, -, -, -, rfl⟩ := connect_cases hc
  rw [input?_link, input?_disconnect, Option.map_map, Option.map_eq_some_iff] at hj
  obtain ⟨i, hi, rfl⟩ := hj
  by_cases hq : q = target
  · simp only [Function.comp_apply, hq, if_true]
    exact ⟨fun v hv => (by cases hv), fun _ => rfl⟩
  · simp only [Function.comp_apply, hq, if_false]
    exact hg.inputs q i hi

theorem Proper.addNode {n : Node} (hg : g.Proper) (hn : ∀ i ∈ n.inputs, i.Proper) : (g.addNode n).Proper := by
  refine ⟨?_, hg.presets⟩
  rintro ⟨owner, k⟩ i hi
  cases owner with
  | graph => exact hg.inputs (.socket k) i hi
  | node x =>
    obtain ⟨m, hm, hk⟩ := Option.bind_eq_some_iff.mp hi
    rw [node?, Graph.addNode, List.find?_append, Option.or_eq_some_iff] at hm
    rcases hm with hm | ⟨-, hm⟩
    · exact hg.inputs (.ofNode x k) i (Option.bind_eq_some_iff.mpr ⟨m, hm, hk⟩)
    · obtain rfl := List.mem_singleton.mp (List.mem_of_find?_eq_some hm)
      exact hn i (List.mem_of_getElem? hk)

theorem Proper.addInputSocket (hg : g.Proper) (ho : ∀ v, o.value = some v → v.type = o.type) :
    (g.addInputSocket o).Proper := by
  refine ⟨?_, fun {k socket} hsocket => ?_⟩
  · rintro ⟨owner, k⟩ i hi
    cases owner with
    | graph => exact hg.inputs (.socket k) i hi
    | node x => exact hg.inputs (.ofNode x k) i hi
  · rcases List.mem_append.mp (List.mem_of_getElem? hsocket) with hmem | hmem
    · obtain ⟨k, hk⟩ := List.mem_iff_getElem?.mp hmem
      exact hg.presets hk
    · obtain rfl := List.mem_singleton.mp hmem
      exact ho

theorem Proper.addOutputSocket (hg : g.Proper) (hi : i.value = none) : (g.addOutputSocket i).Proper := by
  refine ⟨?_, hg.presets⟩
  rintro ⟨owner, k⟩ j hj
  cases owner with
  | graph =>
    rcases List.mem_append.mp (List.mem_of_getElem? hj) with hmem | hmem
    · obtain ⟨k, hk⟩ := List.mem_iff_getElem?.mp hmem
      exact hg.inputs (.socket k) j hk
    · obtain rfl := List.mem_singleton.mp hmem
      exact ⟨fun v hv => by simp [hi] at hv, fun _ => hi⟩
  | node x => exact hg.inputs (.ofNode x k) j hj

end Graph

/-! ## Documents -/

theorem Value.type_of_read {type : DataType} {text : String} {v : Value} (h : Value.read type text = .ok v) :
    v.type = type := by
  have hread : Value.read? type text = some v := by
    unfold Value.read at h
    split at h
    · rwa [← Except.ok.inj h]
    · cases h
  cases type with
  | string | filename => exact Option.some.inj hread ▸ rfl
  | closure _ | shader _ | material => cases hread
  | tuple shape =>
    obtain ⟨components, -, hcomponents⟩ := Option.bind_eq_some_iff.mp hread
    simp only [Value.ofComponents?] at hcomponents
    split at hcomponents
    · exact Option.some.inj hcomponents ▸ rfl
    · cases hcomponents
  | boolean | integer | float | integerArray | floatArray =>
    obtain ⟨_, -, rfl⟩ := Option.map_eq_some_iff.mp hread
    rfl

namespace Build

variable {r : Request} {s s' : BuildState} {g g' w : Graph} {d : NodeGraph} {n : NodeInstance} {m : Node}
  {enter : NodeDef → Build Implementation} {scope : String}

theorem type_of_default {p : PinDef} {type : DataType} {value : Option Value} (htype : typeOf r p.typeName = .ok type)
    (h : p.default = .ok value) {v : Value} (hv : value = some v) : v.type = type := by
  subst hv
  unfold PinDef.default at h
  split at h
  · cases h
  · obtain ⟨type', htype', h₁⟩ := except_bind_eq_ok.mp h
    obtain ⟨v', hread, h₂⟩ := except_bind_eq_ok.mp h₁
    obtain rfl := Option.some.inj (Except.ok.inj h₂)
    -- both look the name of the type up
    cases hname : DataType.ofName? p.typeName with
    | none => simp [PinDef.type, hname] at htype'
    | some found =>
      simp only [PinDef.type, hname, Except.ok.injEq] at htype'
      simp only [typeOf, hname] at htype
      obtain ⟨_, -, hfound⟩ := except_bind_eq_ok.mp htype
      rw [Value.type_of_read hread, ← htype', Except.ok.inj hfound]

theorem proper_input {p : PinDef} {i : Input} (h : input r scope n p = .ok i) : i.Proper := by
  obtain ⟨type, htype, h₁⟩ := except_bind_eq_ok.mp h
  obtain ⟨default, hdefault, h₂⟩ := except_bind_eq_ok.mp h₁
  have hmade {value : Option Value} (hvalue : ∀ v, value = some v → v.type = type) : Input.Proper
      { name := p.name, type, value, uniform := p.uniform, path := pinPath scope n.name p.name } :=
    ⟨hvalue, fun hsource => by cases hsource⟩
  cases hbinding : n.input? p.name with
  | none =>
    simp only [hbinding] at h₂
    exact Except.ok.inj h₂ ▸ hmade fun v => type_of_default htype hdefault
  | some binding =>
    simp only [hbinding] at h₂
    split at h₂
    · obtain ⟨_, hthrow, -⟩ := except_bind_eq_ok.mp h₂
      exact absurd hthrow except_throw_ne_ok
    · split at h₂
      · obtain ⟨value, hvalue, h₃⟩ := except_bind_eq_ok.mp h₂
        obtain ⟨v, hread, rfl⟩ := except_map_eq_ok.mp hvalue
        refine Except.ok.inj h₃ ▸ hmade fun w hw => ?_
        exact Option.some.inj hw ▸ Value.type_of_read hread
      · exact Except.ok.inj h₂ ▸ hmade fun v => type_of_default htype hdefault

theorem proper_inputSocket {graph : String} {p : PinDef} {o : Output} (h : inputSocket r graph p = .ok o) (v : Value)
    (hv : o.value = some v) : v.type = o.type := by
  obtain ⟨type, htype, h₁⟩ := except_bind_eq_ok.mp h
  obtain ⟨value, hvalue, h₂⟩ := except_bind_eq_ok.mp h₁
  obtain rfl := Except.ok.inj h₂
  exact type_of_default htype hvalue hv

theorem proper_node (h : node r enter scope n s = .ok m s') : ∀ i ∈ m.inputs, i.Proper := by
  obtain ⟨definition, _, _, inputs, outputs, _, -, -, -, hinputs, -, rfl, -⟩ := node_cases h
  intro i hi
  obtain ⟨p, -, hp⟩ := except_mapM_mem hinputs i hi
  exact proper_input hp

theorem proper_connectThrough {channels : Option String} {source target : PinRef} (hg : g.Proper)
    (h : connectThrough g channels source target = .ok g') : g'.Proper :=
  (hg.modifyChannels target channels).connect h

theorem proper_of_wire (h : wire r enter d s = .ok w s') : w.Proper := by
  obtain ⟨inputSockets, outputSockets, nodes, ⟨pins, -, hinputs⟩, houtputs, hnodes, hkeeps⟩ := wire_keeps h
  refine hkeeps Graph.Proper ⟨?_, fun hsocket => ?_⟩ fun g g' channels p q hg _ => proper_connectThrough hg
  · rintro ⟨owner, k⟩ i hi
    cases owner with
    | graph =>
      obtain ⟨o, -, ho⟩ := except_mapM_mem houtputs i (List.mem_of_getElem? hi)
      obtain ⟨_, -, rfl⟩ := outputSocket_cases ho
      exact ⟨fun v hv => (by cases hv), fun _ => rfl⟩
    | node x =>
      obtain ⟨m, hm, hk⟩ := Option.bind_eq_some_iff.mp hi
      have hmade := state_mapM_forall₂ (I := fun _ => True) d.nodes (fun _ _ _ _ _ _ _ => trivial) trivial hnodes
      obtain ⟨n, -, t, t', -, hnode⟩ := exists_of_forall₂ hmade (Graph.mem_of_node? hm)
      exact proper_node hnode i (List.mem_of_getElem? hk)
  · obtain ⟨p, -, hp⟩ := except_mapM_mem hinputs _ (List.mem_of_getElem? hsocket)
    exact proper_inputSocket hp

end Build

/-! ## The main result -/

/-- The nodes of a graph have identities of their own, its variables differ, and its inputs are proper. -/
structure Graph.Finished (g : Graph) : Prop where
  distinct : g.Distinct
  named : g.variables.Nodup
  proper : g.Proper

theorem Graph.Finished.proper_of_mem {g : Graph} (hg : g.Finished) {n : Node} (hn : n ∈ g.nodes) {i : Input}
    (hi : i ∈ n.inputs) : i.Proper := by
  obtain ⟨k, hk⟩ := List.mem_iff_getElem?.mp hi
  refine hg.proper.inputs (.ofNode n.id k) i ?_
  simp [Graph.input?, PinRef.ofNode, hg.distinct.node?_of_mem hn, hk]

namespace Build

variable {r : Request} {s s' : BuildState} {g w : Graph} {n : NodeInstance}

/-- What is built: a graph that is finished throughout, without compounds if it has been flattened. -/
structure Completed (r : Request) (g : Graph) : Prop where
  finished : g.Throughout Graph.Finished
  plain : r.options.flatten = true → g.Plain

theorem completed_finish {publish : Bool} (hpick : Injective s.ids.pick) (hw : w.Wired (fun _ => Completed r) s.ids)
    (hproper : w.Proper) (h : finish r publish w s = .ok g s') : Completed r g := by
  obtain ⟨g₁, t, hflat, g₂, hsort, rfl, -⟩ := finish_cases h
  have hnamed := (Graph.fresh_assignVariables g₂.assignScopes r.generator.language publish).distinct
  rcases hflat with ⟨hon, hflat⟩ | ⟨hoff, rfl, -⟩
  · obtain ⟨ids, hrun, -⟩ := flatten_cases hflat
    have hclean : w.Clean s.ids :=
      { toOwned := hw.toOwned
        sources := fun ⟨_, hi, hs⟩ => .inl (hw.linked.source_known hi hs)
        driven := hw.driven
        inner := fun n hn name function inner hn' => (hw.inner n hn name function inner hn').plain hon
        listed := hw.linked.listed
        proper := hproper.inputs
        compounds := fun n hn name function inner hn' =>
          (hw.inner n hn name function inner hn').finished.own.proper.inputs }
    have hplain := Graph.Rewiring.plain_flatten hpick hclean.toTidy hrun
    have hproper₁ : g₁.Proper := by
      obtain ⟨nodes, hframe⟩ := Graph.Rewiring.sockets_flatten hpick hrun
      have hsockets : g₁.frame.inputSockets = w.frame.inputSockets := (congrArg Graph.inputSockets hframe :)
      exact ⟨(Graph.Rewiring.clean_flatten hpick hclean hrun).proper, hproper.presets_of_frame hsockets⟩
    have hsame := sameWiring_finish hplain.distinct hsort r.generator.language publish
      (traitsOf (g₂.assignScopes.assignVariables r.generator.language publish))
    have hplain' := hplain.sameWiring hsame
    refine ⟨.intro _ ⟨hplain'.distinct, hnamed, hproper₁.sameWiring hsame⟩
      fun n hn name function inner hn' => ?_, fun _ => hplain'⟩
    have hcompound := hplain'.flat n hn
    rw [hn'] at hcompound
    cases hcompound
  · have hsame := sameWiring_finish hw.distinct hsort r.generator.language publish
      (traitsOf (g₂.assignScopes.assignVariables r.generator.language publish))
    refine ⟨.intro _ ⟨hsame.distinct hw.distinct, hnamed, hproper.sameWiring hsame⟩
      fun n hn name function inner hn' => ?_, fun hon => ?_⟩
    · obtain ⟨m, hm, himplementation⟩ := hsame.implementation n hn
      exact (hw.inner m hm name function inner (himplementation.trans hn')).finished
    · rw [hoff] at hon
      cases hon

theorem makes_whole {build : NodeGraph → Build Graph}
    (hbuild : ∀ d {s g s'}, Injective s.ids.pick → build d s = .ok g s' → Completed r g) (scope : String) :
    Makes r (compound r build) (fun _ => Completed r) scope n := by
  intro s m s' hpick hnode name function k hm
  obtain ⟨inner, t, -, hinner⟩ := graphOf?_of_compound hnode hm
  exact hbuild inner (s := { s with stack := inner.name :: s.stack }) hpick hinner

theorem completed_nestedGraph (depth : Nat) : ∀ (d : NodeGraph) {s g s'}, Injective s.ids.pick →
    nestedGraph r depth d s = .ok g s' → Completed r g := by
  induction depth with
  | zero => exact fun d s g s' _ h => absurd h state_throw_ne_ok
  | succ depth ih =>
    intro d s g s' hpick h
    obtain ⟨w, t, hwire, hfinish⟩ := assemble_cases h
    have hsupplies := supplies_compound (r := r) (supplies_nestedGraph (r := r) depth)
    have hlater := supplies_wire hsupplies d s w t hpick hwire
    have hwired := wired_of_wire (Q := fun _ => Completed r) (fun _ _ _ hk _ => hk) hsupplies hpick
      (fun n _ => makes_whole ih d.name) hwire
    exact completed_finish (hlater.injective hpick) hwired (proper_of_wire hwire) hfinish

theorem completed_singleNode (hpick : Injective s.ids.pick) (h : singleNode r n s = .ok g s') : Completed r g := by
  have hQ : ∀ (n m : Node) (k : Graph), Completed r k → m.frame = n.frame → Completed r k := fun _ _ _ hk _ => hk
  have hkeeps := singleNode_keeps_sockets
    (P := fun t w => Injective t.ids.pick ∧ w.Wired (fun _ => Completed r) t.ids ∧ w.Proper)
    (V := fun o => o.readers = [] ∧ ∀ v, o.value = some v → v.type = o.type) ?_ ?_
    ⟨hpick, .empty _ n.name, .empty n.name⟩ ?_ ?_ ?_ h
  · obtain ⟨w, t, ⟨hpick', hw, hproper⟩, hfinish⟩ := hkeeps
    exact completed_finish hpick' hw hproper hfinish
  · rintro k m w t t' - ⟨hpick, hw, hproper⟩ hnode
    obtain ⟨ids, hlater, hid, hids⟩ := id_of_node (supplies_compound supplies_nodeGraph) hpick hnode
    have hpick' := hlater.injective hpick
    have hmakes := makes_whole (r := r) (completed_nestedGraph _) "" hpick hnode
    rw [hids]
    exact ⟨(IdSupply.later_fresh ids).injective hpick',
      (hw.later hlater).addNode hpick' hid (unconnected_node hnode) hmakes, hproper.addNode (proper_node hnode)⟩
  · rintro g g' t channels a b j k ⟨hpick, hw, hproper⟩ hconnect
    exact ⟨hpick, wired_connectThrough hQ hw (fun _ h => by cases h) hconnect, proper_connectThrough hproper hconnect⟩
  · rintro g t p i ⟨-, -, hproper⟩ hi
    exact ⟨rfl, (hproper.inputs p i hi).typed⟩
  · rintro g g' t o a k ⟨hpick, hw, hproper⟩ ⟨ho, htyped⟩ hconnect
    exact ⟨hpick, (hw.addInputSocket ho).connect hQ (fun _ h => by cases h) hconnect,
      (hproper.addInputSocket htyped).connect hconnect⟩
  · rintro g g' t i a k ⟨hpick, hw, hproper⟩ hi hvalue hconnect
    exact ⟨hpick, (hw.addOutputSocket hi).connect hQ (fun _ _ => by simp [PinRef.ofNode]) hconnect,
      (hproper.addOutputSocket hvalue).connect hconnect⟩

end Build

/-- **Graphs are built finished**, those of compounds included. -/
theorem Shader.Element.finished_build {r : Request} {element : Element} {s s' : BuildState} {g : Graph}
    (hpick : Injective s.ids.pick) (h : element.build r s = .ok g s') : g.Throughout Graph.Finished := by
  cases element with
  | graph d => exact (Build.completed_nestedGraph _ d hpick h).finished
  | node n => exact (Build.completed_singleNode hpick h).finished

end ShadeGraph
