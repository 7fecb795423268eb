import ShadeGraph.Graph.Build
import ShadeGraph.Proofs.Graph.Links
import ShadeGraph.Proofs.Simulation

/-!
# What a step of building does

One lemma for each step that says all that holds when the step ends well, so that what building keeps is read off
without going through the steps again.
-/

namespace ShadeGraph.Build

variable {r : Request} {s s' : BuildState} {enter : NodeDef → Build Implementation}

/-! ## Source files -/

/-- The text of a file as a cache gives it: what has been read before, or else what the file holds. -/
def view (path : SearchPath) (files : FileTree) (cache : SourceCache) (file : String) : Except Error String :=
  match cache.lookup file with
  | some text => .ok text
  | none => path.read files file

/-- Reading a source file gives the text of the view, and changes nothing but the cache, of which the view stays as it
is. -/
theorem source_cases (r : Request) (file : String) (s : BuildState) :
    (∃ text cache, view r.searchPath r.files s.cache file = .ok text ∧
      view r.searchPath r.files cache = view r.searchPath r.files s.cache ∧
      source r file s = .ok text { s with cache }) ∨
    ∃ e, view r.searchPath r.files s.cache file = .error e ∧ source r file s = .error e s := by
  cases hlookup : s.cache.lookup file with
  | some text =>
    refine .inl ⟨text, s.cache, by rw [view, hlookup], rfl, ?_⟩
    change (match s.cache.lookup file with | some text => pure text | none => _ : Build String) s = _
    rw [hlookup]
    rfl
  | none =>
    have hview : view r.searchPath r.files s.cache file = r.searchPath.read r.files file := by rw [view, hlookup]
    have hsource : source r file s = (do
        let text ← r.searchPath.read r.files file
        modify fun s => { s with cache := s.cache ++ [(file, text)] }
        pure text : Build String) s := by
      change (match s.cache.lookup file with | some text => pure text | none => _ : Build String) s = _
      rw [hlookup]
    rw [hview, hsource]
    cases hread : r.searchPath.read r.files file with
    | error e => exact .inr ⟨e, rfl, rfl⟩
    | ok text =>
      refine .inl ⟨text, s.cache ++ [(file, text)], rfl, funext fun other => ?_, rfl⟩
      -- the new entry says of its file what the search path says, and nothing about other files
      by_cases hother : other = file
      · subst hother
        simp [view, List.lookup_append, hlookup, hread]
      · simp [view, List.lookup_append, hother]

/-! ## Implementations -/

theorem ids_source {file text : String} (h : source r file s = .ok text s') : s'.ids = s.ids := by
  rcases source_cases r file s with ⟨_, _, -, -, hsource⟩ | ⟨_, -, hsource⟩
  · obtain ⟨-, rfl⟩ := EStateM.Result.ok.inj (h.symm.trans hsource)
    rfl
  · cases h.symm.trans hsource

theorem ids_sourceCode {d : SourceDef} {code : SourceCode} (h : sourceCode r d s = .ok code s') : s'.ids = s.ids := by
  unfold sourceCode at h
  cases htext : d.source with
  | some text =>
    simp only [htext] at h
    obtain ⟨-, rfl⟩ := state_pure_eq_ok.mp h
    rfl
  | none =>
    cases hfile : d.file with
    | some file =>
      simp only [htext, hfile] at h
      obtain ⟨_, s₁, hsource, hpure⟩ := state_bind_eq_ok.mp h
      obtain ⟨-, rfl⟩ := state_pure_eq_ok.mp hpure
      exact ids_source hsource
    | none =>
      simp only [htext, hfile] at h
      obtain ⟨_, _, hthrow, -⟩ := state_bind_eq_ok.mp h
      exact absurd hthrow state_throw_ne_ok

theorem implementation_cases {d : NodeDef} {how : Implementation} (h : implementation r enter d s = .ok how s') :
    (∃ p, r.generator.registry.find? d.category = some p ∧ how = .procedural p ∧ s' = s) ∨
    r.generator.registry.find? d.category = none ∧
      ((∃ code, r.document.source? d.name r.generator.language.name (target r) ≠ none ∧ how = .source code ∧
        s'.ids = s.ids) ∨
        r.document.source? d.name r.generator.language.name (target r) = none ∧ enter d s = .ok how s') := by
  unfold implementation at h
  cases hfind : r.generator.registry.find? d.category with
  | some p =>
    simp only [hfind] at h
    obtain ⟨rfl, rfl⟩ := state_pure_eq_ok.mp h
    exact .inl ⟨p, rfl, rfl, rfl⟩
  | none =>
    simp only [hfind] at h
    refine .inr ⟨rfl, ?_⟩
    cases hsource : r.document.source? d.name r.generator.language.name (target r) with
    | some code =>
      simp only [hsource] at h
      obtain ⟨code, s₁, hcode, hpure⟩ := state_bind_eq_ok.mp h
      obtain ⟨rfl, rfl⟩ := state_pure_eq_ok.mp hpure
      exact .inl ⟨code, by simp, rfl, ids_sourceCode hcode⟩
    | none =>
      simp only [hsource] at h
      exact .inr ⟨rfl, h⟩

section
variable {α : Type} {name : String} {m : Build α}

theorem within_entered (h : name ∈ s.stack) : within name m s = .error (.cyclicCompound name) s := by
  have hpush : push name s = .error (.cyclicCompound name) s := by
    change (ite (s.stack.contains name = true) _ _ : Build Unit) s = _
    rw [if_pos (by simpa using h)]
    rfl
  change EStateM.bind (push name) _ s = _
  rw [EStateM.bind, hpush]

theorem finally_pop : (tryFinally m pop : Build α) s = match m s with
    | .ok a t => .ok a { t with stack := t.stack.tail }
    | .error e t => .error e { t with stack := t.stack.tail } := by
  simp only [tryFinally, tryFinally', Functor.map, EStateM.map]
  cases m s <;> rfl

/-- A graph that is not entered yet is left again after the steps inside of it, whether they fail or not. -/
theorem within_new (h : name ∉ s.stack) : within name m s = match m { s with stack := name :: s.stack } with
    | .ok a t => .ok a { t with stack := t.stack.tail }
    | .error e t => .error e { t with stack := t.stack.tail } := by
  have hpush : push name s = .ok () { s with stack := name :: s.stack } := by
    change (ite (s.stack.contains name = true) _ _ : Build Unit) s = _
    rw [if_neg (by simpa using h)]
    rfl
  change EStateM.bind (push name) (fun _ => tryFinally m pop) s = _
  rw [EStateM.bind, hpush]
  exact finally_pop

theorem within_cases {a : α} (h : within name m s = .ok a s') :
    name ∉ s.stack ∧ ∃ t, m { s with stack := name :: s.stack } = .ok a t ∧ s' = { t with stack := t.stack.tail } := by
  by_cases hname : name ∈ s.stack
  · rw [within_entered hname] at h
    cases h
  · rw [within_new hname] at h
    refine ⟨hname, ?_⟩
    split at h
    · rename_i t hm
      cases h
      exact ⟨t, hm, rfl⟩
    · cases h

end

theorem compound_cases {build : NodeGraph → Build Graph} {d : NodeDef} {how : Implementation}
    (h : compound r build d s = .ok how s') :
    ∃ inner graph t, r.document.graphFor? d.name = some inner ∧ inner.name ∉ s.stack ∧
      build inner { s with stack := inner.name :: s.stack } = .ok graph t ∧
      how = .compound inner.name (r.generator.dialect.validName [] inner.name) graph ∧
      s' = { t with stack := t.stack.tail } := by
  unfold compound at h
  cases hinner : r.document.graphFor? d.name with
  | none =>
    simp only [hinner] at h
    exact absurd h state_throw_ne_ok
  | some inner =>
    simp only [hinner] at h
    obtain ⟨graph, s₁, hwithin, hpure⟩ := state_bind_eq_ok.mp h
    obtain ⟨rfl, rfl⟩ := state_pure_eq_ok.mp hpure
    obtain ⟨hnew, t, hbuild, rfl⟩ := within_cases hwithin
    exact ⟨inner, graph, t, rfl, hnew, hbuild, rfl, rfl⟩

/-! ## Nodes -/

theorem input_cases {scope : String} {n : NodeInstance} {p : PinDef} {i : Input} (h : input r scope n p = .ok i) :
    ∃ type value, typeOf r p.typeName = .ok type ∧
      i = { name := p.name, type, value, uniform := p.uniform, path := pinPath scope n.name p.name } := by
  obtain ⟨type, htype, h⟩ := except_bind_eq_ok.mp h
  obtain ⟨_, -, h⟩ := except_bind_eq_ok.mp h
  cases hbinding : n.input? p.name with
  | none =>
    simp only [hbinding] at h
    exact ⟨type, _, htype, (Except.ok.inj h).symm⟩
  | some binding =>
    simp only [hbinding] at h
    split at h
    · obtain ⟨_, hthrow, -⟩ := except_bind_eq_ok.mp h
      exact absurd hthrow except_throw_ne_ok
    · split at h
      · obtain ⟨_, -, h⟩ := except_bind_eq_ok.mp h
        exact ⟨type, _, htype, (Except.ok.inj h).symm⟩
      · exact ⟨type, _, htype, (Except.ok.inj h).symm⟩

theorem output_cases {p : PinDef} {o : Output} (h : output r p = .ok o) :
    ∃ type, typeOf r p.typeName = .ok type ∧ o = { name := p.name, type } := by
  obtain ⟨type, htype, h⟩ := except_bind_eq_ok.mp h
  exact ⟨type, htype, (Except.ok.inj h).symm⟩

theorem inputSocket_cases {graph : String} {p : PinDef} {o : Output} (h : inputSocket r graph p = .ok o) :
    ∃ type value, typeOf r p.typeName = .ok type ∧
      o = { name := p.name, type, value, uniform := p.uniform, path := graph ++ "/" ++ p.name } := by
  obtain ⟨type, htype, h⟩ := except_bind_eq_ok.mp h
  obtain ⟨value, -, h⟩ := except_bind_eq_ok.mp h
  exact ⟨type, value, htype, (Except.ok.inj h).symm⟩

theorem outputSocket_cases {o : GraphOutput} {i : Input} (h : outputSocket r o = .ok i) :
    ∃ type, typeOf r o.typeName = .ok type ∧ i = { name := o.name, type } := by
  obtain ⟨type, htype, h⟩ := except_bind_eq_ok.mp h
  exact ⟨type, htype, (Except.ok.inj h).symm⟩

theorem node_cases {scope : String} {n : NodeInstance} {m : Node} (h : node r enter scope n s = .ok m s') :
    ∃ d traits how inputs outputs t, r.document.definitionOf? n = some d ∧ Traits.ofNodeDef d = .ok traits ∧
      implementation r enter d s = .ok how t ∧ d.inputs.mapM (input r scope n) = .ok inputs ∧
      d.outputs.mapM (output r) = .ok outputs ∧
      m = { Node.make t.ids.fresh.1 n.name d.category d.name how traits with inputs, outputs } ∧
      s' = { t with ids := t.ids.fresh.2 } := by
  unfold node at h
  cases hd : r.document.definitionOf? n with
  | none =>
    simp only [hd] at h
    exact absurd h state_throw_ne_ok
  | some d =>
    simp only [hd] at h
    obtain ⟨traits, s₁, hlift, h₁⟩ := state_bind_eq_ok.mp h
    obtain ⟨htraits, rfl⟩ := state_lift_eq_ok.mp hlift
    split at h₁
    · obtain ⟨_, _, hthrow, -⟩ := state_bind_eq_ok.mp h₁
      exact absurd hthrow state_throw_ne_ok
    obtain ⟨how, s₂, himplementation, h₂⟩ := state_bind_eq_ok.mp h₁
    obtain ⟨inputs, s₃, hlift₃, h₃⟩ := state_bind_eq_ok.mp h₂
    obtain ⟨hinputs, rfl⟩ := state_lift_eq_ok.mp hlift₃
    obtain ⟨outputs, s₄, hlift₄, h₄⟩ := state_bind_eq_ok.mp h₃
    obtain ⟨houtputs, rfl⟩ := state_lift_eq_ok.mp hlift₄
    split at h₄
    · obtain ⟨_, _, hthrow, -⟩ := state_bind_eq_ok.mp h₄
      exact absurd hthrow state_throw_ne_ok
    cases hunknown : n.inputs.find? fun b => (d.input? b.name).isNone with
    | some b =>
      simp only [hunknown] at h₄
      exact absurd h₄ state_throw_ne_ok
    | none =>
      simp only [hunknown] at h₄
      obtain ⟨id, s₅, hfresh, hpure⟩ := state_bind_eq_ok.mp h₄
      cases hfresh
      obtain ⟨rfl, rfl⟩ := state_pure_eq_ok.mp hpure
      exact ⟨d, traits, how, inputs, outputs, _, rfl, htraits, himplementation, hinputs, houtputs, rfl, rfl⟩

/-- A conditional with more inputs than a mask has bits is not made. -/
theorem inputs_le_of_node {scope : String} {n : NodeInstance} {m : Node} (h : node r enter scope n s = .ok m s')
    (hm : m.traits.has .conditional = true) : m.inputs.length ≤ maxBranches := by
  obtain ⟨d, traits, how, inputs, outputs, t, hd, htraits, hhow, hinputs, houtputs, rfl, -⟩ := node_cases h
  by_contra hmany
  have hrefused : (traits.has .conditional && decide (maxBranches < inputs.length)) = true := by
    rw [Bool.and_eq_true, decide_eq_true_eq]
    exact ⟨hm, Nat.not_le.mp hmany⟩
  simp only [node, hd] at h
  obtain ⟨_, htraits', h₁⟩ := state_lift_bind_eq_ok.mp h
  obtain rfl := Except.ok.inj (htraits.symm.trans htraits')
  split at h₁
  · obtain ⟨_, _, hthrow, -⟩ := state_bind_eq_ok.mp h₁
    exact absurd hthrow state_throw_ne_ok
  obtain ⟨_, s₂, -, h₂⟩ := state_bind_eq_ok.mp h₁
  obtain ⟨_, hinputs', h₃⟩ := state_lift_bind_eq_ok.mp h₂
  obtain rfl := Except.ok.inj (hinputs.symm.trans hinputs')
  obtain ⟨_, -, h₄⟩ := state_lift_bind_eq_ok.mp h₃
  rw [if_pos hrefused] at h₄
  obtain ⟨_, _, hthrow, -⟩ := state_bind_eq_ok.mp h₄
  exact absurd hthrow state_throw_ne_ok

/-! ## Connections -/

section
variable {g g' : Graph} {names : NodeNames} {id : NodeId} {b : InputBinding}

theorem inputRef_cases {name : String} {p : PinRef} (h : inputRef g id name = .ok p) : ∃ k, p = .ofNode id k := by
  unfold inputRef at h
  split at h
  · cases h
  · split at h
    · exact ⟨_, (Except.ok.inj h).symm⟩
    · cases h

theorem outputRef_cases {name : Option String} {p : PinRef} (h : outputRef g id name = .ok p) :
    ∃ k, p = .ofNode id k := by
  unfold outputRef at h
  split at h
  · cases h
  · dsimp only at h
    split at h
    · exact ⟨_, (Except.ok.inj h).symm⟩
    · cases h

theorem lookup_cases {name : String} (h : lookup g names name = .ok id) : List.lookup name names = some id := by
  unfold lookup at h
  split at h
  · rename_i hid
    rw [hid, Except.ok.inj h]
  · cases h

theorem bindNode_cases {source target : NodeId} (h : bindNode g source target b = .ok g') :
    ∃ j k, connectThrough g b.channels (.ofNode source j) (.ofNode target k) = .ok g' := by
  obtain ⟨p, hp, h⟩ := except_bind_eq_ok.mp h
  obtain ⟨q, hq, h⟩ := except_bind_eq_ok.mp h
  obtain ⟨j, rfl⟩ := outputRef_cases hp
  obtain ⟨k, rfl⟩ := inputRef_cases hq
  exact ⟨j, k, h⟩

/-- The source that a binding of an input names: an input socket, or an output of a node by name. -/
def Names (names : NodeNames) (b : InputBinding) (p : PinRef) : Prop :=
  p.owner = .graph ∨ ∃ name a j, b.nodeName = some name ∧ List.lookup name names = some a ∧ p = .ofNode a j

theorem bindInput_cases (h : bindInput names id g b = .ok g') :
    g' = g ∨ ∃ p k, Names names b p ∧ connectThrough g b.channels p (.ofNode id k) = .ok g' := by
  unfold bindInput at h
  cases hname : b.nodeName with
  | some name =>
    simp only [hname] at h
    obtain ⟨a, ha, h⟩ := except_bind_eq_ok.mp h
    obtain ⟨j, k, h⟩ := bindNode_cases h
    exact .inr ⟨_, k, .inr ⟨name, a, j, hname, lookup_cases ha, rfl⟩, h⟩
  | none =>
    cases hinterface : b.interfaceName with
    | none =>
      simp only [hname, hinterface] at h
      exact .inl (Except.ok.inj h).symm
    | some name =>
      simp only [hname, hinterface] at h
      split at h
      · exact absurd h except_throw_ne_ok
      · obtain ⟨q, hq, h⟩ := except_bind_eq_ok.mp h
        obtain ⟨k, rfl⟩ := inputRef_cases hq
        exact .inr ⟨_, k, .inl rfl, h⟩

theorem bindOutput_cases {o : GraphOutput × Nat} (h : bindOutput names g o = .ok g') :
    ∃ a j, connectThrough g o.1.channels (.ofNode a j) (.socket o.2) = .ok g' := by
  obtain ⟨a, -, h⟩ := except_bind_eq_ok.mp h
  obtain ⟨p, hp, h⟩ := except_bind_eq_ok.mp h
  obtain ⟨j, rfl⟩ := outputRef_cases hp
  exact ⟨a, j, h⟩

/-! ## Nodes that are there -/

def nodeNames (g : Graph) : NodeNames := (g.nodes.map fun n => (n.name, n.id)).reverse

theorem mem_of_lookup {name : String} {id : NodeId} (h : List.lookup name (nodeNames g) = some id) :
    ∃ m ∈ g.nodes, m.name = name ∧ m.id = id := by
  obtain ⟨before, after, heq, -⟩ := List.lookup_eq_some_iff.mp h
  have hmem : (name, id) ∈ nodeNames g := by simp [heq]
  obtain ⟨m, hm, hpair⟩ := List.mem_map.mp (List.mem_reverse.mp hmem)
  exact ⟨m, hm, congrArg Prod.fst hpair, congrArg Prod.snd hpair⟩

/-- Every name leads to a node of the graph. -/
def NodeNames.Known (names : NodeNames) (g : Graph) : Prop := ∀ name id, List.lookup name names = some id → id ∈ g.ids

theorem NodeNames.Known.of_ids {names : NodeNames} (h : names.Known g) (hids : g'.ids = g.ids) : names.Known g' :=
  fun name id hid => hids ▸ h name id hid

theorem known_nodeNames (g : Graph) : (nodeNames g).Known g := by
  intro name id h
  obtain ⟨m, hm, -, rfl⟩ := mem_of_lookup h
  exact Graph.mem_ids_of_mem hm

theorem known_addNode (n : Node) {names : NodeNames} (h : names.Known g) (name : String) :
    NodeNames.Known ((name, n.id) :: names) (g.addNode n) := by
  intro other id hid
  rw [Graph.ids_addNode]
  rw [List.lookup_cons] at hid
  split at hid
  · simp [Option.some.inj hid]
  · exact List.mem_append_left _ (h other id hid)

theorem known_of_lookup {name : String} (hknown : names.Known g) (h : lookup g names name = .ok id) : id ∈ g.ids :=
  hknown name id (lookup_cases h)

theorem ids_connect {source target : PinRef} (h : g.connect source target = .ok g') : g'.ids = g.ids := by
  obtain ⟨_, _, -, -, -, rfl⟩ := Graph.connect_cases h
  rw [Graph.ids_link, Graph.ids_disconnect]

theorem ids_connectThrough {channels : Option String} {source target : PinRef}
    (h : connectThrough g channels source target = .ok g') : g'.ids = g.ids := by
  rw [ids_connect h, Graph.ids_modifyInput]

theorem ids_bindNode {source target : NodeId} (h : bindNode g source target b = .ok g') : g'.ids = g.ids := by
  obtain ⟨j, k, h⟩ := bindNode_cases h
  exact ids_connectThrough h

theorem ids_bindInput (h : bindInput names id g b = .ok g') : g'.ids = g.ids := by
  rcases bindInput_cases h with rfl | ⟨p, k, -, h⟩
  · rfl
  · exact ids_connectThrough h

theorem ids_bindInstance {n : NodeInstance} (h : bindInstance names g n = .ok g') : g'.ids = g.ids := by
  obtain ⟨id, -, h⟩ := except_bind_eq_ok.mp h
  refine except_foldlM_inv (P := fun g' => g'.ids = g.ids) n.inputs (fun g₁ b _ hg₁ g₂ hbind => ?_) g g' rfl h
  exact (ids_bindInput hbind).trans hg₁

theorem ids_bindInstances {instances : List NodeInstance} (h : instances.foldlM (bindInstance names) g = .ok g') :
    g'.ids = g.ids :=
  except_foldlM_inv (P := fun g' => g'.ids = g.ids) instances
    (fun _ _ _ hg₁ _ hbind => (ids_bindInstance hbind).trans hg₁) g g' rfl h

theorem ids_bindOutput {o : GraphOutput × Nat} (h : bindOutput names g o = .ok g') : g'.ids = g.ids := by
  obtain ⟨a, j, h⟩ := bindOutput_cases h
  exact ids_connectThrough h

end

/-! ## Graphs -/

/-- The connections that a node graph asks for: of the inputs of its instances, and of its output sockets to nodes. -/
def Bound (d : NodeGraph) (names : NodeNames) (p q : PinRef) : Prop :=
  (∃ n ∈ d.nodes, ∃ b ∈ n.inputs, ∃ id k, List.lookup n.name names = some id ∧ Names names b p ∧ q = .ofNode id k) ∨
    ∃ k a j, q = .socket k ∧ p = .ofNode a j

theorem wire_cases {d : NodeGraph} {w : Graph} (h : wire r enter d s = .ok w s') :
    ∃ inputSockets outputSockets nodes w₁,
      (∃ pins, interface r d = .ok pins ∧ pins.mapM (inputSocket r d.name) = .ok inputSockets) ∧
      d.outputs.mapM (outputSocket r) = .ok outputSockets ∧ d.nodes.mapM (node r enter d.name) s = .ok nodes s' ∧
      d.nodes.foldlM (bindInstance (nodes.map fun n => (n.name, n.id)).reverse)
        { Graph.empty d.name with nodedef := d.nodedef, inputSockets, outputSockets, nodes } = .ok w₁ ∧
      d.outputs.zipIdx.foldlM (bindOutput (nodes.map fun n => (n.name, n.id)).reverse) w₁ = .ok w := by
  obtain ⟨pins, s₁, hlift₁, h₁⟩ := state_bind_eq_ok.mp h
  obtain ⟨hpins, rfl⟩ := state_lift_eq_ok.mp hlift₁
  obtain ⟨inputSockets, s₂, hlift₂, h₂⟩ := state_bind_eq_ok.mp h₁
  obtain ⟨hinputs, rfl⟩ := state_lift_eq_ok.mp hlift₂
  obtain ⟨outputSockets, s₃, hlift₃, h₃⟩ := state_bind_eq_ok.mp h₂
  obtain ⟨houtputs, rfl⟩ := state_lift_eq_ok.mp hlift₃
  obtain ⟨nodes, s₄, hnodes, h₄⟩ := state_bind_eq_ok.mp h₃
  obtain ⟨w₁, s₅, hlift₅, h₅⟩ := state_bind_eq_ok.mp h₄
  obtain ⟨hinstances, rfl⟩ := state_lift_eq_ok.mp hlift₅
  obtain ⟨hbound, rfl⟩ := state_lift_eq_ok.mp h₅
  exact ⟨inputSockets, outputSockets, nodes, w₁, ⟨pins, hpins, hinputs⟩, houtputs, hnodes, hinstances, hbound⟩

/-- **The wiring rule**: what holds of the nodes of a graph before they are connected, and is kept by each connection
that the graph asks for, holds of the wired graph. -/
theorem wire_keeps {d : NodeGraph} {w : Graph} (h : wire r enter d s = .ok w s') :
    ∃ inputSockets outputSockets nodes,
      (∃ pins, interface r d = .ok pins ∧ pins.mapM (inputSocket r d.name) = .ok inputSockets) ∧
      d.outputs.mapM (outputSocket r) = .ok outputSockets ∧ d.nodes.mapM (node r enter d.name) s = .ok nodes s' ∧
      ∀ P : Graph → Prop,
        P { Graph.empty d.name with nodedef := d.nodedef, inputSockets, outputSockets, nodes } →
        (∀ g g' channels p q, P g → Bound d (nodes.map fun n => (n.name, n.id)).reverse p q →
          connectThrough g channels p q = .ok g' → P g') → P w := by
  obtain ⟨inputSockets, outputSockets, nodes, w₁, hinputs, houtputs, hnodes, hinstances, hbound⟩ := wire_cases h
  refine ⟨inputSockets, outputSockets, nodes, hinputs, houtputs, hnodes, fun P hstart hstep => ?_⟩
  have hw₁ : P w₁ := by
    refine except_foldlM_inv (P := P) d.nodes (fun g n hn hg g' hbind => ?_) _ w₁ hstart hinstances
    obtain ⟨id, hid, hbind⟩ := except_bind_eq_ok.mp hbind
    refine except_foldlM_inv (P := P) n.inputs (fun g₁ b hb hg₁ g₂ hinput => ?_) g g' hg hbind
    rcases bindInput_cases hinput with rfl | ⟨p, k, hnames, hconnect⟩
    · exact hg₁
    · exact hstep g₁ g₂ _ _ _ hg₁ (.inl ⟨n, hn, b, hb, id, k, lookup_cases hid, hnames, rfl⟩) hconnect
  refine except_foldlM_inv (P := P) d.outputs.zipIdx (fun g o _ hg g' houtput => ?_) w₁ w hw₁ hbound
  obtain ⟨a, j, hconnect⟩ := bindOutput_cases houtput
  exact hstep g g' _ _ _ hg (.inr ⟨o.2, a, j, rfl, rfl⟩) hconnect

theorem flatten_cases {g g' : Graph} (h : flatten g s = .ok g' s') :
    ∃ ids, Graph.Rewiring.flatten (g, s.ids) = .ok () (g', ids) ∧ s' = { s with ids } := by
  unfold flatten at h
  split at h
  · rename_i g₁ ids hflatten
    cases h
    exact ⟨ids, hflatten, rfl⟩
  · cases h

theorem finish_eq (r : Request) (publish : Bool) (g : Graph) :
    finish r publish g = ((if r.options.flatten then flatten g else pure g) >>= fun g₁ => do
      let g₂ ← g₁.sort
      let g₃ := g₂.assignScopes.assignVariables r.generator.language publish
      pure { g₃ with traits := traitsOf g₃ }) := by
  unfold finish
  split <;> rfl

theorem finish_cases {publish : Bool} {g g' : Graph} (h : finish r publish g s = .ok g' s') :
    ∃ g₁ t, (r.options.flatten = true ∧ flatten g s = .ok g₁ t ∨ r.options.flatten = false ∧ g₁ = g ∧ t = s) ∧
      ∃ g₂, g₁.sort = .ok g₂ ∧
        g' = { g₂.assignScopes.assignVariables r.generator.language publish with
          traits := traitsOf (g₂.assignScopes.assignVariables r.generator.language publish) } ∧ s' = t := by
  rw [finish_eq] at h
  obtain ⟨g₁, t, hflatten, h⟩ := state_bind_eq_ok.mp h
  obtain ⟨g₂, s₂, hlift, hpure⟩ := state_bind_eq_ok.mp h
  obtain ⟨hsort, rfl⟩ := state_lift_eq_ok.mp hlift
  obtain ⟨rfl, rfl⟩ := state_pure_eq_ok.mp hpure
  refine ⟨g₁, _, ?_, g₂, hsort, rfl, rfl⟩
  split at hflatten
  · rename_i hoption
    exact .inl ⟨hoption, hflatten⟩
  · rename_i hoption
    exact .inr ⟨by simpa using hoption, state_pure_eq_ok.mp hflatten⟩

theorem finish_unflattened {publish : Bool} {g g' : Graph} (hflatten : r.options.flatten = false)
    (h : finish r publish g s = .ok g' s') :
    ∃ g₂, g.sort = .ok g₂ ∧
      g' = { g₂.assignScopes.assignVariables r.generator.language publish with
        traits := traitsOf (g₂.assignScopes.assignVariables r.generator.language publish) } ∧ s' = s := by
  obtain ⟨g₁, t, hflat, g₂, hsort, rfl, rfl⟩ := finish_cases h
  rcases hflat with ⟨hon, -⟩ | ⟨-, rfl, rfl⟩
  · rw [hflatten] at hon
    cases hon
  · exact ⟨g₂, hsort, rfl, rfl⟩

theorem assemble_cases {d : NodeGraph} {g : Graph} (h : assemble r enter d s = .ok g s') :
    ∃ w t, wire r enter d s = .ok w t ∧ finish r t.stack.isEmpty w t = .ok g s' := by
  obtain ⟨w, t, hwire, h₁⟩ := state_bind_eq_ok.mp h
  obtain ⟨_, t', hget, hfinish⟩ := state_bind_eq_ok.mp h₁
  obtain ⟨rfl, rfl⟩ := state_get_eq_ok.mp hget
  exact ⟨w, _, hwire, hfinish⟩

/-! ## Single nodes -/

theorem addSource_cases {add : NodeInstance → Graph × NodeNames → Build (NodeId × Graph × NodeNames)} {target : NodeId}
    {x y : Graph × NodeNames} {b : InputBinding} (h : addSource r add target x b s = .ok y s') :
    (b.nodeName = none ∧ y = x ∧ s' = s) ∨ ∃ name above source g, b.nodeName = some name ∧
      r.document.node? name = some above ∧ add above x s = .ok (source, g, y.2) s' ∧
      bindNode g source target b = .ok y.1 := by
  unfold addSource at h
  cases hname : b.nodeName with
  | none =>
    rw [hname] at h
    exact .inl ⟨rfl, state_pure_eq_ok.mp h⟩
  | some name =>
    rw [hname] at h
    cases habove : r.document.node? name with
    | none =>
      simp only [habove] at h
      exact absurd h state_throw_ne_ok
    | some above =>
      simp only [habove] at h
      obtain ⟨⟨source, g, names⟩, t, hadd, hbind⟩ := state_bind_eq_ok.mp h
      obtain ⟨g₁, t₁, hlift, hpure⟩ := state_bind_eq_ok.mp hbind
      obtain ⟨hconnect, rfl⟩ := state_lift_eq_ok.mp hlift
      obtain ⟨rfl, rfl⟩ := state_pure_eq_ok.mp hpure
      exact .inr ⟨name, above, source, g, rfl, habove, hadd, hconnect⟩

theorem addUpstream_cases {depth : Nat} {n : NodeInstance} {g : Graph} {names : NodeNames}
    {y : NodeId × Graph × NodeNames} (h : addUpstream r (depth + 1) n (g, names) s = .ok y s') :
    (∃ id, List.lookup n.name names = some id ∧ y = (id, g, names) ∧ s' = s) ∨
    List.lookup n.name names = none ∧ ∃ added t, node r (compound r (nodeGraph r)) "" n s = .ok added t ∧
      y.1 = added.id ∧
      n.inputs.foldlM (addSource r (addUpstream r depth) added.id) (g.addNode added, (n.name, added.id) :: names) t
        = .ok y.2 s' := by
  rw [addUpstream] at h
  cases hnoted : List.lookup n.name names with
  | some id =>
    simp only [hnoted] at h
    obtain ⟨rfl, rfl⟩ := state_pure_eq_ok.mp h
    exact .inl ⟨id, rfl, rfl, rfl⟩
  | none =>
    simp only [hnoted] at h
    obtain ⟨added, t, hnode, h₁⟩ := state_bind_eq_ok.mp h
    obtain ⟨x, s₁, hloop, hpure⟩ := state_bind_eq_ok.mp h₁
    obtain ⟨rfl, rfl⟩ := state_pure_eq_ok.mp hpure
    exact .inr ⟨rfl, added, t, hnode, rfl, hloop⟩

/-! ## Nodes that are added -/

/-- Adds a node to a graph, or finds it there, and keeps what is there. -/
def Adds (add : NodeInstance → Graph × NodeNames → Build (NodeId × Graph × NodeNames)) : Prop :=
  ∀ n x s y s', x.2.Known x.1 → add n x s = .ok y s' → y.1 ∈ y.2.1.ids ∧ y.2.2.Known y.2.1 ∧ x.1.ids ⊆ y.2.1.ids

theorem Adds.addSource {add : NodeInstance → Graph × NodeNames → Build (NodeId × Graph × NodeNames)} (hadd : Adds add)
    {target : NodeId} {x y : Graph × NodeNames} {b : InputBinding} (hx : x.2.Known x.1)
    (h : addSource r add target x b s = .ok y s') : y.2.Known y.1 ∧ x.1.ids ⊆ y.1.ids := by
  rcases addSource_cases h with ⟨-, rfl, -⟩ | ⟨_, above, source, g, -, -, hadded, hbind⟩
  · exact ⟨hx, List.Subset.refl _⟩
  · obtain ⟨-, hknown, hsubset⟩ := hadd above x s _ s' hx hadded
    rw [← ids_bindNode hbind] at hsubset
    exact ⟨hknown.of_ids (ids_bindNode hbind), hsubset⟩

theorem adds_addUpstream (depth : Nat) : Adds (addUpstream r depth) := by
  induction depth with
  | zero => exact fun _ _ _ _ _ _ h => absurd h state_throw_ne_ok
  | succ depth ih =>
    rintro n ⟨g, names⟩ s ⟨id, x⟩ s' hknown h
    rcases addUpstream_cases h with ⟨_, hid, heq, rfl⟩ | ⟨-, added, t, -, hid, hloop⟩
    · cases heq
      exact ⟨hknown _ _ hid, hknown, List.Subset.refl _⟩
    obtain rfl : id = added.id := hid
    have hx := state_foldlM_inv (P := fun _ (z : Graph × NodeNames) => z.2.Known z.1 ∧ (g.addNode added).ids ⊆ z.1.ids)
      n.inputs (fun t z b _ hz z' t' hstep => ?_) t _ x s' ⟨known_addNode added hknown n.name, List.Subset.refl _⟩ hloop
    · rw [Graph.ids_addNode] at hx
      exact ⟨hx.2 (by simp), hx.1, fun _ ha => hx.2 (List.mem_append_left _ ha)⟩
    · obtain ⟨hknown', hsubset⟩ := ih.addSource hz.1 hstep
      exact ⟨hknown', fun _ ha => hsubset (hz.2 ha)⟩

theorem singleNode_cases {n : NodeInstance} {g : Graph} (h : singleNode r n s = .ok g s') :
    ∃ id g₁ names t inputs outputs g₂ g₃,
      addUpstream r (r.document.nodes.length + 2) n (Graph.empty n.name, []) s = .ok (id, g₁, names) t ∧
      ((g₁.node? id).map fun n => (n.inputs, n.outputs)).getD ([], []) = (inputs, outputs) ∧
      exposeInputs id g₁ 0 inputs = .ok g₂ ∧ exposeOutputs id g₂ 0 outputs = .ok g₃ ∧
      finish r t.stack.isEmpty g₃ t = .ok g s' := by
  obtain ⟨⟨id, g₁, names⟩, s₁, hadd, h₁⟩ := state_bind_eq_ok.mp h
  obtain ⟨g₂, s₂, hlift₂, h₂⟩ := state_bind_eq_ok.mp h₁
  obtain ⟨hinputs, rfl⟩ := state_lift_eq_ok.mp hlift₂
  obtain ⟨g₃, s₃, hlift₃, h₃⟩ := state_bind_eq_ok.mp h₂
  obtain ⟨houtputs, rfl⟩ := state_lift_eq_ok.mp hlift₃
  obtain ⟨_, s₄, hget, hfinish⟩ := state_bind_eq_ok.mp h₃
  obtain ⟨rfl, rfl⟩ := state_get_eq_ok.mp hget
  exact ⟨id, g₁, names, _, _, _, g₂, g₃, hadd, rfl, hinputs, houtputs, hfinish⟩

/-- The input socket that an unconnected input becomes. -/
def socketFor (i : Input) : Output :=
  { name := i.name, type := i.type, value := i.value, uniform := i.uniform, path := i.path }

theorem exposeInputs_keeps {P : Graph → Prop} {V : Output → Prop} {id : NodeId} (hinput : ∀ {g g' o k}, P g → V o →
      (g.addInputSocket o).connect (.socket g.inputSockets.length) (.ofNode id k) = .ok g' → P g')
    (inputs : List Input) (hinputs : ∀ i ∈ inputs, V (socketFor i)) :
    ∀ {g index g'}, P g → exposeInputs id g index inputs = .ok g' → P g' := by
  induction inputs with
  | nil =>
    intro g index g' hg h
    exact Except.ok.inj h ▸ hg
  | cons i rest ih =>
    intro g index g' hg h
    have hrest : ∀ j ∈ rest, V (socketFor j) := fun j hj => hinputs j (List.mem_cons_of_mem i hj)
    unfold exposeInputs at h
    split at h
    · exact ih hrest hg h
    · obtain ⟨g₁, hconnect, h₁⟩ := except_bind_eq_ok.mp h
      exact ih hrest (hinput hg (hinputs i List.mem_cons_self) hconnect) h₁

theorem exposeOutputs_keeps {P : Graph → Prop} {id : NodeId} (houtput : ∀ {g g' i k}, P g → i.source = none →
      i.value = none → (g.addOutputSocket i).connect (.ofNode id k) (.socket g.outputSockets.length) = .ok g' → P g')
    (outputs : List Output) : ∀ {g index g'}, P g → exposeOutputs id g index outputs = .ok g' → P g' := by
  induction outputs with
  | nil =>
    intro g index g' hg h
    exact Except.ok.inj h ▸ hg
  | cons o rest ih =>
    intro g index g' hg h
    obtain ⟨g₁, hconnect, hrest⟩ := except_bind_eq_ok.mp h
    exact ih (houtput hg rfl rfl hconnect) hrest

end ShadeGraph.Build
