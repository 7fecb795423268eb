import ShadeGraph.Graph.Connection
import ShadeGraph.Proofs.Graph.Lookup

/-!
# What updates of a graph change

Each update of a graph touches the pins that it names and no others. The lemmas say for every update what is looked
up behind it, in terms of what was looked up before.
-/

namespace ShadeGraph.Graph

variable {g : Graph} {id : NodeId} {p q : PinRef}

/-! ## Nodes -/

theorem ids_modifyNode {f : Node → Node} (hf : ∀ n, (f n).id = n.id) : (g.modifyNode id f).ids = g.ids := by
  simp only [ids, modifyNode, List.map_map]
  refine List.map_congr_left fun n _ => ?_
  simp only [Function.comp_apply]
  split
  · exact hf n
  · rfl

theorem node?_modifyNode {f : Node → Node} (hf : ∀ n, (f n).id = n.id) (x : NodeId) :
    (g.modifyNode id f).node? x = (g.node? x).map fun n => if x = id then f n else n := by
  have hsame : ∀ n : Node, (if n.id = id then f n else n).id = n.id := by
    intro n
    split
    · exact hf n
    · rfl
  rw [node?, node?, modifyNode, List.find?_map]
  have htest : ((fun n : Node => n.id == x) ∘ fun n => if n.id = id then f n else n) = fun n => n.id == x := by
    funext n
    simp only [Function.comp_apply, hsame]
  rw [htest]
  refine Option.map_congr fun n hn => ?_
  have hid : n.id = x := by simpa using List.find?_some hn
  rw [hid]

theorem ids_addNode (g : Graph) (n : Node) : (g.addNode n).ids = g.ids ++ [n.id] := by simp [ids, addNode]

theorem node?_addNode {n : Node} (hnew : n.id ∉ g.ids) (x : NodeId) :
    (g.addNode n).node? x = if x = n.id then some n else g.node? x := by
  rw [node?, addNode, List.find?_append]
  change (g.node? x).or _ = _
  by_cases hx : x = n.id
  · subst hx
    rw [if_pos rfl, node?_eq_none_iff.mpr hnew]
    simp
  · have hother : List.find? (fun m => m.id == x) [n] = none := by simpa using fun h => hx h.symm
    rw [if_neg hx, hother, Option.or_none]

/-! ## Pins -/

theorem ids_modifyInput (g : Graph) (p : PinRef) (f : Input → Input) : (g.modifyInput p f).ids = g.ids := by
  obtain ⟨owner, index⟩ := p
  cases owner with
  | graph => rfl
  | node id => exact ids_modifyNode fun _ => rfl

theorem ids_modifyOutput (g : Graph) (p : PinRef) (f : Output → Output) : (g.modifyOutput p f).ids = g.ids := by
  obtain ⟨owner, index⟩ := p
  cases owner with
  | graph => rfl
  | node id => exact ids_modifyNode fun _ => rfl

theorem node?_modifyInput (g : Graph) (p : PinRef) (f : Input → Input) (x : NodeId) :
    (g.modifyInput p f).node? x =
      (g.node? x).map fun n => if p.owner = .node x then { n with inputs := n.inputs.modify p.index f } else n := by
  obtain ⟨owner, index⟩ := p
  cases owner with
  | graph => simp [modifyInput, node?]
  | node id =>
    rw [modifyInput, node?_modifyNode (by intro n; rfl)]
    simp [eq_comm]

theorem node?_modifyOutput (g : Graph) (p : PinRef) (f : Output → Output) (x : NodeId) :
    (g.modifyOutput p f).node? x =
      (g.node? x).map fun n => if p.owner = .node x then { n with outputs := n.outputs.modify p.index f } else n := by
  obtain ⟨owner, index⟩ := p
  cases owner with
  | graph => simp [modifyOutput, node?]
  | node id =>
    rw [modifyOutput, node?_modifyNode (by intro n; rfl)]
    simp [eq_comm]

theorem input?_modifyInput (g : Graph) (p q : PinRef) (f : Input → Input) :
    (g.modifyInput p f).input? q = (g.input? q).map fun i => if q = p then f i else i := by
  obtain ⟨owner, index⟩ := q
  cases owner with
  | graph =>
    obtain ⟨owner', index'⟩ := p
    cases owner' with
    | graph => simp [modifyInput, input?, List.getElem?_modify, eq_comm]
    | node id => simp [modifyInput, input?, modifyNode]
  | node id =>
    simp only [input?, node?_modifyInput]
    cases g.node? id with
    | none => rfl
    | some n =>
      obtain ⟨owner', index'⟩ := p
      by_cases howner : owner' = .node id
      · simp [howner, List.getElem?_modify, eq_comm]
      · simp [howner, Ne.symm howner]

theorem output?_modifyInput (g : Graph) (p q : PinRef) (f : Input → Input) :
    (g.modifyInput p f).output? q = g.output? q := by
  obtain ⟨owner, index⟩ := q
  cases owner with
  | graph =>
    obtain ⟨owner', index'⟩ := p
    cases owner' <;> rfl
  | node id =>
    simp only [output?, node?_modifyInput]
    cases g.node? id with
    | none => rfl
    | some n =>
      simp only [Option.map_some, Option.bind_some]
      split <;> rfl

theorem output?_modifyOutput (g : Graph) (p q : PinRef) (f : Output → Output) :
    (g.modifyOutput p f).output? q = (g.output? q).map fun o => if q = p then f o else o := by
  obtain ⟨owner, index⟩ := q
  cases owner with
  | graph =>
    obtain ⟨owner', index'⟩ := p
    cases owner' with
    | graph => simp [modifyOutput, output?, List.getElem?_modify, eq_comm]
    | node id => simp [modifyOutput, output?, modifyNode]
  | node id =>
    simp only [output?, node?_modifyOutput]
    cases g.node? id with
    | none => rfl
    | some n =>
      obtain ⟨owner', index'⟩ := p
      by_cases howner : owner' = .node id
      · simp [howner, List.getElem?_modify, eq_comm]
      · simp [howner, Ne.symm howner]

theorem input?_modifyOutput (g : Graph) (p q : PinRef) (f : Output → Output) :
    (g.modifyOutput p f).input? q = g.input? q := by
  obtain ⟨owner, index⟩ := q
  cases owner with
  | graph =>
    obtain ⟨owner', index'⟩ := p
    cases owner' <;> rfl
  | node id =>
    simp only [input?, node?_modifyOutput]
    cases g.node? id with
    | none => rfl
    | some n =>
      simp only [Option.map_some, Option.bind_some]
      split <;> rfl

/-! ## Connections -/

theorem ids_link (g : Graph) (source target : PinRef) : (g.link source target).ids = g.ids := by
  rw [link, ids_modifyOutput, ids_modifyInput]

theorem input?_link (g : Graph) (source target q : PinRef) :
    (g.link source target).input? q =
      (g.input? q).map fun i => if q = target then { i with source := some source, value := none } else i := by
  rw [link, input?_modifyOutput, input?_modifyInput]

theorem output?_link (g : Graph) (source target q : PinRef) :
    (g.link source target).output? q = (g.output? q).map fun o =>
      if q = source then if o.readers.contains target then o else { o with readers := o.readers ++ [target] }
      else o := by
  rw [link, output?_modifyOutput, output?_modifyInput]

theorem ids_forget (g : Graph) (source target : PinRef) : (g.forget source target).ids = g.ids := by
  rw [forget, ids_modifyOutput]

theorem input?_forget (g : Graph) (source target q : PinRef) : (g.forget source target).input? q = g.input? q := by
  rw [forget, input?_modifyOutput]

theorem output?_forget (g : Graph) (source target q : PinRef) :
    (g.forget source target).output? q = (g.output? q).map fun o =>
      if q = source then { o with readers := o.readers.filter fun r => r != target } else o := by
  rw [forget, output?_modifyOutput]

/-- All checks of a connection come before its first change. -/
theorem Edit.connect_eq (source target : PinRef) (g : Graph) : Edit.connect source target g =
    match g.output? source with
    | none => .error (.pinNotFound g.name (g.absentLabel source)) g
    | some output =>
      match g.input? target with
      | none => .error (.pinNotFound g.name (g.absentLabel target)) g
      | some input =>
        if compatible output.type input.channels input.type then .ok () ((g.disconnect target).link source target)
        else
          .error (.incompatiblePins (g.outputLabel source) output.type.name (g.inputLabel target) input.type.name) g := by
  rw [Edit.connect, state_get_bind]
  cases g.output? source with
  | none => rfl
  | some output =>
    cases g.input? target with
    | none => rfl
    | some input =>
      dsimp only
      cases compatible output.type input.channels input.type with
      | true => rfl
      | false => rfl

theorem Edit.isAtomic_connect (source target : PinRef) : (Edit.connect source target).IsAtomic := by
  intro g e h hfail
  rw [connect_eq] at hfail
  split at hfail
  · exact (EStateM.Result.error.inj hfail).2.symm
  · split at hfail
    · exact (EStateM.Result.error.inj hfail).2.symm
    · split at hfail
      · cases hfail
      · exact (EStateM.Result.error.inj hfail).2.symm

end ShadeGraph.Graph
