import ShadeGraph.Graph.Flatten
import ShadeGraph.Proofs.Graph.Identity
import ShadeGraph.Proofs.Outcome

/-!
# What flattening keeps

The *frame* of a graph is what is left of it without its connections. Replacing a compound takes its node out of the
frame and puts copies of the inner nodes in, under new identities; all the rest changes connections only. So each
replacement leaves one node less, counted at every depth, and a run ends when there is no compound left.
-/

namespace ShadeGraph

/-! ## Frames -/

/-- The input without what it reads. -/
def Input.frame (i : Input) : Input := { name := i.name, type := i.type, variableName := i.variableName }

def Output.frame (o : Output) : Output := { o with readers := [] }

def Node.frame (n : Node) : Node := { n with inputs := n.inputs.map Input.frame, outputs := n.outputs.map Output.frame }

/-- A copy of the node that is not connected. -/
def Node.detached (n : Node) (id : NodeId) (name : String) : Node :=
  { n with
    id
    name
    inputs := n.inputs.map fun i => { i with source := none }
    outputs := n.outputs.map fun o => { o with readers := [] } }

namespace Graph

def frame (g : Graph) : Graph :=
  { g with
    nodes := g.nodes.map Node.frame
    inputSockets := g.inputSockets.map Output.frame
    outputSockets := g.outputSockets.map Input.frame }

variable {g h : Graph} {id : NodeId} {p q source target : PinRef} {n : Node} {i : Input} {o : Output}

theorem map_modify_of_forall {α β : Type} {r : α → β} {f : α → α} (hf : ∀ a, r (f a) = r a) (l : List α) :
    ∀ k, (l.modify k f).map r = l.map r := by
  induction l with
  | nil => intro k; rw [List.modify_nil]
  | cons a l ih =>
    intro k
    cases k with
    | zero => simp [List.modify_zero_cons, hf]
    | succ k => simp [List.modify_succ_cons, ih]

theorem frame_modifyNode {f : Node → Node} (hf : ∀ n, (f n).frame = n.frame) : (g.modifyNode id f).frame = g.frame := by
  have hnodes : (g.modifyNode id f).nodes.map Node.frame = g.nodes.map Node.frame := by
    simp only [modifyNode, List.map_map]
    refine List.map_congr_left fun n _ => ?_
    simp only [Function.comp_apply]
    split
    · exact hf n
    · rfl
  simp only [frame, hnodes]
  rfl

theorem frame_modifyInput {f : Input → Input} (hf : ∀ i, (f i).frame = i.frame) (g : Graph) (p : PinRef) :
    (g.modifyInput p f).frame = g.frame := by
  obtain ⟨owner, index⟩ := p
  cases owner with
  | graph => simp only [modifyInput, frame, map_modify_of_forall hf]
  | node id =>
    refine frame_modifyNode fun n => ?_
    simp only [Node.frame, map_modify_of_forall hf]

theorem frame_modifyOutput {f : Output → Output} (hf : ∀ o, (f o).frame = o.frame) (g : Graph) (p : PinRef) :
    (g.modifyOutput p f).frame = g.frame := by
  obtain ⟨owner, index⟩ := p
  cases owner with
  | graph => simp only [modifyOutput, frame, map_modify_of_forall hf]
  | node id =>
    refine frame_modifyNode fun n => ?_
    simp only [Node.frame, map_modify_of_forall hf]

theorem frame_link (g : Graph) (source target : PinRef) : (g.link source target).frame = g.frame := by
  rw [link, frame_modifyOutput, frame_modifyInput]
  · intro i
    rfl
  · intro o
    split <;> rfl

theorem frame_disconnect (g : Graph) (target : PinRef) : (g.disconnect target).frame = g.frame := by
  rw [disconnect]
  split
  · rfl
  · rw [forget, frame_modifyOutput (fun _ => by rfl), frame_modifyInput (fun _ => by rfl)]

theorem frame_connect (hc : g.connect source target = .ok h) : h.frame = g.frame := by
  obtain ⟨_, _, -, -, -, rfl⟩ := connect_cases hc
  rw [frame_link, frame_disconnect]

theorem frame_forgetInputs (id : NodeId) (inputs : List Input) :
    ∀ (g : Graph) (index : Nat), (forgetInputs id g index inputs).frame = g.frame := by
  induction inputs with
  | nil => exact fun _ _ => rfl
  | cons i rest ih =>
    intro g index
    rw [forgetInputs, ih]
    cases i.source with
    | none => rfl
    | some source =>
      refine frame_modifyOutput ?_ g source
      exact fun _ => rfl

theorem frame_release (targets : List PinRef) : ∀ g : Graph, (g.release targets).frame = g.frame := by
  induction targets with
  | nil => exact fun _ => rfl
  | cons target rest ih =>
    intro g
    refine (ih _).trans (frame_modifyInput ?_ g target)
    exact fun _ => rfl

theorem frame_removeNode (g : Graph) (id : NodeId) : (g.removeNode id).frame = (g.dropNode id).frame := by
  cases hn : g.node? id with
  | none => rw [removeNode_of_unknown hn, dropNode_of_unknown hn]
  | some n => rw [removeNode_eq hn, frame_release, frame_forgetInputs]

theorem node?_frame (g : Graph) (id : NodeId) : g.frame.node? id = (g.node? id).map Node.frame := by
  simp only [node?, frame, List.find?_map]
  rfl

theorem output?_frame (g : Graph) (p : PinRef) : g.frame.output? p = (g.output? p).map Output.frame := by
  obtain ⟨owner, index⟩ := p
  cases owner with
  | graph => exact List.getElem?_map
  | node id =>
    simp only [output?, node?_frame]
    cases g.node? id with
    | none => rfl
    | some n => exact List.getElem?_map

theorem input?_frame (g : Graph) (p : PinRef) : g.frame.input? p = (g.input? p).map Input.frame := by
  obtain ⟨owner, index⟩ := p
  cases owner with
  | graph => exact List.getElem?_map
  | node id =>
    simp only [input?, node?_frame]
    cases g.node? id with
    | none => rfl
    | some n => exact List.getElem?_map

theorem core_of_frame {m : Node} (h : m.frame = n.frame) : m.core = n.core := (congrArg Node.core h :)

theorem cores_frame (g : Graph) : g.frame.cores = g.cores := by
  simp only [cores, frame, List.map_map]
  rfl

section
variable (hframe : h.frame = g.frame)
include hframe

theorem cores_of_frame : h.cores = g.cores := by rw [← cores_frame, hframe, cores_frame]

theorem output_of_frame (ho : g.output? p = some o) : ∃ r, h.output? p = some r ∧ r.frame = o.frame := by
  have hmap := output?_frame h p
  rw [hframe, output?_frame, ho] at hmap
  exact Option.map_eq_some_iff.mp hmap.symm

theorem input_of_frame (hi : g.input? p = some i) : ∃ j, h.input? p = some j ∧ j.frame = i.frame := by
  have hmap := input?_frame h p
  rw [hframe, input?_frame, hi] at hmap
  exact Option.map_eq_some_iff.mp hmap.symm

end

/-! ## Copies -/

namespace Rewiring

variable {α β : Type} {s s' : Graph × IdSupply} {compound : Node} {inner : Graph} {copies : List (NodeId × NodeId)}

theorem current_eq_ok {g : Graph} : current s = .ok g s' ↔ g = s.1 ∧ s' = s := by
  change EStateM.Result.ok s.1 s = _ ↔ _
  simp [eq_comm]

theorem update_eq_ok {f : Graph → Graph} {a : Unit} : update f s = .ok a s' ↔ s' = (f s.1, s.2) :=
  state_modify_eq_ok

/-- What the copies of a list of nodes have done to a graph and a supply of identities: each copy has a new identity. -/
structure Copying (nodes : List Node) (pairs : List (Node × Node)) (s s' : Graph × IdSupply) : Prop where
  originals : pairs.map Prod.fst = nodes
  detached : ∀ p ∈ pairs, ∃ id name, p.2 = p.1.detached id name
  graph : s'.1 = s.1.addNodes (pairs.map Prod.snd)
  later : s.2.Later s'.2
  issued : ∀ p ∈ pairs, s'.2.Issued p.2.id
  fresh : ∀ p ∈ pairs, ¬ s.2.Issued p.2.id
  nodup : (pairs.map fun p => p.2.id).Nodup

def copyIds (pairs : List (Node × Node)) : List (NodeId × NodeId) := pairs.map fun p => (p.1.id, p.2.id)

theorem copying_of_copyNodes (nodes : List Node) : ∀ {s copies s'}, Function.Injective s.2.pick →
    nodes.mapM (copyNode compound) s = .ok copies s' → ∃ pairs, copies = copyIds pairs ∧ Copying nodes pairs s s' := by
  induction nodes with
  | nil =>
    intro s copies s' _ h
    rw [List.mapM_nil] at h
    obtain ⟨rfl, rfl⟩ := state_pure_eq_ok.mp h
    exact ⟨[], rfl, rfl, by simp, (addNodes_nil _).symm, .refl _, by simp, by simp, List.nodup_nil⟩
  | cons n nodes ih =>
    intro s copies s' hpick h
    rw [List.mapM_cons] at h
    obtain ⟨p, s₁, hcopy, h₁⟩ := state_bind_eq_ok.mp h
    obtain ⟨ps, s₂, hrest, h₂⟩ := state_bind_eq_ok.mp h₁
    obtain ⟨rfl, rfl⟩ := state_pure_eq_ok.mp h₂
    obtain ⟨id, t, hfresh, h₃⟩ := state_bind_eq_ok.mp hcopy
    cases hfresh
    obtain ⟨_, t', hupdate, h₄⟩ := state_bind_eq_ok.mp h₃
    obtain rfl := update_eq_ok.mp hupdate
    obtain ⟨rfl, rfl⟩ := state_pure_eq_ok.mp h₄
    have hlater := IdSupply.later_fresh s.2
    obtain ⟨pairs, rfl, hpairs⟩ := ih (s := (_, s.2.fresh.2)) (hlater.injective hpick) hrest
    let m := n.detached s.2.fresh.1 (s.1.freshNodeName (compound.name ++ "_" ++ n.name))
    refine ⟨(n, m) :: pairs, rfl, ?_, ?_, ?_, hlater.trans hpairs.later, ?_, ?_, ?_⟩
    · rw [List.map_cons, hpairs.originals]
    · intro p hp
      rcases List.mem_cons.mp hp with rfl | hp
      · exact ⟨_, _, rfl⟩
      · exact hpairs.detached p hp
    · rw [List.map_cons, addNodes_cons, hpairs.graph]
      rfl
    · intro p hp
      rcases List.mem_cons.mp hp with rfl | hp
      · exact hpairs.later.issued (IdSupply.issued_fresh s.2)
      · exact hpairs.issued p hp
    · intro p hp
      rcases List.mem_cons.mp hp with rfl | hp
      · exact IdSupply.not_issued_fresh hpick
      · exact fun hissued => hpairs.fresh p hp (hlater.issued hissued)
    · rw [List.map_cons, List.nodup_cons]
      refine ⟨fun hmem => ?_, hpairs.nodup⟩
      obtain ⟨p, hp, hid⟩ := List.mem_map.mp hmem
      exact hpairs.fresh p hp (hid ▸ IdSupply.issued_fresh s.2)

theorem lookup_copyIds {pairs : List (Node × Node)} {old new : NodeId} (h : (copyIds pairs).lookup old = some new) :
    ∃ p ∈ pairs, p.1.id = old ∧ p.2.id = new := by
  obtain ⟨before, after, heq, -⟩ := List.lookup_eq_some_iff.mp h
  have hmem : (old, new) ∈ copyIds pairs := by simp [heq]
  obtain ⟨p, hp, heq⟩ := List.mem_map.mp hmem
  exact ⟨p, hp, congrArg Prod.fst heq, congrArg Prod.snd heq⟩

theorem lookup_of_mem_pairs {pairs : List (Node × Node)} (hnodup : (pairs.map fun p => p.1.id).Nodup) {p : Node × Node}
    (hp : p ∈ pairs) : (copyIds pairs).lookup p.1.id = some p.2.id := by
  induction pairs with
  | nil => cases hp
  | cons q pairs ih =>
    rw [List.map_cons, List.nodup_cons] at hnodup
    rw [copyIds, List.map_cons, List.lookup_cons]
    rcases List.mem_cons.mp hp with rfl | hp
    · simp
    · have hne : (p.1.id == q.1.id) = false := by
        rw [beq_eq_false_iff_ne]
        exact fun heq => hnodup.1 (heq ▸ List.mem_map_of_mem hp)
      rw [hne]
      exact ih hnodup.2 hp

variable (compound inner copies) in
/-- Connects the inputs of all copies, and all readers of a compound. -/
def rewireAll : Rewiring Unit := do
  inner.nodes.forM fun n =>
    match copies.lookup n.id with
    | some id => rewireInputs compound inner copies id 0 n.inputs
    | none => pure ()
  (compound.outputs.zip inner.outputSockets).forM fun (output, socket) =>
    output.readers.forM (rewireReader compound inner copies socket)

theorem inlineCompound_steps {a : Unit} (h : inlineCompound compound inner s = .ok a s') :
    ∃ copies s₁, inner.nodes.mapM (copyNode compound) (s.1.removeNode compound.id, s.2) = .ok copies s₁ ∧
      rewireAll compound inner copies s₁ = .ok a s' := by
  obtain ⟨_, s₁, hremove, h₁⟩ := state_bind_eq_ok.mp h
  obtain rfl := update_eq_ok.mp hremove
  obtain ⟨copies, s₂, hcopy, h₂⟩ := state_bind_eq_ok.mp h₁
  exact ⟨copies, s₂, hcopy, h₂⟩

theorem copying_of_inlineCompound {a : Unit} (hpick : Function.Injective s.2.pick)
    (h : inlineCompound compound inner s = .ok a s') :
    ∃ pairs s₁, Copying inner.nodes pairs (s.1.removeNode compound.id, s.2) s₁ ∧
      rewireAll compound inner (copyIds pairs) s₁ = .ok a s' := by
  obtain ⟨copies, s₁, hcopy, hrest⟩ := inlineCompound_steps h
  obtain ⟨pairs, rfl, hcopying⟩ := copying_of_copyNodes (s := (s.1.removeNode compound.id, s.2)) inner.nodes hpick hcopy
  exact ⟨pairs, s₁, hcopying, hrest⟩

/-! ## Rewiring -/

/-- What rewiring can do to a graph: it changes inputs, but not their frames or sources, and links inputs to sources if a
relation allows it. -/
inductive Rewired (S : PinRef → PinRef → Prop) (g : Graph) : Graph → Prop
  | refl : Rewired S g g
  | modifyInput {h : Graph} {f : Input → Input} (hg : Rewired S g h) (hframe : ∀ i, (f i).frame = i.frame)
      (hsource : ∀ i, (f i).source = i.source) (target : PinRef) : Rewired S g (h.modifyInput target f)
  | link {h : Graph} {source target : PinRef} (hg : Rewired S g h) (hS : S source target) :
      Rewired S g (h.link source target)

variable {S : PinRef → PinRef → Prop}

theorem Rewired.trans {k : Graph} (h₁ : Rewired S g h) (h₂ : Rewired S h k) : Rewired S g k := by
  induction h₂ with
  | refl => exact h₁
  | modifyInput _ hframe hsource target ih => exact ih.modifyInput hframe hsource target
  | link _ hS ih => exact ih.link hS

theorem Rewired.frame (hg : Rewired S g h) : h.frame = g.frame := by
  induction hg with
  | refl => rfl
  | modifyInput _ hframe _ target ih => exact (frame_modifyInput hframe _ target).trans ih
  | link _ _ ih => exact (frame_link _ _ _).trans ih

/-- A step that rewires the graph and gives no identities out. -/
def Rewires (S : PinRef → PinRef → Prop) (m : Rewiring α) : Prop :=
  ∀ s a s', m s = .ok a s' → Rewired S s.1 s'.1 ∧ s'.2 = s.2

namespace Rewires

theorem bind {m : Rewiring α} {f : α → Rewiring β} (hm : Rewires S m) (hf : ∀ a, Rewires S (f a)) :
    Rewires S (m >>= f) := by
  intro s b s' h
  obtain ⟨a, s₁, h₁, h₂⟩ := state_bind_eq_ok.mp h
  obtain ⟨hgraph₁, hids₁⟩ := hm s a s₁ h₁
  obtain ⟨hgraph₂, hids₂⟩ := hf a s₁ b s' h₂
  exact ⟨hgraph₁.trans hgraph₂, hids₂.trans hids₁⟩

theorem pure (a : α) : Rewires S (pure a) := by
  intro s b s' h
  obtain ⟨-, rfl⟩ := state_pure_eq_ok.mp h
  exact ⟨.refl, rfl⟩

theorem lift (x : Except Error α) : Rewires S (liftM x) := by
  intro s b s' h
  obtain ⟨-, rfl⟩ := state_lift_eq_ok.mp h
  exact ⟨.refl, rfl⟩

theorem current : Rewires S current := by
  intro s b s' h
  obtain ⟨-, rfl⟩ := current_eq_ok.mp h
  exact ⟨.refl, rfl⟩

theorem update {f : Graph → Graph} (hf : ∀ g, Rewired S g (f g)) : Rewires S (update f) := by
  intro s b s' h
  obtain rfl := update_eq_ok.mp h
  exact ⟨hf s.1, rfl⟩

theorem modifyInput {f : Input → Input} (hframe : ∀ i, (f i).frame = i.frame) (hsource : ∀ i, (f i).source = i.source)
    (target : PinRef) : Rewires S (Rewiring.update fun g => g.modifyInput target f) :=
  .update fun _ => .modifyInput .refl hframe hsource target

theorem forM {f : α → Rewiring Unit} (l : List α) (hf : ∀ a ∈ l, Rewires S (f a)) : Rewires S (l.forM f) := by
  induction l with
  | nil => exact .pure ()
  | cons a l ih => exact .bind (hf a List.mem_cons_self) fun _ => ih fun b hb => hf b (List.mem_cons_of_mem a hb)

end Rewires

section
variable (compound inner copies)

/-- An inner source, and an input of a copy or a reader of the compound that is to read what has become of it. -/
def Meant (source target : PinRef) : Prop :=
  (∃ n ∈ inner.nodes, ∃ i ∈ n.inputs, i.source = some source ∧
      ∃ id, copies.lookup n.id = some id ∧ target.owner = .node id) ∨
    ∃ socket ∈ inner.outputSockets, socket.source = some source

/-- The connections that replacing a compound adds: of what feeds the compound, and of the copies of inner outputs. -/
def Brought (source target : PinRef) : Prop :=
  ((∃ i ∈ compound.inputs, i.source = some source) ∧ ∃ index, Meant inner copies (.socket index) target) ∨
    ∃ old new index, copies.lookup old = some new ∧ Meant inner copies (.ofNode old index) target ∧
      source = .ofNode new index

end

theorem rewires_bindSocket {socket : Nat} {target : PinRef} (hmeant : Meant inner copies (.socket socket) target) :
    Rewires (Brought compound inner copies) (bindSocket compound inner socket target) := by
  refine .bind .current fun g => ?_
  split
  · split
    · exact .bind (.lift _) fun _ => .modifyInput (fun _ => by rfl) (fun _ => by rfl) target
    · rename_i outer houter
      split
      · rename_i source hsource
        refine .bind (.lift _) fun _ => .update fun g => ?_
        refine .link (.modifyInput .refl (fun _ => by rfl) (fun _ => by rfl) target) (.inl ⟨?_, socket, hmeant⟩)
        exact ⟨outer, List.mem_of_find?_eq_some houter, hsource⟩
      · exact .bind (.lift _) fun _ => .modifyInput (fun _ => by rfl) (fun _ => by rfl) target
  · exact .pure ()

theorem rewires_rewire {source target : PinRef} (hmeant : Meant inner copies source target) :
    Rewires (Brought compound inner copies) (rewire compound inner copies source target) := by
  obtain ⟨owner, index⟩ := source
  cases owner with
  | graph => exact rewires_bindSocket hmeant
  | node old =>
    simp only [rewire]
    split
    · rename_i new hnew
      exact .update fun _ => .link .refl (.inr ⟨old, new, index, hnew, hmeant, rfl⟩)
    · exact .pure ()

theorem rewires_rewireInputs {n : Node} (hn : n ∈ inner.nodes) {id : NodeId} (hcopy : copies.lookup n.id = some id)
    (inputs : List Input) : ∀ index, (∀ i ∈ inputs, i ∈ n.inputs) →
      Rewires (Brought compound inner copies) (rewireInputs compound inner copies id index inputs) := by
  induction inputs with
  | nil => exact fun _ _ => .pure ()
  | cons i rest ih =>
    intro index hinputs
    have hrest := ih (index + 1) fun j hj => hinputs j (List.mem_cons_of_mem i hj)
    unfold rewireInputs
    split
    · rename_i source hsource
      have hi := hinputs i List.mem_cons_self
      exact .bind (rewires_rewire (.inl ⟨n, hn, i, hi, hsource, id, hcopy, rfl⟩)) fun _ => hrest
    · exact hrest

theorem rewires_rewireReader {socket : Input} (hsocket : socket ∈ inner.outputSockets) (target : PinRef) :
    Rewires (Brought compound inner copies) (rewireReader compound inner copies socket target) := by
  refine .bind .current fun g => ?_
  split
  · exact .pure ()
  · refine .bind (.lift _) fun channels => .bind (.modifyInput (fun _ => by rfl) (fun _ => by rfl) target) fun _ => ?_
    split
    · rename_i source hsource
      exact rewires_rewire (.inr ⟨socket, hsocket, hsource⟩)
    · exact .bind (.lift _) fun _ => .modifyInput (fun _ => by rfl) (fun _ => by rfl) target

theorem rewires_rewireAll : Rewires (Brought compound inner copies) (rewireAll compound inner copies) := by
  refine .bind (.forM _ fun n hn => ?_) fun _ => .forM _ fun p hp => .forM _ fun target _ =>
    rewires_rewireReader (List.of_mem_zip hp).2 target
  split
  · rename_i id hcopy
    exact rewires_rewireInputs hn hcopy n.inputs 0 fun _ hi => hi
  · exact .pure ()

theorem frame_rewireAll {a : Unit} (h : rewireAll compound inner copies s = .ok a s') :
    s'.1.frame = s.1.frame ∧ s'.2 = s.2 := by
  obtain ⟨hgraph, hids⟩ := rewires_rewireAll s a s' h
  exact ⟨hgraph.frame, hids⟩

theorem ids_inlineCompound {a : Unit} (hpick : Function.Injective s.2.pick)
    (h : inlineCompound compound inner s = .ok a s') :
    s.2.Later s'.2 ∧ ∃ new, s'.1.ids = (s.1.removeNode compound.id).ids ++ new ∧ new.Nodup ∧
      ∀ id ∈ new, ¬ s.2.Issued id ∧ s'.2.Issued id := by
  obtain ⟨pairs, s₁, hcopying, hrest⟩ := copying_of_inlineCompound hpick h
  obtain ⟨hframe, hids⟩ := frame_rewireAll hrest
  rw [hids]
  refine ⟨hcopying.later, pairs.map fun p => p.2.id, ?_, hcopying.nodup, ?_⟩
  · rw [ids_of_cores (cores_of_frame hframe), hcopying.graph, Graph.ids, addNodes, List.map_append, List.map_map]
    rfl
  · intro id hid
    obtain ⟨p, hp, rfl⟩ := List.mem_map.mp hid
    exact ⟨hcopying.fresh p hp, hcopying.issued p hp⟩

theorem owned_inlineCompound {a : Unit} (hpick : Function.Injective s.2.pick) (hs : s.1.Owned s.2)
    (h : inlineCompound compound inner s = .ok a s') : s'.1.Owned s'.2 := by
  obtain ⟨hlater, new, hids, hnodup, hnew⟩ := ids_inlineCompound hpick h
  exact (hs.removeNode compound.id).append hlater hids hnodup hnew

theorem frame_addNodes (g : Graph) (nodes : List Node) :
    (g.addNodes nodes).frame = g.frame.addNodes (nodes.map Node.frame) := by
  simp [frame, addNodes]

theorem copying_frame {a : Unit} (hpick : Function.Injective s.2.pick)
    (h : inlineCompound compound inner s = .ok a s') :
    ∃ pairs s₁, Copying inner.nodes pairs (s.1.removeNode compound.id, s.2) s₁ ∧
      s'.1.frame = (s.1.dropNode compound.id).frame.addNodes ((pairs.map Prod.snd).map Node.frame) := by
  obtain ⟨pairs, s₁, hcopying, hrest⟩ := copying_of_inlineCompound hpick h
  refine ⟨pairs, s₁, hcopying, ?_⟩
  rw [(frame_rewireAll hrest).1, hcopying.graph, frame_addNodes, frame_removeNode]

theorem sockets_inlineCompound {a : Unit} (hpick : Function.Injective s.2.pick)
    (h : inlineCompound compound inner s = .ok a s') : ∃ nodes, s'.1.frame = { s.1.frame with nodes } := by
  obtain ⟨pairs, s₁, -, hframe⟩ := copying_frame hpick h
  exact ⟨_, hframe⟩

theorem frame_of_inlineCompound {a : Unit} {n : Node} (hpick : Function.Injective s.2.pick)
    (h : inlineCompound compound inner s = .ok a s') (hn : n ∈ s'.1.nodes) :
    (∃ m ∈ s.1.nodes, m.frame = n.frame) ∨
      ∃ m ∈ inner.nodes, m.traits = n.traits ∧ m.implementation = n.implementation := by
  obtain ⟨pairs, s₁, hcopying, hframe⟩ := copying_frame hpick h
  have hmem : n.frame ∈ s'.1.frame.nodes := List.mem_map_of_mem hn
  rw [hframe] at hmem
  rcases List.mem_append.mp hmem with hmem | hmem
  · obtain ⟨m, hm, heq⟩ := List.mem_map.mp hmem
    exact .inl ⟨m, (List.mem_filter.mp hm).1, heq⟩
  · rw [List.map_map] at hmem
    obtain ⟨p, hp, heq⟩ := List.mem_map.mp hmem
    obtain ⟨id, name, hdetached⟩ := hcopying.detached p hp
    have hcore : p.2.core = n.core := core_of_frame heq
    simp only [Node.core, Prod.mk.injEq] at hcore
    refine .inr ⟨p.1, hcopying.originals ▸ List.mem_map_of_mem hp, ?_, ?_⟩
    · rw [← hcore.2.1, hdetached]
      rfl
    · rw [← hcore.2.2, hdetached]
      rfl

theorem core_of_inlineCompound {a : Unit} {n : Node} (hpick : Function.Injective s.2.pick)
    (h : inlineCompound compound inner s = .ok a s') (hn : n ∈ s'.1.nodes) :
    (∃ m ∈ s.1.nodes, m.core = n.core) ∨
      ∃ m ∈ inner.nodes, m.traits = n.traits ∧ m.implementation = n.implementation := by
  rcases frame_of_inlineCompound hpick h hn with ⟨m, hm, hframe⟩ | hcopy
  · exact .inl ⟨m, hm, core_of_frame hframe⟩
  · exact .inr hcopy

theorem of_firstCompound? {nodes : List Node} (h : firstCompound? nodes = some (compound, inner)) :
    compound ∈ nodes ∧ ∃ name function, compound.implementation = .compound name function inner := by
  induction nodes with
  | nil => cases h
  | cons n rest ih =>
    unfold firstCompound? at h
    split at h
    · rename_i name function g himplementation
      cases h
      exact ⟨List.mem_cons_self, name, function, himplementation⟩
    · obtain ⟨hmem, himplementation⟩ := ih h
      exact ⟨List.mem_cons_of_mem n hmem, himplementation⟩

theorem inlineUpTo_succ {count : Nat} {s s' : Graph × IdSupply} {a : Unit} (h : inlineUpTo (count + 1) s = .ok a s') :
    (s' = s ∧ firstCompound? s.1.nodes = none) ∨
      ∃ c inner name function s₁, c ∈ s.1.nodes ∧ c.implementation = .compound name function inner ∧
        inlineCompound c inner s = .ok () s₁ ∧ inlineUpTo count s₁ = .ok a s' := by
  obtain ⟨g, s₁, hcurrent, h⟩ := state_bind_eq_ok.mp h
  obtain ⟨rfl, rfl⟩ := current_eq_ok.mp hcurrent
  cases hfirst : firstCompound? s₁.1.nodes with
  | none =>
    rw [hfirst] at h
    obtain ⟨-, rfl⟩ := state_pure_eq_ok.mp h
    exact .inl ⟨rfl, rfl⟩
  | some found =>
    obtain ⟨c, inner⟩ := found
    rw [hfirst] at h
    obtain ⟨_, s₂, hinline, h⟩ := state_bind_eq_ok.mp h
    obtain ⟨hc, name, function, himplementation⟩ := of_firstCompound? hfirst
    exact .inr ⟨c, inner, name, function, s₂, hc, himplementation, hinline, h⟩

/-! ## Compounds run out -/

theorem weight_eq (g : Graph) : g.weight = weightOf g.nodes := by
  cases g
  rw [weight]

theorem weightOf_cons (n : Node) (nodes : List Node) :
    weightOf (n :: nodes) = n.implementation.weight + 1 + weightOf nodes := by
  cases n
  rw [weightOf]

theorem weightOf_append (nodes nodes' : List Node) : weightOf (nodes ++ nodes') = weightOf nodes + weightOf nodes' := by
  induction nodes with
  | nil => simp [weightOf]
  | cons n nodes ih =>
    rw [List.cons_append, weightOf_cons, weightOf_cons, ih]
    omega

theorem weightOf_of_implementations {nodes nodes' : List Node}
    (h : nodes.map Node.implementation = nodes'.map Node.implementation) : weightOf nodes = weightOf nodes' := by
  induction nodes generalizing nodes' with
  | nil => rw [List.map_eq_nil_iff.mp h.symm]
  | cons n nodes ih =>
    obtain ⟨m, rest, rfl, hm, hrest⟩ := List.map_eq_cons_iff.mp h.symm
    rw [weightOf_cons, weightOf_cons, ih hrest.symm, hm]

theorem implementations_of_frame (hframe : h.frame = g.frame) :
    h.nodes.map Node.implementation = g.nodes.map Node.implementation := by
  have hnodes : h.frame.nodes.map Node.implementation = g.frame.nodes.map Node.implementation := by rw [hframe]
  simp only [frame, List.map_map] at hnodes
  exact hnodes

theorem weightOf_filter_le (p : Node → Bool) (nodes : List Node) : weightOf (nodes.filter p) ≤ weightOf nodes := by
  induction nodes with
  | nil => exact Nat.le_refl _
  | cons n nodes ih =>
    rw [List.filter_cons]
    split
    · rw [weightOf_cons, weightOf_cons]
      omega
    · rw [weightOf_cons]
      omega

theorem weightOf_filter_lt {c : Node} {p : Node → Bool} {nodes : List Node} (hc : c ∈ nodes) (hp : p c = false) :
    weightOf (nodes.filter p) + c.implementation.weight < weightOf nodes := by
  induction nodes with
  | nil => cases hc
  | cons n nodes ih =>
    rw [List.filter_cons, weightOf_cons]
    rcases List.mem_cons.mp hc with rfl | hc
    · have hle := weightOf_filter_le p nodes
      rw [hp, if_neg Bool.false_ne_true]
      omega
    · have hlt := ih hc
      split
      · rw [weightOf_cons]
        omega
      · omega

theorem weight_inlineCompound {a : Unit} (hpick : Function.Injective s.2.pick) (hc : compound ∈ s.1.nodes)
    {name function : String} (himplementation : compound.implementation = .compound name function inner)
    (h : inlineCompound compound inner s = .ok a s') : s'.1.weight < s.1.weight ∧ s.2.Later s'.2 := by
  obtain ⟨pairs, s₁, hcopying, hrest⟩ := copying_of_inlineCompound hpick h
  obtain ⟨hframe, hids⟩ := frame_rewireAll hrest
  have hcopies : weightOf (pairs.map Prod.snd) = inner.weight := by
    rw [weight_eq, ← hcopying.originals]
    refine weightOf_of_implementations ?_
    rw [List.map_map, List.map_map]
    refine List.map_congr_left fun p hp => ?_
    obtain ⟨id, name, heq⟩ := hcopying.detached p hp
    simp only [Function.comp_apply]
    rw [heq]
    rfl
  have hremoved : (s.1.removeNode compound.id).weight = (s.1.dropNode compound.id).weight := by
    rw [weight_eq, weight_eq]
    exact weightOf_of_implementations (implementations_of_frame (frame_removeNode _ _))
  have hweight : s'.1.weight = (s.1.dropNode compound.id).weight + inner.weight := by
    rw [weight_eq s'.1, weightOf_of_implementations (implementations_of_frame hframe), hcopying.graph, addNodes,
      weightOf_append, hcopies, ← hremoved, weight_eq (s.1.removeNode _)]
  have hlt : (s.1.dropNode compound.id).weight + compound.implementation.weight < s.1.weight := by
    rw [weight_eq, weight_eq]
    exact weightOf_filter_lt hc (by simp)
  rw [himplementation, Implementation.weight] at hlt
  exact ⟨hweight ▸ hlt, hids ▸ hcopying.later⟩

/-- **The run rule**: what every replacement of a compound keeps, a run keeps, and it goes on with the same supply. -/
theorem inlineUpTo_keeps {P : Graph × IdSupply → Prop} (hstep : ∀ {s c inner name function a s'},
      Function.Injective s.2.pick → P s → c ∈ s.1.nodes → c.implementation = .compound name function inner →
      inlineCompound c inner s = .ok a s' → P s') (count : Nat) :
    ∀ {s a s'}, Function.Injective s.2.pick → P s → inlineUpTo count s = .ok a s' → s.2.Later s'.2 ∧ P s' := by
  induction count with
  | zero =>
    intro s a s' _ hs h
    obtain ⟨-, rfl⟩ := state_pure_eq_ok.mp h
    exact ⟨.refl _, hs⟩
  | succ count ih =>
    intro s a s' hpick hs h
    rcases inlineUpTo_succ h with ⟨rfl, -⟩ | ⟨c, inner, name, function, s₁, hc, himplementation, hinline, hrest⟩
    · exact ⟨.refl _, hs⟩
    · have hlater := (weight_inlineCompound hpick hc himplementation hinline).2
      obtain ⟨hlater', hs'⟩ := ih (hlater.injective hpick) (hstep hpick hs hc himplementation hinline) hrest
      exact ⟨hlater.trans hlater', hs'⟩

theorem flatten_keeps {P : Graph × IdSupply → Prop} (hstep : ∀ {s c inner name function a s'},
      Function.Injective s.2.pick → P s → c ∈ s.1.nodes → c.implementation = .compound name function inner →
      inlineCompound c inner s = .ok a s' → P s') {a : Unit} (hpick : Function.Injective s.2.pick) (hs : P s)
    (h : flatten s = .ok a s') : s.2.Later s'.2 ∧ P s' := by
  obtain ⟨_, _, hcurrent, hinline⟩ := state_bind_eq_ok.mp h
  obtain ⟨rfl, rfl⟩ := current_eq_ok.mp hcurrent
  exact inlineUpTo_keeps hstep _ hpick hs hinline

theorem sockets_flatten {a : Unit} (hpick : Function.Injective s.2.pick) (h : flatten s = .ok a s') :
    ∃ nodes, s'.1.frame = { s.1.frame with nodes } := by
  refine (flatten_keeps (P := fun t => ∃ nodes, t.1.frame = { s.1.frame with nodes }) ?_ hpick ⟨_, rfl⟩ h).2
  rintro t c inner name function a t' hpick ⟨nodes, hframe⟩ - - hinline
  obtain ⟨nodes', hframe'⟩ := sockets_inlineCompound hpick hinline
  rw [hframe] at hframe'
  exact ⟨nodes', hframe'⟩

theorem owned_flatten {a : Unit} (hpick : Function.Injective s.2.pick) (hs : s.1.Owned s.2)
    (h : flatten s = .ok a s') : s'.1.Owned s'.2 :=
  (flatten_keeps (P := fun s => s.1.Owned s.2) (fun hpick hs _ _ hinline => owned_inlineCompound hpick hs hinline)
    hpick hs h).2

theorem firstCompound?_eq_none {nodes : List Node} (h : firstCompound? nodes = none) :
    ∀ n ∈ nodes, n.implementation.isCompound = false := by
  induction nodes with
  | nil => exact fun _ hn => absurd hn List.not_mem_nil
  | cons n rest ih =>
    unfold firstCompound? at h
    split at h
    · cases h
    · rename_i hother
      intro m hm
      rcases List.mem_cons.mp hm with rfl | hm
      · cases himplementation : m.implementation with
        | compound name function inner => exact absurd himplementation (hother name function inner)
        | source _ => rfl
        | procedural _ => rfl
      · exact ih h m hm

theorem firstCompound?_inlineUpTo (count : Nat) : ∀ {s : Graph × IdSupply} {a s'}, Function.Injective s.2.pick →
    s.1.weight ≤ count → inlineUpTo count s = .ok a s' → firstCompound? s'.1.nodes = none := by
  -- each step takes one from the count and at least one from the weight
  induction count with
  | zero =>
    intro s a s' _ hweight h
    obtain ⟨-, rfl⟩ := state_pure_eq_ok.mp h
    rw [weight_eq] at hweight
    cases hnodes : s'.1.nodes with
    | nil => rfl
    | cons n nodes =>
      rw [hnodes, weightOf_cons] at hweight
      omega
  | succ count ih =>
    intro s a s' hpick hweight h
    rcases inlineUpTo_succ h with ⟨rfl, hnone⟩ | ⟨c, inner, name, function, s₁, hc, himplementation, hinline, hrest⟩
    · exact hnone
    · obtain ⟨hlt, hlater⟩ := weight_inlineCompound hpick hc himplementation hinline
      exact ih (hlater.injective hpick) (by omega) hrest

/-- A run that ends well leaves no compound. -/
theorem isCompound_flatten {a : Unit} (hpick : Function.Injective s.2.pick) (h : flatten s = .ok a s') :
    ∀ n ∈ s'.1.nodes, n.implementation.isCompound = false := by
  obtain ⟨g, s₁, hcurrent, hrun⟩ := state_bind_eq_ok.mp h
  obtain ⟨rfl, rfl⟩ := current_eq_ok.mp hcurrent
  exact firstCompound?_eq_none (firstCompound?_inlineUpTo _ hpick (Nat.le_refl _) hrun)

end Rewiring
end Graph
end ShadeGraph
