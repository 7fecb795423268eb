import ShadeGraph.Proofs.Graph.Writable
import ShadeGraph.Proofs.Shader.Steps

/-!
# The code of nodes is well scoped

The code of a node reads only variables that are in force where it stands, provided that the nodes it needs have been
written before, and leaves the variables of its outputs in force. A conditional needs less than what it reads: the nodes
that only one of its branches needs are written inside of that branch.

What the code declares is known from the nodes, block by block: a conditional writes a block for each of its branches,
and what such a block declares is what the nodes of the branch declare.

Conditionals stand inside of each other no deeper than the schedule is long, so that the code of a node is the code of
its implementation over the code of the nodes in its branches.
-/

namespace ShadeGraph

open Code

/-! ## Steps that append code -/

/-- A step that appends code with some property, which depends only on the indentation, and leaves the rest of the stage
as it is. -/
def Emits {α : Type} (m : Emit α) (Q : α → Code → Prop) : Prop :=
  ∀ s a s', m s = .ok a s' → ∃ code, s' = s.append code ∧ Q a code ∧
    ∀ t : Stage, t.depth = s.depth → t.indent = s.indent → m t = .ok a (t.append code)

variable {α β : Type} {V W : String → Prop} {new new₁ new₂ : List String} {code : Code}

theorem Emits.bind {m : Emit α} {f : α → Emit β} {Q : α → Code → Prop} {R : β → Code → Prop} (hm : Emits m Q)
    (hf : ∀ a c, Q a c → Emits (f a) fun b d => R b (c ++ d)) : Emits (m >>= f) R := by
  intro s b s' h
  obtain ⟨a, s₁, hms, hfs⟩ := state_bind_eq_ok.mp h
  obtain ⟨c, rfl, hQ, hmt⟩ := hm s a s₁ hms
  obtain ⟨d, rfl, hR, hft⟩ := hf a c hQ _ b s' hfs
  refine ⟨c ++ d, by simp [Stage.append], hR, fun t hdepth hindent => ?_⟩
  refine state_bind_eq_ok.mpr ⟨a, _, hmt t hdepth hindent, ?_⟩
  have happend : (t.append c).append d = t.append (c ++ d) := by simp [Stage.append]
  exact happend ▸ hft (t.append c) hdepth hindent

theorem Emits.lift {x : Except Error α} {f : α → Emit β} {R : β → Code → Prop}
    (hf : ∀ a, x = .ok a → Emits (f a) R) : Emits (liftM x >>= f) R := by
  intro s b s' h
  obtain ⟨a, s₁, hlift, hfs⟩ := state_bind_eq_ok.mp h
  obtain ⟨hx, rfl⟩ := state_lift_eq_ok.mp hlift
  obtain ⟨c, rfl, hR, hft⟩ := hf a hx s₁ b s' hfs
  exact ⟨c, rfl, hR, fun t hdepth hindent =>
    state_bind_eq_ok.mpr ⟨a, t, state_lift_eq_ok.mpr ⟨hx, rfl⟩, hft t hdepth hindent⟩⟩

theorem Emits.pure {a : α} {R : α → Code → Prop} (h : R a []) : Emits (pure a) R := by
  intro s b s' hs
  obtain ⟨rfl, rfl⟩ := state_pure_eq_ok.mp hs
  exact ⟨[], by simp [Stage.append], h, fun t _ _ => by simp [Stage.append]; rfl⟩

theorem Emits.throw {e : Error} {R : α → Code → Prop} : Emits (throw e) R :=
  fun _ _ _ h => absurd h state_throw_ne_ok

theorem Emits.mono {m : Emit α} {Q R : α → Code → Prop} (hm : Emits m Q) (h : ∀ a c, Q a c → R a c) : Emits m R := by
  intro s a s' hs
  obtain ⟨c, hcode, hQ, ht⟩ := hm s a s' hs
  exact ⟨c, hcode, h a c hQ, ht⟩

theorem Emits.forM_of {f : α → Emit Unit} {Q : Code → Prop} (hnil : Q []) (happend : ∀ {c d}, Q c → Q d → Q (c ++ d))
    (l : List α) (h : ∀ a ∈ l, Emits (f a) fun _ c => Q c) : Emits (l.forM f) fun _ c => Q c := by
  induction l with
  | nil => exact Emits.pure hnil
  | cons a l ih =>
    refine Emits.bind (h a List.mem_cons_self) fun _ c hc => ?_
    exact Emits.mono (ih fun b hb => h b (List.mem_cons_of_mem a hb)) fun _ d hd => happend hc hd

def spaces (width : Nat) : String := String.ofList (List.replicate width ' ')

theorem emits_indented (code : Code) :
    Emits (Emit.line code) fun _ c => ∃ width, c = (.text (spaces width) :: code) ++ [.text "\n"] := by
  intro s a s' h
  obtain rfl := state_modify_eq_ok.mp h
  refine ⟨_, rfl, ⟨s.depth * s.indent, rfl⟩, fun t hdepth hindent => ?_⟩
  rw [← hdepth, ← hindent]
  rfl

theorem emits_line (code : Code) :
    Emits (Emit.line code) fun _ c => ∃ indent, c = (.text indent :: code) ++ [.text "\n"] :=
  (emits_indented code).mono fun _ _ ⟨width, h⟩ => ⟨spaces width, h⟩

theorem emits_emptyLine : Emits Emit.emptyLine fun _ c => c = [.text "\n"] := by
  intro s a s' h
  obtain rfl := state_modify_eq_ok.mp h
  exact ⟨_, rfl, rfl, fun _ _ _ => rfl⟩

theorem emits_block {P : Token → Prop} [Token.Textual P] {mark : String → Token} (hmark : ∀ l, P (mark l))
    (text : String) : Emits (Emit.block mark text) fun _ c => Every P c := by
  intro s a s' hs
  obtain rfl := state_modify_eq_ok.mp hs
  -- The lines are appended one by one; the induction is on what is left of them.
  have hlines : ∀ (lines : List String) (s : Stage), ∃ code, Every P code ∧
      ∀ t : Stage, t.depth = s.depth → t.indent = s.indent →
        lines.foldl (fun s l => if (Text.trim l).isEmpty then s.emptyLine else s.line [mark l]) t = t.append code := by
    intro lines
    induction lines with
    | nil => exact fun s => ⟨[], every_nil, fun t _ _ => by simp [Stage.append]⟩
    | cons l lines ih =>
      intro s
      obtain ⟨code, hcode, hrest⟩ := ih s
      simp only [List.foldl_cons]
      by_cases hblank : (Text.trim l).isEmpty = true
      · refine ⟨.text "\n" :: code, hcode.text _, fun t hdepth hindent => ?_⟩
        rw [if_pos hblank, hrest t.emptyLine hdepth hindent]
        simp [Stage.emptyLine, Stage.append]
      · refine ⟨.text (spaces (s.depth * s.indent)) :: mark l :: .text "\n" :: code, ((hcode.text _).cons (hmark l)).text _,
          fun t hdepth hindent => ?_⟩
        rw [if_neg hblank, hrest (t.line [mark l]) hdepth hindent]
        simp [Stage.line, Stage.append, hdepth, hindent, spaces]
  obtain ⟨code, hcode, hrest⟩ := hlines (Text.lines text) s
  exact ⟨code, hrest s rfl rfl, hcode, fun t hdepth hindent => congrArg (EStateM.Result.ok ()) (hrest t hdepth hindent)⟩

theorem emits_indented_braces {m : Emit Unit} {Q : Code → Prop} (h : Emits m fun _ c => Q c) :
    Emits (Emit.braces m) fun _ c => ∃ width width' body, c = braced (spaces width) (spaces width') body ∧ Q body := by
  intro s a s' hs
  obtain ⟨_, s₁, hopen, hrest⟩ := state_bind_eq_ok.mp hs
  obtain ⟨_, s₂, hbody, hclose⟩ := state_bind_eq_ok.mp hrest
  obtain rfl := state_modify_eq_ok.mp hopen
  obtain rfl := state_modify_eq_ok.mp hclose
  obtain ⟨body, rfl, hQ, ht⟩ := h _ _ _ hbody
  have hclosed (t : Stage) : (t.openBlock.append body).closeBlock false =
      t.append (braced (spaces (t.depth * t.indent)) (spaces (t.depth * t.indent)) body) := by
    simp [Stage.openBlock, Stage.closeBlock, Stage.line, Stage.append, braced, spaces]
  refine ⟨_, hclosed s, ⟨_, _, body, rfl, hQ⟩, fun t hdepth hindent => ?_⟩
  rw [← hdepth, ← hindent, ← hclosed t]
  refine state_bind_eq_ok.mpr ⟨(), _, rfl, state_bind_eq_ok.mpr ⟨(), _, ht t.openBlock ?_ hindent, rfl⟩⟩
  exact congrArg (· + 1) hdepth

theorem emits_braces {m : Emit Unit} {Q : Code → Prop} (h : Emits m fun _ c => Q c) :
    Emits (Emit.braces m) fun _ c => ∃ before behind body, c = braced before behind body ∧ Q body :=
  (emits_indented_braces h).mono fun _ _ ⟨width, width', body, hbody⟩ => ⟨spaces width, spaces width', body, hbody⟩

/-! ## What steps declare -/

/-- A step that appends code in layers, which declares some variables directly. -/
def Lays (ok : List Declaration → Prop) (m : Emit Unit) (new : List Declaration) : Prop :=
  Emits m fun _ code => Layered ok code new

theorem Lays.tracks {ok : List Declaration → Prop} : Emit.Tracks (fun _ => True) ok fun _ m new => Lays ok m new where
  pure := Emits.pure .nil
  throw _ := Emits.throw
  seq hm hm' := Emits.bind hm fun _ _ hcode => Emits.mono hm' fun _ _ hcode' => hcode.append hcode'
  lift hf := Emits.lift hf
  line _ hlayered := by
    refine Emits.mono (emits_line _) ?_
    rintro _ _ ⟨indent, rfl⟩
    exact ((hlayered.mono fun _ hok => hok.elim).text indent).andInert (every_plain "\n")
  braces hm hok := by
    refine Emits.mono (emits_braces hm) ?_
    rintro _ _ ⟨before, behind, body, rfl, hbody⟩
    exact hbody.braced before behind hok
  mono _ hm := hm

namespace Surroundings

variable {e : Surroundings} {ok : List Declaration → Prop}
  (hok : ∀ c k, ok ((branchNodes e.graph c k).flatMap e.declarations))
include hok

/-- **What the code of a node declares**, given a property of what the nodes of each branch declare. -/
theorem lays_emitNode (depth : Nat) (n : Node) : Lays ok (e.emitNode depth n) (e.declarations n) :=
  Lays.tracks.emitNode (U := fun _ => True) hok (fun _ _ _ _ _ => trivial) (fun _ _ _ _ => trivial)
    (fun _ _ _ _ _ _ _ _ _ => trivial) depth n trivial

theorem lays_callAll : Lays ok e.callAll e.bodyDeclarations :=
  Lays.tracks.callAll (U := fun _ => True) hok (fun _ _ _ _ _ => trivial) (fun _ _ _ _ => trivial)
    (fun _ _ _ _ _ _ _ _ _ => trivial) fun _ _ => trivial

end Surroundings

/-! ## What steps read -/

/-- A step that appends whole lines of a block. -/
def Runs (V : String → Prop) (m : Emit Unit) (new : List String) : Prop := Emits m fun _ code => Sound V code new

theorem Runs.tracks : Emit.Tracks (fun _ => True) (fun _ => True) fun V m new => Runs V m (new.map Declaration.name) where
  pure := Emits.pure Sound.nil
  throw _ := Emits.throw
  seq hm hm' := by
    rw [List.map_append]
    exact Emits.bind hm fun _ _ hsound => Emits.mono hm' fun _ _ hsound' => hsound.append hsound'
  lift hf := Emits.lift hf
  line := by
    intro V code new hcode hlayered
    have hflat : Flat V code := hcode.mono fun t ht => by
      cases t with
      | reads x => exact ht
      | _ => trivial
    refine Emits.mono (emits_line code) ?_
    rintro _ _ ⟨indent, rfl⟩
    exact hlayered.declared_eq ▸ Sound.line (hflat.text indent)
  braces hm _ := by
    refine Emits.mono (emits_braces hm) ?_
    rintro _ _ ⟨before, behind, body, rfl, hbody⟩
    exact hbody.braced before behind
  mono hV hm := Emits.mono hm fun _ _ hsound => hsound.mono hV (List.Subset.refl _)

/-! ## Graphs -/

namespace Surroundings

open Relation ShadeGraph.Graph

variable {e : Surroundings} {n m : Node} {i : Input}

/-- All outputs of a node are in force. -/
def Shown (V : String → Prop) (n : Node) : Prop := ∀ o ∈ n.outputs, V o.variableName

/-- What must be in force where the code of a node stands: the outputs of the nodes that it reads and that stand outside
of all branches, those of the nodes that it needs, and the uniforms. -/
structure Prepared (V : String → Prop) (g : Graph) (n : Node) : Prop where
  outside : ∀ m ∈ g.nodes, TransGen g.Reads n.id m.id → m.scope.isTopLevel = true → Shown V m
  needed : ∀ m ∈ g.nodes, TransGen g.Needs n.id m.id → Shown V m
  published : ∀ m ∈ g.nodes, ReflTransGen g.Reads n.id m.id → ∀ i ∈ m.inputs, i.variableName ≠ "" → V i.variableName
  sockets : ∀ s ∈ g.inputSockets, V s.variableName

theorem source_shown {g : Graph} (hsockets : ∀ s ∈ g.inputSockets, V s.variableName)
    (hshown : ∀ m ∈ g.nodes, i.sourceNode? = some m.id → Shown V m) :
    ∀ source output, i.source = some source → g.output? source = some output → V output.variableName := by
  intro source output hsource houtput
  obtain ⟨owner, index⟩ := source
  cases owner with
  | graph => exact hsockets output (List.mem_of_getElem? houtput)
  | node id =>
    obtain ⟨m, hm, hindex⟩ := Option.bind_eq_some_iff.mp houtput
    refine hshown m (mem_of_node? hm) ?_ output (List.mem_of_getElem? hindex)
    rw [Input.sourceNode?, hsource, id_of_node? hm]
    rfl

theorem Prepared.readable {g : Graph} (hg : g.Writable) (hn : n ∈ g.nodes) (h : Prepared V g n) {k : Nat}
    (hk : n.inputs[k]? = some i) (hplain : n.isBranch k = false) : Readable V g i := by
  refine ⟨source_shown h.sockets ?_, h.published n hn .refl i (List.mem_of_getElem? hk)⟩
  intro m hm hsource
  exact h.needed m hm (.single ⟨n, k, i, hg.distinct.node?_of_mem hn, hk, hplain, hsource, mem_ids_of_mem hm⟩)

theorem mem_declarations {o : Output} (ho : o ∈ n.outputs) :
    o.variableName ∈ (e.declarations n).map Declaration.name := by
  refine List.mem_map.mpr ⟨n.declaration o, List.mem_append_right _ (List.mem_map_of_mem ho), ?_⟩
  unfold Node.declaration
  split <;> rfl

def namesOf (e : Surroundings) (nodes : List Node) : List String := (nodes.flatMap e.declarations).map Declaration.name

theorem mem_namesOf {nodes : List Node} {o : Output} (hm : m ∈ nodes) (ho : o ∈ m.outputs) :
    o.variableName ∈ e.namesOf nodes := by
  rw [namesOf, List.map_flatMap]
  exact List.mem_flatMap.mpr ⟨m, hm, mem_declarations ho⟩

/-! ## Conditionals inside of each other -/

theorem reads_of_mem_branchNodes {g : Graph} (hg : g.InPlace) {k : Nat} (hm : m ∈ branchNodes g n.id k) :
    TransGen g.Reads n.id m.id := by
  obtain ⟨hm, hscope⟩ := List.mem_filter.mp hm
  cases hs : m.scope with
  | branches c mask full =>
    rw [hs] at hscope
    simp only [Scope.isInBranch, Bool.and_eq_true, beq_iff_eq] at hscope
    exact hscope.1 ▸ hg.scopes.inside m hm c mask full hs
  | _ => simp [hs, Scope.isInBranch] at hscope

theorem split_of_mem_branchNodes {g : Graph} (hg : g.InPlace) {k : Nat} (hm : m ∈ branchNodes g n.id k)
    {before after : List Node} (hnodes : g.nodes = before ++ n :: after) :
    ∃ front back, before.length = front.length + back.length + 1 ∧ g.nodes = front ++ m :: (back ++ n :: after) := by
  have hbefore := hg.mem_before (reads_of_mem_branchNodes hg hm) (List.mem_filter.mp hm).1 rfl before n after hnodes rfl
  obtain ⟨front, back, rfl⟩ := List.append_of_mem hbefore
  exact ⟨front, back, by simp [Nat.add_assoc], by simp [hnodes]⟩

theorem branchBlock_congr {branch branch' : NodeId → Nat → Emit Unit} (h : ∀ k, branch n.id k = branch' n.id k)
    (output : Output) (index : Nat) : e.branchBlock branch n output index = e.branchBlock branch' n output index := by
  unfold branchBlock
  rw [h]

theorem callNode_congr {branch branch' : NodeId → Nat → Emit Unit} (h : ∀ k, branch n.id k = branch' n.id k) :
    e.callNode branch n = e.callNode branch' n := by
  have hcompare (c : Comparison) : e.callCompare branch n c = e.callCompare branch' n c := by
    simp only [callCompare, branchBlock_congr h]
  have hswitch : e.callSwitch branch n = e.callSwitch branch' n := by
    simp only [callSwitch, branchBlock_congr h]
  simp only [callNode, hcompare, hswitch]

theorem emitBranch_congr {emit emit' : Node → Emit Unit} {c : NodeId} {k : Nat}
    (h : ∀ m ∈ branchNodes e.graph c k, emit m = emit' m) : e.emitBranch emit c k = e.emitBranch emit' c k := by
  have hloop := state_forM_map (φ := id) _ h
  rwa [List.map_id] at hloop

/-- How deep conditionals may stand inside of each other does not matter, as long as it is more than the nodes in front
of a node. -/
theorem emitNode_depth (hg : e.graph.InPlace) (depth : Nat) : ∀ {depth' before n after},
    e.graph.nodes = before ++ n :: after → before.length < depth → before.length < depth' →
      e.emitNode depth n = e.emitNode depth' n := by
  induction depth with
  | zero => exact fun _ h _ => absurd h (Nat.not_lt_zero _)
  | succ depth ih =>
    intro depth' before n after hnodes hdepth hdepth'
    obtain ⟨depth', rfl⟩ := Nat.exists_eq_succ_of_ne_zero (Nat.ne_zero_of_lt hdepth')
    rw [emitNode, emitNode]
    refine callNode_congr fun k => emitBranch_congr fun m hm => ?_
    -- a node in a branch stands further in front than the conditional, which reads it
    obtain ⟨front, back, hlength, hsplit⟩ := split_of_mem_branchNodes hg hm hnodes
    exact ih hsplit (by omega) (by omega)

/-- **The depth of a call suffices**: the code of a node consists of the code of its implementation and, in the branches,
of the code of the nodes there. -/
theorem call_eq (hg : e.graph.InPlace) (hn : n ∈ e.graph.nodes) :
    e.call n = e.callNode (e.emitBranch e.call) n := by
  rw [call, emitNode]
  refine callNode_congr fun k => emitBranch_congr fun m hm => ?_
  obtain ⟨before, after, hnodes⟩ := List.append_of_mem hn
  obtain ⟨front, back, -, hsplit⟩ := split_of_mem_branchNodes hg hm hnodes
  have hlength := congrArg List.length hsplit
  simp only [List.length_append, List.length_cons] at hlength
  exact emitNode_depth hg _ hsplit (by omega) (by omega)

/-! ## Where code may stand -/

/-- Where the code of a conditional may stand, the code of a node in one of its branches may stand behind the nodes
before it in the branch. -/
theorem Prepared.inside (hg : e.graph.Writable) (h : Prepared V e.graph n) {k : Nat} {before after : List Node}
    (hbranch : branchNodes e.graph n.id k = before ++ m :: after) :
    Prepared (fun x => V x ∨ ∃ b ∈ before, x ∈ (e.declarations b).map Declaration.name) e.graph m := by
  have hmem : m ∈ branchNodes e.graph n.id k := by rw [hbranch]; simp
  obtain ⟨hm, hscope⟩ := List.mem_filter.mp hmem
  have hreads := reads_of_mem_branchNodes hg.toInPlace hmem
  refine ⟨?_, ?_, ?_, fun s hs => Or.inl (h.sockets s hs)⟩
  · intro x hx hpath htop o ho
    exact Or.inl (h.outside x hx (hreads.trans hpath) htop o ho)
  · intro x hx hpath o ho
    have hpath' : TransGen e.graph.Reads m.id x.id := TransGen.mono (fun _ _ => Needs.reads) _ _ hpath
    rcases (hg.covers_of_needs hm hpath x hx rfl).isInBranch hscope with htop | hin
    · exact Or.inl (h.outside x hx (hreads.trans hpath') htop o ho)
    · exact Or.inr ⟨x, hg.mem_before_filter hbranch hx hin hpath', mem_declarations ho⟩
  · intro x hx hpath j hj hname
    exact Or.inl (h.published x hx (hreads.to_reflTransGen.trans hpath) j hj hname)

theorem Prepared.readable_branch (hg : e.graph.Writable) (hn : n ∈ e.graph.nodes) (h : Prepared V e.graph n) {k : Nat}
    (hk : n.inputs[k]? = some i) :
    Readable (fun x => V x ∨ x ∈ e.namesOf (branchNodes e.graph n.id k)) e.graph i := by
  cases hbranch : n.isBranch k with
  | false =>
    have hread := h.readable hg hn hk hbranch
    exact ⟨fun s o hs ho => Or.inl (hread.source s o hs ho), fun hname => Or.inl (hread.published hname)⟩
  | true =>
    refine ⟨source_shown (V := fun x => V x ∨ x ∈ e.namesOf (branchNodes e.graph n.id k))
      (fun s hs => Or.inl (h.sockets s hs)) ?_,
      fun hname => Or.inl (h.published n hn .refl i (List.mem_of_getElem? hk) hname)⟩
    intro m hm hsource o ho
    have hcovers := hg.scopes.covers n hn k i hk m hm hsource
    have hread : e.graph.Reads n.id m.id :=
      ⟨n, hg.distinct.node?_of_mem hn, mem_sources hk hsource, mem_ids_of_mem hm⟩
    obtain ⟨hbit, full, -, hpass⟩ := passOn_of_isBranch n.scope hbranch
    rw [hpass] at hcovers
    rcases hcovers.isInBranch_of_throughBranch hbit with htop | hin
    · exact Or.inl (h.outside m hm (.single hread) htop o ho)
    · exact Or.inr (mem_namesOf (List.mem_filter.mpr ⟨hm, hin⟩) ho)

theorem source_of_sampler? {type : DataType} {r : String × Nat} (h : sampler? n type = some r) :
    ∃ code, n.implementation = .source code := by
  unfold sampler? at h
  split at h
  · rename_i code index output hn _ _
    exact ⟨code, hn⟩
  · simp at h

theorem Prepared.readable_sampled (hg : e.graph.Writable) (hn : n ∈ e.graph.nodes) (h : Prepared V e.graph n) {k : Nat}
    (hk : n.inputs[k]? = some i) (hplain : n.isBranch k = false) {type : DataType} {texture : Node} {function : String}
    {index : Nat} (hsampled : e.sampled? i type = some (texture, function, index)) :
    ∀ j ∈ texture.inputs, Readable V e.graph j := by
  obtain ⟨id, hid, hsampled⟩ := Option.bind_eq_some_iff.mp hsampled
  obtain ⟨t, ht, hsampled⟩ := Option.bind_eq_some_iff.mp hsampled
  obtain ⟨⟨f, x⟩, hsampler, heq⟩ := Option.bind_eq_some_iff.mp hsampled
  obtain ⟨rfl, rfl, rfl⟩ : t = texture ∧ f = function ∧ x = index := by simpa using heq
  have htexture := mem_of_node? ht
  obtain rfl := id_of_node? ht
  have hneeds : e.graph.Needs n.id t.id :=
    ⟨n, k, i, hg.distinct.node?_of_mem hn, hk, hplain, hid, mem_ids_of_mem htexture⟩
  intro j hj
  obtain ⟨k', hk'⟩ := List.mem_iff_getElem?.mp hj
  refine ⟨source_shown h.sockets ?_, h.published t htexture (.single hneeds.reads) j hj⟩
  intro m hm hsource
  refine h.needed m hm ((TransGen.single hneeds).tail ?_)
  have hbranch := hg.no_branch_of_source htexture (source_of_sampler? hsampler) k'
  exact ⟨t, k', j, ht, hk', hbranch, hsource, mem_ids_of_mem hm⟩

theorem Prepared.canCall (hg : e.graph.Writable) (hn : n ∈ e.graph.nodes) (h : Prepared V e.graph n)
    {branch : NodeId → Nat → Emit Unit}
    (hbranch : ∀ k, Runs V (branch n.id k) (e.namesOf (branchNodes e.graph n.id k))) :
    e.CanCall (fun _ => True) (fun _ => True) (fun V m new => Runs V m (new.map Declaration.name)) V branch n := by
  have hplain (hconditional : ¬ n.implementation.IsConditional) (k : Nat) : n.isBranch k = false := by
    by_contra hbranch
    exact hconditional (hg.conditional n hn (Node.conditional_of_isBranch (by simpa using hbranch)))
  refine ⟨fun _ _ => trivial, ?_, ?_, fun k i hk => ⟨_, hbranch k, trivial, h.readable_branch hg hn hk⟩, ?_⟩
  · intro hconditional i hi
    obtain ⟨k, hk⟩ := List.mem_iff_getElem?.mp hi
    exact h.readable hg hn hk (hplain hconditional k)
  · intro i hi hname
    obtain ⟨k, hk⟩ := List.mem_iff_getElem?.mp hi
    refine h.readable hg hn hk ?_
    by_contra hbranch
    rw [Node.isBranchName_of_isBranch (by simpa using hbranch) hk] at hname
    cases hname
  · intro hconditional i hi type texture function index hsampled
    obtain ⟨k, hk⟩ := List.mem_iff_getElem?.mp hi
    exact ⟨trivial, h.readable_sampled hg hn hk (hplain hconditional k) hsampled⟩

/-- **The code of a node is well scoped where everything that it needs is in force.** -/
theorem runs_emitNode (hg : e.graph.Writable) (depth : Nat) :
    ∀ V n, n ∈ e.graph.nodes → Prepared V e.graph n →
      Runs V (e.emitNode depth n) ((e.declarations n).map Declaration.name) := by
  induction depth with
  | zero => exact fun _ _ _ _ => Emits.throw
  | succ depth ih =>
    intro V n hn h
    refine Runs.tracks.callNode (h.canCall hg hn fun k => Runs.tracks.forM _ V fun before m after hbranch => ?_)
    have hmem : m ∈ branchNodes e.graph n.id k := by rw [hbranch]; simp
    exact ih _ m (List.mem_filter.mp hmem).1 (h.inside hg hbranch)

/-- The code of all nodes is well scoped where the sockets and the uniforms of the graph are in force, and leaves what
drives the output sockets in force. -/
theorem runs_callAll (hg : e.graph.Writable) (hsockets : ∀ s ∈ e.graph.inputSockets, V s.variableName)
    (hpublished : ∀ m ∈ e.graph.nodes, e.graph.Feeds m.id → ∀ i ∈ m.inputs, i.variableName ≠ "" → V i.variableName) :
    ∃ new : List Declaration, Runs V e.callAll (new.map Declaration.name) ∧
      ∀ s ∈ e.graph.outputSockets, ∀ source output, s.source = some source →
        e.graph.output? source = some output → V output.variableName ∨ output.variableName ∈ new.map Declaration.name := by
  cases hreach : e.graph.reachable with
  | error error =>
    refine ⟨e.graph.nodes.flatMap e.declarations, ?_, ?_⟩
    · refine Emits.lift fun ids hids => ?_
      rw [hreach] at hids
      exact absurd hids (by simp)
    · intro s _
      exact source_shown (V := fun x => V x ∨ x ∈ e.namesOf e.graph.nodes) (fun s hs => Or.inl (hsockets s hs))
        fun m hm _ o ho => Or.inr (mem_namesOf hm ho)
  | ok ids =>
    let isTop : Node → Bool := fun n => ids.contains n.id && n.scope.isTopLevel
    have hmem : ∀ m, isTop m = true ↔ e.graph.Feeds m.id ∧ m.scope.isTopLevel = true := by
      intro m
      simp only [isTop, Bool.and_eq_true, List.contains_iff_mem, mem_reachable_iff hreach]
    refine ⟨(e.graph.nodes.filter isTop).flatMap e.declarations, ?_, ?_⟩
    · refine Emits.lift fun ids' hids => ?_
      obtain rfl : ids = ids' := by simpa [hreach] using hids
      refine Runs.tracks.forM _ V fun before n after hfilter => ?_
      have hin : n ∈ e.graph.nodes.filter isTop := by rw [hfilter]; simp
      obtain ⟨hn, htop⟩ := List.mem_filter.mp hin
      obtain ⟨hfeeds, htop⟩ := (hmem n).mp htop
      -- Everything that the node reads feeds an output socket, too.
      have hall : ∀ x, ReflTransGen e.graph.Reads n.id x → e.graph.Feeds x := by
        intro x hpath
        induction hpath with
        | refl => exact hfeeds
        | tail _ hread ih => exact ih.of_reads hread
      have hshown : ∀ m ∈ e.graph.nodes, TransGen e.graph.Reads n.id m.id → m.scope.isTopLevel = true →
          Shown (fun x => V x ∨ ∃ b ∈ before, x ∈ (e.declarations b).map Declaration.name) m := by
        intro m hm hpath hmtop o ho
        have hbefore := hg.mem_before_filter hfilter hm ((hmem m).mpr ⟨hall m.id hpath.to_reflTransGen, hmtop⟩) hpath
        exact Or.inr ⟨m, hbefore, mem_declarations ho⟩
      refine runs_emitNode hg _ _ n hn ⟨hshown, ?_, ?_, fun s hs => Or.inl (hsockets s hs)⟩
      · intro m hm hpath
        refine hshown m hm (TransGen.mono (fun _ _ => Needs.reads) _ _ hpath) ?_
        exact (hg.covers_of_needs hn hpath m hm rfl).isTopLevel htop
      · intro m hm hpath i hi hname
        exact Or.inl (hpublished m hm (hall m.id hpath) i hi hname)
    · intro s hs
      refine source_shown (V := fun x => V x ∨ x ∈ e.namesOf (e.graph.nodes.filter isTop))
        (fun s hs => Or.inl (hsockets s hs)) ?_
      intro m hm hsource o ho
      have hroot : m.id ∈ e.graph.roots := List.mem_filterMap.mpr ⟨s, hs, hsource⟩
      refine Or.inr (mem_namesOf (List.mem_filter.mpr ⟨hm, (hmem m).mpr ⟨?_, ?_⟩⟩) ho)
      · exact ⟨m.id, hroot, mem_ids_of_mem hm, .refl⟩
      · exact hg.scopes.rooted m hm hroot

end Surroundings
end ShadeGraph
