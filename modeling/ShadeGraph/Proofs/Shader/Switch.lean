import Mathlib.Algebra.Order.Archimedean.Real.Basic
import ShadeGraph.Proofs.Code.Chain
import ShadeGraph.Proofs.Graph.Branches
import ShadeGraph.Proofs.Graph.Build
import ShadeGraph.Proofs.Graph.Closed
import ShadeGraph.Proofs.Shader.Call

/-!
# The branch that a switch selects

A switch with the branches `in1` to `ink` writes a chain of tests that compare a number with 1, 2 and so on, and one
block for each branch. Running the chain executes just one block. Whether it is the one that is documented depends on
how the bounds are written: scientific notation without places shows eleven as ten, and then the numbers from ten on
miss the eleventh branch if there are more. With every other format, and with at most eleven branches, the block is the
right one.
-/

namespace ShadeGraph

open Code

/-! ## Switches -/

namespace Node

/-- Two nodes with inputs of the same names and code of the same kind. What they are connected to may differ. -/
structure SameKind (n m : Node) : Prop where
  traits : n.traits = m.traits
  implementation : n.implementation = m.implementation
  names : n.inputs.map Input.name = m.inputs.map Input.name

def branchNames (n : Node) : List String := (n.inputs.map Input.name).filter isBranchName

theorem branchIndices_eq (n : Node) :
    Surroundings.branchIndices n = (List.range n.inputs.length).filter n.isBranch := by
  unfold Surroundings.branchIndices
  refine List.filter_congr fun index _ => ?_
  unfold isBranch
  cases n.branchMask? with
  | none => simp
  | some full => rfl

theorem names_branchIndices {n : Node} (hn : n.traits.has .conditional = true) (hfew : n.inputs.length ≤ maxBranches) :
    (Surroundings.branchIndices n).map (fun index => n.inputs[index]?.map Input.name) = n.branchNames.map some := by
  have hname {index : Nat} (hindex : index < n.inputs.length) :
      n.inputs[index]?.map Input.name = some ((n.inputs.map Input.name).getD index "") := by
    simp [hindex]
  have hbranch {index : Nat} (hindex : index < n.inputs.length) :
      n.isBranch index = isBranchName ((n.inputs.map Input.name).getD index "") := by
    rw [Bool.eq_iff_iff, isBranch_iff fun _ => hfew, IsBranchInput]
    simp [hn, hindex]
  have hnames : n.inputs.map Input.name =
      (List.range n.inputs.length).map fun index => (n.inputs.map Input.name).getD index "" := by
    apply List.ext_getElem
    · simp
    · intro index hindex _
      simp [List.getElem?_eq_getElem (by simpa using hindex : index < n.inputs.length)]
  rw [branchNames, branchIndices_eq, hnames, List.filter_map, List.map_map]
  rw [List.filter_congr fun index hindex => hbranch (List.mem_range.mp hindex)]
  refine List.map_congr_left fun index hindex => ?_
  exact hname (List.mem_range.mp (List.mem_of_mem_filter hindex))

theorem SameKind.switch_made {r : Request} {build : NodeGraph → Build Graph} {scope : String} {made : NodeInstance}
    {t t' : BuildState} {n m : Node} (hmade : Build.node r (Build.compound r build) scope made t = .ok m t')
    (hsame : n.SameKind m) (hn : n.implementation = .procedural .switch) :
    n.traits.has .conditional = true ∧ n.inputs.length ≤ maxBranches := by
  have hlength : n.inputs.length = m.inputs.length := by simpa using congrArg List.length hsame.names
  have hconditional : m.traits.has .conditional = true := by
    obtain ⟨d, traits, how, _, _, _, -, htraits, hhow, -, -, rfl, -⟩ := Build.node_cases hmade
    have hswitch : how = .procedural .switch := hsame.implementation.symm.trans hn
    rcases Build.implementation_cases hhow with ⟨p, hfind, heq, -⟩ | ⟨-, ⟨code, -, heq, -⟩ | ⟨-, hentered⟩⟩
    · obtain rfl : p = .switch := by simpa using heq.symm.trans hswitch
      have hcategory : Procedural.switch.category = d.category := by simpa using List.find?_some hfind
      obtain ⟨type, rfl⟩ := Traits.ofNodeDef_cases htraits
      change (Traits.ofType type ∪ Traits.ofCategory d.category).has .conditional = true
      rw [Traits.has_conditional_ofType, ← hcategory]
      decide
    · cases heq.symm.trans hswitch
    · obtain ⟨_, _, _, -, -, -, heq, -⟩ := Build.compound_cases hentered
      cases heq.symm.trans hswitch
  rw [hsame.traits, hlength]
  exact ⟨hconditional, Build.inputs_le_of_node hmade hconditional⟩

end Node

/-! ## The code of a switch -/

/-- A step that appends some code to some stage. -/
def Writes (m : Emit Unit) (code : Code) : Prop := ∃ s s', m s = .ok () s' ∧ s'.code = s.code ++ code

theorem Emits.writes {m : Emit Unit} {Q : Code → Prop} (h : Emits m fun _ c => Q c) :
    Emits m fun _ c => Q c ∧ Writes m c := by
  intro s a s' hs
  obtain ⟨code, rfl, hQ, hrun⟩ := h s a s' hs
  exact ⟨code, rfl, ⟨hQ, s, _, hs, rfl⟩, hrun⟩

theorem Emits.forM {α : Type} {f : α → Emit Unit} {R : α → Code → Prop} (l : List α)
    (h : ∀ a ∈ l, Emits (f a) fun _ c => R a c) :
    Emits (l.forM f) fun _ c => ∃ codes, c = codes.flatten ∧ List.Forall₂ R l codes := by
  induction l with
  | nil => exact Emits.pure ⟨[], rfl, .nil⟩
  | cons a l ih =>
    refine Emits.bind (h a List.mem_cons_self) fun _ c hc => ?_
    refine Emits.mono (ih fun b hb => h b (List.mem_cons_of_mem a hb)) ?_
    rintro _ _ ⟨codes, rfl, hcodes⟩
    exact ⟨c :: codes, rfl, .cons hc hcodes⟩

namespace Surroundings

variable {e : Surroundings} {n : Node} {output : Output} {which : Code} {f : FloatFormat}

/-- What stands in the block of a branch: the code of the nodes that only this branch needs, and the assignment. -/
def branchBody (e : Surroundings) (n : Node) (output : Output) (index : Nat) (input : Input) : Emit Unit := do
  e.emitBranch (e.emitNode e.graph.nodes.length) n.id index
  let value ← e.value input
  Emit.statement (Code.assign [.writes output.variableName] value)

/-- The block that is written for the branch with some index, and the line in front of it. -/
structure SwitchArm (e : Surroundings) (n : Node) (output : Output) (head : Option Code) (index : Nat) where
  input : Input
  body : Code
  margin : Nat
  before : Nat
  behind : Nat
  input_eq : n.inputs[index]? = some input
  writes : Writes (e.branchBody n output index input) body
  layered : ∃ new, Layered (fun _ => True) body new

namespace SwitchArm

variable {head : Option Code} {index : Nat}

def line (a : SwitchArm e n output head index) : Code :=
  head.elim [] fun head => (.text (spaces a.margin) :: head) ++ [.text "\n"]

def code (a : SwitchArm e n output head index) : Code :=
  a.line ++ braced (spaces a.before) (spaces a.behind) a.body

end SwitchArm

theorem emits_branchBlock (head : Option Code) (margin index : Nat) :
    Emits (e.branchBlock (e.emitBranch (e.emitNode e.graph.nodes.length)) n output index)
      fun _ c => ∃ a : SwitchArm e n output head index, a.margin = margin ∧
        c = braced (spaces a.before) (spaces a.behind) a.body := by
  unfold branchBlock
  split
  · exact Emits.throw
  · rename_i input hinput
    have hbody : Lays (fun _ => True) (e.branchBody n output index input)
        ((branchNodes e.graph n.id index).flatMap e.declarations) := by
      refine Lays.tracks.seq_nil (V := fun _ => True)
        (Lays.tracks.forM _ (fun _ => True) fun _ m _ _ => lays_emitNode (fun _ _ => trivial) _ m) ?_
      refine Emits.lift fun value hvalue => Lays.tracks.statement (V := fun _ => True) ?_
      exact every_assign (every_nil.cons trivial) (every_value (readable_of_forall (fun _ => trivial) _ _) hvalue)
    refine Emits.mono (emits_indented_braces (Emits.writes hbody)) ?_
    rintro _ _ ⟨before, behind, body, rfl, hlayered, hwrites⟩
    exact ⟨⟨input, body, margin, before, behind, hinput, hwrites, _, hlayered⟩, rfl, rfl⟩

theorem emits_switchArm (e : Surroundings) (n : Node) (output : Output) (which : Code) (count index position : Nat) :
    Emits (do
      match switchHead e.format which count position with
      | some head => Emit.line head
      | none => pure ()
      e.branchBlock (e.emitBranch (e.emitNode e.graph.nodes.length)) n output index)
    fun _ c => ∃ a : SwitchArm e n output (switchHead e.format which count position) index, c = a.code := by
  cases switchHead e.format which count position with
  | none =>
    refine Emits.mono (emits_branchBlock none 0 index) ?_
    rintro _ _ ⟨a, -, rfl⟩
    exact ⟨a, rfl⟩
  | some head =>
    refine Emits.bind (emits_indented head) fun _ _ hline => ?_
    obtain ⟨margin, rfl⟩ := hline
    refine Emits.mono (emits_branchBlock (some head) margin index) ?_
    rintro _ _ ⟨a, rfl, rfl⟩
    exact ⟨a, by simp [SwitchArm.code, SwitchArm.line]⟩

/-- The code of a switch: the declaration of its variable, and an arm for each branch. -/
theorem callSwitch_cases {s s' : Stage}
    (h : e.callSwitch (e.emitBranch (e.emitNode e.graph.nodes.length)) n s = .ok () s') :
    ∃ output which declaration codes, n.outputs = [output] ∧ e.valueOf n "which" = .ok which ∧
      e.language.declareDefault output = .ok declaration ∧
      s'.code = (s.statement declaration).code ++ codes.flatten ∧
      List.Forall₂ (fun (branch : Nat × Nat) code => ∃ a : SwitchArm e n output
        (switchHead e.format which (branchIndices n).length branch.2) branch.1, code = a.code)
        (branchIndices n).zipIdx codes := by
  obtain ⟨output, _, hlift, h₁⟩ := state_bind_eq_ok.mp h
  obtain ⟨houtput, rfl⟩ := state_lift_eq_ok.mp hlift
  obtain ⟨which, _, hlift₁, h₂⟩ := state_bind_eq_ok.mp h₁
  obtain ⟨hwhich, rfl⟩ := state_lift_eq_ok.mp hlift₁
  obtain ⟨declaration, _, hlift₂, h₃⟩ := state_bind_eq_ok.mp h₂
  obtain ⟨hdeclaration, rfl⟩ := state_lift_eq_ok.mp hlift₂
  obtain ⟨_, _, hstatement, hrest⟩ := state_bind_eq_ok.mp h₃
  obtain rfl := state_modify_eq_ok.mp hstatement
  have harms := Emits.forM (branchIndices n).zipIdx fun branch _ =>
    emits_switchArm e n output which (branchIndices n).length branch.1 branch.2
  obtain ⟨_, rfl, ⟨codes, rfl, hcodes⟩, -⟩ := harms _ _ _ hrest
  exact ⟨output, which, declaration, codes, outputs_of_onlyOutput houtput, hwhich, hdeclaration, rfl, hcodes⟩

/-! ## Reading a switch -/

theorem isBlank_spaces (width : Nat) : (Token.text (spaces width)).isBlank = true := by
  simp [Token.isBlank, spaces]

/-- What decides about the branch at a position among so many. -/
def branchGuard (f : FloatFormat) (count position : Nat) : Guard :=
  let bound := f.shown (Single.ofNat (position + 1))
  if position + 1 = count then if 0 < position then .otherwise else .always
  else if position = 0 then .ifLess bound
  else .elseIfLess bound

/-- The bounds of the tests of a switch with so many branches. -/
def branchBounds (f : FloatFormat) (count : Nat) : List ℚ :=
  (List.range (count - 1)).map fun position => f.shown (Single.ofNat (position + 1))

theorem map_branchGuard {count : Nat} (hcount : 0 < count) :
    (List.range count).map (branchGuard f count) = Guard.chain (branchBounds f count) := by
  obtain ⟨last, rfl⟩ : ∃ last, count = last + 1 := ⟨count - 1, by omega⟩
  cases last with
  | zero => rfl
  | succ last =>
    have hne (j : Nat) (hj : j < last) : j ≠ last := by omega
    rw [List.range_succ_eq_map, List.range_succ]
    simpa [branchBounds, List.range_succ_eq_map, Guard.chain, branchGuard] using hne

theorem readNumber?_bound (f : FloatFormat) {m : Nat} (hm : m < 32) :
    Number.readNumber? (f.format (Single.ofNat m)).toList = some (f.shown (Single.ofNat m)) := by
  have hfinite : ∀ m < 32, (Single.ofNat m).isFinite = true := by decide
  rw [FloatFormat.format, String.toList_ofList]
  exact FloatFormat.readNumber?_chars f (hfinite m hm) rfl

namespace SwitchArm

variable {head : Option Code} {index : Nat}

theorem inert_line (a : SwitchArm e n output head index) (h : ∀ line ∈ head, Every Token.IsInert line) :
    Every Token.IsInert a.line := by
  cases head with
  | none => exact every_nil
  | some line => exact ((h line rfl).cons trivial).append (every_plain "\n")

/-- An arm that has been read as the one of a branch. -/
structure Reads (a : SwitchArm e n output head index) (arm : Arm) : Prop where
  head_eq : ∃ front, (∀ t ∈ front, t.isBlank = true) ∧ arm.head = front ++ a.line ++ [.text (spaces a.before)]
  block_eq : arm.block = .text "\n" :: (a.body ++ [.text (spaces a.behind)])

theorem Reads.strip {a : SwitchArm e n output head index} {arm : Arm} (h : a.Reads arm)
    (hfirst : ∀ line ∈ head, ∀ t ∈ line.head?, t.isBlank = false)
    (hlast : ∀ line ∈ head, ∀ t ∈ line.getLast?, t.isBlank = false) : arm.head.strip = head.getD [] := by
  obtain ⟨front, hfront, heq⟩ := h.head_eq
  have hspaces (width : Nat) : (Token.text (spaces width)).isBlank = true := isBlank_spaces width
  cases head with
  | none =>
    rw [heq]
    have hback : ∀ t ∈ [Token.text (spaces a.before)], t.isBlank = true := List.forall_mem_singleton.mpr (hspaces _)
    have hnil : ∀ t ∈ ([] : Code).head?, t.isBlank = false := by simp
    simpa [line] using strip_eq hfront hback hnil hnil
  | some head =>
    have hmore : ∀ t ∈ front ++ [.text (spaces a.margin)], t.isBlank = true := by
      simpa [or_imp, forall_and, hspaces] using hfront
    have hback : ∀ t ∈ [Token.text "\n", .text (spaces a.before)], t.isBlank = true := by
      rw [List.forall_mem_cons, List.forall_mem_singleton]
      exact ⟨rfl, hspaces a.before⟩
    rw [heq]
    simpa [line] using strip_eq hmore hback (hfirst head rfl) (hlast head rfl)

end SwitchArm

theorem isBlank_getLast?_test {start rest : String} (hrest : (Token.text rest).isBlank = false) :
    ∀ t ∈ (Token.text start :: (which ++ [.text rest])).getLast?, t.isBlank = false := by
  rw [← List.cons_append, List.getLast?_concat]
  simpa using hrest

theorem SwitchArm.Reads.guard {count index position : Nat}
    {a : SwitchArm e n output (switchHead e.format which count position) index} {arm : Arm} (h : a.Reads arm)
    (hposition : position < count) (hcount : count ≤ 32) :
    Guard.read? which arm.head = some (branchGuard e.format count position) := by
  have hbound (hlast : position + 1 ≠ count) := readNumber?_bound e.format (by omega : position + 1 < 32)
  have hblank (text : String) : (Token.text (" < " ++ text ++ ")")).isBlank = false := by simp [Token.isBlank]
  have hstrip := h.strip
  unfold switchHead branchGuard at *
  dsimp only at *
  split_ifs at * with hlast hpositive hfirst
  · exact Guard.read?_otherwise (hstrip (by simp [Token.isBlank]) (by simp [Token.isBlank]))
  · exact Guard.read?_always (hstrip (by simp) (by simp))
  · refine Guard.read?_ifLess (hbound hlast) (hstrip (by simp [Token.isBlank]) ?_)
    rintro _ ⟨⟩
    exact isBlank_getLast?_test (hblank _)
  · refine Guard.read?_elseIfLess (hbound hlast) (hstrip (by simp [Token.isBlank]) ?_)
    rintro _ ⟨⟩
    exact isBlank_getLast?_test (hblank _)

 /-- The arms of the branches are read one after another. -/
theorem foldl_arms {count : Nat} (hwhich : Every Token.IsInert which) {branches : List (Nat × Nat)} {codes : List Code}
    (h : List.Forall₂ (fun branch code => ∃ a : SwitchArm e n output
      (switchHead e.format which count branch.2) branch.1, code = a.code) branches codes) :
    ∀ read head, (∀ t ∈ head, t.isBlank = true) →
      ∃ arms, (codes.flatten.foldl ArmReader.step ⟨read, head, [], 0⟩).arms = read ++ arms ∧
        List.Forall₂ (fun branch arm => ∃ a : SwitchArm e n output
          (switchHead e.format which count branch.2) branch.1, a.Reads arm) branches arms := by
  -- The induction is on the branches; from the second one on, the line break behind the block before stands in front of
  -- the head.
  induction h with
  | nil => exact fun read head _ => ⟨[], by simp, .nil⟩
  | @cons branch code branches codes harm _ ih =>
    intro read head hhead
    obtain ⟨a, rfl⟩ := harm
    obtain ⟨new, hlayered⟩ := a.layered
    have hline := a.inert_line fun _ hline => Emit.Tracks.every_switchHead hwhich hline
    rw [List.flatten_cons, List.foldl_append, SwitchArm.code, ArmReader.foldl_arm hline hlayered]
    obtain ⟨arms, harms, hreads⟩ := ih (read ++ [⟨head ++ a.line ++ [.text (spaces a.before)],
      .text "\n" :: (a.body ++ [.text (spaces a.behind)])⟩]) [.text "\n"] (by simp [Token.isBlank])
    refine ⟨_ :: arms, by rw [harms, List.append_assoc, List.singleton_append], .cons ⟨a, ?_⟩ hreads⟩
    exact ⟨⟨head, hhead, rfl⟩, rfl⟩

theorem mapM_read? {count : Nat} (hcount : count ≤ 32) {branches : List (Nat × Nat)} {arms : List Arm}
    (h : List.Forall₂ (fun branch arm => ∃ a : SwitchArm e n output
      (switchHead e.format which count branch.2) branch.1, a.Reads arm) branches arms)
    (hpositions : ∀ branch ∈ branches, branch.2 < count) :
    arms.mapM (fun arm => Guard.read? which arm.head) =
      some (branches.map fun branch => branchGuard e.format count branch.2) := by
  induction h with
  | nil => rfl
  | cons harm _ ih =>
    obtain ⟨a, hreads⟩ := harm
    obtain ⟨hposition, hrest⟩ := List.forall_mem_cons.mp hpositions
    simp [hreads.guard hposition hcount, ih hrest]

open Classical in
/-- **Running a switch.** Its code is read as one arm for each branch, and executes the first branch whose bound the
number stays below, or the last one. -/
theorem executes_switch {codes : List Code} (hwhich : Every Token.IsInert which) (hsome : 0 < (branchIndices n).length)
    (hfew : (branchIndices n).length ≤ 32)
    (h : List.Forall₂ (fun (branch : Nat × Nat) code => ∃ a : SwitchArm e n output
      (switchHead e.format which (branchIndices n).length branch.2) branch.1, code = a.code)
      (branchIndices n).zipIdx codes) :
    List.Forall₂ (fun (branch : Nat × Nat) arm => ∃ a : SwitchArm e n output
      (switchHead e.format which (branchIndices n).length branch.2) branch.1, a.Reads arm)
      (branchIndices n).zipIdx (Code.arms codes.flatten) ∧
    ∀ w : ℝ, Code.executes codes.flatten which w =
      some [(branchBounds e.format (branchIndices n).length).findIdx fun (t : ℚ) => w < t] := by
  obtain ⟨arms, harms, hreads⟩ := foldl_arms hwhich h [] [] (by simp)
  have harms : Code.arms codes.flatten = arms := harms
  have hpositions : ∀ branch ∈ (branchIndices n).zipIdx, branch.2 < (branchIndices n).length := fun branch hbranch => by
    simpa using List.snd_lt_of_mem_zipIdx hbranch
  have hguards : (branchIndices n).zipIdx.map (fun branch => branchGuard e.format (branchIndices n).length branch.2) =
      Guard.chain (branchBounds e.format (branchIndices n).length) := by
    rw [← map_branchGuard hsome, List.range_eq_range', ← List.zipIdx_map_snd 0, List.map_map]
    rfl
  rw [harms]
  refine ⟨hreads, fun w => ?_⟩
  rw [executes, harms, mapM_read? hfew hreads hpositions, hguards, Option.bind_some, Guard.run_chain]

/-! ## The documented branch -/

/-- The branch that is documented for a number, among so many: `in` with the number `m` from `m - 1` on and below `m`,
the first one below zero, and the last one from their count on. -/
def IsBranchFor (count : Nat) (w : ℝ) (m : Nat) : Prop :=
  1 ≤ m ∧ m ≤ count ∧ ((m - 1 ≤ w ∧ w < m) ∨ (w < 0 ∧ m = 1) ∨ (count ≤ w ∧ m = count))

theorem exists_isBranchFor {count : Nat} (hcount : 0 < count) (w : ℝ) : ∃ m, IsBranchFor count w m := by
  rcases lt_or_ge w 0 with hneg | hnonneg
  · exact ⟨1, le_rfl, hcount, .inr (.inl ⟨hneg, rfl⟩)⟩
  rcases lt_or_ge w count with hlt | hge
  · have hfloor : ⌊w⌋₊ < count := (Nat.floor_lt hnonneg).mpr hlt
    refine ⟨⌊w⌋₊ + 1, by omega, hfloor, .inl ⟨?_, ?_⟩⟩
    · simpa using Nat.floor_le hnonneg
    · simpa using Nat.lt_floor_add_one w
  · exact ⟨count, hcount, le_rfl, .inr (.inr ⟨hge, rfl⟩)⟩

open Classical in
theorem findIdx_branchBounds {count m : Nat} {w : ℝ} (hshown : ∀ m < count, f.shown (Single.ofNat m) = m)
    (h : IsBranchFor count w m) : (branchBounds f count).findIdx (fun (t : ℚ) => w < t) = m - 1 := by
  obtain ⟨hpos, hle, hcases⟩ := h
  have hlength : (branchBounds f count).length = count - 1 := by simp [branchBounds]
  have hbound {j : Nat} (hj : j < (branchBounds f count).length) :
      (((branchBounds f count)[j] : ℚ) : ℝ) = ((j + 1 : Nat) : ℝ) := by
    simp only [branchBounds, List.getElem_map, List.getElem_range, hshown (j + 1) (by omega), Rat.cast_natCast]
  have hbelow {j : Nat} (hj : j + 1 < m) : ((j + 1 : Nat) : ℝ) ≤ w := by
    have hcast : ((j + 1 : Nat) : ℝ) + 1 ≤ m := by exact_mod_cast hj
    rcases hcases with ⟨hlow, -⟩ | ⟨-, rfl⟩ | ⟨hhigh, rfl⟩
    · linarith
    · omega
    · linarith
  rcases hle.eq_or_lt with rfl | hlt
  · rw [← hlength]
    refine List.findIdx_eq_length.mpr fun t ht => ?_
    obtain ⟨j, hj, rfl⟩ := List.getElem_of_mem ht
    rw [decide_eq_false_iff_not, hbound hj, not_lt]
    exact hbelow (by omega)
  · have hm : m - 1 < (branchBounds f count).length := by omega
    refine (List.findIdx_eq hm).mpr ⟨?_, fun j hj => ?_⟩
    · rw [decide_eq_true_eq, hbound hm, Nat.sub_add_cancel hpos]
      rcases hcases with ⟨-, hhigh⟩ | ⟨hneg, rfl⟩ | ⟨-, rfl⟩
      · exact hhigh
      · simpa using hneg.trans one_pos
      · omega
    · rw [decide_eq_false_iff_not, hbound (hj.trans hm), not_lt]
      exact hbelow (by omega)

open Classical in
/-- A number between ten and eleven misses the eleventh branch where the bound of that branch is shown as ten. -/
theorem findIdx_branchBounds_ne {count : Nat} (hcount : 11 < count) (hshown : f.shown (Single.ofNat 11) = 10) :
    (branchBounds f count).findIdx (fun (t : ℚ) => (21 / 2 : ℝ) < t) ≠ 10 := by
  have hlength : 10 < (branchBounds f count).length := by
    simp only [branchBounds, List.length_map, List.length_range]
    omega
  intro h
  have hlt := ((List.findIdx_eq hlength).mp h).1
  simp only [branchBounds, List.getElem_map, List.getElem_range, hshown, decide_eq_true_eq] at hlt
  norm_num at hlt

/-- **A switch selects the documented branch exactly if its bounds can be told apart.** The code of a switch that has
been made, with the branches `in1` to `ink`, declares its variable and goes on with a chain that has a block for each
branch, in their order. For every number just one block is executed. It is the documented one for all numbers unless
numbers are shown in scientific notation without places and there are more than eleven branches. -/
theorem switch_selects_documented_iff {r : Request} {build : NodeGraph → Build Graph} {scope : String}
    {made : NodeInstance} {t t' : BuildState} {m n : Node} {k : Nat} {s s' : Stage}
    (hmade : Build.node r (Build.compound r build) scope made t = .ok m t') (hsame : n.SameKind m)
    (hn : n.implementation = .procedural .switch) (hk : 0 < k)
    (hnames : n.branchNames = (List.range k).map fun j => "in" ++ toString (j + 1)) (h : e.call n s = .ok () s') :
    ∃ output which declaration chain, n.outputs = [output] ∧ e.valueOf n "which" = .ok which ∧
      e.language.declareDefault output = .ok declaration ∧ s'.code = (s.statement declaration).code ++ chain ∧
      (Code.arms chain).length = k ∧
      (∀ j < k, ∃ index input arm body behind, n.inputs[index]? = some input ∧
        input.name = "in" ++ toString (j + 1) ∧ (Code.arms chain)[j]? = some arm ∧
        arm.block = .text "\n" :: (body ++ [.text (spaces behind)]) ∧
        Writes (e.branchBody n output index input) body) ∧
      (∀ w : ℝ, ∃ j < k, chain.executes which w = some [j]) ∧
      (∀ w : ℝ, ∃ j, IsBranchFor k w j) ∧
      ((∀ w j, IsBranchFor k w j → chain.executes which w = some [j - 1]) ↔
        e.format.mode ≠ .scientific ∨ e.format.precision ≠ 0 ∨ k ≤ 11) := by
  classical
  obtain ⟨hconditional, hinputs⟩ := hsame.switch_made hmade hn
  have hindices := Node.names_branchIndices hconditional hinputs
  rw [hnames, List.map_map] at hindices
  obtain rfl : (branchIndices n).length = k := by simpa using congrArg List.length hindices
  have hfew : (branchIndices n).length ≤ 32 := by
    rw [Node.branchIndices_eq]
    exact (List.length_filter_le _ _).trans (List.length_range.trans_le hinputs)
  have hcall : e.callSwitch (e.emitBranch (e.emitNode e.graph.nodes.length)) n s = .ok () s' := by
    rw [call, emitNode, callNode, hn] at h
    exact h
  obtain ⟨output, which, declaration, codes, houtput, hwhich, hdeclaration, hcode, hcodes⟩ := callSwitch_cases hcall
  have hinert : Every Token.IsInert which := every_valueOf (fun i _ _ => readable_of_forall (fun _ => trivial) _ i) hwhich
  obtain ⟨hreads, hexecutes⟩ := executes_switch hinert hk hfew hcodes
  have hlength : (Code.arms codes.flatten).length = (branchIndices n).length := by
    simpa using hreads.length_eq.symm
  refine ⟨output, which, declaration, codes.flatten, houtput, hwhich, hdeclaration, hcode, hlength, fun j hj => ?_,
    fun w => ⟨_, ?_, hexecutes w⟩, exists_isBranchFor hk, fun hall => ?_, fun hformat w j hj => ?_⟩
  · have harm : j < (Code.arms codes.flatten).length := by omega
    obtain ⟨a, hread⟩ := (List.forall₂_iff_get.mp hreads).2 j (by simpa using hj) harm
    have hname : n.inputs[(branchIndices n)[j]]?.map Input.name = some ("in" ++ toString (j + 1)) := by
      simpa [hj] using congrArg (·[j]?) hindices
    have hinput : n.inputs[(branchIndices n)[j]]? = some a.input := by simpa using a.input_eq
    rw [hinput] at hname
    exact ⟨_, a.input, _, a.body, a.behind, a.input_eq, Option.some.inj hname, List.getElem?_eq_getElem harm,
      hread.block_eq, a.writes⟩
  · refine List.findIdx_le_length.trans_lt ?_
    simp only [branchBounds, List.length_map, List.length_range]
    omega
  · by_contra hformat
    simp only [ne_eq, not_or, not_not, not_le] at hformat
    obtain ⟨hmode, hprecision, hmany⟩ := hformat
    have heleven : IsBranchFor (branchIndices n).length (21 / 2) 11 :=
      ⟨by norm_num, hmany.le, .inl ⟨by norm_num, by norm_num⟩⟩
    have heq := (hexecutes _).symm.trans (hall _ _ heleven)
    exact findIdx_branchBounds_ne hmany (FloatFormat.shown_eleven hmode hprecision) (by simpa using heq)
  · rw [hexecutes, findIdx_branchBounds (fun m hm => ?_) hj]
    refine FloatFormat.shown_ofNat (hm.trans_le hfew) ?_
    rcases hformat with hmode | hprecision | hle
    · exact .inl hmode
    · exact .inr (.inl hprecision)
    · exact .inr (.inr (by omega))

instance (implementation : Implementation) (p : Procedural) : Decidable (implementation = .procedural p) :=
  match implementation with
  | .procedural q => decidable_of_iff (q = p) (by simp)
  | .compound .. | .source _ => .isFalse (by simp)

/-- A switch is defined with twelve branches. -/
def dozen : Request :=
  { generator := { language := .osl }
    document :=
      { nodedefs :=
          [{ name := "ND_switch", category := "switch"
             inputs := ((List.range 12).map fun j => { name := "in" ++ toString (j + 1), typeName := "float" }) ++
               [{ name := "which", typeName := "float" }]
             outputs := [{ name := "out", typeName := "float" }] }] } }

/-- The switch, where numbers are written in scientific notation without places. -/
def rounded : Surroundings :=
  { language := .osl
    format := { mode := .scientific, precision := 0 }
    graph :=
      { name := "g", nodedef := none, traits := .texture, nodes := [], inputSockets := [], outputSockets := [] } }

/-- In scientific notation without places, a switch with twelve branches executes one block for each number, and not
always the documented one. -/
theorem dozen_misses_branch : ∃ m t' s' which chain,
    Build.node dozen (Build.compound dozen fun _ => throw (.cycle "" [])) "g"
      { name := "s", category := "switch", typeName := "float" } {} = .ok m t' ∧
    rounded.call m {} = .ok () s' ∧ rounded.valueOf m "which" = .ok which ∧
    (∀ w : ℝ, ∃ j < 12, Code.executes chain which w = some [j]) ∧
    ∃ w j, IsBranchFor 12 w j ∧ Code.executes chain which w ≠ some [j - 1] := by
  obtain ⟨m, t', hmade, hn, hnames, s', hcall⟩ := Build.exists_ok_of_check
    (Build.node dozen (Build.compound dozen fun _ => throw (.cycle "" [])) "g"
      { name := "s", category := "switch", typeName := "float" }) {}
    (fun m _ => m.implementation = .procedural .switch ∧
      m.branchNames = (List.range 12).map (fun j => "in" ++ toString (j + 1)) ∧ ∃ s', rounded.call m {} = .ok () s')
    (by decide +kernel)
  obtain ⟨_, which, _, chain, -, hwhich, -, -, -, -, hone, -, hiff⟩ :=
    switch_selects_documented_iff hmade ⟨rfl, rfl, rfl⟩ hn (by decide) hnames hcall
  have hmiss := mt hiff.mp (by decide)
  simp only [not_forall] at hmiss
  obtain ⟨w, j, hj, hne⟩ := hmiss
  exact ⟨m, t', s', which, chain, hmade, hcall, hwhich, hone, w, j, hj, hne⟩

end Surroundings
end ShadeGraph
