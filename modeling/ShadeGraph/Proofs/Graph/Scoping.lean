import Mathlib.Logic.Function.Basic
import ShadeGraph.Graph.Schedule
import ShadeGraph.Proofs.Graph.Schedule

/-!
# Scopes cover their readers

Walking a schedule backwards gives every node the scope that is made of what its readers need of it, and so one that
covers them: either the node stands outside of all branches, or it stands in every branch in which it is read. The scope
of a node is final once the node has been passed, since all its readers have been passed before.
-/

namespace ShadeGraph

namespace Scope

/-- Code placed by the first scope stands wherever the second one needs it. -/
def Covers : Scope → Scope → Prop
  | everywhere, _ => True
  | several, _ => True
  | branches c mask _, branches other needed _ => c = other ∧ needed ||| mask = mask
  | _, _ => False

variable {a b c : Scope} {conditional : NodeId} {mask full : Mask} {index : Nat}

theorem Covers.refl (h : a ≠ unknown) : a.Covers a := by
  cases a with
  | unknown => exact absurd rfl h
  | everywhere => trivial
  | branches c mask full => exact ⟨rfl, BitVec.or_self⟩
  | several => trivial

theorem Covers.trans (hab : a.Covers b) (hbc : b.Covers c) : a.Covers c := by
  cases a <;> cases b <;> cases c <;> simp only [Covers] at hab hbc ⊢
  obtain ⟨rfl, hab⟩ := hab
  obtain ⟨rfl, hbc⟩ := hbc
  refine ⟨rfl, ?_⟩
  rw [← hab, ← BitVec.or_assoc, hbc]

theorem merge_branches_covers {other : NodeId} {mask' full' needed : Mask} (full'' : Mask)
    (h : needed ||| (mask ||| mask') = mask ||| mask') :
    ((branches conditional mask full).merge (branches other mask' full')).Covers
      (branches conditional needed full'') := by
  by_cases hsame : conditional = other
  · by_cases hall : mask ||| mask' = full
    · simp [Scope.merge, hsame, hall, Covers]
    · simp [Scope.merge, hsame, hall, Covers, h]
  · simp [Scope.merge, hsame, Covers]

theorem Covers.merge (h : a.Covers c) (b : Scope) : (a.merge b).Covers c := by
  cases a with
  | unknown => exact h.elim
  | everywhere => cases b <;> trivial
  | several => cases b <;> trivial
  | branches conditional mask full =>
    cases b with
    | unknown => exact h
    | everywhere => trivial
    | several => trivial
    | branches other mask' full' =>
      cases c with
      | branches needing needed full'' =>
        obtain ⟨rfl, hsub⟩ := h
        exact merge_branches_covers full'' (by rw [← BitVec.or_assoc, hsub])
      | _ => exact h.elim

theorem covers_merge (a : Scope) (hb : b ≠ unknown) : (a.merge b).Covers b := by
  cases a with
  | unknown => exact Covers.refl hb
  | everywhere => cases b <;> trivial
  | several => cases b <;> trivial
  | branches c mask full =>
    cases b with
    | unknown => exact absurd rfl hb
    | everywhere => trivial
    | several => trivial
    | branches other mask' full' =>
      by_cases hsame : c = other
      · subst hsame
        exact merge_branches_covers _ (by rw [BitVec.or_comm, BitVec.or_assoc, BitVec.or_self])
      · simp [Scope.merge, hsame, Covers]

theorem Covers.isTopLevel (h : a.Covers b) (hb : b.isTopLevel) : a.isTopLevel := by
  cases a <;> cases b <;> simp_all [Covers, Scope.isTopLevel]

theorem mask_ne_zero_of_subset {needed mask bit : Mask} (hsub : needed ||| mask = mask) (hbit : needed &&& bit ≠ 0) :
    mask &&& bit ≠ 0 := by
  intro hzero
  rw [← hsub, BitVec.and_or_distrib_right] at hzero
  exact hbit (BitVec.or_eq_zero_iff.mp hzero).1

theorem Covers.isInBranch (h : a.Covers b) (hb : b.isInBranch conditional index) :
    a.isTopLevel = true ∨ a.isInBranch conditional index = true := by
  cases a <;> cases b <;> simp_all [Covers, Scope.isTopLevel, Scope.isInBranch]
  exact mask_ne_zero_of_subset h.2 hb.2

theorem Covers.isInBranch_of_throughBranch (h : a.Covers (b.throughBranch conditional index full))
    (hbit : branchBit index ≠ 0) : a.isTopLevel = true ∨ a.isInBranch conditional index = true := by
  have hself : (branches conditional (branchBit index) full).isInBranch conditional index = true := by
    simpa [Scope.isInBranch, BitVec.and_self] using hbit
  cases b with
  | unknown => exact Or.inl (h.isTopLevel rfl)
  | several => exact Or.inl (h.isTopLevel rfl)
  | everywhere => exact h.isInBranch hself
  | branches c mask own =>
    by_cases hall : mask = own
    · rw [Scope.throughBranch, if_pos hall] at h
      exact h.isInBranch hself
    · rw [Scope.throughBranch, if_neg hall] at h
      exact Or.inl (h.isTopLevel rfl)

theorem of_merge_eq_branches (h : a.merge b = branches conditional mask full) :
    (a = unknown ∧ b = branches conditional mask full) ∨ (b = unknown ∧ a = branches conditional mask full) ∨
      ∃ left right other, a = branches conditional left full ∧ b = branches conditional right other ∧
        mask = left ||| right := by
  cases a <;> cases b <;> simp_all [Scope.merge]
  grind

/-- The scope of a node that is needed wherever one of the scopes says. -/
def mergeAll (scopes : List Scope) : Scope := scopes.foldl merge unknown

theorem mergeAll_append (l l' : List Scope) : mergeAll (l ++ l') = l'.foldl merge (mergeAll l) := List.foldl_append

theorem mergeAll_concat (l : List Scope) (s : Scope) : mergeAll (l ++ [s]) = (mergeAll l).merge s :=
  mergeAll_append l [s]

theorem mergeAll_covers {l : List Scope} {s : Scope} (hs : s ∈ l) (hknown : s ≠ unknown) : (mergeAll l).Covers s := by
  induction l using List.reverseRecOn with
  | nil => cases hs
  | append_singleton l last ih =>
    rw [mergeAll_concat]
    rcases List.mem_append.mp hs with hs | hs
    · exact (ih hs).merge last
    · obtain rfl := List.mem_singleton.mp hs
      exact covers_merge _ hknown

theorem mergeAll_of_everywhere {l : List Scope} (h : everywhere ∈ l) : mergeAll l = everywhere := by
  induction l using List.reverseRecOn with
  | nil => cases h
  | append_singleton l last ih =>
    rw [mergeAll_concat]
    rcases List.mem_append.mp h with h | h
    · rw [ih h]
      cases last <;> rfl
    · obtain rfl := List.mem_singleton.mp h
      cases mergeAll l <;> rfl

theorem of_mergeAll_eq_branches {l : List Scope} (h : mergeAll l = branches conditional mask full) :
    ∃ first, branches conditional first full ∈ l := by
  induction l using List.reverseRecOn generalizing mask with
  | nil => cases h
  | append_singleton l last ih =>
    rw [mergeAll_concat] at h
    rcases of_merge_eq_branches h with ⟨-, rfl⟩ | ⟨-, hl⟩ | ⟨left, -, -, hl, -⟩
    · exact ⟨mask, by simp⟩
    · obtain ⟨first, hfirst⟩ := ih hl
      exact ⟨first, List.mem_append_left _ hfirst⟩
    · obtain ⟨first, hfirst⟩ := ih hl
      exact ⟨first, List.mem_append_left _ hfirst⟩

end Scope

theorem getLsbD_branchBit (index k : Nat) : (branchBit index).getLsbD k = true ↔ k < maxBranches ∧ index = k := by
  unfold branchBit maxBranches
  split <;> simp [BitVec.getLsbD_twoPow] <;> omega

theorem and_branchBit_eq_zero_iff {mask : Mask} {k : Nat} : mask &&& branchBit k = 0 ↔ mask.getLsbD k = false := by
  constructor
  · intro hzero
    by_contra hbit
    rw [Bool.not_eq_false] at hbit
    have hself : (branchBit k).getLsbD k = true := (getLsbD_branchBit k k).mpr ⟨BitVec.lt_of_getLsbD hbit, rfl⟩
    have hand : (mask &&& branchBit k).getLsbD k = true := by rw [BitVec.getLsbD_and, hbit, hself]; rfl
    simp [hzero] at hand
  · intro hbit
    refine BitVec.eq_of_getLsbD_eq fun j _ => ?_
    by_contra hne
    have hand : (mask &&& branchBit k).getLsbD j = true := by simpa using hne
    rw [BitVec.getLsbD_and, Bool.and_eq_true, getLsbD_branchBit] at hand
    obtain ⟨hj, -, rfl⟩ := hand
    rw [hbit] at hj
    cases hj

/-- The code of the node has a block for each of its branches. -/
def Implementation.IsConditional (i : Implementation) : Prop :=
  i = .procedural .switch ∨ ∃ c, i = .procedural (.compare c)

namespace Node

/-- Whether an input is a branch of a conditional. -/
def isBranch (n : Node) (index : Nat) : Bool :=
  match n.branchMask? with
  | some full => (full &&& branchBit index) != 0
  | none => false

theorem isBranch_eq_getLsbD {n : Node} {k : Nat} {full : Mask} (h : n.branchMask? = some full) :
    n.isBranch k = full.getLsbD k := by
  rw [Bool.eq_iff_iff, isBranch, h]
  simp only [bne_iff_ne, ne_eq, and_branchBit_eq_zero_iff, Bool.not_eq_false]

theorem conditional_of_isBranch {n : Node} {k : Nat} (h : n.isBranch k = true) : n.traits.has .conditional = true := by
  by_contra hn
  simp [isBranch, branchMask?, hn] at h

theorem getLsbD_branchBits (inputs : List Input) (k : Nat) :
    ∀ start, (branchBits start inputs).getLsbD k = true ↔
      k < maxBranches ∧ ∃ j i, k = start + j ∧ inputs[j]? = some i ∧ isBranchName i.name = true := by
  induction inputs with
  | nil => intro start; simp [branchBits]
  | cons i rest ih =>
    intro start
    have hhead : (if isBranchName i.name = true then branchBit start else 0).getLsbD k = true ↔
        k < maxBranches ∧ k = start ∧ isBranchName i.name = true := by
      by_cases hname : isBranchName i.name = true
      · rw [if_pos hname, getLsbD_branchBit]
        exact ⟨fun h => ⟨h.1, h.2.symm, hname⟩, fun h => ⟨h.1, h.2.1.symm⟩⟩
      · rw [if_neg hname]
        simp [hname]
    rw [branchBits, BitVec.getLsbD_or, Bool.or_eq_true, ih, hhead]
    constructor
    · rintro (⟨hk, rfl, hname⟩ | ⟨hk, j, i', rfl, hj, hname⟩)
      · exact ⟨hk, 0, i, rfl, rfl, hname⟩
      · exact ⟨hk, j + 1, i', by omega, hj, hname⟩
    · rintro ⟨hk, j, i', rfl, hj, hname⟩
      cases j with
      | zero => exact Or.inl ⟨hk, rfl, by simp_all⟩
      | succ j => exact Or.inr ⟨hk, j, i', by omega, by simpa using hj, hname⟩

theorem isBranch_eq_true_iff {n : Node} {k : Nat} :
    n.isBranch k = true ↔ n.traits.has .conditional = true ∧ k < maxBranches ∧
      ∃ i, n.inputs[k]? = some i ∧ isBranchName i.name = true := by
  by_cases hn : n.traits.has .conditional = true
  · have hmask : n.branchMask? = some (branchBits 0 n.inputs) := if_pos hn
    rw [isBranch_eq_getLsbD hmask, getLsbD_branchBits]
    simp [hn]
  · simp [isBranch, branchMask?, hn]

theorem isBranchName_of_isBranch {n : Node} {k : Nat} {i : Input} (h : n.isBranch k = true)
    (hi : n.inputs[k]? = some i) :
    isBranchName i.name = true := by
  obtain ⟨-, -, j, hj, hname⟩ := isBranch_eq_true_iff.mp h
  rw [hi] at hj
  exact Option.some.inj hj ▸ hname

end Node

namespace Graph

open Relation

variable {g : Graph} {id : NodeId} {n : Node} {scope : Scope} {index : Nat} {σ : NodeId → Scope}

/-! ## What a node passes on -/

theorem passOn_of_not_isBranch (h : n.isBranch index = false) : passOn n scope index = scope := by
  unfold passOn
  unfold Node.isBranch at h
  cases hmask : n.branchMask? with
  | none => rfl
  | some full => simp_all

theorem passOn_of_isBranch (scope : Scope) (h : n.isBranch index = true) :
    branchBit index ≠ 0 ∧
      ∃ full, n.branchMask? = some full ∧ passOn n scope index = scope.throughBranch n.id index full := by
  unfold passOn
  unfold Node.isBranch at h
  cases hmask : n.branchMask? with
  | none => simp [hmask] at h
  | some full =>
    simp only [hmask, bne_iff_ne, ne_eq] at h
    refine ⟨?_, full, rfl, if_pos (by simpa using h)⟩
    intro hzero
    exact h (by rw [hzero]; exact BitVec.and_zero)

theorem passOn_ne_unknown (h : scope ≠ .unknown) : passOn n scope index ≠ .unknown := by
  cases hbranch : n.isBranch index with
  | false => rwa [passOn_of_not_isBranch hbranch]
  | true =>
    obtain ⟨-, full, -, heq⟩ := passOn_of_isBranch scope hbranch
    rw [heq]
    cases scope with
    | unknown => exact absurd rfl h
    | branches c mask own => by_cases hall : mask = own <;> simp [Scope.throughBranch, hall]
    | _ => simp [Scope.throughBranch]

theorem of_passOn_eq_branches {c : NodeId} {mask full : Mask} (h : passOn n scope index = .branches c mask full) :
    (n.isBranch index = true ∧ n.id = c ∧ mask = branchBit index ∧ n.branchMask? = some full ∧
        (scope = .everywhere ∨ ∃ other all, scope = .branches other all all)) ∨
      (n.isBranch index = false ∧ scope = .branches c mask full) := by
  cases hbranch : n.isBranch index with
  | false =>
    rw [passOn_of_not_isBranch hbranch] at h
    exact Or.inr ⟨rfl, h⟩
  | true =>
    obtain ⟨-, own, hown, heq⟩ := passOn_of_isBranch scope hbranch
    rw [heq] at h
    refine Or.inl ⟨rfl, ?_⟩
    cases scope with
    | branches other mask' full' => by_cases hall : mask' = full' <;> simp_all [Scope.throughBranch]
    | everywhere => simp_all [Scope.throughBranch]
    | _ => simp [Scope.throughBranch] at h

/-! ## Graphs with given scopes -/

def withScopes (g : Graph) (σ : NodeId → Scope) : Graph :=
  { g with nodes := g.nodes.map fun n => { n with scope := σ n.id } }

theorem node?_withScopes (g : Graph) (σ : NodeId → Scope) (id : NodeId) :
    (g.withScopes σ).node? id = (g.node? id).map fun n => { n with scope := σ n.id } := by
  simp only [node?, withScopes, List.find?_map]
  rfl

theorem modifyNode_withScopes (g : Graph) (σ : NodeId → Scope) (id : NodeId) (f : Scope → Scope) :
    (g.withScopes σ).modifyNode id (fun n => { n with scope := f n.scope })
      = g.withScopes (Function.update σ id (f (σ id))) := by
  simp only [withScopes, modifyNode, List.map_map]
  congr 1
  apply List.map_congr_left
  intro n _
  by_cases hid : n.id = id
  · simp [hid]
  · simp [hid]

/-- What becomes of an assignment when the inputs from a position on pass on what they need. -/
def passed (needs : Nat → Scope) : (NodeId → Scope) → Nat → List Input → NodeId → Scope
  | σ, _, [] => σ
  | σ, index, i :: rest =>
    let σ :=
      match i.sourceNode? with
      | some id => Function.update σ id ((σ id).merge (needs index))
      | none => σ
    passed needs σ (index + 1) rest

variable {need : Nat → Scope}

theorem passAll_withScopes (g : Graph) (n : Node) (scope : Scope) (inputs : List Input) :
    ∀ (σ : NodeId → Scope) (index : Nat),
      passAll n scope (g.withScopes σ) index inputs = g.withScopes (passed (passOn n scope) σ index inputs) := by
  induction inputs with
  | nil => intro σ index; rfl
  | cons i rest ih =>
    intro σ index
    rw [passAll, passed]
    cases hsource : i.sourceNode? with
    | none => exact ih σ (index + 1)
    | some id =>
      simp only
      rw [widen, modifyNode_withScopes g σ id fun s => s.merge (passOn n scope index)]
      exact ih _ (index + 1)

/-- What the inputs from a position on need of a node. -/
def wanted (need : Nat → Scope) (id : NodeId) (index : Nat) (inputs : List Input) : List Scope :=
  (inputs.zipIdx index).filterMap fun (i, k) => if i.sourceNode? = some id then some (need k) else none

theorem mem_wanted {inputs : List Input} {s : Scope} :
    s ∈ wanted need id 0 inputs ↔ ∃ k i, inputs[k]? = some i ∧ i.sourceNode? = some id ∧ s = need k := by
  simp only [wanted, List.mem_filterMap, Prod.exists, List.mk_mem_zipIdx_iff_getElem?]
  constructor
  · rintro ⟨i, k, hk, hs⟩
    split at hs
    · exact ⟨k, i, hk, ‹_›, (Option.some.inj hs).symm⟩
    · cases hs
  · rintro ⟨k, i, hk, hsource, rfl⟩
    exact ⟨i, k, hk, if_pos hsource⟩

theorem wanted_of_not_mem {inputs : List Input} (hid : id ∉ inputs.filterMap Input.sourceNode?) :
    wanted need id 0 inputs = [] := by
  rw [List.eq_nil_iff_forall_not_mem]
  intro s hs
  obtain ⟨k, i, hk, hsource, -⟩ := mem_wanted.mp hs
  exact hid (List.mem_filterMap.mpr ⟨i, List.mem_of_getElem? hk, hsource⟩)

theorem passed_eq (inputs : List Input) :
    ∀ (σ : NodeId → Scope) (index : Nat),
      passed need σ index inputs id = (wanted need id index inputs).foldl Scope.merge (σ id) := by
  induction inputs with
  | nil => intro σ index; rfl
  | cons i rest ih =>
    intro σ index
    rw [passed, ih]
    simp only [wanted, List.zipIdx_cons, List.filterMap_cons]
    cases hsource : i.sourceNode? with
    | none => simp
    | some source =>
      by_cases hid : source = id
      · simp [hid]
      · simp [hid, Function.update_of_ne (Ne.symm hid)]

/-! ## Settling nodes -/

/-- The scope of a node that no reader is left to widen. -/
def final (scope : Scope) : Scope := if scope = .unknown then .everywhere else scope

theorem final_ne_unknown (scope : Scope) : final scope ≠ .unknown := by
  unfold final
  split <;> simp_all

theorem final_covers {s : Scope} (h : scope.Covers s) : (final scope).Covers s := by
  cases scope <;> simp_all [final, Scope.Covers]

theorem of_final_eq_branches {c : NodeId} {mask full : Mask} (h : final scope = .branches c mask full) :
    scope = .branches c mask full := by
  cases scope <;> simp_all [final]

/-- What becomes of an assignment when a node is settled. -/
def settled (n : Node) (σ : NodeId → Scope) : NodeId → Scope :=
  passed (passOn n (final (σ n.id))) (Function.update σ n.id (final (σ n.id))) 0 n.inputs

theorem settle_withScopes (hn : g.node? id = some n) : (g.withScopes σ).settle id = g.withScopes (settled n σ) := by
  obtain rfl := id_of_node? hn
  rw [settle, node?_withScopes, hn]
  simp only [Option.map_some]
  rw [modifyNode_withScopes g σ n.id fun _ => if σ n.id = .unknown then .everywhere else σ n.id]
  exact passAll_withScopes g _ _ n.inputs _ 0

theorem ids_withScopes (g : Graph) (σ : NodeId → Scope) : (g.withScopes σ).ids = g.ids := by
  simp [ids, withScopes, Function.comp_def]

def wants (n : Node) (id : NodeId) : List Scope := wanted (passOn n n.scope) id 0 n.inputs

/-- What nodes need of another one, the last of them first. -/
def wantsOf (nodes : List Node) (id : NodeId) : List Scope := nodes.reverse.flatMap fun n => wants n id

def socketWants (g : Graph) (id : NodeId) : List Scope := if id ∈ g.roots then [.everywhere] else []

/-- All that is needed of a node: by the output sockets, and by the nodes from the last one on. -/
def demand (g : Graph) (id : NodeId) : List Scope := g.socketWants id ++ wantsOf g.nodes id

theorem mem_wants {s : Scope} :
    s ∈ wants n id ↔ ∃ k i, n.inputs[k]? = some i ∧ i.sourceNode? = some id ∧ s = passOn n n.scope k := mem_wanted

theorem wants_of_not_mem (hid : id ∉ n.sources) : wants n id = [] := wanted_of_not_mem hid

theorem wantsOf_cons (n : Node) (nodes : List Node) (id : NodeId) :
    wantsOf (n :: nodes) id = wantsOf nodes id ++ wants n id := by
  simp [wantsOf]

theorem mem_wantsOf {nodes : List Node} {s : Scope} : s ∈ wantsOf nodes id ↔ ∃ n ∈ nodes, s ∈ wants n id := by
  simp [wantsOf]

theorem mem_demand {s : Scope} :
    s ∈ g.demand id ↔ (id ∈ g.roots ∧ s = .everywhere) ∨ ∃ n ∈ g.nodes, s ∈ wants n id := by
  rw [demand, List.mem_append, mem_wantsOf, socketWants]
  split <;> simp_all

/-- Every scope is made of what is needed of the node. -/
def Solved (g : Graph) : Prop := ∀ n ∈ g.nodes, n.scope = final (Scope.mergeAll (g.demand n.id))

def rescoped (σ : NodeId → Scope) (nodes : List Node) : List Node := nodes.map fun n => { n with scope := σ n.id }

theorem rescoped_congr {σ σ' : NodeId → Scope} {nodes : List Node} (h : ∀ n ∈ nodes, σ n.id = σ' n.id) :
    rescoped σ nodes = rescoped σ' nodes :=
  List.map_congr_left fun n hn => by rw [h n hn]

/-- Nodes that have been passed have their scopes, and the others what those need of them. -/
structure Walked (g : Graph) (done : List Node) (σ : NodeId → Scope) : Prop where
  passed : ∀ n ∈ done, σ n.id = final (Scope.mergeAll (g.socketWants n.id ++ wantsOf (rescoped σ done) n.id))
  ahead : ∀ id ∉ done.map Node.id, σ id = Scope.mergeAll (g.socketWants id ++ wantsOf (rescoped σ done) id)

theorem Walked.step (hg : g.Distinct) (hsched : g.Scheduled) {before after : List Node}
    (hnodes : g.nodes = before ++ n :: after) (h : g.Walked after σ) : g.Walked (n :: after) (settled n σ) := by
  have hids : (before.map Node.id ++ n.id :: after.map Node.id).Nodup := by
    have hnodup : g.ids.Nodup := hg
    rwa [ids, hnodes, List.map_append, List.map_cons] at hnodup
  have hnew : n.id ∉ after.map Node.id := (List.nodup_cons.mp (List.nodup_append.mp hids).2.1).1
  -- What the node reads stands before it.
  have hfront : ∀ m ∈ n :: after, m.id ∉ n.sources := by
    intro m hm hread
    have hm' : m ∈ g.nodes := by rw [hnodes]; exact List.mem_append_right _ hm
    have hbefore := List.mem_map_of_mem (f := Node.id) (hsched before n after hnodes m hm' hread)
    exact (List.nodup_append.mp hids).2.2 _ hbefore m.id (List.mem_map_of_mem hm) rfl
  have hsettled : ∀ id, settled n σ id
      = (wanted (passOn n (final (σ n.id))) id 0 n.inputs).foldl Scope.merge
        (Function.update σ n.id (final (σ n.id)) id) := fun id => passed_eq n.inputs _ 0
  have hself : settled n σ n.id = final (σ n.id) := by
    rw [hsettled, wanted_of_not_mem (hfront n List.mem_cons_self), List.foldl_nil, Function.update_self]
  have hsame : ∀ m ∈ after, settled n σ m.id = σ m.id := by
    intro m hm
    have hne : m.id ≠ n.id := fun hid => hnew (hid ▸ List.mem_map_of_mem hm)
    rw [hsettled, wanted_of_not_mem (hfront m (List.mem_cons_of_mem n hm)), List.foldl_nil,
      Function.update_of_ne hne]
  -- The nodes behind it need what they did, and it adds its own needs.
  have hwants : ∀ id, wantsOf (rescoped (settled n σ) (n :: after)) id
      = wantsOf (rescoped σ after) id ++ wanted (passOn n (final (σ n.id))) id 0 n.inputs := by
    intro id
    rw [rescoped, List.map_cons, wantsOf_cons, ← rescoped, rescoped_congr hsame, hself]
    rfl
  refine ⟨?_, ?_⟩
  · intro m hm
    rw [hwants, wanted_of_not_mem (hfront m hm), List.append_nil]
    rcases List.mem_cons.mp hm with rfl | hm
    · rw [hself, h.ahead m.id hnew]
    · rw [hsame m hm, h.passed m hm]
  · intro id hid
    rw [List.map_cons, List.mem_cons, not_or] at hid
    rw [hwants, ← List.append_assoc, Scope.mergeAll_append, ← h.ahead id hid.2, hsettled, Function.update_of_ne hid.1]

theorem walked_of_walk (hg : g.Distinct) (hsched : g.Scheduled) (hstart : g.Walked [] σ) (after : List Node) :
    ∀ before, g.nodes = before ++ after →
      ∃ σ', (after.map Node.id).reverse.foldl settle (g.withScopes σ) = g.withScopes σ' ∧ g.Walked after σ' := by
  induction after with
  | nil => intro before _; exact ⟨σ, rfl, hstart⟩
  | cons n after ih =>
    intro before hnodes
    obtain ⟨σ', hwalk, hσ'⟩ := ih (before ++ [n]) (by simpa using hnodes)
    refine ⟨settled n σ', ?_, hσ'.step hg hsched hnodes⟩
    have hn : g.node? n.id = some n := hg.node?_of_mem (by rw [hnodes]; simp)
    rw [List.map_cons, List.reverse_cons, List.foldl_append, hwalk, List.foldl_cons, settle_withScopes hn]
    rfl

theorem widen_roots (g : Graph) (roots : List NodeId) :
    ∀ σ : NodeId → Scope, (∀ id, σ id = .unknown ∨ σ id = .everywhere) →
      roots.foldl (fun g id => g.widen id .everywhere) (g.withScopes σ)
        = g.withScopes fun id => if id ∈ roots then .everywhere else σ id := by
  induction roots with
  | nil => intro σ _; simp
  | cons root rest ih =>
    intro σ hσ
    have hmerge : (σ root).merge .everywhere = .everywhere := by cases hσ root <;> simp_all [Scope.merge]
    rw [List.foldl_cons, widen, modifyNode_withScopes g σ root fun s => s.merge .everywhere, hmerge, ih]
    · congr 1
      funext id
      by_cases hid : id = root <;> simp [hid]
    · intro id
      by_cases hid : id = root
      · simp [hid]
      · simpa [Function.update_of_ne hid] using hσ id

/-- **Backwards over a schedule, every node gets the scope that is made of what is needed of it.** -/
theorem assignScopes_solved (hg : g.Distinct) (hsched : g.Scheduled) :
    ∃ σ, g.assignScopes = g.withScopes σ ∧ g.assignScopes.Solved := by
  have hstart : g.Walked [] fun id => if id ∈ g.roots then .everywhere else .unknown := by
    refine ⟨by simp, ?_⟩
    intro id _
    by_cases hid : id ∈ g.roots <;> simp [socketWants, hid, wantsOf, rescoped, Scope.mergeAll, Scope.merge]
  obtain ⟨σ, hwalk, hσ⟩ := walked_of_walk hg hsched hstart g.nodes [] rfl
  have heq : g.assignScopes = g.withScopes σ := by
    have hunfold : g.assignScopes = (fun h : Graph => h.ids.reverse.foldl settle h)
        (g.roots.foldl (fun g id => g.widen id .everywhere) (g.withScopes fun _ => .unknown)) := rfl
    rw [hunfold, widen_roots g g.roots _ fun _ => Or.inl rfl, ← hwalk]
    simp only [ids_withScopes]
    rfl
  refine ⟨σ, heq, ?_⟩
  rw [heq]
  intro n hn
  obtain ⟨n, hn', rfl⟩ := List.mem_map.mp hn
  exact hσ.passed n hn'

/-! ## From readers to what they read -/

/-- What holds of a node whenever it holds of all its readers holds of every node of a schedule. -/
theorem Scheduled.induction (hg : g.Distinct) (hsched : g.Scheduled) {P : Node → Prop}
    (step : ∀ n ∈ g.nodes, (∀ m ∈ g.nodes, n.id ∈ m.sources → P m) → P n) : ∀ n ∈ g.nodes, P n := by
  have hwalk : ∀ after before, g.nodes = before ++ after → ∀ n ∈ after, P n := by
    intro after
    induction after with
    | nil => intro before _ n hn; cases hn
    | cons n after ih =>
      intro before hnodes m hm
      have hrest := ih (before ++ [n]) (by simpa using hnodes)
      rcases List.mem_cons.mp hm with rfl | hm
      · have hmem : m ∈ g.nodes := by rw [hnodes]; simp
        refine step m hmem fun reader hreader hread => hrest reader ?_
        -- A node that is read stands before its reader, and only there.
        have hnodup : (before ++ m :: after).Nodup := hnodes ▸ List.Nodup.of_map Node.id hg
        have hnot : m ∉ before := fun h => (List.nodup_append.mp hnodup).2.2 m h m List.mem_cons_self rfl
        rw [hnodes] at hreader
        rcases List.mem_append.mp hreader with hbefore | hbehind
        · obtain ⟨front, back, rfl⟩ := List.append_of_mem hbefore
          have hfront := hsched front reader (back ++ m :: after) (by simpa using hnodes) m hmem hread
          exact absurd (List.mem_append_left _ hfront) hnot
        · rcases List.mem_cons.mp hbehind with rfl | hafter
          · exact absurd (hsched before reader after hnodes reader hmem hread) hnot
          · exact hafter
      · exact hrest m hm
  exact hwalk g.nodes [] rfl

/-- Every node stands where its readers need it: those outside of all branches have it before, and those inside of a
branch have it before or in the same branch. -/
structure Scoped (g : Graph) : Prop where
  covers : ∀ n ∈ g.nodes, ∀ k i, n.inputs[k]? = some i → ∀ m ∈ g.nodes, i.sourceNode? = some m.id →
    m.scope.Covers (passOn n n.scope k)
  rooted : ∀ m ∈ g.nodes, m.id ∈ g.roots → m.scope.isTopLevel = true
  inside : ∀ m ∈ g.nodes, ∀ c mask full, m.scope = .branches c mask full → TransGen g.Reads c m.id

theorem Scheduled.withScopes (h : g.Scheduled) (σ : NodeId → Scope) : (g.withScopes σ).Scheduled := by
  intro before n after hnodes m hm hread
  obtain ⟨before, rest, hsplit, rfl, hrest⟩ := List.map_eq_append_iff.mp hnodes
  obtain ⟨n, after, rfl, rfl, rfl⟩ := List.map_eq_cons_iff.mp hrest
  obtain ⟨m, hm', rfl⟩ := List.mem_map.mp hm
  exact List.mem_map_of_mem (h before n after hsplit m hm' hread)

theorem Solved.ne_unknown (h : g.Solved) (hn : n ∈ g.nodes) : n.scope ≠ .unknown := by
  rw [h n hn]
  exact final_ne_unknown _

theorem Solved.wants_ne_unknown (h : g.Solved) (hn : n ∈ g.nodes) {s : Scope} (hs : s ∈ wants n id) : s ≠ .unknown := by
  obtain ⟨k, i, -, -, rfl⟩ := mem_wants.mp hs
  exact passOn_ne_unknown (h.ne_unknown hn)

theorem Solved.demand_ne_unknown (h : g.Solved) {s : Scope} (hs : s ∈ g.demand id) : s ≠ .unknown := by
  rcases mem_demand.mp hs with ⟨-, rfl⟩ | ⟨m, hm, hs⟩
  · simp
  · exact h.wants_ne_unknown hm hs

theorem Solved.covers (h : g.Solved) (hn : n ∈ g.nodes) {s : Scope} (hs : s ∈ g.demand n.id) : n.scope.Covers s := by
  rw [h n hn]
  exact final_covers (Scope.mergeAll_covers hs (h.demand_ne_unknown hs))

theorem Solved.scoped (hg : g.Distinct) (hsched : g.Scheduled) (h : g.Solved) : g.Scoped := by
  refine ⟨?_, ?_, ?_⟩
  · intro n hn k i hk m hm hsource
    exact h.covers hm (mem_demand.mpr (Or.inr ⟨n, hn, mem_wants.mpr ⟨k, i, hk, hsource, rfl⟩⟩))
  · intro m hm hroot
    exact (h.covers hm (mem_demand.mpr (Or.inl ⟨hroot, rfl⟩))).isTopLevel rfl
  · -- A reader passes on its own conditional or the one that it stands in.
    refine hsched.induction hg ?_
    intro n hn ih c mask full hscope
    rw [h n hn] at hscope
    obtain ⟨first, hs⟩ := Scope.of_mergeAll_eq_branches (of_final_eq_branches hscope)
    rcases mem_demand.mp hs with ⟨-, hs⟩ | ⟨m, hm, hs⟩
    · cases hs
    · obtain ⟨k, i, hk, hsource, heq⟩ := mem_wants.mp hs
      have hread : n.id ∈ m.sources := mem_sources hk hsource
      have hreads : g.Reads m.id n.id := ⟨m, hg.node?_of_mem hm, hread, mem_ids_of_mem hn⟩
      rcases of_passOn_eq_branches heq.symm with ⟨-, rfl, -⟩ | ⟨-, hinside⟩
      · exact TransGen.single hreads
      · exact (ih m hm hread c first full hinside).tail hreads

/-- **Backwards over a schedule, every node gets a scope that covers its readers.** -/
theorem assignScopes_scoped (hg : g.Distinct) (hsched : g.Scheduled) :
    ∃ σ, g.assignScopes = g.withScopes σ ∧ g.assignScopes.Scoped := by
  obtain ⟨σ, heq, hsolved⟩ := assignScopes_solved hg hsched
  have hdistinct : (g.withScopes σ).Distinct := by rwa [Distinct, ids_withScopes]
  exact ⟨σ, heq, hsolved.scoped (heq ▸ hdistinct) (heq ▸ hsched.withScopes σ)⟩

end Graph
end ShadeGraph
