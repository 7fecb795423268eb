import ShadeGraph.Proofs.Graph.Scoping

/-!
# Scopes name the branches that need a node

The scope of a node is inside of some branches of a conditional exactly when nothing else needs the node: each of its
readers is the conditional itself, at one of these branches, or stands inside of some of them. Every way from such a
node to an output socket then enters one of these branches.

What the readers need of a node is a list of scopes, and the scope of the node is their merger. So all that is to be
known is when a merger is inside of a conditional, and the rest follows from the readers to what they read.
-/

namespace ShadeGraph

namespace Scope

variable {c : NodeId} {mask full : Mask} {l : List Scope} {k : Nat}

theorem isInBranch_branches {other : NodeId} :
    (branches other mask full).isInBranch c k = true ↔ other = c ∧ mask.getLsbD k = true := by
  simp only [isInBranch, Bool.and_eq_true, beq_iff_eq, bne_iff_ne, ne_eq, and_branchBit_eq_zero_iff, Bool.not_eq_false]

theorem parts_of_mergeAll_eq_branches (hl : ∀ s ∈ l, s ≠ unknown) (h : mergeAll l = branches c mask full) :
    (∀ s ∈ l, ∃ part own, s = branches c part own) ∧
      ∀ k, mask.getLsbD k = true ↔ ∃ s ∈ l, s.isInBranch c k = true := by
  induction l using List.reverseRecOn generalizing mask with
  | nil => cases h
  | append_singleton l last ih =>
    have hlast : last ≠ unknown := hl last (by simp)
    have hfront : ∀ s ∈ l, s ≠ unknown := fun s hs => hl s (List.mem_append_left _ hs)
    rw [mergeAll_concat] at h
    rcases of_merge_eq_branches h with ⟨hnone, rfl⟩ | ⟨hnone, -⟩ | ⟨left, right, own, hleft, rfl, rfl⟩
    · -- Only an empty merger is unknown.
      obtain rfl : l = [] := by
        rw [List.eq_nil_iff_forall_not_mem]
        intro s hs
        have hcovers := mergeAll_covers hs (hfront s hs)
        rw [hnone] at hcovers
        exact hcovers.elim
      simp [isInBranch_branches]
    · exact absurd hnone hlast
    · obtain ⟨hparts, hbits⟩ := ih hfront hleft
      refine ⟨?_, ?_⟩
      · intro s hs
        rcases List.mem_append.mp hs with hs | hs
        · exact hparts s hs
        · exact ⟨right, own, List.mem_singleton.mp hs⟩
      · intro k
        rw [BitVec.getLsbD_or, Bool.or_eq_true, hbits]
        simp only [List.mem_append, List.mem_singleton, or_and_right, exists_or, exists_eq_left, isInBranch_branches,
          true_and]

theorem mergeAll_of_parts (hl : l ≠ []) (hparts : ∀ s ∈ l, ∃ part, s = branches c part full) :
    (∃ mask, mergeAll l = branches c mask full) ∨
      mergeAll l = everywhere ∧ ∀ k, full.getLsbD k = true → ∃ s ∈ l, s.isInBranch c k = true := by
  induction l using List.reverseRecOn with
  | nil => exact absurd rfl hl
  | append_singleton l last ih =>
    obtain ⟨right, rfl⟩ := hparts last (by simp)
    have hfront : ∀ s ∈ l, ∃ part, s = branches c part full := fun s hs => hparts s (List.mem_append_left _ hs)
    rw [mergeAll_concat]
    by_cases hnil : l = []
    · subst hnil
      exact Or.inl ⟨right, rfl⟩
    rcases ih hnil hfront with ⟨left, hleft⟩ | ⟨hleft, hbits⟩
    · rw [hleft]
      by_cases hall : left ||| right = full
      · refine Or.inr ⟨by simp [merge, hall], ?_⟩
        intro k hk
        have hknown : ∀ s ∈ l, s ≠ unknown := by
          intro s hs
          obtain ⟨part, rfl⟩ := hfront s hs
          simp
        rw [← hall, BitVec.getLsbD_or, Bool.or_eq_true] at hk
        rcases hk with hk | hk
        · obtain ⟨s, hs, hbit⟩ := ((parts_of_mergeAll_eq_branches hknown hleft).2 k).mp hk
          exact ⟨s, List.mem_append_left _ hs, hbit⟩
        · exact ⟨branches c right full, by simp, isInBranch_branches.mpr ⟨rfl, hk⟩⟩
      · exact Or.inl ⟨left ||| right, by simp [merge, hall]⟩
    · refine Or.inr ⟨by rw [hleft]; rfl, ?_⟩
      intro k hk
      obtain ⟨s, hs, hbit⟩ := hbits k hk
      exact ⟨s, List.mem_append_left _ hs, hbit⟩

end Scope

namespace Node

def ReadsAt (m : Node) (k : Nat) (id : NodeId) : Prop := ∃ i, m.inputs[k]? = some i ∧ i.sourceNode? = some id

/-- An input is a branch if its node is a conditional and its name is that of a branch. -/
def IsBranchInput (m : Node) (k : Nat) : Prop :=
  m.traits.has .conditional = true ∧ ∃ i, m.inputs[k]? = some i ∧ isBranchName i.name = true

/-- An input needs what it reads only in some branches of a conditional: it is one of the branches, or it is none and
its node stands inside of them. -/
def NeedsIn (m : Node) (k : Nat) (c : NodeId) (full needed : Mask) : Prop :=
  (m.id = c ∧ m.IsBranchInput k ∧ needed = branchBit k) ∨ (¬ m.IsBranchInput k ∧ m.scope = .branches c needed full)

/-- The node stands outside of all branches, or in all branches of a conditional: its own branches can hold code. -/
def IsOpen (m : Node) : Prop := m.scope = .everywhere ∨ ∃ c full, m.scope = .branches c full full

theorem isBranch_iff {n : Node} {k : Nat} (hsmall : n.traits.has .conditional = true → n.inputs.length ≤ maxBranches) :
    n.isBranch k = true ↔ n.IsBranchInput k := by
  rw [isBranch_eq_true_iff, IsBranchInput]
  constructor
  · rintro ⟨hn, -, hname⟩
    exact ⟨hn, hname⟩
  · rintro ⟨hn, i, hi, hname⟩
    obtain ⟨hk, -⟩ := List.getElem?_eq_some_iff.mp hi
    exact ⟨hn, by have := hsmall hn; omega, i, hi, hname⟩

end Node

namespace Graph

variable {g h : Graph} {n m : Node} {id c : NodeId} {mask full : Mask} {k : Nat}

/-- A way from a node to an output socket, as the inputs that it enters. -/
inductive WayOut (g : Graph) : NodeId → List (Node × Nat) → Prop
  | socket {id : NodeId} : id ∈ g.roots → WayOut g id []
  | enter {id : NodeId} {m : Node} {k : Nat} {way : List (Node × Nat)} :
    m ∈ g.nodes → m.ReadsAt k id → WayOut g m.id way → WayOut g id ((m, k) :: way)

/-- The branches of a conditional whose own place lets them hold code. -/
def Branching (g : Graph) (c : NodeId) (full : Mask) : Prop :=
  ∃ m ∈ g.nodes, m.id = c ∧ m.branchMask? = some full ∧ m.IsOpen

/-- A node is needed by the branches of a mask and by nothing else. -/
structure NeededOnlyBy (g : Graph) (id : NodeId) (c : NodeId) (mask full : Mask) : Prop where
  conditional : g.Branching c full
  noSocket : id ∉ g.roots
  read : ∃ m ∈ g.nodes, ∃ k, m.ReadsAt k id
  edges : ∀ m ∈ g.nodes, ∀ k, m.ReadsAt k id → ∃ needed, m.NeedsIn k c full needed ∧ needed ||| mask = mask
  union : ∀ bit, mask.getLsbD bit = true ↔
    ∃ m ∈ g.nodes, ∃ k, m.ReadsAt k id ∧ ∃ needed, m.NeedsIn k c full needed ∧ needed.getLsbD bit = true

/-- A conditional has a bit for each of its branches. -/
def HasFewBranches (g : Graph) : Prop :=
  ∀ n ∈ g.nodes, n.traits.has .conditional = true → n.inputs.length ≤ maxBranches

theorem or_eq_right_iff {part mask : Mask} :
    part ||| mask = mask ↔ ∀ k, part.getLsbD k = true → mask.getLsbD k = true := by
  constructor
  · intro h k hk
    rw [← h, BitVec.getLsbD_or, hk]
    rfl
  · intro h
    refine BitVec.eq_of_getLsbD_eq fun k _ => ?_
    rw [BitVec.getLsbD_or]
    cases hk : part.getLsbD k with
    | false => rfl
    | true => simp [h k hk]

theorem mem_demand_iff {s : Scope} :
    s ∈ g.demand id ↔ (id ∈ g.roots ∧ s = .everywhere) ∨
      ∃ m ∈ g.nodes, ∃ k, m.ReadsAt k id ∧ s = passOn m m.scope k := by
  rw [mem_demand]
  simp only [mem_wants, Node.ReadsAt]
  grind

theorem Branching.unique (hg : g.Distinct) {own : Mask} (h : g.Branching c full) (hown : g.Branching c own) :
    own = full := by
  obtain ⟨m, hm, hmid, hmfull, -⟩ := h
  obtain ⟨n, hn, hnid, hnown, -⟩ := hown
  obtain rfl := hg.eq_of_id hm hn (hmid.trans hnid.symm)
  exact Option.some.inj (hnown.symm.trans hmfull)

section Solved

variable (hg : g.Distinct) (hsched : g.Scheduled) (hfew : g.HasFewBranches) (hsolved : g.Solved)

/-! ## What an input needs -/

include hg hsched hsolved in
theorem Solved.branching : ∀ n ∈ g.nodes, ∀ c mask full, n.scope = .branches c mask full →
    g.Branching c full ∧ mask ||| full = full := by
  refine hsched.induction hg ?_
  intro n hn ih c mask full hscope
  have hmerge : Scope.mergeAll (g.demand n.id) = .branches c mask full :=
    of_final_eq_branches ((hsolved n hn).symm.trans hscope)
  obtain ⟨hparts, hbits⟩ := Scope.parts_of_mergeAll_eq_branches (fun s hs => hsolved.demand_ne_unknown hs) hmerge
  have hpart : ∀ part own, Scope.branches c part own ∈ g.demand n.id → g.Branching c own ∧ part ||| own = own := by
    intro part own hmem
    rcases mem_demand_iff.mp hmem with ⟨-, hs⟩ | ⟨m, hm, k, ⟨i, hk, hsource⟩, hpass⟩
    · cases hs
    · rcases of_passOn_eq_branches hpass.symm with ⟨hbranch, hid, rfl, hown, hopen⟩ | ⟨-, hinside⟩
      · refine ⟨⟨m, hm, hid, hown, hopen⟩, or_eq_right_iff.mpr fun j hj => ?_⟩
        obtain ⟨-, rfl⟩ := (getLsbD_branchBit k j).mp hj
        rwa [← Node.isBranch_eq_getLsbD hown]
      · exact ih m hm (mem_sources hk hsource) c part own hinside
  obtain ⟨first, hfirst⟩ := Scope.of_mergeAll_eq_branches hmerge
  have hfull := (hpart first full hfirst).1
  refine ⟨hfull, or_eq_right_iff.mpr fun j hj => ?_⟩
  obtain ⟨s, hs, hbit⟩ := (hbits j).mp hj
  obtain ⟨part, own, rfl⟩ := hparts s hs
  obtain ⟨hown, hwithin⟩ := hpart part own hs
  obtain rfl := hfull.unique hg hown
  exact or_eq_right_iff.mp hwithin j (Scope.isInBranch_branches.mp hbit).2

include hg hsched hsolved in
theorem Solved.branching_of_passOn {needed : Mask} (hm : m ∈ g.nodes)
    (h : passOn m m.scope k = .branches c needed full) : g.Branching c full := by
  rcases of_passOn_eq_branches h with ⟨-, hid, -, hfull, hopen⟩ | ⟨-, hinside⟩
  · exact ⟨m, hm, hid, hfull, hopen⟩
  · exact (hsolved.branching hg hsched m hm c needed full hinside).1

include hg hfew in
theorem passOn_of_needsIn {needed : Mask} (hfull : g.Branching c full) (hm : m ∈ g.nodes)
    (h : m.NeedsIn k c full needed) : passOn m m.scope k = .branches c needed full := by
  have hiff := Node.isBranch_iff (k := k) (hfew m hm)
  rcases h with ⟨hid, hbranch, rfl⟩ | ⟨hplain, hscope⟩
  · obtain ⟨n, hn, hnid, hnfull, hopen⟩ := hfull
    obtain rfl := hg.eq_of_id hm hn (hid.trans hnid.symm)
    obtain ⟨-, own, hown, hpass⟩ := passOn_of_isBranch m.scope (hiff.mpr hbranch)
    obtain rfl := Option.some.inj (hown.symm.trans hnfull)
    rw [hpass, hid]
    rcases hopen with hopen | ⟨other, all, hopen⟩ <;> simp [hopen, Scope.throughBranch]
  · rw [passOn_of_not_isBranch (by simpa using hiff.not.mpr hplain), hscope]

include hfew in
theorem needsIn_of_passOn {needed : Mask} (hm : m ∈ g.nodes) (h : passOn m m.scope k = .branches c needed full) :
    m.NeedsIn k c full needed := by
  have hiff := Node.isBranch_iff (k := k) (hfew m hm)
  rcases of_passOn_eq_branches h with ⟨hbranch, hid, hneeded, -⟩ | ⟨hplain, hscope⟩
  · exact Or.inl ⟨hid, hiff.mp hbranch, hneeded⟩
  · exact Or.inr ⟨hiff.not.mp (by simp [hplain]), hscope⟩

include hg hsched hfew hsolved in
theorem isInBranch_passOn_iff (hfull : g.Branching c full) (hm : m ∈ g.nodes) {bit : Nat} :
    (passOn m m.scope k).isInBranch c bit = true ↔ ∃ needed, m.NeedsIn k c full needed ∧ needed.getLsbD bit = true := by
  constructor
  · intro h
    cases hpass : passOn m m.scope k with
    | branches other needed own =>
      rw [hpass] at h
      obtain ⟨rfl, hbit⟩ := Scope.isInBranch_branches.mp h
      obtain rfl := hfull.unique hg (hsolved.branching_of_passOn hg hsched hm hpass)
      exact ⟨needed, needsIn_of_passOn hfew hm hpass, hbit⟩
    | _ => simp [hpass, Scope.isInBranch] at h
  · rintro ⟨needed, hneeds, hbit⟩
    rw [passOn_of_needsIn hg hfew hfull hm hneeds]
    exact Scope.isInBranch_branches.mpr ⟨rfl, hbit⟩

include hg hsched hfew hsolved in
theorem isInBranch_demand_iff (hfull : g.Branching c full) {bit : Nat} :
    (∃ s ∈ g.demand id, s.isInBranch c bit = true) ↔
      ∃ m ∈ g.nodes, ∃ k, m.ReadsAt k id ∧ ∃ needed, m.NeedsIn k c full needed ∧ needed.getLsbD bit = true := by
  constructor
  · rintro ⟨s, hs, hbit⟩
    rcases mem_demand_iff.mp hs with ⟨-, rfl⟩ | ⟨m, hm, k, hread, rfl⟩
    · simp [Scope.isInBranch] at hbit
    · exact ⟨m, hm, k, hread, (isInBranch_passOn_iff hg hsched hfew hsolved hfull hm).mp hbit⟩
  · rintro ⟨m, hm, k, hread, hneeded⟩
    exact ⟨_, mem_demand_iff.mpr (Or.inr ⟨m, hm, k, hread, rfl⟩),
      (isInBranch_passOn_iff hg hsched hfew hsolved hfull hm).mpr hneeded⟩

/-! ## What a scope says -/

include hsolved in
theorem Solved.everywhere_of_mem_roots (hn : n ∈ g.nodes) (hroot : n.id ∈ g.roots) : n.scope = .everywhere := by
  rw [hsolved n hn, Scope.mergeAll_of_everywhere (mem_demand_iff.mpr (Or.inl ⟨hroot, rfl⟩))]
  rfl

include hg hsched hfew hsolved in
/-- The scope of a node inside of a conditional says what its readers need. -/
theorem Solved.neededOnlyBy (hn : n ∈ g.nodes) (hscope : n.scope = .branches c mask full) :
    g.NeededOnlyBy n.id c mask full := by
  have hmerge : Scope.mergeAll (g.demand n.id) = .branches c mask full :=
    of_final_eq_branches ((hsolved n hn).symm.trans hscope)
  obtain ⟨hparts, hbits⟩ := Scope.parts_of_mergeAll_eq_branches (fun s hs => hsolved.demand_ne_unknown hs) hmerge
  have hfull := (hsolved.branching hg hsched n hn c mask full hscope).1
  have hunion := fun bit => (hbits bit).trans (isInBranch_demand_iff hg hsched hfew hsolved hfull)
  refine ⟨hfull, ?_, ?_, ?_, hunion⟩
  · intro hroot
    obtain ⟨part, own, hs⟩ := hparts _ (mem_demand_iff.mpr (Or.inl ⟨hroot, rfl⟩))
    cases hs
  · obtain ⟨first, hfirst⟩ := Scope.of_mergeAll_eq_branches hmerge
    rcases mem_demand_iff.mp hfirst with ⟨-, hs⟩ | ⟨m, hm, k, hread, -⟩
    · cases hs
    · exact ⟨m, hm, k, hread⟩
  · intro m hm k hread
    have hmem := mem_demand_iff.mpr (Or.inr ⟨m, hm, k, hread, rfl⟩)
    obtain ⟨needed, own, hpass⟩ := hparts _ hmem
    obtain rfl := hfull.unique hg (hsolved.branching_of_passOn hg hsched hm hpass)
    refine ⟨needed, needsIn_of_passOn hfew hm hpass, or_eq_right_iff.mpr fun bit hbit => ?_⟩
    exact (hunion bit).mpr ⟨m, hm, k, hread, needed, needsIn_of_passOn hfew hm hpass, hbit⟩

include hg hsched hfew hsolved in
/-- What only some branches of a conditional need stands inside of them. -/
theorem Solved.scope_of_neededOnlyBy (hn : n ∈ g.nodes) (h : g.NeededOnlyBy n.id c mask full) (hsome : mask ≠ full) :
    n.scope = .branches c mask full := by
  have hbits : ∀ bit, mask.getLsbD bit = true ↔ ∃ s ∈ g.demand n.id, s.isInBranch c bit = true :=
    fun bit => (h.union bit).trans (isInBranch_demand_iff hg hsched hfew hsolved h.conditional).symm
  have hparts : ∀ s ∈ g.demand n.id, ∃ part, s = .branches c part full := by
    intro s hs
    rcases mem_demand_iff.mp hs with ⟨hroot, -⟩ | ⟨m, hm, k, hread, rfl⟩
    · exact absurd hroot h.noSocket
    · obtain ⟨needed, hneeds, -⟩ := h.edges m hm k hread
      exact ⟨needed, passOn_of_needsIn hg hfew h.conditional hm hneeds⟩
  have hread : g.demand n.id ≠ [] := by
    obtain ⟨m, hm, k, hread⟩ := h.read
    exact List.ne_nil_of_mem (mem_demand_iff.mpr (Or.inr ⟨m, hm, k, hread, rfl⟩))
  rcases Scope.mergeAll_of_parts hread hparts with ⟨mask', hmerge⟩ | ⟨-, hall⟩
  · have hbits' := (Scope.parts_of_mergeAll_eq_branches (fun s hs => hsolved.demand_ne_unknown hs) hmerge).2
    have hmask : mask' = mask := BitVec.eq_of_getLsbD_eq fun bit _ => by
      rw [Bool.eq_iff_iff, hbits', hbits]
    rw [hsolved n hn, hmerge, hmask]
    rfl
  · -- The readers fill all branches, and none needs more.
    have hwithin : mask ||| full = full := by
      refine or_eq_right_iff.mpr fun bit hbit => ?_
      obtain ⟨m, hm, k, hread, needed, hneeds, hneeded⟩ := (h.union bit).mp hbit
      rcases hneeds with ⟨hid, hbranch, rfl⟩ | ⟨-, hscope⟩
      · obtain ⟨C, hC, hCid, hCfull, -⟩ := h.conditional
        obtain rfl := hg.eq_of_id hm hC (hid.trans hCid.symm)
        obtain ⟨-, rfl⟩ := (getLsbD_branchBit k bit).mp hneeded
        rw [← Node.isBranch_eq_getLsbD hCfull]
        exact (Node.isBranch_iff (hfew m hm)).mpr hbranch
      · exact or_eq_right_iff.mp (hsolved.branching hg hsched m hm c needed full hscope).2 bit hneeded
    have hfilled : full ||| mask = mask := or_eq_right_iff.mpr fun bit hbit => (hbits bit).mpr (hall bit hbit)
    exact absurd (by rw [← hfilled, BitVec.or_comm, hwithin]) hsome

include hg hsched hfew hsolved in
/-- Every way out of the branches of a scope enters one of them. -/
theorem Solved.wayOut_enters {way : List (Node × Nat)} (hway : g.WayOut id way) :
    ∀ n ∈ g.nodes, n.id = id → ∀ mask, n.scope = .branches c mask full →
      ∃ m k, (m, k) ∈ way ∧ m.id = c ∧ m.IsBranchInput k ∧ mask.getLsbD k = true := by
  induction hway with
  | socket hroot =>
    intro n hn hid mask hscope
    exact absurd (hid ▸ hroot) (hsolved.neededOnlyBy hg hsched hfew hn hscope).noSocket
  | @enter id m k way hm hread _ ih =>
    intro n hn hid mask hscope
    obtain ⟨needed, hneeds, hsub⟩ := (hsolved.neededOnlyBy hg hsched hfew hn hscope).edges m hm k (hid ▸ hread)
    rcases hneeds with ⟨hc, hbranch, rfl⟩ | ⟨-, hinside⟩
    · refine ⟨m, k, List.mem_cons_self, hc, hbranch, or_eq_right_iff.mp hsub k ?_⟩
      obtain ⟨-, hk, -⟩ := Node.isBranch_eq_true_iff.mp ((Node.isBranch_iff (hfew m hm)).mpr hbranch)
      exact (getLsbD_branchBit k k).mpr ⟨hk, rfl⟩
    · obtain ⟨m', k', hmem, hc, hbranch, hbit⟩ := ih m hm rfl needed hinside
      exact ⟨m', k', List.mem_cons_of_mem _ hmem, hc, hbranch, or_eq_right_iff.mp hsub k' hbit⟩

end Solved

/-! ## Sorted graphs -/

theorem assignScopes_of_sort (hg : g.Distinct) (hsort : g.sort = .ok h) :
    ∃ σ, h.assignScopes = h.withScopes σ ∧ h.assignScopes.Distinct ∧ h.assignScopes.Scheduled ∧
      h.assignScopes.Solved := by
  obtain ⟨hperm, hrest, hsched, -⟩ := isSortOf_of_sort hg hsort
  obtain ⟨σ, heq, hsolved⟩ := assignScopes_solved (hg.perm hperm) hsched
  have hdistinct : (h.withScopes σ).Distinct := by
    rw [Distinct, ids_withScopes]
    exact hg.perm hperm
  exact ⟨σ, heq, heq ▸ hdistinct, heq ▸ hsched.withScopes σ, hsolved⟩

/-- **Scopes say which branches need a node.** After sorting, every node gets a scope that is known, what drives an
output socket is needed everywhere, and a scope inside of a conditional lists exactly the branches by which the node is
needed: they are all that its readers need, and every way to an output socket enters one of them. Conversely, a node
that some but not all branches of a conditional need, and nothing else, stands inside of these. -/
theorem scopes_name_branches (g h : Graph) (hg : g.Distinct) (hfew : g.HasFewBranches) (hsort : g.sort = .ok h) :
    (∀ n ∈ g.nodes, ∃ scope, h.assignScopes.node? n.id = some { n with scope }) ∧
    ∀ n ∈ h.assignScopes.nodes,
      n.scope ≠ .unknown ∧ (n.id ∈ g.roots → n.scope = .everywhere) ∧
      ∀ c mask full,
        (n.scope = .branches c mask full →
          h.assignScopes.NeededOnlyBy n.id c mask full ∧
          ∀ way, h.assignScopes.WayOut n.id way →
            ∃ m k, (m, k) ∈ way ∧ m.id = c ∧ m.IsBranchInput k ∧ mask.getLsbD k = true) ∧
        (h.assignScopes.NeededOnlyBy n.id c mask full → mask ≠ full → n.scope = .branches c mask full) := by
  obtain ⟨hperm, hrest, -, -⟩ := isSortOf_of_sort hg hsort
  obtain ⟨σ, heq, hdistinct, hsched, hsolved⟩ := assignScopes_of_sort hg hsort
  have hroots : h.assignScopes.roots = g.roots := by rw [heq, hrest]; rfl
  have hfew' : h.assignScopes.HasFewBranches := by
    intro n hn
    rw [heq] at hn
    obtain ⟨m, hm, rfl⟩ := List.mem_map.mp hn
    exact hfew m (hperm.subset hm)
  refine ⟨?_, ?_⟩
  · intro n hn
    refine ⟨σ n.id, hdistinct.node?_of_mem (n := { n with scope := σ n.id }) ?_⟩
    rw [heq]
    exact List.mem_map_of_mem (hperm.symm.subset hn)
  · intro n hn
    refine ⟨hsolved.ne_unknown hn, fun hroot => hsolved.everywhere_of_mem_roots hn (hroots ▸ hroot), ?_⟩
    intro c mask full
    refine ⟨fun hscope => ⟨hsolved.neededOnlyBy hdistinct hsched hfew' hn hscope, fun way hway => ?_⟩, ?_⟩
    · exact hsolved.wayOut_enters hdistinct hsched hfew' hway n hn rfl mask hscope
    · exact hsolved.scope_of_neededOnlyBy hdistinct hsched hfew' hn

/-- A choice of three values: the first two read the same node, and the third reads what makes the choice. -/
def fork : Graph :=
  let pin (name : String) (source : Nat) : Input := { name, type := .float, source := some (.ofNode ⟨source⟩ 0) }
  let switch : Node :=
    { adder 0 [] with
      traits := .texture ∪ .conditional
      inputs := [pin "in1" 1, pin "in2" 2, pin "in3" 4, pin "which" 5]
      implementation := .procedural .switch }
  { Graph.empty "fork" with
    nodes := [adder 3 [], adder 1 [3], adder 2 [3, 3], switch, adder 4 [5], adder 5 []]
    outputSockets := [{ name := "out", type := .float, source := some (.ofNode ⟨0⟩ 0) }] }

theorem fork_scopes_name_branches :
    fork.Distinct ∧ fork.HasFewBranches ∧ ∃ h, fork.sort = .ok h ∧
      ∃ n ∈ h.assignScopes.nodes, n.id = ⟨3⟩ ∧ n.scope = .branches ⟨0⟩ 0b011 0b111 ∧
        h.assignScopes.NeededOnlyBy n.id ⟨0⟩ 0b011 0b111 ∧ ∀ way, h.assignScopes.WayOut n.id way →
          ∃ m k, (m, k) ∈ way ∧ m.id = ⟨0⟩ ∧ m.IsBranchInput k ∧ (0b011 : Mask).getLsbD k = true := by
  have hdistinct : fork.Distinct := by decide
  have hfew : fork.HasFewBranches := by unfold HasFewBranches; decide
  have hcheck : (match fork.sort with
      | .ok h => decide (∃ n ∈ h.assignScopes.nodes, n.id = ⟨3⟩ ∧ n.scope = .branches ⟨0⟩ 0b011 0b111)
      | .error _ => false) = true := by decide +kernel
  cases hsort : fork.sort with
  | error e => simp [hsort] at hcheck
  | ok h =>
    obtain ⟨n, hn, hid, hscope⟩ : ∃ n ∈ h.assignScopes.nodes, n.id = ⟨3⟩ ∧ n.scope = .branches ⟨0⟩ 0b011 0b111 := by
      simpa [hsort] using hcheck
    obtain ⟨hneeded, hways⟩ := (((scopes_name_branches fork h hdistinct hfew hsort).2 n hn).2.2 _ _ _).1 hscope
    exact ⟨hdistinct, hfew, h, rfl, n, hn, hid, hscope, hneeded, hways⟩

end Graph
end ShadeGraph
