import Mathlib.Order.Defs.PartialOrder
import ShadeGraph.Proofs.Graph.Branches

/-!
# Merging scopes

Merging widens: a merger is never narrower than one of its parts. Merging is neither commutative nor associative,
though. Parts that fill all branches of a conditional are needed everywhere, but if a part of another conditional has
come before the last of them, they are needed by several conditionals. The code stands outside of all branches in both
cases, so that its place does not depend on the order in which the parts are merged.
-/

namespace ShadeGraph.Scope

/-! ## Widening -/

/-- The first scope is not wider than the second one. Branches of a conditional are widened by more branches of it, then
by other conditionals, and then to everywhere. -/
def AtMost : Scope → Scope → Prop
  | unknown, _ => True
  | branches c mask _, branches other wider _ => c = other ∧ mask ||| wider = wider
  | branches _ _ _, several => True
  | several, several => True
  | _, everywhere => True
  | _, _ => False

theorem AtMost.refl (a : Scope) : a.AtMost a := by
  cases a with
  | branches c mask full => exact ⟨rfl, BitVec.or_self⟩
  | _ => trivial

theorem AtMost.trans {a b c : Scope} (hab : a.AtMost b) (hbc : b.AtMost c) : a.AtMost c := by
  cases a <;> cases b <;> cases c <;> simp only [AtMost] at hab hbc ⊢
  obtain ⟨rfl, hab⟩ := hab
  obtain ⟨rfl, hbc⟩ := hbc
  refine ⟨rfl, ?_⟩
  rw [← hbc, ← BitVec.or_assoc, hab]

instance : Preorder Scope where
  le := AtMost
  le_refl := AtMost.refl
  le_trans := fun _ _ _ => AtMost.trans

theorem branches_le_merge {conditional other c : NodeId} {mask mask' full full' : Mask} {part own : Mask}
    (hc : conditional = other → c = conditional) (hpart : part ||| (mask ||| mask') = mask ||| mask') :
    branches c part own ≤ (branches conditional mask full).merge (branches other mask' full') := by
  rw [merge]
  split
  · rename_i hsame
    split
    · trivial
    · exact ⟨hc hsame, hpart⟩
  · trivial

theorem le_merge_left (a b : Scope) : a ≤ a.merge b := by
  cases a with
  | unknown => trivial
  | everywhere => cases b <;> trivial
  | several => cases b <;> trivial
  | branches conditional mask full =>
    cases b with
    | unknown => exact AtMost.refl _
    | everywhere => trivial
    | several => trivial
    | branches other mask' full' => exact branches_le_merge (fun _ => rfl) (by rw [← BitVec.or_assoc, BitVec.or_self])

theorem le_merge_right (a b : Scope) : b ≤ a.merge b := by
  cases a with
  | unknown => exact AtMost.refl b
  | everywhere => cases b <;> trivial
  | several => cases b <;> trivial
  | branches conditional mask full =>
    cases b with
    | unknown => trivial
    | everywhere => trivial
    | several => trivial
    | branches other mask' full' =>
      exact branches_le_merge Eq.symm (by rw [BitVec.or_comm, BitVec.or_assoc, BitVec.or_self])

/-! ## Order -/

/-- Scopes that can be parts of one node's scope: they are known, those of one conditional agree on the branches that it
has, and each is inside of some of them. -/
structure Compatible (l : List Scope) : Prop where
  known : ∀ s ∈ l, s ≠ unknown
  inside : ∀ c mask full, branches c mask full ∈ l → mask ||| full = full
  agree : ∀ c mask full mask' full', branches c mask full ∈ l → branches c mask' full' ∈ l → full = full'

variable {c : NodeId} {mask full : Mask} {a b : Scope} {l l' : List Scope}

theorem Compatible.perm (h : Compatible l) (hperm : l.Perm l') : Compatible l' where
  known := fun s hs => h.known s (hperm.mem_iff.mpr hs)
  inside := fun c mask full hs => h.inside c mask full (hperm.mem_iff.mpr hs)
  agree := fun c mask full mask' full' hs hs' =>
    h.agree c mask full mask' full' (hperm.mem_iff.mpr hs) (hperm.mem_iff.mpr hs')

theorem mask_ne_full_of_merge (ha : a ≠ unknown) (hb : b ≠ unknown) (h : a.merge b = branches c mask full) :
    mask ≠ full := by
  rcases of_merge_eq_branches h with ⟨hnone, -⟩ | ⟨hnone, -⟩ | ⟨left, right, own, rfl, rfl, rfl⟩
  · exact absurd hnone ha
  · exact absurd hnone hb
  · intro hall
    simp [merge, hall] at h

theorem mergeAll_ne_unknown (hl : l ≠ []) (hknown : ∀ s ∈ l, s ≠ unknown) : mergeAll l ≠ unknown := by
  obtain ⟨s, hs⟩ := List.exists_mem_of_ne_nil l hl
  have hcovers := mergeAll_covers hs (hknown s hs)
  intro hnone
  rw [hnone] at hcovers
  exact hcovers.elim

theorem eq_singleton_of_mergeAll (hknown : ∀ s ∈ l, s ≠ unknown) (h : mergeAll l = branches c full full) :
    ∃ s, l = [s] := by
  induction l using List.reverseRecOn with
  | nil => cases h
  | append_singleton l last _ =>
    by_cases hl : l = []
    · exact ⟨last, by rw [hl, List.nil_append]⟩
    · rw [mergeAll_concat] at h
      have hfront : mergeAll l ≠ unknown := mergeAll_ne_unknown hl fun s hs => hknown s (List.mem_append_left _ hs)
      exact absurd rfl (mask_ne_full_of_merge hfront (hknown last (by simp)) h)

theorem Compatible.parts (h : Compatible l) (hmerge : mergeAll l = branches c mask full) :
    ∀ s ∈ l, ∃ part, s = branches c part full := by
  obtain ⟨first, hfirst⟩ := of_mergeAll_eq_branches hmerge
  intro s hs
  obtain ⟨part, own, rfl⟩ := (parts_of_mergeAll_eq_branches h.known hmerge).1 s hs
  exact ⟨part, by rw [h.agree c part own first full hs hfirst]⟩

theorem Compatible.mask_subset (h : Compatible l) (hmerge : mergeAll l = branches c mask full) {k : Nat}
    (hk : mask.getLsbD k = true) : full.getLsbD k = true := by
  obtain ⟨s, hs, hbit⟩ := ((parts_of_mergeAll_eq_branches h.known hmerge).2 k).mp hk
  obtain ⟨part, rfl⟩ := h.parts hmerge s hs
  have hpart : part.getLsbD k = true := (isInBranch_branches.mp hbit).2
  rw [← h.inside c part full hs, BitVec.getLsbD_or, hpart, Bool.true_or]

/-- A merger inside of a conditional is the same in any order: its branches are those of all parts together, and they
fill the conditional in no order, unless there is only one part. -/
theorem Compatible.mergeAll_perm (h : Compatible l) (hperm : l.Perm l') (hmerge : mergeAll l = branches c mask full) :
    mergeAll l' = branches c mask full := by
  have hbits := (parts_of_mergeAll_eq_branches h.known hmerge).2
  have hparts' : ∀ s ∈ l', ∃ part, s = branches c part full :=
    fun s hs => h.parts hmerge s (hperm.mem_iff.mpr hs)
  have hne : l' ≠ [] := by
    rintro rfl
    rw [List.perm_nil.mp hperm] at hmerge
    cases hmerge
  rcases mergeAll_of_parts hne hparts' with ⟨mask', hmerge'⟩ | ⟨-, hall⟩
  · have hbits' := (parts_of_mergeAll_eq_branches (h.perm hperm).known hmerge').2
    have hmask : mask' = mask := by
      refine BitVec.eq_of_getLsbD_eq fun k _ => ?_
      rw [Bool.eq_iff_iff, hbits, hbits']
      simp only [hperm.mem_iff]
    rw [hmerge', hmask]
  · have hmask : mask = full := by
      refine BitVec.eq_of_getLsbD_eq fun k _ => ?_
      rw [Bool.eq_iff_iff]
      refine ⟨h.mask_subset hmerge, fun hk => (hbits k).mpr ?_⟩
      obtain ⟨s, hs, hbit⟩ := hall k hk
      exact ⟨s, hperm.mem_iff.mpr hs, hbit⟩
    subst hmask
    obtain ⟨s, rfl⟩ := eq_singleton_of_mergeAll h.known hmerge
    rwa [List.perm_singleton.mp hperm.symm]

theorem Compatible.mergeAll_eq_or_isTopLevel (h : Compatible l) (hperm : l.Perm l') :
    mergeAll l = mergeAll l' ∨ (mergeAll l).isTopLevel = true ∧ (mergeAll l').isTopLevel = true := by
  cases hmerge : mergeAll l with
  | branches c mask full => exact Or.inl (h.mergeAll_perm hperm hmerge).symm
  | _ =>
    cases hmerge' : mergeAll l' with
    | branches c mask full =>
      rw [(h.perm hperm).mergeAll_perm hperm.symm hmerge'] at hmerge
      cases hmerge
    | _ => exact Or.inr ⟨rfl, rfl⟩

theorem isInBranch_of_isTopLevel (h : a.isTopLevel = true) (conditional : NodeId) (index : Nat) :
    a.isInBranch conditional index = false := by
  cases a with
  | branches c mask full => cases h
  | _ => rfl

/-- **Merging widens, and the place of the code does not depend on its order**: in whatever order compatible scopes are
merged, the code stands inside of the same branches, or outside of all of them. -/
theorem placement_ignores_order (l l' : List Scope) (h : Compatible l) (hperm : l.Perm l') :
    (∀ a b : Scope, a ≤ a.merge b ∧ b ≤ a.merge b) ∧
    (l.foldl merge unknown).isTopLevel = (l'.foldl merge unknown).isTopLevel ∧
    ∀ conditional index, (l.foldl merge unknown).isInBranch conditional index =
      (l'.foldl merge unknown).isInBranch conditional index := by
  refine ⟨fun a b => ⟨le_merge_left a b, le_merge_right a b⟩, ?_⟩
  rcases h.mergeAll_eq_or_isTopLevel hperm with heq | ⟨htop, htop'⟩
  · have hfold : l.foldl merge unknown = l'.foldl merge unknown := heq
    exact ⟨by rw [hfold], fun conditional index => by rw [hfold]⟩
  · exact ⟨htop.trans htop'.symm, fun conditional index =>
      (isInBranch_of_isTopLevel htop conditional index).trans (isInBranch_of_isTopLevel htop' conditional index).symm⟩

/-- Both branches of a conditional and one of another: needed everywhere, or by several if the other one comes between
the two. -/
theorem placement_exchanged :
    let first := branches ⟨1⟩ 0b01 0b11
    let second := branches ⟨1⟩ 0b10 0b11
    let other := branches ⟨2⟩ 0b01 0b11
    Compatible [first, second, other] ∧ [first, second, other].Perm [first, other, second] ∧
      [first, second, other].foldl merge unknown = everywhere ∧ [first, other, second].foldl merge unknown = several ∧
      ([first, second, other].foldl merge unknown).isTopLevel =
        ([first, other, second].foldl merge unknown).isTopLevel := by
  intro first second other
  have hcompatible : Compatible [first, second, other] := by
    refine ⟨by simp [first, second, other], ?_, ?_⟩
    · simp only [first, second, other, List.mem_cons, List.not_mem_nil, or_false, branches.injEq]
      rintro c mask full (⟨-, rfl, rfl⟩ | ⟨-, rfl, rfl⟩ | ⟨-, rfl, rfl⟩) <;> decide
    · simp only [first, second, other, List.mem_cons, List.not_mem_nil, or_false, branches.injEq]
      rintro c mask full mask' full' (⟨-, -, rfl⟩ | ⟨-, -, rfl⟩ | ⟨-, -, rfl⟩) (⟨-, -, rfl⟩ | ⟨-, -, rfl⟩ | ⟨-, -, rfl⟩) <;>
        rfl
  have hperm : [first, second, other].Perm [first, other, second] := (List.Perm.swap other second []).cons first
  exact ⟨hcompatible, hperm, by decide, by decide, (placement_ignores_order _ _ hcompatible hperm).2.1⟩

end ShadeGraph.Scope
