import Mathlib.Data.List.Nodup
import Mathlib.Data.List.Perm.Subperm
import Mathlib.Logic.Function.Basic
import ShadeGraph.Text.Basic

/-!
# Fresh names are fresh

The candidates for a name differ from each other, so among more candidates than there are taken names one is free, and
the search finds it.
-/

namespace ShadeGraph.Text

theorem toString_injective : Function.Injective (toString : Nat → String) := by
  intro a b h
  have hdigits : Nat.toDigits 10 a = Nat.toDigits 10 b := by
    simpa [Nat.toString_eq_repr, Nat.toList_repr] using congrArg String.toList h
  simpa using congrArg (fun digits => Nat.ofDigitChars 10 digits 0) hdigits

theorem numbered_injective (base : String) : Function.Injective (numbered base) := by
  intro a b h
  have hempty : ∀ n : Nat, base ≠ base ++ toString (n + 1) := by
    intro n heq
    have hdigits := congrArg String.length heq
    rw [String.length_append] at hdigits
    have hpos : 0 < (toString (n + 1)).length := by
      simpa [Nat.toString_eq_repr] using Nat.length_repr_pos
    omega
  cases a with
  | zero =>
    cases b with
    | zero => rfl
    | succ b => exact absurd h (hempty b)
  | succ a =>
    cases b with
    | zero => exact absurd h.symm (hempty a)
    | succ b => exact toString_injective ((String.append_right_inj base).mp h)

theorem exists_free (taken : List String) (base : String) : ∃ k ≤ taken.length, numbered base k ∉ taken := by
  by_contra hnone
  -- Otherwise all candidates are taken, and they are too many.
  have hall : (List.range (taken.length + 1)).map (numbered base) ⊆ taken := by
    intro name hname
    obtain ⟨n, hn, rfl⟩ := List.mem_map.mp hname
    exact by_contra fun hfree => hnone ⟨n, Nat.lt_succ_iff.mp (List.mem_range.mp hn), hfree⟩
  have hle := (List.Nodup.subperm (List.nodup_range.map (numbered_injective base)) hall).length_le
  rw [List.length_map, List.length_range] at hle
  omega

/-- **The search stops at the first candidate that is free.** -/
theorem freshName_first (taken : List String) (base : String) :
    ∃ k ≤ taken.length, freshName taken base = numbered base k ∧ numbered base k ∉ taken ∧
      ∀ j < k, numbered base j ∈ taken := by
  obtain ⟨free, hfree, hnot⟩ := exists_free taken base
  cases hfind : (List.range (taken.length + 1)).find? fun n => !taken.contains (numbered base n) with
  | none =>
    have htaken := List.find?_eq_none.mp hfind free (List.mem_range.mpr (Nat.lt_succ_of_le hfree))
    exact absurd (by simpa using htaken) hnot
  | some k =>
    obtain ⟨hk, hrange, hbefore⟩ := List.find?_range_eq_some.mp hfind
    refine ⟨k, Nat.lt_succ_iff.mp (List.mem_range.mp hrange), ?_, by simpa using hk, ?_⟩
    · rw [freshName, hfind, Option.getD_some]
    · intro j hj
      simpa using hbefore j hj

theorem freshName_not_mem (taken : List String) (base : String) : freshName taken base ∉ taken := by
  obtain ⟨k, -, hname, hfree, -⟩ := freshName_first taken base
  rwa [hname]

theorem freshName_eq_append (taken : List String) (base : String) :
    ∃ suffix, freshName taken base = base ++ suffix := by
  obtain ⟨k, -, hname, -⟩ := freshName_first taken base
  cases k with
  | zero => exact ⟨"", hname.trans String.append_empty.symm⟩
  | succ n => exact ⟨toString (n + 1), hname⟩

end ShadeGraph.Text
