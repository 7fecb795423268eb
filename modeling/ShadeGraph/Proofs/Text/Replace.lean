import ShadeGraph.Text.Basic

/-!
# Cutting and replacing

A text is cut at the first occurrence of a pattern, if there is one. Replacing the occurrences of a pattern is cutting
the text at them and putting the pieces together again around the new text, and there is a single piece exactly if the
pattern does not occur.
-/

namespace ShadeGraph.Text

variable {pattern value cs before after : List Char}

/-- A text is cut at the first occurrence of a pattern: none starts further to the left, not even one that overlaps. -/
structure FirstAt (pattern before after cs : List Char) : Prop where
  split : cs = before ++ pattern ++ after
  first : ∀ before' after', cs = before' ++ pattern ++ after' → before.length ≤ before'.length

theorem firstAt_nil_iff : FirstAt pattern before after [] ↔ pattern = [] ∧ before = [] ∧ after = [] := by
  constructor
  · intro h
    have hsplit := h.split
    simp only [List.nil_eq, List.append_eq_nil_iff] at hsplit
    exact ⟨hsplit.1.2, hsplit.1.1, hsplit.2⟩
  · rintro ⟨rfl, rfl, rfl⟩
    exact ⟨rfl, fun _ _ _ => Nat.zero_le _⟩

theorem firstAt_of_prefix (h : pattern <+: cs) :
    FirstAt pattern before after cs ↔ before = [] ∧ after = cs.drop pattern.length := by
  obtain ⟨rest, rfl⟩ := h
  rw [List.drop_left]
  constructor
  · intro h
    obtain rfl : before = [] := List.eq_nil_of_length_eq_zero (Nat.le_zero.mp (h.first [] rest rfl))
    exact ⟨rfl, (List.append_cancel_left h.split).symm⟩
  · rintro ⟨rfl, rfl⟩
    exact ⟨rfl, fun _ _ _ => Nat.zero_le _⟩

theorem firstAt_cons_of_not_prefix {c : Char} (h : ¬ pattern <+: c :: cs) :
    FirstAt pattern before after (c :: cs) ↔ ∃ before', before = c :: before' ∧ FirstAt pattern before' after cs := by
  constructor
  · intro hfirst
    cases before with
    | nil => exact absurd ⟨after, hfirst.split.symm⟩ h
    | cons b before' =>
      obtain ⟨rfl, hsplit⟩ := List.cons.inj hfirst.split
      refine ⟨before', rfl, hsplit, fun x y hxy => ?_⟩
      have hlength := hfirst.first (c :: x) y (congrArg (c :: ·) hxy)
      simp only [List.length_cons] at hlength
      omega
  · rintro ⟨before', rfl, hfirst⟩
    refine ⟨congrArg (c :: ·) hfirst.split, fun x y hxy => ?_⟩
    cases x with
    | nil => exact absurd ⟨y, hxy.symm⟩ h
    | cons b x =>
      have hlength := hfirst.first x y (List.cons.inj hxy).2
      simp only [List.length_cons]
      omega

theorem FirstAt.length_lt (h : FirstAt pattern before after cs) (hpattern : pattern ≠ []) :
    after.length < cs.length := by
  have hpos := List.length_pos_iff.mpr hpattern
  rw [h.split, List.length_append, List.length_append]
  omega

theorem cut?_eq_some_iff : cut? pattern cs = some (before, after) ↔ FirstAt pattern before after cs := by
  induction cs generalizing before with
  | nil =>
    rw [firstAt_nil_iff, cut?]
    cases pattern <;> simp [eq_comm]
  | cons c cs ih =>
    rw [cut?]
    by_cases hfound : pattern <+: c :: cs
    · rw [if_pos (List.isPrefixOf_iff_prefix.mpr hfound), firstAt_of_prefix hfound]
      simp [eq_comm]
    · rw [if_neg (by rwa [List.isPrefixOf_iff_prefix]), firstAt_cons_of_not_prefix hfound]
      simp only [Option.map_eq_some_iff, Prod.exists, Prod.mk.injEq, ← ih]
      constructor
      · rintro ⟨x, y, hcut, rfl, rfl⟩
        exact ⟨x, rfl, hcut⟩
      · rintro ⟨x, rfl, hcut⟩
        exact ⟨x, after, hcut, rfl, rfl⟩

theorem cut?_eq_none_iff : cut? pattern cs = none ↔ ¬ pattern <:+: cs := by
  induction cs with
  | nil => simp [cut?]
  | cons c cs ih =>
    rw [cut?, List.infix_cons_iff]
    by_cases hfound : pattern <+: c :: cs
    · simp [hfound]
    · simp [hfound, ih]

theorem piecesGo_ne_nil (pattern : List Char) (skip : Nat) (cs : List Char) : piecesGo pattern skip cs ≠ [] := by
  fun_induction piecesGo pattern skip cs with
  | case1 => simp
  | case2 _ _ _ ih => exact ih
  | case3 => simp
  | case4 => simp
  | case5 => simp

theorem intercalate_piecesGo (pattern value : List Char) (skip : Nat) (cs : List Char) :
    value.intercalate (piecesGo pattern skip cs) = replaceGo pattern value skip cs := by
  fun_induction piecesGo pattern skip cs with
  | case1 => simp [replaceGo, List.intercalate]
  | case2 skip c cs ih => rw [replaceGo, ih]
  | case3 c cs hfound ih =>
    rw [replaceGo, if_pos hfound, ← ih]
    obtain ⟨piece, rest, hpieces⟩ := List.exists_cons_of_ne_nil (piecesGo_ne_nil pattern (pattern.length - 1) cs)
    simp [hpieces, List.intercalate]
  | case4 c cs _ hnone => exact absurd hnone (piecesGo_ne_nil pattern 0 cs)
  | case5 c cs hother piece rest hpieces ih =>
    rw [replaceGo, if_neg hother, ← ih, hpieces]
    cases rest <;> simp [List.intercalate]

theorem intercalate_pieces (hpattern : pattern ≠ []) :
    value.intercalate (pieces pattern cs) = replaceChars pattern value cs := by
  rw [pieces, intercalate_piecesGo, replaceChars, if_neg (by simpa using hpattern)]

theorem length_pieces_eq_one_iff (hpattern : pattern ≠ []) :
    (pieces pattern cs).length = 1 ↔ cut? pattern cs = none := by
  unfold pieces
  induction cs with
  | nil => simp [piecesGo, cut?, hpattern]
  | cons c cs ih =>
    rw [piecesGo, cut?]
    by_cases hfound : pattern.isPrefixOf (c :: cs) = true
    · rw [if_pos hfound, if_pos hfound]
      simp [piecesGo_ne_nil]
    · rw [if_neg hfound, if_neg hfound, Option.map_eq_none_iff, ← ih]
      obtain ⟨piece, rest, hpieces⟩ := List.exists_cons_of_ne_nil (piecesGo_ne_nil pattern 0 cs)
      simp [hpieces]

end ShadeGraph.Text
