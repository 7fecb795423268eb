import Mathlib.Tactic.Choose
import ShadeGraph.Proofs.Number.Correct
import ShadeGraph.Proofs.Value.RoundTrip

/-!
# Text of fixed places is stable

A number that is written with a fixed number of places and read again is often another number, but its text is the same
one. The decimal of the text is at most half a place away from the number, and the number that is read is at least as
near to the decimal as the first one. So the second number is rounded to the same decimal, and this also holds half way
between two decimals, where the first one has been rounded to an even decimal.
-/

namespace ShadeGraph

open Number

/-! ## Numbers -/

namespace Single

variable {x y : Single} {places n : Nat}

theorem halfEven_atPlaces (x : Single) (places : Nat) : HalfEven (x.magnitude * 10 ^ places) (x.atPlaces places) := by
  have hround := halfEven_roundDiv (x.scaled * 10 ^ places) unit_pos
  push_cast at hround
  rwa [← div_mul_eq_mul_div] at hround

theorem abs_atPlaces (x : Single) (places n : Nat) :
    |x.magnitude * 10 ^ places - n| = |n / 10 ^ places - x.magnitude| * 10 ^ places := by
  have hpos : (0 : ℚ) < 10 ^ places := by positivity
  rw [abs_sub_comm, ← abs_of_pos hpos, ← abs_mul, abs_of_pos hpos, sub_mul, div_mul_cancel₀ _ hpos.ne']

/-- The number that is read is rounded to the decimal again: it is not farther away from it. -/
theorem halfEven_of_nearest (hx : x.isNaN = false) (hn : HalfEven (x.magnitude * 10 ^ places) n)
    (hy : y.Nearest (n / 10 ^ places)) : HalfEven (y.magnitude * 10 ^ places) n := by
  have hle : |y.magnitude * 10 ^ places - n| ≤ |x.magnitude * 10 ^ places - n| := by
    rw [abs_atPlaces, abs_atPlaces, mul_le_mul_iff_left₀ (by positivity)]
    exact hy.nearest x hx
  exact ⟨hle.trans hn.1, fun htie => hn.2 (le_antisymm hn.1 (htie ▸ hle))⟩

theorem isNaN_of_isFinite (hx : x.isFinite = true) : x.isNaN = false := by
  have hcode : x.code.val < infinityCode := of_decide_eq_true hx
  exact decide_eq_false hcode.not_gt

theorem add_two_le_of_isInfinite (hx : x.isFinite = true) (hy : y.isInfinite = true) :
    x.magnitude + 2 ≤ y.magnitude := by
  have hunit : (0 : ℚ) < unit := by exact_mod_cast unit_pos
  have hscaled : x.scaled + 2 * unit ≤ y.scaled := by
    have hfinite := scaled_le_of_isFinite hx
    rw [scaled_infinity hy, unit, Nat.pow_eq]
    omega
  rw [magnitude, magnitude, div_add' _ _ _ hunit.ne', div_le_div_iff_of_pos_right hunit]
  exact_mod_cast hscaled

theorem isFinite_of_nearest (hx : x.isFinite = true) (hn : HalfEven (x.magnitude * 10 ^ places) n)
    (hy : y.Nearest (n / 10 ^ places)) : y.isFinite = true := by
  refine (isFinite_or_isInfinite hy.mem).resolve_right fun hinfinite => ?_
  have hdistance (z : Single) (hz : HalfEven (z.magnitude * 10 ^ places) n) :
      |n / 10 ^ places - z.magnitude| ≤ 1 / 2 := by
    have hone : (1 : ℚ) ≤ 10 ^ places := one_le_pow₀ (by norm_num)
    have hhalf := hz.1
    rw [abs_atPlaces] at hhalf
    exact le_trans (le_mul_of_one_le_right (abs_nonneg _) hone) hhalf
  have hfar := abs_le.mp (hdistance y (halfEven_of_nearest (isNaN_of_isFinite hx) hn hy))
  have hnear := abs_le.mp (hdistance x hn)
  have hgap := add_two_le_of_isInfinite hx hinfinite
  linarith

end Single

/-! ## Texts -/

namespace FloatFormat

theorem chars_fixed (p : Nat) (x : Single) : chars ⟨.fixed, p⟩ x =
    if x.isNaN then ['N', 'a', 'N']
    else (if x.negative then ['-'] else []) ++
      if x.isInfinite then ['i', 'n', 'f'] else pointed (max p 1) (x.atPlaces (max p 1)) := by
  simp only [chars, magnitudeChars, fixedChars]
  cases x.negative <;> rfl

theorem chars_fixed_finite (p : Nat) {x : Single} (hx : x.isFinite = true) : chars ⟨.fixed, p⟩ x =
    (if x.negative then ['-'] else []) ++ pointed (max p 1) (x.atPlaces (max p 1)) := by
  have hcode : x.code.val < Single.infinityCode := of_decide_eq_true hx
  have hinfinite : x.isInfinite = false := beq_eq_false_iff_ne.mpr hcode.ne
  simp [chars_fixed, Single.isNaN_of_isFinite hx, hinfinite]

theorem takeSign_pointed (negative : Bool) (places n : Nat) :
    takeSign ((if negative then ['-'] else []) ++ pointed places n) = (negative, pointed places n) := by
  cases negative with
  | true => rfl
  | false => exact takeSign_of_isDigit (head?_toDigits_isDigit _ _)

theorem readSingle?_pointed (negative : Bool) {places : Nat} (hplaces : 0 < places) (n : Nat) :
    ∃ y, readSingle? ((if negative then ['-'] else []) ++ pointed places n) = some y ∧ y.negative = negative ∧
      y.Nearest (n / 10 ^ places) := by
  refine ⟨Decimal.toSingle ⟨n, -(places : Int)⟩ negative, ?_, ?_, ?_⟩
  · simp only [readSingle?, takeSign_pointed, readDecimal?_pointed hplaces]
  · rw [Decimal.toSingle_eq, Single.ofQuotient]
  · rw [← Decimal.value_places]
    exact Decimal.nearest_toSingle _ negative

theorem readSingle?_fixed_finite (p : Nat) {x : Single} (hx : x.isFinite = true) :
    ∃ y, readSingle? (chars ⟨.fixed, p⟩ x) = some y ∧ chars ⟨.fixed, p⟩ y = chars ⟨.fixed, p⟩ x := by
  have hround := x.halfEven_atPlaces (max p 1)
  obtain ⟨y, hread, hsign, hnearest⟩ := readSingle?_pointed x.negative (by omega : 0 < max p 1) (x.atPlaces (max p 1))
  have hfinite : y.isFinite = true := Single.isFinite_of_nearest hx hround hnearest
  have hagain : y.atPlaces (max p 1) = x.atPlaces (max p 1) :=
    (y.halfEven_atPlaces (max p 1)).unique (Single.halfEven_of_nearest (Single.isNaN_of_isFinite hx) hround hnearest)
  rw [chars_fixed_finite p hx]
  exact ⟨y, hread, by rw [chars_fixed_finite p hfinite, hsign, hagain]⟩

/-- The text of a number with a fixed number of places is also the one of the number that it reads as. -/
theorem readSingle?_fixed (p : Nat) (x : Single) :
    ∃ y, readSingle? (chars ⟨.fixed, p⟩ x) = some y ∧ chars ⟨.fixed, p⟩ y = chars ⟨.fixed, p⟩ x := by
  cases hnan : x.isNaN with
  | true =>
    have hchars : chars ⟨.fixed, p⟩ x = ['N', 'a', 'N'] := by simp [chars, hnan]
    exact ⟨.nan false, by rw [hchars]; decide, by rw [hchars]; rfl⟩
  | false =>
    rcases Single.isFinite_or_isInfinite hnan with hfinite | hinfinite
    · exact readSingle?_fixed_finite p hfinite
    · have hchars : chars ⟨.fixed, p⟩ x = if x.negative then ['-', 'i', 'n', 'f'] else ['i', 'n', 'f'] := by
        rw [chars_fixed, hnan, hinfinite]
        cases x.negative <;> rfl
      refine ⟨.infinity x.negative, by rw [hchars, readSingle?_inf], ?_⟩
      rw [hchars]
      cases x.negative <;> rfl

end FloatFormat

/-! ## Values -/

namespace Value

theorem read?_format {f : FloatFormat} {x y : Single} (h : readSingle? (f.chars x) = some y) :
    read? .float (f.format x) = some (.float y) := by
  rw [read?, trim_of_isPart (isPart_format f x), FloatFormat.format, String.toList_ofList, h, Option.map_some]

theorem read_text_stable {f : FloatFormat}
    (hf : ∀ x, ∃ y, readSingle? (f.chars x) = some y ∧ f.chars y = f.chars x) (v : Value) :
    ∃ v', read v.type (v.text f) = .ok v' ∧ v'.text f = v.text f ∧
      List.Forall₂ (fun x y => f.format y = f.format x) (v.components?.getD []) (v'.components?.getD []) := by
  choose again hread hchars using hf
  have hformat (x : Single) : f.format (again x) = f.format x := by
    rw [FloatFormat.format, hchars, FloatFormat.format]
  have hlist (xs : List Single) :
      (parts (Text.join ", " (xs.map f.format))).mapM readSingle? = some (xs.map again) := by
    refine mapM_parts_join_map (fun x _ => ?_) rfl fun x _ => isPart_format f x
    rw [FloatFormat.format, String.toList_ofList, hread]
  have htexts (xs : List Single) : (xs.map again).map f.format = xs.map f.format := by
    rw [List.map_map]
    exact List.map_congr_left fun x _ => hformat x
  have hall (xs : List Single) : List.Forall₂ (fun x y => f.format y = f.format x) xs (xs.map again) := by
    rw [List.forall₂_map_right_iff, List.forall₂_same]
    exact fun x _ => hformat x
  have hread? {v' : Value} (h : read? v.type (v.text f) = some v') : read v.type (v.text f) = .ok v' := by
    rw [read, h]
  cases v with
  | boolean b =>
    refine ⟨.boolean b, hread? ?_, rfl, .nil⟩
    cases b with
    | true => exact (rfl : read? .boolean "true" = some (.boolean true))
    | false => exact (rfl : read? .boolean "false" = some (.boolean false))
  | integer n =>
    refine ⟨.integer n, hread? ?_, rfl, .nil⟩
    simp only [type, text, read?]
    rw [trim_of_isPart (isPart_toString n.toInt), readInt32?_toString, Option.map_some]
  | float x =>
    exact ⟨.float (again x), hread? (read?_format (hread x)), hformat x, hall [x]⟩
  | tuple shape components =>
    refine ⟨.tuple shape (components.map again), hread? ?_, ?_, ?_⟩
    · simp only [type, text, read?]
      rw [hlist, Option.bind_some, ← Vector.toList_map, ofComponents?_toList]
    · simp only [text]
      rw [Vector.toList_map, htexts]
    · simp only [components?, Option.getD_some, Vector.toList_map]
      exact hall _
  | string s => exact ⟨.string s, rfl, rfl, .nil⟩
  | filename s => exact ⟨.filename s, rfl, rfl, .nil⟩
  | integerArray elements =>
    refine ⟨.integerArray elements, hread? ?_, rfl, .nil⟩
    simp only [type, text, read?]
    rw [mapM_parts_join (fun n _ => readInt32?_toString n) rfl fun n _ => isPart_toString n.toInt, Option.map_some]
  | floatArray elements =>
    refine ⟨.floatArray (elements.map again), hread? ?_, ?_, hall elements⟩
    · simp only [type, text, read?]
      rw [hlist, Option.map_some]
    · simp only [text]
      rw [htexts]

theorem read_decimal {s : String} {negative : Bool} {digits : List Char} {d : Decimal}
    (hsign : takeSign (Text.trimChars s.toList) = (negative, digits)) (hdigits : readDecimal? digits = some d) :
    read .float s = .ok (.float (d.toSingle negative)) := by
  have hread : readSingle? (Text.trimChars s.toList) = some (d.toSingle negative) := by
    simp only [readSingle?, hsign, hdigits]
  rw [read, read?, hread]
  rfl

/-- **Text of fixed places is stable**: every number, and every value in each of its components, has the same text
again after reading it. The text shows the exact magnitude, rounded half to even at the last place, and reading chooses
the nearest number, of two the even one. -/
theorem fixed_text_stable (p : Nat) :
    (∀ x, ∃ y, read .float (FloatFormat.format ⟨.fixed, p⟩ x) = .ok (.float y) ∧
      FloatFormat.format ⟨.fixed, p⟩ y = FloatFormat.format ⟨.fixed, p⟩ x) ∧
    (∀ v : Value, ∃ v', read v.type (v.text ⟨.fixed, p⟩) = .ok v' ∧ v'.text ⟨.fixed, p⟩ = v.text ⟨.fixed, p⟩ ∧
      List.Forall₂ (fun x y => FloatFormat.format ⟨.fixed, p⟩ y = FloatFormat.format ⟨.fixed, p⟩ x)
        (v.components?.getD []) (v'.components?.getD [])) ∧
    (∀ x, ∃ n, RoundsTo (x.magnitude * 10 ^ max p 1) n ∧
      FloatFormat.format ⟨.fixed, p⟩ x = String.ofList (
        if x.isNaN then ['N', 'a', 'N']
        else (if x.negative then ['-'] else []) ++ if x.isInfinite then ['i', 'n', 'f'] else pointed (max p 1) n)) ∧
    ∀ s negative digits d, takeSign (Text.trimChars s.toList) = (negative, digits) → readDecimal? digits = some d →
      ∃ y, read .float s = .ok (.float y) ∧ y.negative = negative ∧ y.Nearest d.value := by
  refine ⟨fun x => ?_, read_text_stable (FloatFormat.readSingle?_fixed p), fun x =>
    ⟨_, (x.halfEven_atPlaces _).roundsTo, ?_⟩, ?_⟩
  · obtain ⟨y, hread, hchars⟩ := FloatFormat.readSingle?_fixed p x
    exact ⟨y, by rw [read, read?_format hread], congrArg String.ofList hchars⟩
  · rw [FloatFormat.format, FloatFormat.chars_fixed]
  · intro s negative digits d hsign hdigits
    refine ⟨_, read_decimal hsign hdigits, ?_, d.nearest_toSingle negative⟩
    rw [Decimal.toSingle_eq]
    rfl

end Value
end ShadeGraph
