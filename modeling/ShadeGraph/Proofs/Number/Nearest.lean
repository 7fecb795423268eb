import Mathlib.Algebra.Order.Ring.Nat
import Mathlib.Tactic.Linarith
import Mathlib.Tactic.Ring
import ShadeGraph.Number.Reading

/-!
# The nearest single precision number

What is known about the number nearest to a quotient. It depends on the quotient only and not on how it is written as
a fraction, every finite number is the nearest one to itself, and quotients beyond the range of single precision become
zero or infinity. Hence the reading of a decimal may stop early for far powers of ten, and the shortest decimal of a
number reads back as the number.
-/

namespace ShadeGraph

/-! ## Rounding a quotient -/

namespace Number

theorem roundDiv_mul_left {k : Nat} (hk : 0 < k) (num den : Nat) :
    roundDiv (k * num) (k * den) = roundDiv num den := by
  have htwice : 2 * (k * num % (k * den)) = k * (2 * (num % den)) := by
    rw [Nat.mul_mod_mul_left, Nat.mul_left_comm]
  have hbelow : k * (2 * (num % den)) < k * den ↔ 2 * (num % den) < den := Nat.mul_lt_mul_left hk
  have habove : k * den < k * (2 * (num % den)) ↔ den < 2 * (num % den) := Nat.mul_lt_mul_left hk
  simp only [roundDiv, htwice, Nat.mul_div_mul_left num den hk, hbelow, habove]

theorem roundDiv_mul_self (q : Nat) {den : Nat} (hden : 0 < den) : roundDiv (q * den) den = q := by
  simp [roundDiv, Nat.mul_div_cancel q hden, hden]

theorem roundDiv_eq_zero {num den : Nat} (h : 2 * num < den) : roundDiv num den = 0 := by
  have hnum : num < den := by omega
  simp [roundDiv, Nat.div_eq_of_lt hnum, Nat.mod_eq_of_lt hnum, h]

end Number

/-! ## The nearest code -/

namespace Single
open Number

theorem unit_pos : 0 < unit := Nat.pow_pos (by decide)

theorem nearestCode_mul_left {k : Nat} (hk : 0 < k) (num den : Nat) :
    nearestCode (k * num) (k * den) = nearestCode num den := by
  have hplace : placeOf (k * num) (k * den) = placeOf num den := by
    simp only [placeOf, Nat.mul_assoc, Nat.mul_div_mul_left _ _ hk]
  simp only [nearestCode, hplace, Nat.mul_assoc, roundDiv_mul_left hk]

theorem nearestCode_congr {num den num' den' : Nat} (hden : 0 < den) (hden' : 0 < den')
    (h : num * den' = num' * den) : nearestCode num den = nearestCode num' den' := by
  rw [← nearestCode_mul_left hden' num den, ← nearestCode_mul_left hden num' den', Nat.mul_comm den' num, h,
    Nat.mul_comm num' den, Nat.mul_comm den' den]

theorem nearestCode_eq_zero {num den : Nat} (h : 2 * (num * unit) < den) : nearestCode num den = 0 := by
  have hplace : placeOf num den = 0 := by
    rw [placeOf, Nat.div_eq_of_lt (by omega), Nat.log2_zero]
  rw [nearestCode, hplace, Nat.pow_eq, Nat.pow_zero, Nat.mul_one, roundDiv_eq_zero h]
  decide

theorem le_log2_of_pow_le {num den k : Nat} (hden : 0 < den) (h : den * 2 ^ k ≤ num) :
    k + 149 ≤ Nat.log2 (num * unit / den) := by
  have hquotient : 2 ^ (k + 149) ≤ num * unit / den := by
    rw [Nat.le_div_iff_mul_le hden]
    calc 2 ^ (k + 149) * den = den * 2 ^ k * unit := by
          rw [Nat.pow_add, unit, Nat.pow_eq, Nat.mul_comm _ den, Nat.mul_assoc]
      _ ≤ num * unit := Nat.mul_le_mul_right unit h
  have hpos : num * unit / den ≠ 0 := (Nat.lt_of_lt_of_le (Nat.two_pow_pos _) hquotient).ne'
  exact (Nat.le_log2 hpos).mpr hquotient

theorem nearestCode_eq_infinityCode {num den : Nat} (hden : 0 < den) (h : den * 2 ^ 129 ≤ num) :
    nearestCode num den = infinityCode := by
  have hplace : 255 ≤ placeOf num den := by
    have := le_log2_of_pow_le hden h
    rw [placeOf]
    omega
  have hcode : infinityCode = 255 * 8388608 := by decide
  rw [nearestCode]
  exact Nat.min_eq_left (by rw [hcode]; nlinarith)

theorem nearestCode_mantissa {m p : Nat} (hm : m < 2 ^ 24) (hp : p = 0 ∨ 2 ^ 23 ≤ m) :
    nearestCode (m * 2 ^ p) unit = min infinityCode (p * 8388608 + m) := by
  have hplace : placeOf (m * 2 ^ p) unit = p := by
    rw [placeOf, Nat.mul_div_cancel _ unit_pos]
    rcases hp with rfl | hp
    · have hlog : Nat.log2 (m * 2 ^ 0) < 24 := by
        rcases Nat.eq_zero_or_pos m with rfl | hpos
        · decide
        · rw [Nat.pow_zero, Nat.mul_one, Nat.log2_lt hpos.ne']
          exact hm
      omega
    · have hlog : Nat.log2 (m * 2 ^ p) = 23 + p := by
        rw [Nat.log2_eq_iff (by positivity)]
        constructor
        · rw [Nat.pow_add]
          exact Nat.mul_le_mul_right _ hp
        · rw [show 23 + p + 1 = 24 + p by omega, Nat.pow_add]
          exact Nat.mul_lt_mul_of_pos_right hm (by positivity)
      omega
  have hround : roundDiv (m * 2 ^ p * unit) (unit * 2 ^ p) = m := by
    rw [Nat.mul_assoc, Nat.mul_comm unit]
    exact roundDiv_mul_self m (Nat.mul_pos (by positivity) unit_pos)
  rw [nearestCode, hplace, Nat.pow_eq, hround]

theorem nearestCode_scaled {x : Single} (hx : x.isFinite = true) : nearestCode x.scaled unit = x.code.val := by
  have hcode : x.code.val < infinityCode := by simpa [isFinite] using hx
  have hsplit : x.exponentBits * 8388608 + x.fractionBits = x.code.val := by
    rw [exponentBits, fractionBits, Nat.mul_comm]
    exact Nat.div_add_mod _ _
  have hfraction : x.fractionBits < 8388608 := Nat.mod_lt _ (by decide)
  rw [scaled, Nat.pow_eq, mantissa, place]
  by_cases hzero : x.exponentBits = 0
  · rw [if_pos hzero, nearestCode_mantissa (by omega) (Or.inl (by omega))]
    omega
  · rw [if_neg hzero, nearestCode_mantissa (by omega) (Or.inr (by omega))]
    omega

end Single

/-! ## Reading decimals -/

namespace Number
open Single

theorem Decimal.den_pos (d : Decimal) : 0 < d.den := Nat.pow_pos (by decide)

theorem Decimal.nearestCode_congr {d d' : Decimal} (h : d.num * d'.den = d'.num * d.den) :
    nearestCode d.num d.den = nearestCode d'.num d'.den :=
  Single.nearestCode_congr d.den_pos d'.den_pos h

theorem Decimal.lt_of_leading {d : Decimal} {n : Nat}
    (h : ((Nat.toDigits 10 d.coefficient).length : Int) + d.power ≤ -n) : d.num * 10 ^ n < d.den := by
  have hlength : d.coefficient < 10 ^ (Nat.toDigits 10 d.coefficient).length :=
    (Nat.length_toDigits_le_iff (by decide) Nat.length_toDigits_pos).mp (Nat.le_refl _)
  have hpower : d.power.toNat = 0 := by omega
  rw [Decimal.num, Decimal.den, Nat.pow_eq, Nat.pow_eq, hpower, Nat.pow_zero, Nat.mul_one]
  calc d.coefficient * 10 ^ n < 10 ^ (Nat.toDigits 10 d.coefficient).length * 10 ^ n :=
        Nat.mul_lt_mul_of_pos_right hlength (by positivity)
    _ = 10 ^ ((Nat.toDigits 10 d.coefficient).length + n) := (Nat.pow_add _ _ _).symm
    _ ≤ 10 ^ (-d.power).toNat := Nat.pow_le_pow_right (by decide) (by omega)

theorem Decimal.le_of_leading {d : Decimal} {n : Nat} (hd : d.coefficient ≠ 0)
    (h : (n : Int) < (Nat.toDigits 10 d.coefficient).length + d.power) : d.den * 10 ^ n ≤ d.num := by
  have hlength : 10 ^ ((Nat.toDigits 10 d.coefficient).length - 1) ≤ d.coefficient := by
    rcases Nat.eq_zero_or_pos ((Nat.toDigits 10 d.coefficient).length - 1) with hone | hpos
    · rw [hone]
      omega
    · by_contra hlt
      have := (Nat.length_toDigits_le_iff (b := 10) (by decide) hpos).mpr (Nat.not_le.mp hlt)
      omega
  rw [Decimal.num, Decimal.den, Nat.pow_eq, Nat.pow_eq]
  calc 10 ^ (-d.power).toNat * 10 ^ n = 10 ^ ((-d.power).toNat + n) := (Nat.pow_add _ _ _).symm
    _ ≤ 10 ^ ((Nat.toDigits 10 d.coefficient).length - 1 + d.power.toNat) := by
        refine Nat.pow_le_pow_right (by decide) ?_
        have : 0 < (Nat.toDigits 10 d.coefficient).length := Nat.length_toDigits_pos
        omega
    _ = 10 ^ ((Nat.toDigits 10 d.coefficient).length - 1) * 10 ^ d.power.toNat := Nat.pow_add _ _ _
    _ ≤ d.coefficient * 10 ^ d.power.toNat := Nat.mul_le_mul_right _ hlength

/-- The bounds at which the reading of a decimal stops early do not change what is read. -/
theorem Decimal.toSingle_eq (d : Decimal) (negative : Bool) :
    d.toSingle negative = Single.ofQuotient negative d.num d.den := by
  have hzero (h : nearestCode d.num d.den = 0) : Single.zero negative = Single.ofQuotient negative d.num d.den := by
    simp [Single.zero, Single.ofQuotient, h]
  have hinfinity (h : nearestCode d.num d.den = infinityCode) :
      Single.infinity negative = Single.ofQuotient negative d.num d.den := by
    simp [Single.infinity, Single.ofQuotient, h]
  have hunit : 2 * unit ≤ 10 ^ 46 := by decide
  have hlarge : 2 ^ 129 ≤ 10 ^ 40 := by decide
  simp only [Decimal.toSingle, Bool.or_eq_true, decide_eq_true_eq]
  split
  · rename_i h
    refine hzero (nearestCode_eq_zero ?_)
    rcases h with h | h
    · simp [Decimal.num, h, d.den_pos]
    · have := Decimal.lt_of_leading (d := d) (n := 46) (by omega)
      nlinarith
  · rename_i h
    split
    · rename_i hleading
      refine hinfinity (nearestCode_eq_infinityCode d.den_pos ?_)
      have := Decimal.le_of_leading (d := d) (n := 40) (by tauto) (by exact_mod_cast hleading)
      nlinarith [d.den_pos]
    · rfl

end Number

/-! ## The shortest decimal -/

namespace Single
open Number

theorem readsBack_of_onGrid? {x : Single} {power : Int} {d : Decimal} (h : x.onGrid? power = some d) :
    x.readsBack d = true := by
  simp only [onGrid?] at h
  split at h
  · rename_i hbelow
    obtain rfl := Option.some.inj h
    exact (Bool.and_eq_true _ _ ▸ hbelow).1
  · split at h
    · rename_i habove
      obtain rfl := Option.some.inj h
      exact habove
    · cases h

theorem onGrid?_finest {x : Single} (hx : x.isFinite = true) :
    x.onGrid? (-149) = some ⟨x.scaled * 5 ^ 149, -149⟩ := by
  have hnum : x.scaled * Nat.pow 10 149 = x.scaled * 5 ^ 149 * unit := by
    rw [unit, Nat.pow_eq, Nat.pow_eq, Nat.mul_assoc, ← Nat.mul_pow]
  have hden : unit * Nat.pow 10 (Int.toNat (-149)) = unit := by simp
  have hback : x.readsBack ⟨x.scaled * 5 ^ 149, -149⟩ = true := by
    rw [readsBack, beq_iff_eq, ← nearestCode_scaled hx]
    refine nearestCode_congr (Decimal.den_pos _) unit_pos ?_
    simp only [Decimal.num, Decimal.den]
    rw [show (-149 : Int).toNat = 0 from rfl, show (- -149 : Int).toNat = 149 from rfl, hnum]
    simp
  have hexact : 2 * 0 < unit := unit_pos
  simp only [onGrid?]
  rw [show (- -149 : Int).toNat = 149 from rfl, hden, hnum, Nat.mul_div_cancel _ unit_pos, Nat.mul_mod_left, hback,
    decide_eq_true hexact, Bool.or_true]
  rfl

/-- The shortest decimal of a finite number reads back as the number. -/
theorem readsBack_shortest {x : Single} (hx : x.isFinite = true) : x.readsBack x.shortest = true := by
  rw [shortest]
  cases h : powers.findSome? x.onGrid? with
  | none =>
    have hfinest : (-149 : Int) ∈ powers := by decide
    exact absurd (List.findSome?_eq_none_iff.mp h (-149) hfinest) (by simp [onGrid?_finest hx])
  | some d =>
    obtain ⟨power, -, hpower⟩ := List.exists_of_findSome?_eq_some h
    exact readsBack_of_onGrid? hpower

end Single
end ShadeGraph
