import Mathlib.Algebra.Order.Round
import Mathlib.Tactic.FieldSimp
import Mathlib.Tactic.Positivity
import ShadeGraph.Proofs.Number.Nearest

/-!
# Correct rounding

Both directions of the number text round to the nearest: a binary value to a whole number of decimal units, and a
decimal to a binary value. Of two values that are equally near the even one is chosen. Whole numbers have equal gaps, so
that a quotient is rounded correctly if it is at most a half away. The gaps of single precision numbers grow with their
magnitude. At the place of a quotient's last kept bit all numbers are multiples of that place, or they are smaller than
the quotient's own power of two and so farther away than that power; hence rounding to whole multiples is enough.
-/

namespace ShadeGraph.Number

/-- `a` is the choice of correct rounding for a number: no value of the set is nearer to it, and if another one is
equally near, `a` is even. -/
structure Chosen {α : Type} (s : Set α) (value : α → ℚ) (even : α → Prop) (q : ℚ) (a : α) : Prop where
  mem : a ∈ s
  nearest : ∀ b ∈ s, |q - value a| ≤ |q - value b|
  even : ∀ b ∈ s, value b ≠ value a → |q - value b| = |q - value a| → even a

theorem Chosen.of_scale {α : Type} {s : Set α} {value : α → ℚ} {even : α → Prop} {q c : ℚ} {a : α} (hc : 0 < c)
    (h : Chosen s (fun a => value a * c) even (q * c) a) : Chosen s value even q a := by
  have hdistance (a : α) : |q * c - value a * c| = |q - value a| * c := by
    rw [← sub_mul, abs_mul, abs_of_pos hc]
  refine ⟨h.mem, fun b hb => ?_, fun b hb hne htie => h.even b hb ?_ ?_⟩
  · have := h.nearest b hb
    rwa [hdistance, hdistance, mul_le_mul_iff_left₀ hc] at this
  · exact fun heq => hne (mul_right_cancel₀ hc.ne' heq)
  · rw [hdistance, hdistance, htie]

/-! ## Whole numbers -/

/-- The whole number that a number is rounded to, a half to the even one. -/
def RoundsTo (q : ℚ) (n : Nat) : Prop := Chosen Set.univ (fun n : Nat => (n : ℚ)) Even q n

/-- At most a half away, and even if exactly a half away. -/
def HalfEven (q : ℚ) (n : Nat) : Prop := |q - n| ≤ 1 / 2 ∧ (|q - n| = 1 / 2 → Even n)

variable {q : ℚ} {n m num den : Nat}

theorem one_le_abs_sub_add (h : n ≠ m) : 1 ≤ |q - n| + |q - m| := by
  have hstep : (1 : ℚ) ≤ |(n : ℚ) - m| := by
    exact_mod_cast Int.one_le_abs (show (n : ℤ) - m ≠ 0 by omega)
  calc (1 : ℚ) ≤ |(n : ℚ) - m| := hstep
    _ ≤ |(n : ℚ) - q| + |q - m| := abs_sub_le _ _ _
    _ = |q - n| + |q - m| := by rw [abs_sub_comm (n : ℚ)]

theorem HalfEven.roundsTo (h : HalfEven q n) : RoundsTo q n := by
  refine ⟨Set.mem_univ n, fun m _ => ?_, fun m _ hne htie => h.2 ?_⟩
  · by_cases heq : n = m
    · rw [heq]
    · have := one_le_abs_sub_add (q := q) heq
      linarith [h.1]
  · have := one_le_abs_sub_add (q := q) (n := n) (m := m) fun heq => hne (by rw [heq])
    linarith [h.1]

theorem HalfEven.unique (hn : HalfEven q n) (hm : HalfEven q m) : n = m := by
  by_contra hne
  have hsum := one_le_abs_sub_add (q := q) hne
  have hodd : ¬ (Even n ∧ Even m) ∨ 2 ≤ |(n : ℚ) - m| := by
    refine or_iff_not_imp_left.mpr fun heven => ?_
    obtain ⟨⟨j, hj⟩, k, hk⟩ := not_not.mp heven
    exact_mod_cast (by rw [le_abs]; omega : (2 : ℤ) ≤ |(n : ℤ) - m|)
  rcases hodd with hodd | hfar
  · exact hodd ⟨hn.2 (by linarith [hn.1, hm.1]), hm.2 (by linarith [hn.1, hm.1])⟩
  · have htriangle := abs_sub_le (n : ℚ) q m
    rw [abs_sub_comm (n : ℚ) q] at htriangle
    linarith [hn.1, hm.1]

theorem halfEven_roundDiv (num : Nat) (hden : 0 < den) : HalfEven (num / den) (roundDiv num den) := by
  have hpos : (0 : ℚ) < den := by exact_mod_cast hden
  have hsplit : (num : ℚ) / den = (num / den : Nat) + (num % den : Nat) / (den : ℚ) := by
    have hdiv : (num : ℚ) = den * (num / den : Nat) + (num % den : Nat) := by
      exact_mod_cast (Nat.div_add_mod num den).symm
    field_simp
    linarith
  have hnonneg : (0 : ℚ) ≤ (num % den : Nat) / (den : ℚ) := by positivity
  rw [HalfEven, hsplit]
  simp only [roundDiv]
  split
  · rename_i hbelow
    have hhalf : ((num % den : Nat) : ℚ) / den < 1 / 2 := by
      rw [div_lt_div_iff₀ hpos (by norm_num)]
      exact_mod_cast (by omega : num % den * 2 < 1 * den)
    rw [add_sub_cancel_left, abs_of_nonneg hnonneg]
    exact ⟨hhalf.le, fun heq => absurd heq hhalf.ne⟩
  have hle : (1 : ℚ) / 2 ≤ ((num % den : Nat) : ℚ) / den := by
    rw [div_le_div_iff₀ (by norm_num) hpos]
    exact_mod_cast (by omega : 1 * den ≤ num % den * 2)
  have hone : ((num % den : Nat) : ℚ) / den < 1 := by
    rw [div_lt_one hpos]
    exact_mod_cast Nat.mod_lt num hden
  have habove : |((num / den : Nat) : ℚ) + (num % den : Nat) / (den : ℚ) - (num / den + 1 : Nat)|
      = 1 - (num % den : Nat) / (den : ℚ) := by
    rw [Nat.cast_add_one, add_sub_add_left_eq_sub, abs_sub_comm, abs_of_nonneg (by linarith)]
  split
  · rename_i hbelow
    have hhalf : (1 : ℚ) / 2 < ((num % den : Nat) : ℚ) / den := by
      rw [div_lt_div_iff₀ (by norm_num) hpos]
      exact_mod_cast (by omega : 1 * den < num % den * 2)
    rw [habove]
    exact ⟨by linarith, fun heq => by linarith⟩
  have hhalf : ((num % den : Nat) : ℚ) / den = 1 / 2 := by
    rw [div_eq_div_iff hpos.ne' (by norm_num)]
    exact_mod_cast (by omega : num % den * 2 = 1 * den)
  split
  · rename_i heven
    rw [add_sub_cancel_left, abs_of_nonneg hnonneg, hhalf]
    exact ⟨le_rfl, fun _ => Nat.even_iff.mpr heven⟩
  · rename_i hodd
    rw [habove, hhalf]
    exact ⟨by norm_num, fun _ => Nat.even_iff.mpr (by omega)⟩

end ShadeGraph.Number

/-! ## Single precision numbers -/

namespace ShadeGraph.Single
open Number

/-- The exact magnitude of a number. Infinity counts as the power of two behind the largest finite number. -/
def magnitude (x : Single) : ℚ := x.scaled / unit

/-- The number of single precision that a magnitude is rounded to, a tie to the even code. -/
def Nearest (q : ℚ) (x : Single) : Prop := Chosen {x | x.isNaN = false} magnitude (fun x => Even x.code.val) q x

variable {x : Single} {num den p k : Nat}

theorem mantissa_lt (x : Single) : x.mantissa < 2 ^ 24 := by
  have hfraction : x.fractionBits < 8388608 := Nat.mod_lt _ (by decide)
  rw [mantissa]
  split <;> omega

theorem scaled_lt_or_multiple (x : Single) (p : Nat) : x.scaled < 2 ^ (p + 23) ∧ 0 < p ∨ ∃ j, x.scaled = j * 2 ^ p := by
  rw [scaled, Nat.pow_eq]
  rcases Nat.lt_or_ge x.place p with hlt | hle
  · refine .inl ⟨?_, by omega⟩
    calc x.mantissa * 2 ^ x.place < 2 ^ 24 * 2 ^ x.place := Nat.mul_lt_mul_of_pos_right x.mantissa_lt (by positivity)
      _ = 2 ^ (24 + x.place) := (Nat.pow_add _ _ _).symm
      _ ≤ 2 ^ (p + 23) := Nat.pow_le_pow_right (by decide) (by omega)
  · refine .inr ⟨x.mantissa * 2 ^ (x.place - p), ?_⟩
    rw [Nat.mul_assoc, ← Nat.pow_add, Nat.sub_add_cancel hle]

/-- A mantissa at some place is the magnitude of its own code, also where it carries into the exponent. -/
theorem scaled_of_code (hcode : x.code.val = p * 8388608 + k) (hk : k ≤ 2 ^ 24) (hp : p = 0 ∨ 2 ^ 23 ≤ k) :
    x.scaled = k * 2 ^ p := by
  simp only [scaled, mantissa, place, exponentBits, fractionBits, hcode, Nat.pow_eq]
  rcases Nat.lt_or_ge k 8388608 with hsmall | hlarge
  · obtain rfl : p = 0 := by omega
    rw [if_pos (by omega)]
    simp [Nat.mod_eq_of_lt hsmall, Nat.div_eq_of_lt hsmall]
  rw [if_neg (by omega)]
  rcases Nat.lt_or_eq_of_le hk with hlt | rfl
  · have hplace : (p * 8388608 + k) / 8388608 - 1 = p := by omega
    rw [hplace]
    congr 1
    omega
  · have hplace : (p * 8388608 + 2 ^ 24) / 8388608 - 1 = p + 1 := by omega
    have hmantissa : 8388608 + (p * 8388608 + 2 ^ 24) % 8388608 = 2 ^ 23 := by omega
    rw [hplace, hmantissa, Nat.pow_succ]
    ring

theorem scaled_infinity (hx : x.isInfinite = true) : x.scaled = 2 ^ 24 * 2 ^ 253 := by
  have hcode : x.code.val = 253 * 8388608 + 2 ^ 24 := by simpa [isInfinite, infinityCode] using hx
  exact scaled_of_code hcode le_rfl (.inr (by decide))

theorem scaled_le_of_isFinite (hx : x.isFinite = true) : x.scaled ≤ (2 ^ 24 - 1) * 2 ^ 253 := by
  have hcode : x.code.val < 255 * 8388608 := of_decide_eq_true hx
  have hplace : x.place ≤ 253 := by
    rw [place, exponentBits]
    omega
  exact Nat.mul_le_mul (Nat.le_sub_one_of_lt x.mantissa_lt) (Nat.pow_le_pow_right (by decide) hplace)

theorem isFinite_or_isInfinite (hx : x.isNaN = false) : x.isFinite = true ∨ x.isInfinite = true := by
  simp only [isNaN, isFinite, isInfinite, decide_eq_false_iff_not, decide_eq_true_eq, beq_iff_eq] at hx ⊢
  omega

theorem scaled_le_infinity (hx : x.isNaN = false) : x.scaled ≤ 2 ^ 24 * 2 ^ 253 := by
  rcases isFinite_or_isInfinite hx with hfinite | hinfinite
  · exact (scaled_le_of_isFinite hfinite).trans (Nat.mul_le_mul_right _ (by decide))
  · exact (scaled_infinity hinfinite).le

theorem placeOf_spec (num : Nat) (hden : 0 < den) : num * unit < den * 2 ^ (placeOf num den + 24) ∧
    (0 < placeOf num den → den * 2 ^ (placeOf num den + 23) ≤ num * unit) := by
  constructor
  · have hlog : num * unit / den < 2 ^ (placeOf num den + 24) := by
      refine Nat.lt_of_lt_of_le Nat.lt_log2_self (Nat.pow_le_pow_right (by decide) ?_)
      rw [placeOf]
      omega
    rwa [Nat.div_lt_iff_lt_mul hden, Nat.mul_comm _ den] at hlog
  · intro hp
    have hlog : placeOf num den + 23 = Nat.log2 (num * unit / den) := by
      rw [placeOf] at hp ⊢
      omega
    have hne : num * unit / den ≠ 0 := by
      intro hzero
      rw [hzero, Nat.log2_zero] at hlog
      omega
    rw [hlog, Nat.mul_comm, ← Nat.le_div_iff_mul_le hden]
    exact Nat.log2_self_le hne

theorem nearest_multiple {q : ℚ} (hround : HalfEven (q / 2 ^ p) k) (hq : 0 < p → (2 ^ (p + 23) : ℚ) ≤ q) (y : Single) :
    |q - k * 2 ^ p| ≤ |q - y.scaled| ∧
      ((y.scaled : ℚ) ≠ k * 2 ^ p → |q - y.scaled| = |q - k * 2 ^ p| → Even k) := by
  have hpos : (0 : ℚ) < 2 ^ p := by positivity
  have hdistance (j : Nat) : |q - j * 2 ^ p| = |q / 2 ^ p - j| * 2 ^ p := by
    rw [← abs_of_pos hpos, ← abs_mul, abs_of_pos hpos, sub_mul, div_mul_cancel₀ _ hpos.ne']
  have hgrid (j : Nat) : |q - k * 2 ^ p| ≤ |q - j * 2 ^ p| := by
    rw [hdistance, hdistance, mul_le_mul_iff_left₀ hpos]
    exact hround.roundsTo.nearest j (Set.mem_univ j)
  rcases y.scaled_lt_or_multiple p with ⟨hlt, hp⟩ | ⟨j, hj⟩
  · -- The power of two below the quotient is a multiple, and nearer.
    have hpower := hq hp
    have hbelow : (y.scaled : ℚ) < 2 ^ (p + 23) := by exact_mod_cast hlt
    have hnearer : |q - k * 2 ^ p| < |q - y.scaled| := by
      calc |q - k * 2 ^ p| ≤ |q - (2 ^ 23 : Nat) * 2 ^ p| := hgrid (2 ^ 23)
        _ = q - 2 ^ (p + 23) := by
            rw [Nat.cast_pow, Nat.cast_ofNat, ← pow_add, Nat.add_comm 23, abs_of_nonneg (by linarith)]
        _ < q - y.scaled := by linarith
        _ = |q - y.scaled| := (abs_of_nonneg (by linarith)).symm
    exact ⟨hnearer.le, fun _ htie => absurd htie.symm hnearer.ne⟩
  · have hcast : (y.scaled : ℚ) = j * 2 ^ p := by exact_mod_cast hj
    rw [hcast]
    refine ⟨hgrid j, fun hne htie => hround.roundsTo.even j (Set.mem_univ j) ?_ ?_⟩
    · exact fun heq => hne (by rw [heq])
    · rw [hdistance, hdistance] at htie
      exact mul_right_cancel₀ hpos.ne' htie

theorem kept_bits {q : ℚ} (hround : HalfEven (q / 2 ^ p) k) (habove : q < 2 ^ (p + 24))
    (hq : 0 < p → (2 ^ (p + 23) : ℚ) ≤ q) : k ≤ 2 ^ 24 ∧ (p = 0 ∨ 2 ^ 23 ≤ k) := by
  have hpos : (0 : ℚ) < 2 ^ p := by positivity
  obtain ⟨hlow, hhigh⟩ := abs_le.mp hround.1
  constructor
  · have hlt : q / 2 ^ p < 2 ^ 24 := by rwa [div_lt_iff₀ hpos, ← pow_add, Nat.add_comm 24]
    have hk : (k : ℚ) < (2 ^ 24 + 1 : Nat) := by
      push_cast
      linarith
    exact Nat.lt_succ_iff.mp (by exact_mod_cast hk)
  · refine (Nat.eq_zero_or_pos p).imp_right fun hp => ?_
    have hle : 2 ^ 23 ≤ q / 2 ^ p := by
      rw [le_div_iff₀ hpos, ← pow_add, Nat.add_comm 23]
      exact hq hp
    have hk : ((2 ^ 23 : Nat) : ℚ) < (k + 1 : Nat) := by
      push_cast
      linarith
    exact Nat.lt_succ_iff.mp (by exact_mod_cast hk)

section
variable {q : ℚ}

theorem chosen_of_code (hround : HalfEven (q / 2 ^ p) k) (habove : q < 2 ^ (p + 24))
    (hq : 0 < p → (2 ^ (p + 23) : ℚ) ≤ q) (hx : x.isNaN = false) (hcode : x.code.val = p * 8388608 + k) :
    Chosen {x | x.isNaN = false} (fun x => (x.scaled : ℚ)) (fun x => Even x.code.val) q x := by
  obtain ⟨hbits, hbits'⟩ := kept_bits hround habove hq
  have hscaled : (x.scaled : ℚ) = k * 2 ^ p := by exact_mod_cast scaled_of_code hcode hbits hbits'
  refine ⟨hx, fun y _ => ?_, fun y _ hne htie => ?_⟩
  · rw [hscaled]
    exact (nearest_multiple hround hq y).1
  · rw [hscaled] at hne htie
    rw [hcode]
    exact (Nat.even_mul.mpr (.inr (by decide))).add ((nearest_multiple hround hq y).2 hne htie)

theorem chosen_infinity (hlarge : (2 ^ 24 * 2 ^ 253 : ℚ) ≤ q) (hx : x.isInfinite = true) :
    Chosen {x | x.isNaN = false} (fun x => (x.scaled : ℚ)) (fun x => Even x.code.val) q x := by
  have hcode : x.code.val = infinityCode := by simpa [isInfinite] using hx
  have hscaled (y : Single) (hy : y.isNaN = false) : (y.scaled : ℚ) ≤ x.scaled := by
    rw [scaled_infinity hx]
    exact_mod_cast scaled_le_infinity hy
  have hle : (x.scaled : ℚ) ≤ q := by
    rw [scaled_infinity hx]
    exact_mod_cast hlarge
  refine ⟨?_, fun y hy => ?_, fun _ _ _ _ => ?_⟩
  · change x.isNaN = false
    simp [isNaN, hcode]
  · have hy := hscaled y hy
    rw [abs_of_nonneg (by linarith), abs_of_nonneg (by linarith)]
    linarith
  · rw [hcode]
    decide

end

/-- Reading a quotient rounds it correctly. -/
theorem nearest_ofQuotient (negative : Bool) (num : Nat) (hden : 0 < den) :
    Nearest (num / den) (ofQuotient negative num den) := by
  set p := placeOf num den with hp
  set k := roundDiv (num * unit) (den * 2 ^ p) with hk
  have hcode : (ofQuotient negative num den).code.val = min infinityCode (p * 8388608 + k) := rfl
  have hdenq : (0 : ℚ) < den := by exact_mod_cast hden
  have hunit : (0 : ℚ) < unit := by exact_mod_cast unit_pos
  have hscale : (fun x : Single => x.magnitude * unit) = fun x => (x.scaled : ℚ) := by
    funext x
    exact div_mul_cancel₀ _ hunit.ne'
  refine .of_scale hunit ?_
  rw [hscale, div_mul_eq_mul_div]
  obtain ⟨habove, hbelow⟩ := placeOf_spec num hden
  have hround : HalfEven (num * unit / den / 2 ^ p) k := by
    have := halfEven_roundDiv (num * unit) (by positivity : 0 < den * 2 ^ p)
    push_cast at this
    rwa [← div_div] at this
  have habove : (num * unit / den : ℚ) < 2 ^ (p + 24) := by
    rw [div_lt_iff₀ hdenq, mul_comm _ (den : ℚ)]
    exact_mod_cast habove
  have hpower (hpos : 0 < p) : (2 ^ (p + 23) : ℚ) ≤ num * unit / den := by
    rw [le_div_iff₀ hdenq, mul_comm _ (den : ℚ)]
    exact_mod_cast hbelow hpos
  rcases Nat.lt_or_ge infinityCode (p * 8388608 + k) with hlt | hle
  · refine chosen_infinity ?_ (by simp [isInfinite, hcode, hlt.le])
    have hplace : 254 ≤ p := by
      have := (kept_bits hround habove hpower).1
      simp only [infinityCode] at hlt
      omega
    rw [← pow_add]
    exact le_trans (pow_le_pow_right₀ (by norm_num) (by omega)) (hpower (by omega))
  · exact chosen_of_code hround habove hpower (by simp [isNaN, hcode]) (hcode.trans (Nat.min_eq_right hle))

end ShadeGraph.Single

/-! ## Decimals -/

namespace ShadeGraph.Number.Decimal

def value (d : Decimal) : ℚ := d.coefficient * 10 ^ d.power

theorem value_eq (d : Decimal) : d.value = d.num / d.den := by
  have hpower : d.power = d.power.toNat - ((-d.power).toNat : Int) := by omega
  rw [value, num, den, Nat.pow_eq, Nat.pow_eq]
  nth_rewrite 1 [hpower]
  rw [zpow_sub₀ (by norm_num), zpow_natCast, zpow_natCast, mul_div_assoc']
  push_cast
  rfl

theorem value_places (n places : Nat) : value ⟨n, -(places : Int)⟩ = n / 10 ^ places := by
  rw [value, zpow_neg, zpow_natCast, div_eq_mul_inv]

theorem nearest_toSingle (d : Decimal) (negative : Bool) : (d.toSingle negative).Nearest d.value := by
  rw [toSingle_eq, value_eq]
  exact Single.nearest_ofQuotient negative d.num d.den_pos

end ShadeGraph.Number.Decimal
