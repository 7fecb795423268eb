import ShadeGraph.Proofs.Number.Correct
import ShadeGraph.Proofs.Number.Text

/-!
# The number that a text shows

Each format chooses a decimal for a number and writes it so that the text denotes just this decimal. Small whole numbers
are shown as they are, except in scientific notation without places: it keeps one digit, and with it a number above ten
is often another one.
-/

namespace ShadeGraph

open Number

/-! ## Exponents -/

namespace Number

/-- The number that a text with an optional sign denotes exactly. -/
def readNumber? (cs : List Char) : Option ℚ :=
  let (negative, digits) := takeSign cs
  (readDecimal? digits).map fun d => if negative then -d.value else d.value

theorem readDecimal?_point_exponent {whole fraction tail : List Char} {exponent : Int} (hne : whole ≠ [])
    (hwhole : ∀ c ∈ whole, c.isDigit = true) (hfraction : ∀ c ∈ fraction, c.isDigit = true)
    (htail : readExponent? ('e' :: tail) = some exponent) :
    readDecimal? (whole ++ '.' :: (fraction ++ 'e' :: tail)) =
      some ⟨Nat.ofDigitChars 10 (whole ++ fraction) 0, exponent - fraction.length⟩ := by
  have htake := takeDigits_point hwhole hfraction (by simp : ∀ c ∈ ('e' :: tail).head?, c.isDigit = false)
  simp [readDecimal?, htake, hne, htail]

theorem readDecimal?_exponent {whole tail : List Char} {exponent : Int} (hne : whole ≠ [])
    (hwhole : ∀ c ∈ whole, c.isDigit = true) (htail : readExponent? ('e' :: tail) = some exponent) :
    readDecimal? (whole ++ 'e' :: tail) = some ⟨Nat.ofDigitChars 10 whole 0, exponent⟩ := by
  obtain ⟨hfirst, hrest⟩ := takeWhile_isDigit hwhole (by simp : ∀ c ∈ ('e' :: tail).head?, c.isDigit = false)
  have htake : takeDigits (whole ++ 'e' :: tail) = (whole, [], 'e' :: tail) := by
    simp only [takeDigits, hfirst, hrest]
    rfl
  simp [readDecimal?, htake, hne, htail]

end Number

/-! ## The decimals of a format -/

namespace FloatFormat

theorem readExponent?_powerChars (power : Int) : readExponent? ('e' :: powerChars power) = some power := by
  have hchars : powerChars power = (toString power).toList := by
    rw [toList_toString, powerChars]
    by_cases hneg : power < 0
    · rw [if_pos hneg, if_neg (by omega)]
      congr 2
      omega
    · rw [if_neg hneg, if_pos (by omega)]
      congr 1
      omega
  rw [readExponent?, if_pos (by decide), hchars, readInt?_toString]

/-- The number that the text of a finite magnitude shows. -/
def shown (f : FloatFormat) (x : Single) : ℚ :=
  match f.mode with
  | .shortest => x.shortest.value
  | .fixed => Decimal.value ⟨x.atPlaces (max f.precision 1), -(max f.precision 1 : Nat)⟩
  | .scientific => (x.atDigits f.precision).value

theorem readDecimal?_scientific (p : Nat) (x : Single) :
    ∃ d, readDecimal? (scientificChars p x) = some d ∧ d.value = (x.atDigits p).value := by
  simp only [scientificChars]
  set d := x.atDigits p
  set power : Int := if d.coefficient = 0 then 0 else d.power + p with hpower
  have hvalue : Decimal.value ⟨d.coefficient, power - p⟩ = d.value := by
    rw [Decimal.value, Decimal.value]
    split at hpower
    · rename_i hzero
      simp [hzero]
    · rw [hpower, Int.add_sub_cancel]
  have hne : Nat.toDigits 10 (d.coefficient / Nat.pow 10 p) ≠ [] := List.length_pos_iff.mp Nat.length_toDigits_pos
  by_cases hp : p = 0
  · refine ⟨_, ?_, hvalue⟩
    have hread := readDecimal?_exponent (List.length_pos_iff.mp Nat.length_toDigits_pos)
      (fun c hc => isDigit_of_mem_toDigits (n := d.coefficient) hc) (readExponent?_powerChars power)
    rw [if_pos hp, hread, Nat.ofDigitChars_ten_toDigits, hp]
    simp
  · refine ⟨_, ?_, hvalue⟩
    have hlength : (padded p (d.coefficient % Nat.pow 10 p)).length = p :=
      length_padded (by omega) (Nat.mod_lt _ (Nat.pow_pos (by decide)))
    rw [if_neg hp, pointed, List.append_assoc, List.cons_append, readDecimal?_point_exponent hne
      (fun c hc => isDigit_of_mem_toDigits hc) (fun c hc => isDigit_of_mem_padded hc) (readExponent?_powerChars power),
      hlength]
    rw [Nat.ofDigitChars_append, Nat.ofDigitChars_ten_toDigits, Nat.ofDigitChars_eq_ofDigitChars_zero, hlength,
      ofDigitChars_padded, ← Nat.pow_eq, Nat.div_add_mod]

theorem readDecimal?_magnitudeChars (f : FloatFormat) (x : Single) :
    ∃ d, readDecimal? (f.magnitudeChars x) = some d ∧ d.value = f.shown x := by
  unfold magnitudeChars shown
  cases f.mode with
  | shortest =>
    obtain ⟨d, hread, hvalue⟩ := readDecimal?_positional x.shortest
    refine ⟨d, hread, ?_⟩
    have hpos (d : Decimal) : (d.den : ℚ) ≠ 0 := by exact_mod_cast d.den_pos.ne'
    rw [Decimal.value_eq, Decimal.value_eq, div_eq_div_iff (hpos _) (hpos _)]
    exact_mod_cast hvalue
  | fixed => exact ⟨_, readDecimal?_pointed (by omega) _, rfl⟩
  | scientific => exact readDecimal?_scientific f.precision x

theorem head?_magnitudeChars_isDigit (f : FloatFormat) (x : Single) :
    ∀ c ∈ (f.magnitudeChars x).head?, c.isDigit = true := by
  unfold magnitudeChars
  cases f.mode with
  | shortest => exact head?_positional_isDigit x.shortest
  | fixed => exact head?_toDigits_isDigit _ _
  | scientific =>
    simp only [scientificChars]
    split
    · exact head?_toDigits_isDigit _ _
    · rw [pointed, List.append_assoc]
      exact head?_toDigits_isDigit _ _

theorem readNumber?_chars (f : FloatFormat) {x : Single} (hx : x.isFinite = true) (hsign : x.negative = false) :
    readNumber? (f.chars x) = some (f.shown x) := by
  have hcode : x.code.val < Single.infinityCode := of_decide_eq_true hx
  have hnan : x.isNaN = false := decide_eq_false hcode.not_gt
  have hinfinite : x.isInfinite = false := beq_eq_false_iff_ne.mpr hcode.ne
  have hchars : f.chars x = f.magnitudeChars x := by simp [chars, hnan, hinfinite, hsign]
  obtain ⟨d, hread, hvalue⟩ := f.readDecimal?_magnitudeChars x
  simp [readNumber?, hchars, takeSign_of_isDigit (head?_magnitudeChars_isDigit f x), hread, hvalue]

/-! ## Small whole numbers -/

theorem scaled_ofNat : ∀ n < 32, (Single.ofNat n).scaled = n * Single.unit := by decide

theorem shortest_ofNat : ∀ n < 32, (Single.ofNat n).shortest.num = n * (Single.ofNat n).shortest.den := by decide

theorem leadingPower_ofNat : ∀ n < 32, (Single.ofNat n).leadingPower = if n < 10 then 0 else 1 := by decide

theorem atPlaces_ofNat {n : Nat} (hn : n < 32) (places : Nat) : (Single.ofNat n).atPlaces places = n * 10 ^ places := by
  rw [Single.atPlaces, scaled_ofNat n hn, Nat.mul_right_comm, roundDiv_mul_self _ Single.unit_pos, Nat.pow_eq]

theorem atDigits_ofNat {n p : Nat} (hn : n < 32) (hp : p ≠ 0 ∨ n < 10) : ((Single.ofNat n).atDigits p).value = n := by
  -- The places of the coefficient: all of them behind a single digit, and one less behind two digits.
  obtain ⟨places, hplaces, hpower⟩ : ∃ places : Nat, n * 10 ^ places ≠ 10 ^ (p + 1) ∧
      (Single.ofNat n).leadingPower - p = -(places : Int) := by
    rw [leadingPower_ofNat n hn]
    by_cases hsmall : n < 10
    · refine ⟨p, ?_, by rw [if_pos hsmall]; omega⟩
      rw [Nat.pow_succ']
      exact fun heq => hsmall.ne (Nat.eq_of_mul_eq_mul_right (Nat.pow_pos (by decide)) heq)
    · obtain ⟨p, rfl⟩ := Nat.exists_eq_succ_of_ne_zero (hp.resolve_right hsmall)
      refine ⟨p, ?_, by rw [if_neg hsmall]; omega⟩
      rw [Nat.pow_succ', Nat.pow_succ', ← Nat.mul_assoc]
      intro heq
      have := Nat.eq_of_mul_eq_mul_right (Nat.pow_pos (by decide)) heq
      omega
  have hcoefficient : roundDiv ((Single.ofNat n).scaled * Nat.pow 10 places) Single.unit = n * 10 ^ places :=
    atPlaces_ofNat hn places
  have htoNat : (-(places : Int)).toNat = 0 := by omega
  have hone : Single.unit * Nat.pow 10 0 = Single.unit := Nat.mul_one _
  rw [Single.atDigits, hpower, Int.neg_neg, Int.toNat_natCast, htoNat, hone, hcoefficient, Nat.pow_eq, if_neg hplaces,
    Decimal.value_places]
  push_cast
  exact mul_div_cancel_right₀ _ (by positivity)

theorem num_atDigits_ten : ((Single.ofNat 10).atDigits 0).num = 10 * ((Single.ofNat 10).atDigits 0).den := by decide

theorem num_atDigits_eleven : ((Single.ofNat 11).atDigits 0).num = 10 * ((Single.ofNat 11).atDigits 0).den := by decide

theorem value_of_num {d : Decimal} {n : Nat} (h : d.num = n * d.den) : d.value = n := by
  have hpos : (d.den : ℚ) ≠ 0 := by exact_mod_cast d.den_pos.ne'
  rw [Decimal.value_eq, h, Nat.cast_mul, mul_div_cancel_right₀ _ hpos]

/-- Small whole numbers are shown as they are, those above ten not in scientific notation without places. -/
theorem shown_ofNat {f : FloatFormat} {n : Nat} (hn : n < 32)
    (hf : f.mode ≠ .scientific ∨ f.precision ≠ 0 ∨ n ≤ 10) : f.shown (Single.ofNat n) = n := by
  unfold shown
  cases hmode : f.mode with
  | shortest => exact value_of_num (shortest_ofNat n hn)
  | fixed =>
    simp only [Decimal.value_places, atPlaces_ofNat hn]
    push_cast
    exact mul_div_cancel_right₀ _ (by positivity)
  | scientific =>
    rcases hf with hf | hf | hten
    · exact absurd hmode hf
    · exact atDigits_ofNat hn (.inl hf)
    · rcases Nat.lt_or_eq_of_le hten with hlt | rfl
      · exact atDigits_ofNat hn (.inr hlt)
      · by_cases hp : f.precision = 0
        · rw [hp]
          exact value_of_num num_atDigits_ten
        · exact atDigits_ofNat hn (.inl hp)

/-- In scientific notation without places, eleven is shown as ten. -/
theorem shown_eleven {f : FloatFormat} (hmode : f.mode = .scientific) (hprecision : f.precision = 0) :
    f.shown (Single.ofNat 11) = 10 := by
  rw [shown, hmode, hprecision]
  exact value_of_num num_atDigits_eleven

end FloatFormat
end ShadeGraph
