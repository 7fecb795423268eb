import Mathlib.Data.List.TakeWhile
import ShadeGraph.Number.Format
import ShadeGraph.Proofs.Number.Nearest
import ShadeGraph.Text.Basic

/-!
# Numbers and their text

The text of a number reads back as the number. Digits are read as the number that they stand for, the text of a decimal
as a decimal of the same value, and the shortest text of a floating point number as the number with all its bits.
-/

namespace ShadeGraph

/-! ## Digits -/

namespace Number

theorem isDigit_of_mem_toDigits {n : Nat} {c : Char} (h : c ∈ Nat.toDigits 10 n) : c.isDigit = true :=
  Nat.isDigit_of_mem_toDigits (by decide) (by decide) h

theorem isDigit_of_mem_padded {width n : Nat} {c : Char} (h : c ∈ padded width n) : c.isDigit = true := by
  rcases List.mem_append.mp h with h | h
  · obtain rfl := List.eq_of_mem_replicate h
    decide
  · exact isDigit_of_mem_toDigits h

theorem length_padded {width n : Nat} (hwidth : 0 < width) (h : n < 10 ^ width) : (padded width n).length = width := by
  have := (Nat.length_toDigits_le_iff (b := 10) (by decide) hwidth).mpr h
  rw [padded, List.length_append, List.length_replicate]
  omega

theorem ofDigitChars_padded (width n : Nat) : Nat.ofDigitChars 10 (padded width n) 0 = n := by
  rw [padded, Nat.ofDigitChars_append, Nat.ofDigitChars_replicate_zero, Nat.mul_zero, Nat.ofDigitChars_ten_toDigits]

theorem readDigits?_toDigits (n : Nat) : readDigits? (Nat.toDigits 10 n) = some n := by
  have hdigits : (Nat.toDigits 10 n).all Char.isDigit = true :=
    List.all_eq_true.mpr fun c hc => isDigit_of_mem_toDigits hc
  have hne : (Nat.toDigits 10 n).isEmpty = false :=
    List.isEmpty_eq_false_iff.mpr (List.length_pos_iff.mp Nat.length_toDigits_pos)
  simp [readDigits?, hdigits, hne, Nat.ofDigitChars_ten_toDigits]

/-! ## Signs -/

theorem takeSign_minus (cs : List Char) : takeSign ('-' :: cs) = (true, cs) := rfl

theorem takeSign_of_ne {c : Char} (cs : List Char) (hplus : c ≠ '+') (hminus : c ≠ '-') :
    takeSign (c :: cs) = (false, c :: cs) := by
  unfold takeSign
  split
  · simp_all
  · simp_all
  · rfl

theorem takeSign_of_isDigit {cs : List Char} (h : ∀ c ∈ cs.head?, c.isDigit = true) : takeSign cs = (false, cs) := by
  cases cs with
  | nil => rfl
  | cons c cs =>
    have hc : c.isDigit = true := h c rfl
    exact takeSign_of_ne cs (fun he => by subst he; cases hc) (fun he => by subst he; cases hc)

theorem head?_toDigits_isDigit (n : Nat) (rest : List Char) :
    ∀ c ∈ (Nat.toDigits 10 n ++ rest).head?, c.isDigit = true := by
  intro c hc
  cases hdigits : Nat.toDigits 10 n with
  | nil => exact absurd (hdigits ▸ Nat.length_toDigits_pos) (by simp)
  | cons d ds =>
    rw [hdigits, List.cons_append, List.head?_cons, Option.mem_some_iff] at hc
    subst hc
    exact isDigit_of_mem_toDigits (hdigits ▸ List.mem_cons_self)

/-! ## Whole numbers -/

theorem toList_toString (n : Int) :
    (toString n).toList = if 0 ≤ n then Nat.toDigits 10 n.toNat else '-' :: Nat.toDigits 10 (-n).toNat := by
  rw [Int.toString_eq_repr, Int.repr_eq_if]
  split <;> simp [Nat.repr_eq_ofList_toDigits]

theorem readInt?_toString (n : Int) : readInt? (toString n).toList = some n := by
  rw [toList_toString]
  split
  · rename_i hn
    have hsign := takeSign_of_isDigit (by simpa using head?_toDigits_isDigit n.toNat [])
    simp [readInt?, hsign, readDigits?_toDigits, hn]
  · rename_i hn
    have hneg : -max (-n) 0 = n := by omega
    simp [readInt?, takeSign_minus, readDigits?_toDigits, hneg]

theorem readInt32?_toString (n : Int32) : readInt32? (toString n.toInt).toList = some n := by
  have hlow := n.le_toInt
  have hhigh := n.toInt_lt
  have hrange : (-2147483648 ≤ n.toInt && n.toInt ≤ 2147483647) = true := by
    simp only [Bool.and_eq_true, decide_eq_true_eq]
    omega
  rw [readInt32?, readInt?_toString]
  simp only [hrange, if_true, Int32.ofInt_toInt]

/-! ## Decimals -/

theorem takeWhile_isDigit {digits tail : List Char} (hdigits : ∀ c ∈ digits, c.isDigit = true)
    (htail : ∀ c ∈ tail.head?, c.isDigit = false) :
    (digits ++ tail).takeWhile Char.isDigit = digits ∧ (digits ++ tail).dropWhile Char.isDigit = tail := by
  rw [List.takeWhile_append_of_pos hdigits, List.dropWhile_append_of_pos hdigits]
  cases tail with
  | nil => simp
  | cons c tail =>
    have hc : ¬ c.isDigit = true := by simp [htail c rfl]
    rw [List.takeWhile_cons_of_neg hc, List.dropWhile_cons_of_neg hc, List.append_nil]
    exact ⟨rfl, rfl⟩

theorem takeDigits_point {whole fraction tail : List Char} (hwhole : ∀ c ∈ whole, c.isDigit = true)
    (hfraction : ∀ c ∈ fraction, c.isDigit = true) (htail : ∀ c ∈ tail.head?, c.isDigit = false) :
    takeDigits (whole ++ '.' :: (fraction ++ tail)) = (whole, fraction, tail) := by
  have hpoint : ∀ c ∈ ('.' :: (fraction ++ tail)).head?, c.isDigit = false := by
    intro c hc
    obtain rfl := Option.some.inj hc
    decide
  obtain ⟨hfirst, hrest⟩ := takeWhile_isDigit hwhole hpoint
  obtain ⟨hsecond, hlast⟩ := takeWhile_isDigit hfraction htail
  simp only [takeDigits, hfirst, hrest, hsecond, hlast]

theorem readDecimal?_point {whole fraction : List Char} (hne : whole ≠ [])
    (hwhole : ∀ c ∈ whole, c.isDigit = true) (hfraction : ∀ c ∈ fraction, c.isDigit = true) :
    readDecimal? (whole ++ '.' :: fraction) =
      some ⟨Nat.ofDigitChars 10 (whole ++ fraction) 0, -(fraction.length : Int)⟩ := by
  have htake := takeDigits_point hwhole hfraction (by simp : ∀ c ∈ ([] : List Char).head?, c.isDigit = false)
  rw [List.append_nil] at htake
  simp [readDecimal?, htake, hne, readExponent?]

theorem readDecimal?_pointed {places : Nat} (hplaces : 0 < places) (n : Nat) :
    readDecimal? (pointed places n) = some ⟨n, -(places : Int)⟩ := by
  have hlength : (padded places (n % Nat.pow 10 places)).length = places :=
    length_padded hplaces (Nat.mod_lt _ (Nat.pow_pos (by decide)))
  rw [pointed, readDecimal?_point (List.length_pos_iff.mp Nat.length_toDigits_pos)
    (fun c hc => isDigit_of_mem_toDigits hc) (fun c hc => isDigit_of_mem_padded hc), hlength]
  rw [Nat.ofDigitChars_append, Nat.ofDigitChars_ten_toDigits, Nat.ofDigitChars_eq_ofDigitChars_zero, hlength,
    ofDigitChars_padded, ← Nat.pow_eq, Nat.div_add_mod]

end Number

/-! ## Floating point numbers -/

namespace FloatFormat
open Number

theorem readDecimal?_positional (d : Decimal) :
    ∃ d', readDecimal? (if 0 ≤ d.power then d.positional ++ ['.', '0'] else d.positional) = some d' ∧
      d'.num * d.den = d.num * d'.den := by
  by_cases hpower : 0 ≤ d.power
  · have hden : (-d.power).toNat = 0 := by omega
    refine ⟨⟨d.num * 10, -1⟩, ?_, ?_⟩
    · rw [if_pos hpower, Decimal.positional, if_pos hpower,
        readDecimal?_point (List.length_pos_iff.mp Nat.length_toDigits_pos)
          (fun c hc => isDigit_of_mem_toDigits hc) (by simp), Nat.ofDigitChars_append, Nat.ofDigitChars_ten_toDigits]
      simp [Nat.ofDigitChars_cons, Nat.mul_comm]
    · simp [hden, Decimal.num, Decimal.den]
  · refine ⟨d, ?_, rfl⟩
    have hplaces : -((-d.power).toNat : Int) = d.power := by omega
    rw [if_neg hpower, Decimal.positional, if_neg hpower, readDecimal?_pointed (by omega), hplaces]

theorem head?_positional_isDigit (d : Decimal) :
    ∀ c ∈ (if 0 ≤ d.power then d.positional ++ ['.', '0'] else d.positional).head?, c.isDigit = true := by
  by_cases hpower : 0 ≤ d.power
  · rw [if_pos hpower, Decimal.positional, if_pos hpower]
    exact head?_toDigits_isDigit _ _
  · rw [if_neg hpower, Decimal.positional, if_neg hpower]
    exact head?_toDigits_isDigit _ _

theorem readSingle?_magnitude {x : Single} (hx : x.isFinite = true) {cs : List Char} {negative : Bool}
    (hsign : takeSign cs = (negative, shortestChars x)) : readSingle? cs = some ⟨negative, x.code⟩ := by
  obtain ⟨d, hread, hvalue⟩ := readDecimal?_positional x.shortest
  have hcode : Single.nearestCode d.num d.den = x.code.val := by
    have hback := Single.readsBack_shortest hx
    rw [Single.readsBack, beq_iff_eq] at hback
    rw [Decimal.nearestCode_congr hvalue, hback]
  rw [shortestChars] at hsign
  simp only [readSingle?, hsign, hread, Decimal.toSingle_eq, Single.ofQuotient, hcode]

theorem readSingle?_inf (negative : Bool) :
    readSingle? (if negative then ['-', 'i', 'n', 'f'] else ['i', 'n', 'f']) = some (.infinity negative) := by
  cases negative <;> decide

/-- The shortest text of a number reads back as the number. -/
theorem readSingle?_chars {x : Single} (hx : x.isNaN = false) : readSingle? (chars {} x) = some x := by
  rw [chars, hx, if_neg (by decide)]
  by_cases hinfinite : x.isInfinite = true
  · have hcode : x = Single.infinity x.negative := by
      obtain ⟨negative, code⟩ := x
      rw [Single.infinity, Single.mk.injEq]
      exact ⟨rfl, Fin.ext (by simpa [Single.isInfinite] using hinfinite)⟩
    rw [if_pos hinfinite, readSingle?_inf, ← hcode]
  · have hfinite : x.isFinite = true := by
      simp only [Single.isFinite, Single.isInfinite, Single.isNaN, beq_iff_eq, decide_eq_true_eq,
        decide_eq_false_iff_not] at *
      omega
    have hmagnitude : magnitudeChars {} x = shortestChars x := rfl
    rw [if_neg hinfinite, hmagnitude]
    obtain ⟨negative, code⟩ := x
    cases negative with
    | true =>
      rw [if_pos rfl]
      exact readSingle?_magnitude hfinite (takeSign_minus _)
    | false =>
      rw [if_neg Bool.false_ne_true]
      exact readSingle?_magnitude hfinite (takeSign_of_isDigit (head?_positional_isDigit _))

/-! ## Characters -/

def marks : List Char := ['.', '-', 'e', 'i', 'n', 'f', 'N', 'a']

/-- Whether a text has digits and the marks of numbers only. -/
def IsNumeric (cs : List Char) : Prop := ∀ c ∈ cs, c.isDigit = true ∨ c ∈ marks

theorem isNumeric_toDigits (n : Nat) : IsNumeric (Nat.toDigits 10 n) := fun _ h => Or.inl (isDigit_of_mem_toDigits h)

theorem IsNumeric.append {cs ds : List Char} (hcs : IsNumeric cs) (hds : IsNumeric ds) : IsNumeric (cs ++ ds) := by
  intro c hc
  rcases List.mem_append.mp hc with hc | hc
  · exact hcs c hc
  · exact hds c hc

theorem IsNumeric.cons {c : Char} {cs : List Char} (hc : c ∈ marks) (hcs : IsNumeric cs) : IsNumeric (c :: cs) := by
  intro d hd
  rcases List.mem_cons.mp hd with rfl | hd
  · exact Or.inr hc
  · exact hcs d hd

theorem isNumeric_pointed (places n : Nat) : IsNumeric (pointed places n) :=
  (isNumeric_toDigits _).append (.cons (by decide) fun _ h => Or.inl (isDigit_of_mem_padded h))

theorem isNumeric_positional (d : Decimal) : IsNumeric d.positional := by
  rw [Decimal.positional]
  split
  · exact isNumeric_toDigits _
  · exact isNumeric_pointed _ _

theorem isNumeric_powerChars (power : Int) : IsNumeric (powerChars power) := by
  rw [powerChars]
  split
  · exact .cons (by decide) (isNumeric_toDigits _)
  · exact isNumeric_toDigits _

theorem isNumeric_magnitudeChars (f : FloatFormat) (x : Single) : IsNumeric (f.magnitudeChars x) := by
  unfold magnitudeChars
  cases f.mode with
  | shortest =>
    simp only [shortestChars]
    split
    · exact (isNumeric_positional _).append (by simp [IsNumeric, marks])
    · exact isNumeric_positional _
  | fixed => exact isNumeric_pointed _ _
  | scientific =>
    simp only [scientificChars]
    refine IsNumeric.append ?_ (.cons (by decide) (isNumeric_powerChars _))
    split
    · exact isNumeric_toDigits _
    · exact isNumeric_pointed _ _

theorem isNumeric_chars (f : FloatFormat) (x : Single) : IsNumeric (f.chars x) := by
  have hmagnitude : IsNumeric (if x.isInfinite then ['i', 'n', 'f'] else f.magnitudeChars x) := by
    split
    · simp [IsNumeric, marks]
    · exact isNumeric_magnitudeChars f x
  rw [chars]
  split
  · simp [IsNumeric, marks]
  · dsimp only
    split
    · exact .cons (by decide) hmagnitude
    · exact hmagnitude

end FloatFormat
end ShadeGraph
