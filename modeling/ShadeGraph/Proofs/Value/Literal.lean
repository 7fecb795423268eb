import ShadeGraph.Proofs.Number.Shown
import ShadeGraph.Proofs.Value.RoundTrip

/-!
# Finite numbers are written as literals

The text of a finite number is a floating point literal in every format: it has digits, and behind them a point with
digits, an exponent, or both. So no number can be taken for a whole number where it is written, and the components of a
value are found again between the commas of its text.
-/

namespace ShadeGraph

/-! ## Literals -/

namespace Number

def IsDigits (cs : List Char) : Prop := cs ≠ [] ∧ ∀ c ∈ cs, c.isDigit = true

/-- Nothing, or a point and digits. -/
inductive IsFraction : List Char → Prop
  | none : IsFraction []
  | point {digits : List Char} (h : IsDigits digits) : IsFraction ('.' :: digits)

/-- Nothing, or the mark of an exponent with digits, which may have a minus in front. -/
inductive IsExponent : List Char → Prop
  | none : IsExponent []
  | positive {digits : List Char} (h : IsDigits digits) : IsExponent ('e' :: digits)
  | negative {digits : List Char} (h : IsDigits digits) : IsExponent ('e' :: '-' :: digits)

/-- The text of an unsigned floating point literal: digits, and a fraction or an exponent behind them. -/
def IsUnsignedLiteral (cs : List Char) : Prop :=
  ∃ whole fraction exponent, cs = whole ++ (fraction ++ exponent) ∧ IsDigits whole ∧ IsFraction fraction ∧
    IsExponent exponent ∧ (fraction ≠ [] ∨ exponent ≠ [])

/-- The text of a floating point literal, with a minus in front if it is negative. -/
def IsLiteral (negative : Bool) (cs : List Char) : Prop :=
  ∃ magnitude, IsUnsignedLiteral magnitude ∧ cs = if negative then '-' :: magnitude else magnitude

theorem isDigits_toDigits (n : Nat) : IsDigits (Nat.toDigits 10 n) :=
  ⟨List.length_pos_iff.mp Nat.length_toDigits_pos, fun _ hc => isDigit_of_mem_toDigits hc⟩

theorem isDigits_padded (width n : Nat) : IsDigits (padded width n) :=
  ⟨List.append_ne_nil_of_right_ne_nil _ (isDigits_toDigits n).1, fun _ hc => isDigit_of_mem_padded hc⟩

theorem isUnsignedLiteral_pointed (places n : Nat) : IsUnsignedLiteral (pointed places n) :=
  ⟨_, _, [], by rw [pointed, List.append_nil], isDigits_toDigits _, .point (isDigits_padded _ _), .none,
    Or.inl (List.cons_ne_nil _ _)⟩

theorem head?_of_isUnsignedLiteral {cs : List Char} (h : IsUnsignedLiteral cs) : ∀ c ∈ cs.head?, c.isDigit = true := by
  obtain ⟨whole, fraction, exponent, rfl, ⟨hne, hdigits⟩, -⟩ := h
  cases whole with
  | nil => exact absurd rfl hne
  | cons d whole =>
    intro c hc
    obtain rfl := Option.some.inj hc
    exact hdigits _ List.mem_cons_self

theorem head?_eq_minus_iff {negative : Bool} {cs : List Char} (h : IsLiteral negative cs) :
    cs.head? = some '-' ↔ negative = true := by
  obtain ⟨magnitude, hmagnitude, rfl⟩ := h
  cases negative with
  | true => simp
  | false =>
    have hdigit := head?_of_isUnsignedLiteral hmagnitude '-'
    simpa using hdigit

end Number

/-! ## Formats -/

namespace FloatFormat
open Number

theorem isExponent_powerChars (power : Int) : IsExponent ('e' :: powerChars power) := by
  rw [powerChars]
  split
  · exact .negative (isDigits_toDigits _)
  · exact .positive (isDigits_toDigits _)

theorem isUnsignedLiteral_shortestChars (x : Single) : IsUnsignedLiteral (shortestChars x) := by
  simp only [shortestChars, Decimal.positional]
  split
  · exact ⟨_, ['.', '0'], [], rfl, isDigits_toDigits _, .point ⟨by simp, by simp⟩, .none, Or.inl (by simp)⟩
  · exact isUnsignedLiteral_pointed _ _

theorem isUnsignedLiteral_scientificChars (precision : Nat) (x : Single) :
    IsUnsignedLiteral (scientificChars precision x) := by
  simp only [scientificChars]
  split
  · exact ⟨_, [], _, rfl, isDigits_toDigits _, .none, isExponent_powerChars _, Or.inr (List.cons_ne_nil _ _)⟩
  · exact ⟨_, _, _, by rw [pointed, List.append_assoc], isDigits_toDigits _, .point (isDigits_padded _ _),
      isExponent_powerChars _, Or.inl (List.cons_ne_nil _ _)⟩

theorem isUnsignedLiteral_magnitudeChars (f : FloatFormat) (x : Single) : IsUnsignedLiteral (f.magnitudeChars x) := by
  unfold magnitudeChars
  cases f.mode with
  | shortest => exact isUnsignedLiteral_shortestChars x
  | fixed => exact isUnsignedLiteral_pointed _ _
  | scientific => exact isUnsignedLiteral_scientificChars f.precision x

theorem chars_of_isFinite (f : FloatFormat) {x : Single} (hx : x.isFinite = true) :
    f.chars x = if x.negative then '-' :: f.magnitudeChars x else f.magnitudeChars x := by
  have hcode : x.code.val < Single.infinityCode := of_decide_eq_true hx
  have hnan : x.isNaN = false := decide_eq_false hcode.not_gt
  have hinfinite : x.isInfinite = false := beq_eq_false_iff_ne.mpr hcode.ne
  simp [chars, hnan, hinfinite]

theorem isLiteral_chars (f : FloatFormat) {x : Single} (hx : x.isFinite = true) : IsLiteral x.negative (f.chars x) :=
  ⟨f.magnitudeChars x, isUnsignedLiteral_magnitudeChars f x, chars_of_isFinite f hx⟩

theorem readSingle?_of_isFinite (f : FloatFormat) {x : Single} (hx : x.isFinite = true) :
    ∃ y, readSingle? (f.chars x) = some y ∧ y.negative = x.negative ∧ y.Nearest (f.shown x) := by
  obtain ⟨d, hread, hvalue⟩ := f.readDecimal?_magnitudeChars x
  have hsign : takeSign (f.chars x) = (x.negative, f.magnitudeChars x) := by
    rw [chars_of_isFinite f hx]
    cases x.negative with
    | true => rfl
    | false => exact takeSign_of_isDigit (head?_magnitudeChars_isDigit f x)
  refine ⟨d.toSingle x.negative, ?_, ?_, ?_⟩
  · simp only [readSingle?, hsign, hread]
  · rw [Decimal.toSingle_eq, Single.ofQuotient]
  · rw [← hvalue]
    exact d.nearest_toSingle x.negative

theorem chars_ne_nil (f : FloatFormat) (x : Single) : f.chars x ≠ [] := by
  have hmagnitude : f.magnitudeChars x ≠ [] := by
    obtain ⟨whole, fraction, exponent, heq, hwhole, -⟩ := isUnsignedLiteral_magnitudeChars f x
    rw [heq]
    exact List.append_ne_nil_of_left_ne_nil hwhole.1 _
  simp only [chars]
  split
  · simp
  · split
    · simp
    · split
      · simp
      · exact hmagnitude

end FloatFormat

/-! ## Values -/

namespace Value

theorem parts_join_format (f : FloatFormat) (xs : List Single) :
    parts (Text.join ", " (xs.map f.format)) = xs.map fun x => (f.format x).toList := by
  rw [parts_join, List.map_map]
  · rfl
  · intro t ht
    obtain ⟨x, -, rfl⟩ := List.mem_map.mp ht
    rw [FloatFormat.format, String.toList_ofList]
    exact f.chars_ne_nil x
  · intro t ht
    obtain ⟨x, -, rfl⟩ := List.mem_map.mp ht
    exact isPart_format f x

theorem parts_text {v : Value} {components : List Single} (f : FloatFormat) (h : v.components? = some components) :
    parts (v.text f) = components.map fun x => (f.format x).toList := by
  cases v with
  | float x =>
    obtain rfl := Option.some.inj h
    have hone := parts_join_format f [x]
    rwa [List.map_singleton, Text.join, String.intercalate_singleton] at hone
  | tuple shape values =>
    obtain rfl := Option.some.inj h
    exact parts_join_format f values.toList
  | floatArray elements =>
    obtain rfl := Option.some.inj h
    exact parts_join_format f elements
  | boolean _ | integer _ | string _ | filename _ | integerArray _ => cases h

/-- **Every finite number is written as a floating point literal**, with a minus exactly if its sign bit is set. The text
reads as a number again, the one nearest to what it shows. It has neither commas nor white space, so that the text of any
value falls apart into the texts of its components. -/
theorem finite_written_as_literal (f : FloatFormat) (x : Single) (hx : x.isFinite = true) :
    Number.IsLiteral x.negative (f.format x).toList ∧
    ((f.format x).toList.head? = some '-' ↔ x.negative = true) ∧
    (∃ y, read .float (f.format x) = .ok (.float y) ∧ y.negative = x.negative ∧ y.Nearest (f.shown x)) ∧
    (∀ c ∈ (f.format x).toList, c ≠ ',' ∧ Text.isBlank c = false) ∧
    ∀ v : Value, ∀ components, v.components? = some components →
      parts (v.text f) = components.map fun x => (f.format x).toList := by
  have hliteral : Number.IsLiteral x.negative (f.format x).toList := by
    rw [FloatFormat.format, String.toList_ofList]
    exact f.isLiteral_chars hx
  refine ⟨hliteral, Number.head?_eq_minus_iff hliteral, ?_, isPart_format f x, fun v components => parts_text f⟩
  obtain ⟨y, hread, hsign, hnearest⟩ := f.readSingle?_of_isFinite hx
  refine ⟨y, ?_, hsign, hnearest⟩
  rw [read, read?, trim_of_isPart (isPart_format f x), FloatFormat.format, String.toList_ofList, hread]
  rfl

/-- The largest finite number in scientific notation without places has an exponent and no point. -/
theorem largest_written_as_literal :
    (Single.ofBits 0x7f7fffff).isFinite = true ∧
      FloatFormat.format ⟨.scientific, 0⟩ (.ofBits 0x7f7fffff) = "3e38" ∧
      Number.IsLiteral false "3e38".toList := by
  have htext : FloatFormat.format ⟨.scientific, 0⟩ (.ofBits 0x7f7fffff) = "3e38" := by decide +kernel
  refine ⟨by decide, htext, ?_⟩
  have hliteral := (finite_written_as_literal ⟨.scientific, 0⟩ (.ofBits 0x7f7fffff) (by decide)).1
  rwa [htext] at hliteral

end Value
end ShadeGraph
