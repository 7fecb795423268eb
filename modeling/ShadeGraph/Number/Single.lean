/-!
# Single precision numbers

A number of the 32-bit binary interchange format, kept as its sign and the remaining 31 bits, its *code*. Codes below
`infinityCode` are finite magnitudes in increasing order, `infinityCode` is infinity, and the codes above it are not
numbers. A finite code stands for `mantissa * 2 ^ exponent`; both parts are exact integers, so every operation on
number text is exact arithmetic.

Where digits are cut off, a quotient of natural numbers is rounded to the nearest whole number, a half to the even
neighbour. Both directions of the number text do so: a binary value cut to decimal places, and a decimal read into a
binary value.
-/

namespace ShadeGraph

/-- The whole number nearest to `num / den`; of two equally near ones the even one. -/
def Number.roundDiv (num den : Nat) : Nat :=
  let quotient := num / den
  let twice := 2 * (num % den)
  if twice < den then quotient
  else if den < twice then quotient + 1
  else if quotient % 2 = 0 then quotient else quotient + 1

/-- A 32-bit binary floating point number. -/
structure Single where
  /-- Whether the sign bit is set. -/
  negative : Bool
  /-- The exponent and fraction bits. -/
  code : Fin 2147483648
  deriving DecidableEq, Inhabited

namespace Single

/-- The code of infinity: all exponent bits set and no fraction bit. -/
def infinityCode : Nat := 0x7f800000

def ofBits (bits : Nat) : Single :=
  ⟨bits / 2147483648 % 2 == 1, ⟨bits % 2147483648, Nat.mod_lt _ (by decide)⟩⟩

def bits (x : Single) : Nat := (if x.negative then 2147483648 else 0) + x.code.val

def isNaN (x : Single) : Bool := infinityCode < x.code.val

def isInfinite (x : Single) : Bool := x.code.val == infinityCode

def isFinite (x : Single) : Bool := x.code.val < infinityCode

def exponentBits (x : Single) : Nat := x.code.val / 8388608

def fractionBits (x : Single) : Nat := x.code.val % 8388608

/-- The integer mantissa; a normal number has a leading one in front of its fraction bits. -/
def mantissa (x : Single) : Nat :=
  if x.exponentBits = 0 then x.fractionBits else 8388608 + x.fractionBits

/-- The place of the mantissa's last bit above the smallest place `2 ^ (-149)`. -/
def place (x : Single) : Nat := x.exponentBits - 1

/-- The magnitude of a finite number is `scaled / 2 ^ 149`. -/
def scaled (x : Single) : Nat := x.mantissa * Nat.pow 2 x.place

/-- The denominator of every finite magnitude. -/
def unit : Nat := Nat.pow 2 149

/-- The place of a quotient's last kept bit above `2 ^ (-149)`: the quotient keeps 24 bits, or fewer near zero. -/
def placeOf (num den : Nat) : Nat := Nat.log2 (num * unit / den) - 23

/-- The code nearest to a quotient, a tie to the even code; a quotient beyond the largest finite number becomes
infinity. Consecutive codes are consecutive magnitudes, so a mantissa that rounds up to the next power of two
carries into the exponent by itself. -/
def nearestCode (num den : Nat) : Nat :=
  let place := placeOf num den
  min infinityCode (place * 8388608 + Number.roundDiv (num * unit) (den * Nat.pow 2 place))

theorem nearestCode_lt (num den : Nat) : nearestCode num den < 2147483648 :=
  Nat.lt_of_le_of_lt (Nat.min_le_left _ _) (by decide)

/-- The number nearest to a quotient with a sign. -/
def ofQuotient (negative : Bool) (num den : Nat) : Single :=
  ⟨negative, ⟨nearestCode num den, nearestCode_lt num den⟩⟩

def zero (negative : Bool) : Single := ⟨negative, 0⟩

def infinity (negative : Bool) : Single := ⟨negative, ⟨infinityCode, by decide⟩⟩

/-- The standard pattern that is not a number, with a sign. -/
def nan (negative : Bool) : Single := ⟨negative, ⟨0x7fc00000, by decide⟩⟩

def ofNat (n : Nat) : Single := ofQuotient false n 1

end Single
end ShadeGraph
