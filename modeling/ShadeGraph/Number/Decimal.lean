import ShadeGraph.Number.Single

/-!
# Decimal digits

The digits of exact decimal numbers, and the two ways to choose a decimal for a binary number: the one with the
fewest digits that reads back, and the one rounded to a given place.

A decimal is a coefficient and a power of ten. Whether a decimal reads back is decided by the reading rule itself
(`Single.nearestCode`), so the shortest decimal of a number reads back by its choice; the grid of `10 ^ (-149)`
holds every finite number exactly, so the search always ends with a hit.
-/

namespace ShadeGraph.Number

/-- Digits with zeros in front up to a width. -/
def padded (width n : Nat) : List Char :=
  List.replicate (width - (Nat.toDigits 10 n).length) '0' ++ Nat.toDigits 10 n

/-- The digits of `n / 10 ^ places` with a point in front of the last `places` digits. -/
def pointed (places n : Nat) : List Char :=
  Nat.toDigits 10 (n / Nat.pow 10 places) ++ '.' :: padded places (n % Nat.pow 10 places)

/-- Powers of ten from the largest a single precision number reaches down to the place where all are exact. -/
def powers : List Int := (List.range 188).map fun i : Nat => 38 - (i : Int)

/-- A decimal `coefficient * 10 ^ power`. -/
structure Decimal where
  coefficient : Nat
  power : Int
  deriving DecidableEq, Inhabited

def Decimal.num (d : Decimal) : Nat := d.coefficient * Nat.pow 10 d.power.toNat

def Decimal.den (d : Decimal) : Nat := Nat.pow 10 (-d.power).toNat

/-- The digits in positional notation, with a point only when the decimal has fractional places. -/
def Decimal.positional (d : Decimal) : List Char :=
  if 0 ≤ d.power then Nat.toDigits 10 d.num else pointed (-d.power).toNat d.coefficient

end ShadeGraph.Number

namespace ShadeGraph.Single
open Number

/-- Whether a decimal reads back as the magnitude of the number. -/
def readsBack (x : Single) (d : Decimal) : Bool := nearestCode d.num d.den == x.code.val

/-- The decimal on the grid of a power of ten that reads back as the number and is nearest to it; a decimal halfway
between two of them is passed upwards. -/
def onGrid? (x : Single) (power : Int) : Option Decimal :=
  let num := x.scaled * Nat.pow 10 (-power).toNat
  let den := unit * Nat.pow 10 power.toNat
  let below : Decimal := ⟨num / den, power⟩
  let above : Decimal := ⟨num / den + 1, power⟩
  if x.readsBack below && (!x.readsBack above || 2 * (num % den) < den) then some below
  else if x.readsBack above then some above
  else none

/-- The decimal with the fewest digits that reads back as the magnitude of a finite number. -/
def shortest (x : Single) : Decimal := (powers.findSome? x.onGrid?).getD ⟨0, 0⟩

/-- The magnitude of a finite number in units of `10 ^ (-places)`, a half to the even neighbour. -/
def atPlaces (x : Single) (places : Nat) : Nat := roundDiv (x.scaled * Nat.pow 10 places) unit

/-- The power of ten of the leading digit of a finite magnitude; that of zero is 0. -/
def leadingPower (x : Single) : Int :=
  (powers.find? fun p => unit * Nat.pow 10 p.toNat ≤ x.scaled * Nat.pow 10 (-p).toNat).getD 0

/-- The magnitude of a finite number rounded to `places` digits behind its leading one. -/
def atDigits (x : Single) (places : Nat) : Decimal :=
  let power := x.leadingPower - places
  let coefficient := roundDiv (x.scaled * Nat.pow 10 (-power).toNat) (unit * Nat.pow 10 power.toNat)
  if coefficient = Nat.pow 10 (places + 1) then ⟨Nat.pow 10 places, power + 1⟩ else ⟨coefficient, power⟩

end ShadeGraph.Single
