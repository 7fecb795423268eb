import ShadeGraph.Number.Decimal

/-!
# Number format

How floating point numbers are written: in the fewest digits that read back, with a fixed number of places, or in
scientific notation. A finite number always gets a point or an exponent, so its text is a floating point literal in
every target language.
-/

namespace ShadeGraph

/-- The three ways to write a floating point number. -/
inductive FloatMode where
  /-- The fewest digits that read back, in positional notation. -/
  | shortest
  /-- A fixed number of places behind the point. -/
  | fixed
  /-- One leading digit, a fixed number of places, and a power of ten. -/
  | scientific
  deriving DecidableEq, Inhabited

/-- A way to write floating point numbers and the places it uses. -/
structure FloatFormat where
  mode : FloatMode := .shortest
  /-- The number of places, below `2 ^ 64` in options that are kept as text; every function here takes any number. -/
  precision : Nat := 6
  deriving DecidableEq, Inhabited

namespace FloatFormat
open Number

def powerChars (power : Int) : List Char :=
  if power < 0 then '-' :: Nat.toDigits 10 power.natAbs else Nat.toDigits 10 power.natAbs

/-- The shortest text of a finite magnitude; a whole number gets a zero behind a point. -/
def shortestChars (x : Single) : List Char :=
  let d := x.shortest
  if 0 ≤ d.power then d.positional ++ ['.', '0'] else d.positional

/-- A finite magnitude with at least one place behind the point. -/
def fixedChars (precision : Nat) (x : Single) : List Char :=
  pointed (max precision 1) (x.atPlaces (max precision 1))

/-- A finite magnitude in scientific notation; without places there is no point. -/
def scientificChars (precision : Nat) (x : Single) : List Char :=
  let d := x.atDigits precision
  let digits := if precision = 0 then Nat.toDigits 10 d.coefficient else pointed precision d.coefficient
  digits ++ 'e' :: powerChars (if d.coefficient = 0 then 0 else d.power + precision)

def magnitudeChars (f : FloatFormat) (x : Single) : List Char :=
  match f.mode with
  | .shortest => shortestChars x
  | .fixed => fixedChars f.precision x
  | .scientific => scientificChars f.precision x

/-- The text of a number. A pattern that is not a number has no sign. -/
def chars (f : FloatFormat) (x : Single) : List Char :=
  if x.isNaN then ['N', 'a', 'N']
  else
    let magnitude := if x.isInfinite then ['i', 'n', 'f'] else f.magnitudeChars x
    if x.negative then '-' :: magnitude else magnitude

def format (f : FloatFormat) (x : Single) : String := String.ofList (f.chars x)

end FloatFormat
end ShadeGraph
