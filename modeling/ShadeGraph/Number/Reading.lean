import ShadeGraph.Number.Decimal

/-!
# Reading numbers

Reading whole numbers and floating point numbers from text. A floating point number is an optional sign and either
digits with an optional point and an optional exponent, or one of the words `inf`, `infinity` and `nan` in any case.
Its value is the single precision number nearest to the decimal, a tie to the even one.
-/

namespace ShadeGraph.Number

/-- A sign and the text behind it. -/
def takeSign : List Char → Bool × List Char
  | '+' :: cs => (false, cs)
  | '-' :: cs => (true, cs)
  | cs => (false, cs)

/-- The value of a text made of digits only, and at least one. -/
def readDigits? (cs : List Char) : Option Nat :=
  if !cs.isEmpty && cs.all Char.isDigit then some (Nat.ofDigitChars 10 cs 0) else none

def readInt? (cs : List Char) : Option Int :=
  let (negative, digits) := takeSign cs
  (readDigits? digits).map fun n => if negative then -(n : Int) else n

def readInt32? (cs : List Char) : Option Int32 :=
  match readInt? cs with
  | some n => if -2147483648 ≤ n && n ≤ 2147483647 then some (Int32.ofInt n) else none
  | none => none

/-- Reads an exponent: nothing, or `e` and a whole number. -/
def readExponent? : List Char → Option Int
  | [] => some 0
  | c :: cs => if c = 'e' || c = 'E' then readInt? cs else none

/-- The digits in front of and behind the point, and the rest of the text. -/
def takeDigits (cs : List Char) : List Char × List Char × List Char :=
  let whole := cs.takeWhile Char.isDigit
  match cs.dropWhile Char.isDigit with
  | '.' :: rest => (whole, rest.takeWhile Char.isDigit, rest.dropWhile Char.isDigit)
  | rest => (whole, [], rest)

def readDecimal? (cs : List Char) : Option Decimal :=
  let (whole, fraction, rest) := takeDigits cs
  if whole.isEmpty && fraction.isEmpty then none
  else (readExponent? rest).map fun exponent =>
    ⟨Nat.ofDigitChars 10 (whole ++ fraction) 0, exponent - fraction.length⟩

/-- The words for infinity and for what is not a number, compared without case. -/
def readWord? (cs : List Char) (negative : Bool) : Option Single :=
  let word := cs.map Char.toLower
  if word = ['i', 'n', 'f'] || word = ['i', 'n', 'f', 'i', 'n', 'i', 't', 'y'] then some (.infinity negative)
  else if word = ['n', 'a', 'n'] then some (.nan negative)
  else none

/-- The single precision number nearest to a decimal. A decimal with its leading digit above the 39th place is
infinite and one below the 46th place behind the point is zero, so far powers of ten are never multiplied out. -/
def Decimal.toSingle (d : Decimal) (negative : Bool) : Single :=
  let leading : Int := (Nat.toDigits 10 d.coefficient).length + d.power
  if d.coefficient = 0 || leading < -46 then .zero negative
  else if 40 < leading then .infinity negative
  else .ofQuotient negative d.num d.den

def readSingle? (cs : List Char) : Option Single :=
  let (negative, magnitude) := takeSign cs
  match readDecimal? magnitude with
  | some d => some (d.toSingle negative)
  | none => readWord? magnitude negative

end ShadeGraph.Number
