import ShadeGraph.Number.Reading

/-!
# Numbers in object notation

A number is whole or decimal. A *whole* number has an optional sign, digits in base ten or behind `0b`, `0o` or `0x` in
another one, and may name its width, as in `5u8`; then it must fit. Without a width it must fit in 64 bits. A *decimal*
number has a point, an exponent or more digits than that, and may name its width as well, as in `5f32`. Underscores
may stand between digits.
-/

namespace ShadeGraph.Ron

def hexDigit? (c : Char) : Option Nat :=
  let n := c.toNat
  if 48 ≤ n && n ≤ 57 then some (n - 48)
  else if 97 ≤ n && n ≤ 102 then some (n - 87)
  else if 65 ≤ n && n ≤ 70 then some (n - 55)
  else none

/-! ## Whole numbers -/

def isWholeChar (c : Char) : Bool := (hexDigit? c).isSome || c == '_'

/-- The value of digits in a base. Underscores may stand behind the first digit. -/
def digitsValue? (base : Nat) : List Char → Option Nat
  | [] => none
  | c :: cs =>
    if c = '_' then none
    else (c :: cs).foldlM (fun (value : Nat) c =>
      if c = '_' then some value
      else match hexDigit? c with
        | some digit => if digit < base then some (base * value + digit) else none
        | none => none) 0

def wholeValue? : List Char → Option Nat
  | '0' :: 'x' :: cs => digitsValue? 16 cs
  | '0' :: 'b' :: cs => digitsValue? 2 cs
  | '0' :: 'o' :: cs => digitsValue? 8 cs
  | cs => digitsValue? 10 cs

/-- A range of whole numbers: those that some bits can hold, with or without a sign. -/
structure Width where
  signed : Bool
  bits : Nat
  deriving DecidableEq, Inhabited

/-- Whether a number fits, given its sign and its size. -/
def Width.holds (w : Width) (negative : Bool) (size : Nat) : Bool :=
  if w.signed then size < Nat.pow 2 (w.bits - 1) || (negative && size == Nat.pow 2 (w.bits - 1))
  else size < Nat.pow 2 w.bits && (!negative || size == 0)

/-- The widths by the letters that name them behind a number. -/
def widths : List (List Char × Width) := [
  (['i', '8'], ⟨true, 8⟩), (['i', '1', '6'], ⟨true, 16⟩), (['i', '3', '2'], ⟨true, 32⟩),
  (['i', '6', '4'], ⟨true, 64⟩), (['u', '8'], ⟨false, 8⟩), (['u', '1', '6'], ⟨false, 16⟩),
  (['u', '3', '2'], ⟨false, 32⟩), (['u', '6', '4'], ⟨false, 64⟩)]

/-- Reads a whole number. It has a value if it is unsigned and of 64 bits; any other one can only be skipped. -/
def readWhole? (cs : List Char) : Option (Option Nat) :=
  let (negative, rest) := Number.takeSign cs
  let digits := rest.takeWhile isWholeChar
  match widths.lookup (rest.drop digits.length) with
  | some width =>
    match wholeValue? digits with
    | some size =>
      if width.holds negative size then some (if width = ⟨false, 64⟩ then some size else none) else none
    | none => none
  | none =>
    match wholeValue? rest with
    | some size =>
      if Width.holds ⟨false, 64⟩ negative size then some (some size)
      else if Width.holds ⟨true, 64⟩ negative size then some none
      else none
    | none => none

/-! ## Decimal numbers -/

def isDecimalChar (c : Char) : Bool :=
  c.isDigit || c == 'e' || c == 'E' || c == '.' || c == '+' || c == '-' || c == '_'

/-- Drops the underscores of a decimal number. There may be none in front of the first digit of the number nor right
behind the point. -/
def dropUnderscores (allowed : Bool) : List Char → Option (List Char)
  | [] => some []
  | c :: cs =>
    if c = '_' then if allowed then dropUnderscores true cs else none
    else
      let allowed := if c = '.' then false else allowed || c.isDigit || c = 'e' || c = 'E'
      (dropUnderscores allowed cs).map (c :: ·)

/-- What may stand behind a decimal number. -/
def isDecimalSuffix (cs : List Char) : Bool := cs = [] || cs = ['f', '3', '2'] || cs = ['f', '6', '4']

/-- Whether some characters are a word for a number that has no digits. -/
def isNumberWord : List Char → Bool
  | 'i' :: 'n' :: 'f' :: cs => isDecimalSuffix cs
  | 'N' :: 'a' :: 'N' :: cs => isDecimalSuffix cs
  | _ => false

def isDecimal (cs : List Char) : Bool :=
  let digits := cs.takeWhile isDecimalChar
  isDecimalSuffix (cs.drop digits.length) &&
    ((dropUnderscores false digits).bind fun cs => Number.readDecimal? (Number.takeSign cs).2).isSome

/-- Whether some characters are a sign and such a word. -/
def isSignedWord : List Char → Bool
  | '+' :: cs => isNumberWord cs
  | '-' :: cs => isNumberWord cs
  | _ => false

/-- Reads a number that starts with a digit, a sign or a point. Only a whole number can have a value. -/
def readNumber? (cs : List Char) : Option (Option Nat) :=
  match readWhole? cs with
  | some value => some value
  | none => if isDecimal cs || isSignedWord cs then some none else none

end ShadeGraph.Ron
