/-!
# Text

Classes of characters, white space, cutting and replacing, and names that are not taken yet. Each function on a text is
a single pass over its characters.
-/

namespace ShadeGraph.Text

/-! ## Classes of characters

Classes are kept as sorted lists of inclusive ranges of code points. -/

def inRanges (ranges : List (Nat × Nat)) (n : Nat) : Bool :=
  ranges.any fun r => r.1 ≤ n && n ≤ r.2

/-! ## White space

The class is that of the Unicode property `White_Space`, which has 25 members; format characters such as the zero width
space are not among them. -/

/-- White space: tab to carriage return, space, next line, no-break space and the wide spaces. -/
def isBlank (c : Char) : Bool :=
  let n := c.toNat
  (0x9 ≤ n && n ≤ 0xd) || n == 0x20 || n == 0x85 || n == 0xa0 || n == 0x1680 ||
    (0x2000 ≤ n && n ≤ 0x200a) || n == 0x2028 || n == 0x2029 || n == 0x202f || n == 0x205f || n == 0x3000

def trimRight (cs : List Char) : List Char := (cs.reverse.dropWhile isBlank).reverse

def trimChars (cs : List Char) : List Char := trimRight (cs.dropWhile isBlank)

def trim (s : String) : String := String.ofList (trimChars s.toList)

/-! ## Searching and cutting -/

/-- The pieces between occurrences of a separator; there is always at least one piece. -/
def splitAt (sep : Char) : List Char → List (List Char)
  | [] => [[]]
  | c :: cs =>
    match splitAt sep cs with
    | [] => [[c]]
    | piece :: rest => if c = sep then [] :: piece :: rest else (c :: piece) :: rest

/-- The text before and after the first occurrence of a pattern. -/
def cut? (pattern : List Char) : List Char → Option (List Char × List Char)
  | [] => if pattern.isEmpty then some ([], []) else none
  | c :: cs =>
    if pattern.isPrefixOf (c :: cs) then some ([], (c :: cs).drop pattern.length)
    else (cut? pattern cs).map fun (before, after) => (c :: before, after)

/-- The pieces between occurrences of a nonempty pattern, skipping `skip` characters of the last one. -/
def piecesGo (pattern : List Char) : Nat → List Char → List (List Char)
  | _, [] => [[]]
  | skip + 1, _ :: cs => piecesGo pattern skip cs
  | 0, c :: cs =>
    if pattern.isPrefixOf (c :: cs) then [] :: piecesGo pattern (pattern.length - 1) cs
    else
      match piecesGo pattern 0 cs with
      | [] => [[c]]
      | piece :: rest => (c :: piece) :: rest

def pieces (pattern cs : List Char) : List (List Char) := piecesGo pattern 0 cs

/-- Replaces the occurrences of a nonempty pattern from left to right, skipping `skip` characters of the last one. -/
def replaceGo (pattern value : List Char) : Nat → List Char → List Char
  | _, [] => []
  | skip + 1, _ :: cs => replaceGo pattern value skip cs
  | 0, c :: cs =>
    if pattern.isPrefixOf (c :: cs) then value ++ replaceGo pattern value (pattern.length - 1) cs
    else c :: replaceGo pattern value 0 cs

/-- Replaces every occurrence of a pattern. The empty pattern occurs before each character and at the end. -/
def replaceChars (pattern value cs : List Char) : List Char :=
  if pattern.isEmpty then value ++ cs.flatMap fun c => c :: value
  else replaceGo pattern value 0 cs

def replace (pattern value s : String) : String :=
  String.ofList (replaceChars pattern.toList value.toList s.toList)

def contains (pattern s : String) : Bool := (cut? pattern.toList s.toList).isSome

def dropReturn (line : List Char) : List Char :=
  if line.getLast? = some '\r' then line.dropLast else line

/-- The lines of a text: a line feed ends a line, together with one carriage return before it, and a last line
without a line feed is kept as it is unless it is empty. -/
def lineChars : List (List Char) → List (List Char)
  | [] => []
  | [last] => if last.isEmpty then [] else [last]
  | line :: rest => dropReturn line :: lineChars rest

def lines (s : String) : List String := (lineChars (splitAt '\n' s.toList)).map String.ofList

def join (separator : String) (parts : List String) : String := String.intercalate separator parts

/-! ## Fresh names

The first of `base`, `base1`, `base2`, … that is not taken. Among one more candidate than there are taken names one is
always free, so the search is over a finite range, and its number has 31 bits as long as fewer than `2 ^ 31` names are
taken. -/

/-- The candidates for a name: the name itself, then the name with a number. -/
def numbered (base : String) : Nat → String
  | 0 => base
  | n + 1 => base ++ toString (n + 1)

/-- The first candidate that is not taken. -/
def freshName (taken : List String) (base : String) : String :=
  numbered base (((List.range (taken.length + 1)).find? fun n => !taken.contains (numbered base n)).getD 0)

end ShadeGraph.Text
