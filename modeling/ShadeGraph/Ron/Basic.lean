import ShadeGraph.Text.Printable

/-!
# Object notation

The tree of a text in RON, the notation in which documents and options are kept: texts, whole numbers, truth values,
optional values, names, lists, and records with an optional name in front. A value of a form that no field of a
document takes is kept as `other`; it can only be skipped.

Trees are written with one item per line, four spaces per level and a comma behind every item; an optional value stays
on its line.
-/

namespace ShadeGraph

mutual

/-- A value in object notation. -/
inductive Ron where
  | text (content : String)
  | number (value : Nat)
  | truth (value : Bool)
  /-- An optional value that is not there. -/
  | absent
  /-- An optional value that is there. -/
  | present (value : Ron)
  /-- A name by itself, such as a choice. -/
  | word (name : String)
  /-- Round brackets with nothing between them. -/
  | unit
  /-- A character, bytes, a tuple, a table, or a number that is not whole, and how deep it is. -/
  | other (depth : Nat)
  | list (items : List Ron)
  | record (name : String) (fields : List Ron.Field)

/-- A field of a record. -/
inductive Ron.Field where
  | mk (name : String) (value : Ron)

end

namespace Ron

instance : Inhabited Ron := ⟨unit⟩

namespace Field

def name : Field → String
  | mk name _ => name

def value : Field → Ron
  | mk _ value => value

end Field

/-! ## Depth -/

mutual

/-- How deep a value is. Brackets are one level and their content is another one; an optional value is one level. -/
def depth : Ron → Nat
  | text _ | number _ | truth _ | absent | word _ | unit => 0
  | present value => value.depth + 1
  | other depth => depth
  | list items => max 1 (itemsDepth items)
  | record _ fields => max 1 (fieldsDepth fields)

/-- How deep brackets around some items are because of the items. -/
def itemsDepth : List Ron → Nat
  | [] => 0
  | item :: items => max (item.depth + 2) (itemsDepth items)

/-- How deep brackets around some fields are because of the fields. -/
def fieldsDepth : List Field → Nat
  | [] => 0
  | .mk _ value :: fields => max (value.depth + 2) (fieldsDepth fields)

end

/-! ## Writing -/

/-- A line break and the spaces of a level. -/
def newLine (level : Nat) : List Char := '\n' :: List.replicate (4 * level) ' '

mutual

/-- Writes a value that starts on a line of some level. -/
def write (level : Nat) : Ron → List Char
  | text content => '"' :: (Text.escapeChars content.toList ++ ['"'])
  | number value => Nat.toDigits 10 value
  | truth true => ['t', 'r', 'u', 'e']
  | truth false => ['f', 'a', 'l', 's', 'e']
  | absent => ['N', 'o', 'n', 'e']
  | present value => 'S' :: 'o' :: 'm' :: 'e' :: '(' :: (write level value ++ [')'])
  | word name => name.toList
  | unit => ['(', ')']
  | other _ => [Char.ofNat 0x7b, Char.ofNat 0x7d]
  | list [] => ['[', ']']
  | list (item :: items) => '[' :: (writeItems (level + 1) (item :: items) ++ newLine level ++ [']'])
  | record name fields => name.toList ++ '(' :: (writeFields (level + 1) fields ++ newLine level ++ [')'])

/-- Writes the items of a list, each on a line of its own with a comma behind it. -/
def writeItems (level : Nat) : List Ron → List Char
  | [] => []
  | item :: items => newLine level ++ write level item ++ ',' :: writeItems level items

/-- Writes the fields of a record, each on a line of its own with a comma behind it. -/
def writeFields (level : Nat) : List Field → List Char
  | [] => []
  | .mk name value :: fields =>
    newLine level ++ name.toList ++ ':' :: ' ' :: (write level value ++ ',' :: writeFields level fields)

end

def toText (r : Ron) : String := String.ofList (r.write 0)

end Ron
end ShadeGraph
