import ShadeGraph.Value.Basic
import ShadeGraph.Text.Basic
import ShadeGraph.Number.Format
import ShadeGraph.Number.Reading

/-!
# The text of values

Writing values as text and reading them back. The components of a tuple or an array are separated by commas; reading
trims white space around each one and drops empty ones.
-/

namespace ShadeGraph.Value

/-! ## Writing -/

/-- The text of a value, with floating point numbers in the given format. -/
def text (v : Value) (f : FloatFormat) : String :=
  match v with
  | boolean b => if b then "true" else "false"
  | integer n => toString n.toInt
  | float x => f.format x
  | tuple _ components => Text.join ", " (components.toList.map f.format)
  | string s => s
  | filename s => s
  | integerArray elements => Text.join ", " (elements.map fun n => toString n.toInt)
  | floatArray elements => Text.join ", " (elements.map f.format)

def display (v : Value) : String := v.text {}

/-! ## Reading -/

/-- The parts between commas, trimmed, without the empty ones. -/
def parts (text : String) : List (List Char) :=
  ((Text.splitAt ',' text.toList).map Text.trimChars).filter fun part => !part.isEmpty

def readBoolean? (cs : List Char) : Option Bool :=
  if cs = "true".toList then some true
  else if cs = "false".toList then some false
  else none

/-- Reads a value of a type, if the text denotes one. -/
def read? (type : DataType) (text : String) : Option Value :=
  match type with
  | .string => some (.string text)
  | .filename => some (.filename text)
  | .boolean => (readBoolean? (Text.trimChars text.toList)).map .boolean
  | .integer => (Number.readInt32? (Text.trimChars text.toList)).map .integer
  | .float => (Number.readSingle? (Text.trimChars text.toList)).map .float
  | .integerArray => ((parts text).mapM Number.readInt32?).map .integerArray
  | .floatArray => ((parts text).mapM Number.readSingle?).map .floatArray
  | .tuple shape => ((parts text).mapM Number.readSingle?).bind (ofComponents? (.tuple shape))
  | .closure _ | .shader _ | .material => none

def read (type : DataType) (text : String) : Except Error Value :=
  match read? type text with
  | some value => .ok value
  | none => .error (.invalidValue type.name text)

end ShadeGraph.Value
