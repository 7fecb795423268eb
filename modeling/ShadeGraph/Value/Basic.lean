import ShadeGraph.DataType
import ShadeGraph.Number.Single
import ShadeGraph.Error

/-!
# Values

Literal values. A value knows its type, so reading it as another type is an error of the domain and never a change of
meaning. A *swizzle* builds a value from the components that a text of channels names.
-/

namespace ShadeGraph

/-- A literal value. Closures, shaders and materials have none. -/
inductive Value where
  | boolean (b : Bool)
  | integer (n : Int32)
  | float (x : Single)
  | tuple (shape : TupleShape) (components : Vector Single shape.size)
  | string (s : String)
  | filename (s : String)
  | integerArray (elements : List Int32)
  | floatArray (elements : List Single)
  deriving DecidableEq

namespace Value

def type : Value → DataType
  | boolean _ => .boolean
  | integer _ => .integer
  | float _ => .float
  | tuple shape _ => .tuple shape
  | string _ => .string
  | filename _ => .filename
  | integerArray _ => .integerArray
  | floatArray _ => .floatArray

def one : Single := Single.ofBits 0x3f800000

/-- The components of the identity matrix with `n` rows, row by row. -/
def identity (n : Nat) : List Single :=
  (List.range (n * n)).map fun i => if i / n = i % n then one else .zero false

/-- The tuple with the given components, if there are as many as its shape has. -/
def ofComponents? (type : DataType) (components : List Single) : Option Value :=
  match type with
  | .tuple shape =>
    if h : components.toArray.size = shape.size then some (.tuple shape ⟨components.toArray, h⟩) else none
  | _ => none

/-- The value a type starts from: false, zero, the identity matrix, the empty text or the empty array. -/
def zero? : DataType → Option Value
  | .boolean => some (.boolean false)
  | .integer => some (.integer 0)
  | .float => some (.float (.zero false))
  | .tuple .matrix33 => ofComponents? (.tuple .matrix33) (identity 3)
  | .tuple .matrix44 => ofComponents? (.tuple .matrix44) (identity 4)
  | .tuple shape => some (.tuple shape (Vector.replicate shape.size (.zero false)))
  | .string => some (.string "")
  | .filename => some (.filename "")
  | .integerArray => some (.integerArray [])
  | .floatArray => some (.floatArray [])
  | .closure _ | .shader _ | .material => none

/-- The floating point components of a number, a tuple or an array of numbers. -/
def components? : Value → Option (List Single)
  | float x => some [x]
  | tuple _ components => some components.toList
  | floatArray elements => some elements
  | _ => none

/-- The number of elements of an array. -/
def arrayLength? : Value → Option Nat
  | integerArray elements => some elements.length
  | floatArray elements => some elements.length
  | _ => none

def isEmptyArray (v : Value) : Bool := v.arrayLength? == some 0

/-- The error of reading a value as another type. -/
def mismatch (v : Value) (expected : DataType) : Error := .typeMismatch expected.name v.type.name

/-! ## Reading a value as a type -/

def asBoolean : Value → Except Error Bool
  | boolean b => .ok b
  | v => .error (v.mismatch .boolean)

def asInteger : Value → Except Error Int32
  | integer n => .ok n
  | v => .error (v.mismatch .integer)

def asFloat : Value → Except Error Single
  | float x => .ok x
  | v => .error (v.mismatch .float)

/-- The components of a tuple of exactly the given shape. -/
def asTuple (expected : TupleShape) (v : Value) : Except Error (List Single) :=
  match v with
  | tuple shape components =>
    if shape = expected then .ok components.toList else .error (v.mismatch (.tuple expected))
  | _ => .error (v.mismatch (.tuple expected))

def asText : Value → Except Error String
  | string s => .ok s
  | filename s => .ok s
  | v => .error (v.mismatch .string)

def asFloatArray : Value → Except Error (List Single)
  | floatArray elements => .ok elements
  | v => .error (v.mismatch .floatArray)

def asIntegerArray : Value → Except Error (List Int32)
  | integerArray elements => .ok elements
  | v => .error (v.mismatch .integerArray)

/-! ## Swizzles -/

/-- The component of a value of some type that a channel names. -/
def pick (type : DataType) (components : List Single) (channel : Char) : Except Error Single :=
  match (type.channelIndex? channel).bind fun index => components[index]? with
  | some component => .ok component
  | none => .error (.invalidChannel type.name channel)

/-- The value of a target type with the given components: a float has one, a tuple as many as its shape. -/
def assemble? (target : DataType) (components : List Single) : Option Value :=
  match target, components with
  | .float, [x] => some (.float x)
  | _, _ => ofComponents? target components

/-- The value of the target type made of the components that the channels name, in their order. -/
def swizzle (v : Value) (channels : String) (target : DataType) : Except Error Value := do
  match v.components? with
  | none => throw (v.mismatch target)
  | some components =>
    let picked ← channels.toList.mapM (pick v.type components)
    match assemble? target picked with
    | some value => pure value
    | none => throw (.typeMismatch target.name (v.type.name ++ "." ++ channels))

end Value
end ShadeGraph
