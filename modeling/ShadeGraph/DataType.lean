/-!
# Data types

The types of the values that flow through a shading network: scalars, tuples of numbers (vectors, colours, matrices),
texts, arrays, and the closures, shaders and materials, which have no literal values. A *channel* is the letter of one
component of a type.
-/

namespace ShadeGraph

/-- How one component is stored. -/
inductive BaseType where
  | none | boolean | integer | float | string
  deriving DecidableEq, Inhabited

/-- What the components mean. -/
inductive Semantic where
  | none | color | vector | matrix | filename | closure | shader | material
  deriving DecidableEq, Inhabited

/-- The tuples of numbers. -/
inductive TupleShape where
  | vector2 | vector3 | vector4 | color2 | color3 | color4 | matrix33 | matrix44
  deriving DecidableEq, Inhabited

inductive ClosureKind where
  | bsdf | edf | vdf
  deriving DecidableEq, Inhabited

inductive ShaderKind where
  | surface | volume | displacement | light
  deriving DecidableEq, Inhabited

/-- The type of a value, a pin or a variable. -/
inductive DataType where
  | boolean
  | integer
  | float
  | tuple (shape : TupleShape)
  | string
  | filename
  | integerArray
  | floatArray
  | closure (kind : ClosureKind)
  | shader (kind : ShaderKind)
  | material
  deriving DecidableEq, Inhabited

namespace TupleShape

def size : TupleShape → Nat
  | vector2 | color2 => 2
  | vector3 | color3 => 3
  | vector4 | color4 => 4
  | matrix33 => 9
  | matrix44 => 16

def semantic : TupleShape → Semantic
  | vector2 | vector3 | vector4 => .vector
  | color2 | color3 | color4 => .color
  | matrix33 | matrix44 => .matrix

def name : TupleShape → String
  | vector2 => "vector2"
  | vector3 => "vector3"
  | vector4 => "vector4"
  | color2 => "color2"
  | color3 => "color3"
  | color4 => "color4"
  | matrix33 => "matrix33"
  | matrix44 => "matrix44"

end TupleShape

namespace DataType

def name : DataType → String
  | boolean => "boolean"
  | integer => "integer"
  | float => "float"
  | tuple shape => shape.name
  | string => "string"
  | filename => "filename"
  | integerArray => "integerarray"
  | floatArray => "floatarray"
  | closure .bsdf => "BSDF"
  | closure .edf => "EDF"
  | closure .vdf => "VDF"
  | shader .surface => "surfaceshader"
  | shader .volume => "volumeshader"
  | shader .displacement => "displacementshader"
  | shader .light => "lightshader"
  | material => "material"

/-- All types, in the order in which they are listed to users. -/
def all : List DataType :=
  [boolean, integer, float, tuple .vector2, tuple .vector3, tuple .vector4, tuple .color2, tuple .color3,
    tuple .color4, tuple .matrix33, tuple .matrix44, string, filename, integerArray, floatArray, closure .bsdf,
    closure .edf, closure .vdf, shader .surface, shader .volume, shader .displacement, shader .light, material]

def base : DataType → BaseType
  | boolean => .boolean
  | integer | integerArray => .integer
  | float | tuple _ | floatArray => .float
  | string | filename => .string
  | closure _ | shader _ | material => .none

def semantic : DataType → Semantic
  | boolean | integer | float | string | integerArray | floatArray => .none
  | tuple shape => shape.semantic
  | filename => .filename
  | closure _ => .closure
  | shader _ => .shader
  | material => .material

/-- Whether values have any number of elements. -/
def isArray : DataType → Bool
  | integerArray | floatArray => true
  | _ => false

/-- The number of components, zero for arrays. -/
def size : DataType → Nat
  | tuple shape => shape.size
  | integerArray | floatArray => 0
  | _ => 1

def isScalar (t : DataType) : Bool := t.size == 1 && !t.isArray

/-- Whether there are several components. -/
def isAggregate (t : DataType) : Bool := 1 < t.size

def isClosure (t : DataType) : Bool := t.semantic == .closure

/-- Whether this is a shader or a material. -/
def isShader (t : DataType) : Bool := t.semantic == .shader || t.semantic == .material

def ofName? (name : String) : Option DataType := all.find? fun t => t.name == name

/-- The first type that is no array and has a meaning and a number of components. -/
def find? (semantic : Semantic) (size : Nat) : Option DataType :=
  all.find? fun t => t.semantic == semantic && t.size == size && !t.isArray

/-- The position that a letter names among colour or vector components. -/
def letterIndex? : Semantic → Nat → Char → Option Nat
  | _, 1, 'r' => some 0
  | _, 1, 'x' => some 0
  | .color, 2, 'a' => some 1
  | .color, _, 'r' => some 0
  | .color, _, 'g' => some 1
  | .color, _, 'b' => some 2
  | .color, _, 'a' => some 3
  | .vector, _, 'x' => some 0
  | .vector, _, 'y' => some 1
  | .vector, _, 'z' => some 2
  | .vector, _, 'w' => some 3
  | _, _, _ => none

/-- The component that a channel names. A single component answers to `r` and to `x`; the second component of a
two-component colour answers to `a` as well as to `g`. -/
def channelIndex? (t : DataType) (channel : Char) : Option Nat :=
  (letterIndex? t.semantic t.size channel).filter (· < t.size)

end DataType
end ShadeGraph
