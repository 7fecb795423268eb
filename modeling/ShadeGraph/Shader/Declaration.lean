import ShadeGraph.Shader.Expression

/-!
# Declarations

How each language declares variables, arrays and parameters.
-/

namespace ShadeGraph

/-- The length of an array in brackets. -/
def bracketed (length : Nat) : String := "[" ++ toString length ++ "]"

/-- A statement that gives a variable a value, or a declaration with an initial value. -/
def Code.assign (target value : Code) : Code := target ++ .text " = " :: value

namespace Language

/-- The declaration of a variable, or of an array of some length. -/
def declare (l : Language) (type : DataType) (name : String) (length : Option Nat) : Except Error Code := do
  let typeName ← l.dialect.typeName type
  pure <|
    match length, l with
    | none, _ => [.text (typeName ++ " "), .declares name]
    | some n, .mdl => [.text (typeName ++ bracketed n ++ " "), .declares name]
    | some n, _ => [.text (typeName ++ " "), .declares name, .text (bracketed n)]

def declareOutput (l : Language) (o : Output) : Except Error Code := l.declare o.type o.variableName none

/-- The declaration of an output with the default value of its type. -/
def declareDefault (l : Language) (o : Output) : Except Error Code := do
  let declaration ← l.declareOutput o
  let value ← l.dialect.default o.type false
  pure (declaration.assign (Code.plain value))

def declareArray (l : Language) (type : DataType) (name : String) (elements : List Code) : Except Error Code := do
  let typeName ← l.dialect.typeName type
  let n := elements.length
  let declaration ← l.declare type name (some n)
  pure <| declaration.assign <|
    match l with
    | .osl => .text "\x7b" :: (Code.commas elements ++ [.text "\x7d"])
    | .mdl => Code.apply (.text (typeName ++ "[]")) elements
    | .glsl => Code.apply (.text (typeName ++ bracketed n)) elements

def parameterDefault (l : Language) (type : DataType) (value : Option Value) (uniform : Bool) (f : FloatFormat) :
    Except Error Code :=
  match value with
  | some value => (l.dialect.literal type value uniform f).map Code.plain
  | none => (l.dialect.default type uniform).map Code.plain

/-- A parameter with its default value. -/
def parameter (l : Language) (type : DataType) (name : String) (value : Option Value) (uniform : Bool)
    (f : FloatFormat) : Except Error Code := do
  let default ← l.parameterDefault type value uniform f
  let declaration ← l.declare type name (value.bind Value.arrayLength?)
  pure (declaration.assign default)

def qualified (qualifier : String) (declaration : Code) : Code := .text (qualifier ++ " ") :: declaration

end Language
end ShadeGraph
