import ShadeGraph.Code
import ShadeGraph.Value.Text
import ShadeGraph.Text.Basic

/-!
# Dialects

A *dialect* describes a target language: how each data type is named, defined and written, and which words are
reserved. A *type form* is its description of one type. Values are written by the form's rule, and a value can also be
composed from expressions for its components, which is how swizzles are expressed.
-/

namespace ShadeGraph

/-- How values of a type are written. -/
inductive ValueForm where
  /-- The text of the value. -/
  | plain
  /-- The text of the value between double quotes. -/
  | quoted
  /-- A constructor with the components. -/
  | constructor
  /-- A structure: a list in braces as the value of a uniform when `braces` is set, otherwise a constructor. -/
  | record (braces : Bool)
  /-- A colour with opacity: the constructor of a plain colour inside the one of the type, in braces as the value of a
  uniform when `braces` is set. -/
  | opacity (color : String) (braces : Bool)
  /-- A matrix of three rows in a language that has four: an identity row and column are added. -/
  | paddedMatrix
  /-- An array between two texts; the mark `{n}` in the opening text stands for the number of elements. -/
  | array (opening closing : String)
  deriving DecidableEq, Inhabited

/-- How a dialect describes one type. -/
structure TypeForm where
  /-- The name of the type in the language. -/
  name : String
  /-- The default value. -/
  default : String
  /-- The default value of a uniform. -/
  uniformDefault : String
  /-- What the name stands for, if it is not a type of the language. -/
  aliasOf : Option String := none
  /-- The definition that the source needs before the name is used. -/
  definition : Option String := none
  /-- How each component is accessed: a text behind the variable, or a template with the mark `{}` in its place. -/
  members : List String := []
  /-- How values are written. -/
  form : ValueForm := .plain
  deriving DecidableEq, Inhabited

namespace TypeForm

def defaultFor (t : TypeForm) (uniform : Bool) : String := if uniform then t.uniformDefault else t.default

/-- Components in braces, or in the constructor of the type. -/
def group (t : TypeForm) (braces : Bool) (parts : List Code) : Code :=
  if braces then .text "\x7b" :: (Code.commas parts ++ [.text "\x7d"]) else Code.apply (.text t.name) parts

/-- Nine components with a zero behind each row, and an identity row behind them. -/
def padRows (zero one : Code) (parts : List Code) : List Code :=
  match parts with
  | [a, b, c, d, e, f, g, h, i] => [a, b, c, zero, d, e, f, zero, g, h, i, zero, zero, zero, zero, one]
  | parts => parts

/-- A matrix of three rows as one of four rows. -/
def padded (t : TypeForm) (zero one : Code) (parts : List Code) : Except Error Code :=
  if parts.length < 9 then .error (.tooFewValues t.name)
  else .ok (Code.apply (.text t.name) (padRows zero one (parts.take 9)))

/-- The opening text of an array of `n` elements. -/
def openingFor (opening : String) (n : Nat) : String := Text.replace "\x7bn\x7d" (toString n) opening

/-- A value composed from expressions for its components. -/
def compose (t : TypeForm) (parts : List Code) (uniform : Bool) : Except Error Code :=
  match parts with
  | [] => .error (.tooFewValues t.name)
  | first :: _ =>
    match t.form with
    | .plain | .quoted => .ok first
    | .constructor => .ok (t.group false parts)
    | .record braces => .ok (t.group (uniform && braces) parts)
    | .opacity color braces =>
      match parts with
      | r :: g :: b :: a :: _ => .ok (t.group (uniform && braces) [Code.apply (.text color) [r, g, b], a])
      | _ => .error (.tooFewValues t.name)
    | .paddedMatrix => t.padded (Code.plain "0.0") (Code.plain "1.0") parts
    | .array opening closing =>
      .ok (.text (openingFor opening parts.length) :: (Code.commas parts ++ [.text closing]))

def arrayLiteral (t : TypeForm) (opening closing : String) (v : Value) (uniform : Bool) (f : FloatFormat) :
    Except Error String :=
  match v.arrayLength? with
  | none => .error (.typeMismatch t.name v.type.name)
  | some 0 => if uniform then .error (.emptyArray t.name) else .ok (openingFor opening 0 ++ closing)
  | some n => .ok (openingFor opening n ++ v.text f ++ closing)

def literal (t : TypeForm) (v : Value) (uniform : Bool) (f : FloatFormat) : Except Error String :=
  match t.form with
  | .plain => .ok (v.text f)
  | .quoted => .ok ("\"" ++ v.text f ++ "\"")
  | .constructor =>
    match v with
    | .string s | .filename s =>
      .ok (if s = "" then t.defaultFor uniform else t.name ++ "(\"" ++ s ++ "\")")
    | _ => .ok (t.name ++ "(" ++ v.text f ++ ")")
  | .record braces =>
    .ok (if uniform && braces then "\x7b" ++ v.text f ++ "\x7d" else t.name ++ "(" ++ v.text f ++ ")")
  | .opacity _ _ => do
    let components ← v.asTuple .color4
    let code ← t.compose (components.map fun x => Code.plain (f.format x)) uniform
    pure code.render
  | .paddedMatrix => do
    let components ← v.asTuple .matrix33
    let code ← t.padded (Code.plain (f.format (.zero false))) (Code.plain (f.format Value.one))
      (components.map fun x => Code.plain (f.format x))
    pure code.render
  | .array opening closing => t.arrayLiteral opening closing v uniform f

end TypeForm

/-- The description of a target language. -/
structure Dialect where
  name : String
  /-- The types it describes, in the order in which they were registered. -/
  forms : List (DataType × TypeForm) := []
  reserved : List String := []
  /-- The word in front of a uniform parameter, or nothing. -/
  uniformQualifier : String := ""
  /-- The word in front of an output parameter, or nothing. -/
  outputQualifier : String := ""
  deriving Inhabited

namespace Dialect

/-- The form of a type, if the dialect describes it. -/
def form? (d : Dialect) (type : DataType) : Option TypeForm := d.forms.lookup type

def form (d : Dialect) (type : DataType) : Except Error TypeForm :=
  match d.form? type with
  | some t => .ok t
  | none => .error (.missingForm type.name d.name)

/-- Adds the form of a type that is not described yet. -/
def register (d : Dialect) (type : DataType) (t : TypeForm) : Except Error Dialect :=
  match d.form? type with
  | some _ => .error (.duplicateForm type.name d.name)
  | none => .ok { d with forms := d.forms ++ [(type, t)] }

def reserve (d : Dialect) (words : List String) : Dialect := { d with reserved := d.reserved ++ words }

def isReserved (d : Dialect) (word : String) : Bool := d.reserved.contains word

def supports (d : Dialect) (type : DataType) : Bool := (d.form? type).isSome

def typeName (d : Dialect) (type : DataType) : Except Error String := (d.form type).map TypeForm.name

def default (d : Dialect) (type : DataType) (uniform : Bool) : Except Error String :=
  (d.form type).map fun t => t.defaultFor uniform

/-- The text of a value where a type is expected. -/
def literal (d : Dialect) (type : DataType) (v : Value) (uniform : Bool) (f : FloatFormat) : Except Error String :=
  d.form type >>= fun t => t.literal v uniform f

/-- The forms with a definition or an alias among the given types, in the order of registration. -/
def definitions (d : Dialect) (used : List String) : List TypeForm :=
  (d.forms.filter fun (type, t) => used.contains type.name && (t.definition.isSome || t.aliasOf.isSome)).map Prod.snd

/-! ## Names -/

def isNameChar (c : Char) : Bool := c.isAlphanum || c = '_'

/-- A name with an underscore for every character that may not stand in one, and in front of a leading digit. -/
def sanitize (name : String) : String :=
  let chars := name.toList.map fun c => if isNameChar c then c else '_'
  match chars with
  | [] => "_"
  | c :: _ => if c.isDigit then String.ofList ('_' :: chars) else String.ofList chars

/-- A valid name that is neither reserved nor used: the sanitized name, with a number if need be. -/
def validName (d : Dialect) (used : List String) (name : String) : String :=
  Text.freshName (d.reserved ++ used) (sanitize name)

/-! ## Swizzles -/

/-- The pieces of a template with a value between them. -/
def fill (value : Code) : List (List Char) → Code
  | [] => []
  | [piece] => [.text (String.ofList piece)]
  | piece :: rest => .text (String.ofList piece) :: (value ++ fill value rest)

/-- The access to a component: the member behind the value, or the value in place of each mark of a template. -/
def access (member : String) (value : Code) : Code :=
  match Text.pieces ['\x7b', '\x7d'] member.toList with
  | [_] => value ++ [.text member]
  | pieces => fill value pieces

/-- The expression for one channel of a value. -/
def channel (t : TypeForm) (source : DataType) (value : Code) (channel : Char) : Except Error Code :=
  match source.channelIndex? channel with
  | none => .error (.invalidChannel source.name channel)
  | some index =>
    if source.size = 1 then .ok value
    else
      match t.members[index]? with
      | none => .error (.invalidChannel source.name channel)
      | some member => .ok (access member value)

/-- The expression that turns a value of a source type into one of a target type by picking channels. -/
def swizzle (d : Dialect) (value : Code) (source : DataType) (channels : String) (target : DataType) :
    Except Error Code := do
  let t ← d.form source
  let parts ← channels.toList.mapM (channel t source value)
  if parts.length ≠ target.size then throw (.typeMismatch target.name (source.name ++ "." ++ channels))
  match parts with
  | [part] => pure part
  | parts =>
    let t ← d.form target
    t.compose parts false

end Dialect
end ShadeGraph
