import ShadeGraph.Dialect.Osl
import ShadeGraph.Dialect.Mdl
import ShadeGraph.Dialect.Glsl

/-!
# Target languages and options

The languages for which code is generated, with what the rest of the library needs to know about each of them, and what
a user can choose about the generated code.
-/

namespace ShadeGraph

inductive Language where
  | osl | mdl | glsl
  deriving DecidableEq, Inhabited

namespace Language

def name : Language → String
  | osl => "osl"
  | mdl => "mdl"
  | glsl => "glsl"

def ofName? (name : String) : Option Language := [osl, mdl, glsl].find? fun l => l.name == name

/-- The renderer that the language implies. -/
def target : Language → String
  | osl => "genosl"
  | mdl => "genmdl"
  | glsl => "genglsl"

/-- How the language writes types, values and names. -/
def dialect : Language → Dialect
  | osl => Dialect.osl
  | mdl => Dialect.mdl
  | glsl => Dialect.glsl

def hasClosures : Language → Bool
  | osl | mdl => true
  | glsl => false

def samplerSuffix : String := "_sampler"

/-- What is appended to the names of input variables of a type. -/
def suffix : Language → DataType → String
  | glsl, .filename => samplerSuffix
  | _, _ => ""

end Language

structure Options where
  /-- How numbers are written. -/
  floatFormat : FloatFormat := {}
  /-- Whether compound nodes are replaced by the nodes of their graphs. -/
  flatten : Bool := true
  /-- The renderer to generate for, in place of the one that the language implies. -/
  target : Option String := none
  /-- The number of spaces per level of indentation. -/
  indent : Nat := 4
  /-- Whether the definitions of the used types are written. -/
  typeDefinitions : Bool := true
  /-- Whether fragments carry a variant in a second language. -/
  secondary : Bool := false
  deriving DecidableEq, Inhabited

end ShadeGraph
