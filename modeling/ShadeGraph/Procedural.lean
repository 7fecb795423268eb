import ShadeGraph.Language

/-!
# Generated nodes

The node categories whose code is generated from the node instead of being taken from source code, and the generators,
which say for each category which of them applies.
-/

namespace ShadeGraph

inductive Comparison where
  | greater | greaterOrEqual | equal
  deriving DecidableEq, Inhabited

def Comparison.operator : Comparison → String
  | greater => ">"
  | greaterOrEqual => ">="
  | equal => "=="

/-- A category of nodes described by an expression. -/
structure Template where
  category : String
  /-- The expression for the outputs, with the names of inputs in double braces. -/
  call : String
  /-- The function that the expression needs. -/
  function : Option String := none
  /-- The definition of that function. -/
  body : Option String := none
  deriving DecidableEq, Inhabited

/-- How the code of a node is generated. -/
inductive Procedural where
  /-- The output is the value of the input `value`. -/
  | constant
  /-- The output is the value of the input `in`. -/
  | dot
  /-- The output is one of two inputs, chosen by a comparison. -/
  | compare (comparison : Comparison)
  /-- The output is one of several inputs, chosen by a number. -/
  | switch
  /-- The output is a weighted sum of texture samples. -/
  | blur
  | template (template : Template)
  deriving DecidableEq, Inhabited

/-- The category to which generated code applies. -/
def Procedural.category : Procedural → String
  | constant => "constant"
  | dot => "dot"
  | compare .greater => "ifgreater"
  | compare .greaterOrEqual => "ifgreatereq"
  | compare .equal => "ifequal"
  | switch => "switch"
  | blur => "blur"
  | template t => t.category

/-- The generated categories, in the order in which they were added; each category stands there once. -/
abbrev Registry := List Procedural

namespace Registry

/-- Adds a category, or replaces the one of the same name in its place. -/
def register (r : Registry) (p : Procedural) : Registry :=
  if r.any fun q => q.category == p.category then r.map fun q => if q.category = p.category then p else q
  else r ++ [p]

def find? (r : Registry) (category : String) : Option Procedural := List.find? (fun p => p.category == category) r

/-- The categories that every language has. -/
def standard : Registry :=
  [.constant, .dot, .compare .greater, .compare .greaterOrEqual, .compare .equal, .switch, .blur]

end Registry

/-- A generator: a target language and the categories whose code is generated. -/
structure Generator where
  language : Language
  registry : Registry := Registry.standard
  deriving DecidableEq, Inhabited

def Generator.dialect (g : Generator) : Dialect := g.language.dialect

def Generator.register (g : Generator) (p : Procedural) : Generator := { g with registry := g.registry.register p }

end ShadeGraph
