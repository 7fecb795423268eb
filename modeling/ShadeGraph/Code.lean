import ShadeGraph.Text.Basic

/-!
# Source code with marked names

Generated source text as a list of tokens. Most tokens are plain text; the others mark a name by what the code does
with it at that place, or a brace that opens or closes a block. The text of code is the text of its tokens one after
the other, so the marks are part of the text and not a description beside it.
-/

namespace ShadeGraph

/-- A stretch of source text. -/
inductive Token where
  | text (s : String)
  /-- A variable whose value is read. -/
  | reads (symbol : String)
  /-- A variable that is assigned. -/
  | writes (symbol : String)
  /-- A variable that is declared. -/
  | declares (symbol : String)
  /-- A function that is called. -/
  | calls (function : String)
  /-- A function that is defined. -/
  | defines (function : String)
  /-- A line of the source code that defines a function. -/
  | sourceLine (function line : String)
  /-- The brace that opens a block. -/
  | opens
  /-- The brace that closes a block. -/
  | closes
  deriving DecidableEq, Inhabited

def Token.render : Token → String
  | text s => s
  | reads symbol => symbol
  | writes symbol => symbol
  | declares symbol => symbol
  | calls function => function
  | defines function => function
  | sourceLine _ line => line
  | opens => "\x7b"
  | closes => "\x7d"

abbrev Code := List Token

namespace Code

def render (code : Code) : String := String.join (code.map Token.render)

def plain (s : String) : Code := [.text s]

/-- Code fragments with a separator between them. -/
def join (separator : String) : List Code → Code
  | [] => []
  | [code] => code
  | code :: rest => code ++ .text separator :: join separator rest

def commas (parts : List Code) : Code := join ", " parts

/-- A call or a constructor: a name and arguments in parentheses. -/
def apply (function : Token) (arguments : List Code) : Code :=
  function :: .text "(" :: (commas arguments ++ [.text ")"])

end Code
end ShadeGraph
