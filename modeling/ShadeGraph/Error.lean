import ShadeGraph.Text.Printable
import ShadeGraph.Text.Basic

/-!
# Errors

Every cause for which an operation can fail, the broad kind it belongs to, and its text.
-/

namespace ShadeGraph

/-- The broad kind of an error, by which callers decide how to report it. -/
inductive ErrorKind where
  /-- A registration is missing or repeated. -/
  | configuration
  /-- Something named does not exist. -/
  | lookup
  /-- A value or a connection does not fit its type. -/
  | typeMismatch
  /-- A graph reads its own output. -/
  | cycleDetected
  /-- A compound graph contains itself. -/
  | cyclicCompound
  /-- The target cannot express what is asked for. -/
  | unsupported
  /-- A file could not be read or written. -/
  | io
  deriving DecidableEq, Inhabited

/-- Why a file could not be read or written. -/
inductive FileFault where
  | notFound
  | notDirectory
  | isDirectory
  | nameTooLong
  /-- A name holds the character that ends names. -/
  | invalidName
  | invalidText
  deriving DecidableEq, Inhabited

/-- The system's text for a fault. -/
def FileFault.message : FileFault → String
  | .notFound => "No such file or directory (os error 2)"
  | .notDirectory => "Not a directory (os error 20)"
  | .isDirectory => "Is a directory (os error 21)"
  | .nameTooLong => "File name too long (os error 36)"
  | .invalidName => "file name contained an unexpected NUL byte"
  | .invalidText => "stream did not contain valid UTF-8"

/-- The cause of a failure. -/
inductive Error where
  /-- A dialect already describes the type. -/
  | duplicateForm (type dialect : String)
  /-- A dialect does not describe the type. -/
  | missingForm (type dialect : String)
  | unknownType (name : String)
  | typeMismatch (expected got : String)
  | invalidValue (type text : String)
  /-- There are too few components to compose a value. -/
  | tooFewValues (type : String)
  /-- An array without elements stands where at least one is needed. -/
  | emptyArray (type : String)
  | invalidChannel (type : String) (channel : Char)
  | fileNotFound (path : String)
  | fileFault (path : String) (fault : FileFault)
  /-- The text of a file does not describe what it should. -/
  | malformedFile (path : String)
  | unresolvedNodeDef (node category type : String)
  | missingImplementation (nodedef language target : String)
  /-- An implementation has neither a source nor a source file. -/
  | missingSource (implementation : String)
  /-- An inline expression opens a token that it does not close. -/
  | unterminatedToken (implementation : String)
  | nodeNotFound (graph node : String)
  | pinNotFound (owner pin : String)
  | incompatiblePins (source sourceType target targetType : String)
  /-- The nodes along a cycle, the first one repeated at the end. -/
  | cycle (graph : String) (chain : List String)
  | cyclicCompound (graph : String)
  /-- Several outputs where the language allows one. -/
  | multipleOutputs (node language : String)
  | closuresUnsupported (node type language : String)
  | tooManyBranches (node : String) (count limit : Nat)
  deriving DecidableEq, Inhabited

namespace Error

def kind : Error → ErrorKind
  | duplicateForm .. | missingForm .. | unterminatedToken .. => .configuration
  | unknownType .. | unresolvedNodeDef .. | missingImplementation .. | missingSource .. | nodeNotFound ..
  | pinNotFound .. => .lookup
  | typeMismatch .. | invalidValue .. | tooFewValues .. | invalidChannel .. | incompatiblePins .. => .typeMismatch
  | cycle .. => .cycleDetected
  | cyclicCompound .. => .cyclicCompound
  | emptyArray .. | multipleOutputs .. | closuresUnsupported .. | tooManyBranches .. => .unsupported
  | fileNotFound .. | fileFault .. | malformedFile .. => .io

/-- The text of an error. That of a malformed file says which file it is and leaves out what is wrong with it, since
readers of documents and options only tell whether a text can be read. -/
def message : Error → String
  | duplicateForm type dialect => s!"Type syntax for '{type}' is already registered in the {dialect} syntax"
  | missingForm type dialect => s!"No type syntax registered for '{type}' in the {dialect} syntax"
  | unknownType name => s!"Unknown type: '{name}'"
  | typeMismatch expected got => s!"Type mismatch: expected '{expected}', got '{got}'"
  | invalidValue type text => s!"Invalid value '{text}' for type '{type}'"
  | tooFewValues type => s!"Too few values given to construct a '{type}' value"
  | emptyArray type => s!"Uniform array of type '{type}' cannot be initialized to an empty value"
  | invalidChannel type channel => s!"Invalid channel '{channel}' for type '{type}'"
  | fileNotFound path => "File not found in search path: " ++ Text.quote path
  | fileFault path fault => "Failed to read " ++ Text.quote path ++ ": " ++ fault.message
  | malformedFile path => "Failed to parse document " ++ Text.quote path
  | unresolvedNodeDef node category type =>
    s!"Could not find a nodedef for node '{node}' (category '{category}', type '{type}')"
  | missingImplementation nodedef language target =>
    s!"Could not find an implementation for '{nodedef}' in language '{language}' for target '{target}'"
  | missingSource implementation => s!"Implementation '{implementation}' has no source file"
  | unterminatedToken implementation =>
    s!"Unterminated '\x7b\x7b' token in inline implementation '{implementation}'"
  | nodeNotFound graph node => s!"Node '{node}' not found in graph '{graph}'"
  | pinNotFound owner pin => s!"Port '{pin}' not found on '{owner}'"
  | incompatiblePins source sourceType target targetType =>
    s!"Cannot connect '{source}' of type '{sourceType}' to '{target}' of type '{targetType}'"
  | cycle graph chain => s!"Cycle detected in graph '{graph}': " ++ Text.join " -> " chain
  | cyclicCompound graph => s!"Compound graph '{graph}' instantiates itself"
  | multipleOutputs node language =>
    s!"Multiple outputs is not supported: '{node}' in the {language} generator"
  | closuresUnsupported node type language =>
    s!"Node '{node}' of type '{type}' cannot be generated by the {language} generator: closures are not supported"
  | tooManyBranches node count limit =>
    s!"Conditional node '{node}' has {count} inputs; at most {limit} are supported"

end Error

/-- A step that only computes or fails, among steps that change a state. -/
instance {σ : Type} : MonadLift (Except Error) (EStateM Error σ) where
  monadLift
    | .ok a => pure a
    | .error e => throw e

end ShadeGraph
