import ShadeGraph.Text.Basic

/-!
# Arguments

The arguments of the command: a document, an element of it, and options. An option with a value takes the next
argument, or what stands behind an equals sign, or for a single letter what stands right behind it. An option that is
not a list can be given once. Behind `--` all arguments are taken as they are.
-/

namespace ShadeGraph.Command

/-- What the command is asked to do. -/
structure Arguments where
  /-- The file of the document. -/
  document : String
  /-- The name of the graph or node to generate code for. -/
  element : String
  language : String := "osl"
  /-- The file of the options. -/
  options : Option String := none
  libraries : List String := []
  searchPath : List String := []
  /-- Whether the code is wrapped as a fragment. -/
  fragment : Bool := false
  /-- The file to write; without one the code is printed. -/
  output : Option String := none
  deriving DecidableEq, Inhabited

/-- Why there is nothing to do. -/
inductive Refusal where
  /-- The user asks how the command is used. -/
  | help
  /-- The arguments are wrong. -/
  | usage
  deriving DecidableEq, Inhabited

inductive Setting where
  | language | options | libraries | searchPath | output
  deriving DecidableEq, Inhabited

namespace Setting

def ofName? (name : String) : Option Setting :=
  [("language", language), ("options", options), ("libraries", libraries), ("search-path", searchPath),
    ("output", output)].lookup name

def ofLetter? (c : Char) : Option Setting :=
  if c = 'l' then some language else if c = 'o' then some output else none

end Setting

/-- The arguments read so far. -/
structure Reader where
  /-- The arguments that belong to no option. -/
  plain : List String := []
  language : Option String := none
  options : Option String := none
  libraries : List String := []
  searchPath : List String := []
  fragment : Bool := false
  output : Option String := none
  /-- The option whose value comes next. -/
  awaiting : Option Setting := none
  /-- Whether all further arguments are taken as they are. -/
  literal : Bool := false
  deriving DecidableEq, Inhabited

namespace Reader

/-- Sets an option. One that is a single text can be set once, and a file must have a name. -/
def give (r : Reader) (s : Setting) (value : String) : Except Refusal Reader :=
  let r := { r with awaiting := none }
  match s with
  | .language => if r.language.isSome then .error .usage else .ok { r with language := some value }
  | .options => if value = "" || r.options.isSome then .error .usage else .ok { r with options := some value }
  | .libraries => .ok { r with libraries := r.libraries ++ (Text.splitAt ',' value.toList).map String.ofList }
  | .searchPath => if value = "" then .error .usage else .ok { r with searchPath := r.searchPath ++ [value] }
  | .output => if value = "" || r.output.isSome then .error .usage else .ok { r with output := some value }

/-- Sets an option, if its value is there already. -/
def set (r : Reader) (s : Setting) : Option String → Except Refusal Reader
  | some value => r.give s value
  | none => .ok { r with awaiting := some s }

def long (r : Reader) (name : String) (value : Option String) : Except Refusal Reader :=
  match Setting.ofName? name with
  | some s => r.set s value
  | none =>
    if value.isSome then .error .usage
    else if name = "help" then .error .help
    else if name = "fragment" && !r.fragment then .ok { r with fragment := true }
    else .error .usage

def short (r : Reader) (c : Char) (rest : List Char) : Except Refusal Reader :=
  match Setting.ofLetter? c, rest with
  | some s, [] => r.set s none
  | some s, '=' :: value => r.give s (String.ofList value)
  | some s, value => r.give s (String.ofList value)
  | none, _ => .error (if c = 'h' then .help else .usage)

/-- Takes an argument that is no option: the value that is awaited, the document or the element. -/
def word (r : Reader) (arg : String) : Except Refusal Reader :=
  match r.awaiting with
  | some s => r.give s arg
  | none =>
    if 2 ≤ r.plain.length || (r.plain.isEmpty && arg = "") then .error .usage
    else .ok { r with plain := r.plain ++ [arg] }

def take (r : Reader) (arg : String) : Except Refusal Reader :=
  if r.literal then r.word arg
  else match arg.toList with
    | '-' :: c :: rest =>
      if r.awaiting.isSome then .error .usage
      else if c ≠ '-' then r.short c rest
      else if rest = [] then .ok { r with literal := true }
      else
        let name := rest.takeWhile (· != '=')
        r.long (String.ofList name) (rest[name.length]?.map fun _ => String.ofList (rest.drop (name.length + 1)))
    | _ => r.word arg

/-- The arguments that have been read, if all that are needed were given. -/
def finish (r : Reader) : Except Refusal Arguments :=
  match r.awaiting, r.plain with
  | none, [document, element] =>
    .ok { document, element, language := r.language.getD "osl", options := r.options, libraries := r.libraries,
          searchPath := r.searchPath, fragment := r.fragment, output := r.output }
  | _, _ => .error .usage

end Reader

def Arguments.read (args : List String) : Except Refusal Arguments := do
  let r ← args.foldlM Reader.take {}
  r.finish

end ShadeGraph.Command
