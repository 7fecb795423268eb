import ShadeGraph.Ron.Basic
import ShadeGraph.Ron.Lexeme

/-!
# Reading object notation

A text may start with lines such as `#![enable(implicit_some)]`, which loosen or tighten the rules for what follows.

A value is built from lexemes with a stack of unfinished values. Inside brackets items are separated by commas, with
one more comma allowed behind the last item. Round brackets hold a record if their first item is a word with a colon
behind it, and a tuple otherwise. The round brackets of `Some` hold the value of an option.
-/

namespace ShadeGraph.Ron

/-! ## Settings of a text -/

/-- The rules that a text chooses for itself. -/
structure Settings where
  /-- An optional value may be written without `Some` around it. -/
  impliedPresence : Bool := false
  /-- The brackets of `Some` may stand for the brackets of what they hold. -/
  sharedBrackets : Bool := false
  /-- A record must have its name in front. -/
  namedRecords : Bool := false
  deriving DecidableEq, Inhabited

namespace Settings

/-- Chooses a rule by its name. There is one that only concerns forms which no document has. -/
def enable? (s : Settings) (name : String) : Option Settings :=
  if name = "implicit_some" then some { s with impliedPresence := true }
  else if name = "unwrap_variant_newtypes" then some { s with sharedBrackets := true }
  else if name = "explicit_struct_names" then some { s with namedRecords := true }
  else if name = "unwrap_newtypes" then some s
  else none

/-- Chooses the rule that a lexeme names. -/
def take? (s : Settings) : Lexeme → Option Settings
  | .word name => s.enable? name
  | .rawWord name => s.enable? name
  | _ => none

mutual

/-- The settings at the front of some lexemes, and the lexemes behind them. -/
def read? (s : Settings) : List Lexeme → Option (Settings × List Lexeme)
  | .mark '#' :: .mark '!' :: .mark '[' :: .word "enable" :: .mark '(' :: rest => readNames? s rest
  | rest => some (s, rest)

/-- The settings with the names up to a closing bracket; a comma may stand behind the last one. -/
def readNames? (s : Settings) : List Lexeme → Option (Settings × List Lexeme)
  | l :: .mark ')' :: .mark ']' :: rest => (s.take? l).bind fun s => read? s rest
  | l :: .mark ',' :: .mark ')' :: .mark ']' :: rest => (s.take? l).bind fun s => read? s rest
  | l :: .mark ',' :: rest => (s.take? l).bind fun s => readNames? s rest
  | _ => none

end

end Settings

/-! ## Values -/

/-- What stands in front of round brackets. -/
inductive Head where
  /-- A name, or nothing. -/
  | named (name : String)
  /-- The word `Some`. -/
  | present
  deriving DecidableEq, Inhabited

/-- What has been read of a value that is still unfinished, the latest item first. -/
inductive Frame where
  | list (items : List Ron)
  | tuple (head : Head) (items : List Ron)
  /-- The fields, and the name in front of the last colon if its value is still to come. -/
  | record (head : Head) (fields : List Field) (key : Option String)
  /-- How deep the entries are, and whether the key of the next entry has been read. -/
  | table (depth : Nat) (keyed : Bool)
  /-- The word `Some` without brackets behind it. -/
  | implied
  deriving Inhabited

namespace Frame

def add : Frame → Ron → Option Frame
  | list items, r => some (list (r :: items))
  | tuple head items, r => some (tuple head (r :: items))
  | record head fields (some key), r => some (record head (.mk key r :: fields) none)
  | table depth true, r => some (table (max depth (r.depth + 2)) false)
  | _, _ => none

/-- Takes a word as the name of a field. -/
def label : Frame → String → Option Frame
  | tuple head [], key => some (record head [] (some key))
  | record head fields none, key => some (record head fields (some key))
  | _, _ => none

def key : Frame → Ron → Option Frame
  | table depth false, r => some (table (max depth (r.depth + 2)) true)
  | _, _ => none

/-- The value of round brackets with some items, the latest first. -/
def closeTuple (s : Settings) (head : Head) (items : List Ron) : Option Ron :=
  match head, items with
  | .named name, [] => some (.record name [])
  | .named _, items => some (.other (itemsDepth items))
  | .present, [r] => some (.present r)
  | .present, [] => if s.sharedBrackets then some (.present .unit) else none
  | .present, items => if s.sharedBrackets then some (.present (.other (itemsDepth items))) else none

/-- The value of round brackets with some fields. -/
def closeRecord (s : Settings) (head : Head) (fields : List Field) : Option Ron :=
  match head with
  | .named name => some (.record name fields)
  | .present => if s.sharedBrackets then some (.present (.record "" fields)) else none

/-- The value of brackets that a mark closes. -/
def close (s : Settings) : Frame → Char → Option Ron
  | list items, c => if c = ']' then some (.list items.reverse) else none
  | tuple head items, c => if c = ')' then closeTuple s head items else none
  | record head fields none, c => if c = ')' then closeRecord s head fields.reverse else none
  | table depth false, c => if c = Char.ofNat 0x7d then some (.other (max 1 depth)) else none
  | _, _ => none

end Frame

/-- What has just been read. -/
inductive Latest where
  | nothing
  /-- A word, which may turn out to be a value, a name in front of brackets or the name of a field. -/
  | word (name : String)
  | rawWord (name : String)
  | value (r : Ron)
  deriving Inhabited

/-- The meaning of a word by itself. The word `Some` has none. -/
def wordValue? (name : String) : Option Ron :=
  if name = "Some" then none
  else if name = "None" then some .absent
  else if name = "true" then some (.truth true)
  else if name = "false" then some (.truth false)
  else if isNumberWord name.toList then some (.other 0)
  else some (.word name)

/-- What a word is in front of round brackets. A word with a meaning of its own cannot stand there. -/
def wordHead? (name : String) : Option Head :=
  if name = "Some" then some .present
  else match wordValue? name with
    | some (.word name) => some (.named name)
    | _ => none

/-- The unfinished values, the innermost first, and what has just been read. -/
structure Builder where
  stack : List Frame := []
  latest : Latest := .nothing
  deriving Inhabited

namespace Builder

/-- Finishes the options without brackets that end with a value. -/
def finishImplied : List Frame → Ron → List Frame × Ron
  | .implied :: stack, r => finishImplied stack (.present r)
  | stack, r => (stack, r)

/-- The value that has just been read, and what is still unfinished behind it. -/
def settle (b : Builder) : Option (List Frame × Ron) :=
  match b.latest with
  | .nothing => none
  | .word name => (wordValue? name).map (finishImplied b.stack)
  | .rawWord name => some (finishImplied b.stack (.word name))
  | .value r => some (finishImplied b.stack r)

/-- The unfinished values around a new one. Behind a value there can be no other one, but behind `Some` there can be if
the settings allow it. -/
def around (s : Settings) (b : Builder) : Option (List Frame) :=
  match b.latest with
  | .nothing => some b.stack
  | .word name => if name = "Some" && s.impliedPresence then some (.implied :: b.stack) else none
  | _ => none

def atom (s : Settings) (b : Builder) (x : Latest) : Option Builder := (b.around s).map fun stack => ⟨stack, x⟩

def enter (s : Settings) (b : Builder) (f : Frame) : Option Builder :=
  (b.around s).map fun stack => ⟨f :: stack, .nothing⟩

/-- The name in front of round brackets, if one has just been read. -/
def head? (b : Builder) : Option (Option Head) :=
  match b.latest with
  | .word name => some (wordHead? name)
  | .rawWord name => some (some (.named name))
  | _ => none

def openRound (s : Settings) (b : Builder) : Option Builder :=
  match b.head? with
  | some head => head.map fun head => ⟨.tuple head [] :: b.stack, .nothing⟩
  | none => b.enter s (.tuple (.named "") [])

def unit (s : Settings) (b : Builder) : Option Builder :=
  match b.head? with
  | some head => head.bind fun head => (Frame.closeTuple s head []).map fun r => ⟨b.stack, .value r⟩
  | none => b.atom s (.value .unit)

def comma (b : Builder) : Option Builder := do
  match ← b.settle with
  | (f :: stack, r) => (f.add r).map fun f => ⟨f :: stack, .nothing⟩
  | _ => none

/-- Takes the word that has just been read as the name of a field. -/
def label (b : Builder) : Option Builder :=
  match b.stack, b.latest with
  | f :: stack, .word name => (f.label name).map fun f => ⟨f :: stack, .nothing⟩
  | f :: stack, .rawWord name => (f.label name).map fun f => ⟨f :: stack, .nothing⟩
  | _, _ => none

/-- Takes a colon. What stands in front of it is the name of a field or the key of an entry. -/
def colon (b : Builder) : Option Builder :=
  match b.label with
  | some b => some b
  | none => do
    match ← b.settle with
    | (f :: stack, r) => (f.key r).map fun f => ⟨f :: stack, .nothing⟩
    | _ => none

def closing (s : Settings) (b : Builder) (c : Char) : Option Builder :=
  match b.latest, b.stack with
  | .nothing, f :: stack => (f.close s c).map fun r => ⟨stack, .value r⟩
  | _, _ => do
    match ← b.settle with
    | (f :: stack, r) => (f.add r).bind fun f => (f.close s c).map fun r => ⟨stack, .value r⟩
    | _ => none

def step (s : Settings) (b : Builder) (l : Lexeme) : Option Builder :=
  match l with
  | .text content => b.atom s (.value (.text content))
  | .number value => b.atom s (.value (.number value))
  | .other => b.atom s (.value (.other 0))
  | .word name => b.atom s (.word name)
  | .rawWord name => b.atom s (.rawWord name)
  | .unit => b.unit s
  | .mark c =>
    if c = '(' then b.openRound s
    else if c = '[' then b.enter s (.list [])
    else if c = Char.ofNat 0x7b then b.enter s (.table 0 false)
    else if c = ',' then b.comma
    else if c = ':' then b.colon
    else b.closing s c

end Builder

/-- The value that some lexemes write. -/
def ofLexemes? (s : Settings) (ls : List Lexeme) : Option Ron := do
  let b ← ls.foldlM (Builder.step s) {}
  match ← b.settle with
  | ([], r) => pure r
  | _ => none

def maxDepth : Nat := 128

/-- Reads a value and the settings in front of it. -/
def read? (text : String) : Option (Settings × Ron) := do
  let ls ← lexemes? text.toList
  let (s, ls) ← Settings.read? {} ls
  let r ← ofLexemes? s ls
  if r.depth ≤ maxDepth then pure (s, r) else none

end ShadeGraph.Ron
