import ShadeGraph.Ron.Number
import ShadeGraph.Text.Identifier

/-!
# Lexemes

The words, texts, numbers and marks of a text in object notation. Blanks and comments stand between them: a line
comment ends with its line, and block comments nest. The text is read one character at a time; what has been read of
an unfinished lexeme is kept in the *mode* of the scanner.
-/

namespace ShadeGraph.Ron

/-- A word, text, number or mark. -/
inductive Lexeme where
  | word (name : String)
  /-- A word behind `r#`. It may hold points and signs, and it never has a meaning of its own. -/
  | rawWord (name : String)
  | text (content : String)
  | number (value : Nat)
  /-- A character, bytes, or a number that is not whole. -/
  | other
  /-- Round brackets with nothing between them, not even a blank. -/
  | unit
  /-- A bracket, a comma, a colon, or a mark in front of the settings of a text. -/
  | mark (c : Char)
  deriving DecidableEq, Inhabited

/-! ## Characters -/

/-- The blanks between lexemes: tab to carriage return, space, and six further blanks and marks of direction. -/
def isSpace (c : Char) : Bool :=
  let n := c.toNat
  (0x9 ≤ n && n ≤ 0xd) || n == 0x20 || n == 0x85 || n == 0x200e || n == 0x200f || n == 0x2028 || n == 0x2029

/-- The marks, apart from the opening round bracket. -/
def isMark (c : Char) : Bool :=
  c == ')' || c == '[' || c == ']' || c == ',' || c == ':' || c == Char.ofNat 0x7b || c == Char.ofNat 0x7d ||
    c == '#' || c == '!'

def continuesRawWord (c : Char) : Bool := Text.continuesIdentifier c || c == '.' || c == '+' || c == '-'

def startsNumber (c : Char) : Bool := c.isDigit || c == '+' || c == '-' || c == '.'

def continuesNumber (c : Char) : Bool := startsNumber c || c.isAlpha || c == '_'

def numberLexeme? (cs : List Char) : Option Lexeme :=
  (readNumber? cs).map fun
    | some value => .number value
    | none => .other

/-! ## Quoted content -/

/-- What stands between quotes. -/
inductive Quoted where
  | text
  | bytes
  | character
  /-- A character that stands for its byte. -/
  | byte
  deriving DecidableEq, Inhabited

/-- Whether exactly one character stands between single quotes. -/
def Quoted.isSingle : Quoted → Bool
  | .text | .bytes => false
  | .character | .byte => true

/-- A part of quoted content: a character, or a byte of an encoded character. -/
abbrev Part := Char ⊕ UInt8

/-- The text of some parts. Bytes must encode characters. -/
def joinParts (parts : List Part) : Option String :=
  match parts.mapM Sum.getLeft? with
  | some chars => some (String.ofList chars)
  | none => String.fromUTF8? ⟨(parts.flatMap fun
    | .inl c => String.utf8EncodeChar c
    | .inr b => [b]).toArray⟩

def Quoted.lexeme? (q : Quoted) (parts : List Part) : Option Lexeme :=
  match q with
  | .text => (joinParts parts).map .text
  | .bytes => some .other
  | .character =>
    match parts with
    | [.inl _] => some .other
    | _ => none
  | .byte =>
    match parts with
    | [.inl c] => if c.toNat < 0x80 then some .other else none
    | [.inr _] => some .other
    | _ => none

/-- How far an escape has been read. -/
inductive Escape where
  | none
  /-- Behind the backslash. -/
  | start
  /-- Behind `\x` and the digits of a value, with more digits to come. -/
  | byte (value left : Nat)
  /-- Behind `\u`. -/
  | brace
  /-- Behind the brace of `\u` and some digits of a value. -/
  | point (value count : Nat)
  deriving DecidableEq, Inhabited

/-- The character of an escape by a single letter. -/
def letterEscape? (c : Char) : Option Char :=
  match c with
  | '\'' => some '\''
  | '"' => some '"'
  | '\\' => some '\\'
  | 'n' => some '\n'
  | 'r' => some '\r'
  | 't' => some '\t'
  | '0' => some '\x00'
  | _ => none

/-- The part for a byte; one below 128 is a character itself. -/
def bytePart (value : Nat) : Part := if value < 0x80 then .inl (Char.ofNat value) else .inr (UInt8.ofNat value)

/-! ## The scanner -/

/-- What the scanner has read of an unfinished lexeme or comment, the latest character first. -/
inductive Mode where
  /-- Nothing. -/
  | between
  /-- An opening round bracket. -/
  | round
  | word (read : List Char)
  | rawWord (read : List Char)
  | number (read : List Char)
  /-- The first slash of a comment. -/
  | slash
  | lineComment
  /-- Comments that are open and the last character, if it can begin a mark of them. -/
  | blockComment (depth : Nat) (last : Char)
  | quoted (q : Quoted) (content : List Part) (escape : Escape)
  /-- The marks in front of raw content. -/
  | hashes (q : Quoted) (count : Nat)
  /-- Raw content between quotes with marks around them; `closing` counts the marks behind a quote. -/
  | raw (q : Quoted) (count : Nat) (content : List Part) (closing : Option Nat)
  deriving DecidableEq, Inhabited

/-- The lexemes that a character completes and the mode behind it. -/
abbrev Move := Option (List Lexeme × Mode)

def endQuoted (q : Quoted) (content : List Part) : Move :=
  (q.lexeme? content.reverse).map fun l => ([l], .between)

/-- Reads a character where a lexeme may start. -/
def moveBetween (c : Char) : Move :=
  if isSpace c then some ([], .between)
  else if c = '(' then some ([], .round)
  else if isMark c then some ([.mark c], .between)
  else if c = '"' then some ([], .quoted .text [] .none)
  else if c = '\'' then some ([], .quoted .character [] .none)
  else if c = '/' then some ([], .slash)
  else if Text.startsIdentifier c then some ([], .word [c])
  else if startsNumber c then some ([], .number [c])
  else none

/-- Puts a finished lexeme in front of what follows it. -/
def Move.after (l : Lexeme) (m : Move) : Move := m.map fun (found, mode) => (l :: found, mode)

/-- Reads a character behind a part of a word. The words `r`, `b` and `br` right in front of a quote or of marks begin
raw content or bytes. -/
def moveWord (read : List Char) (c : Char) : Move :=
  if Text.continuesIdentifier c then some ([], .word (c :: read))
  else if read = ['r'] && c = '"' then some ([], .raw .text 0 [] none)
  else if read = ['r'] && c = '#' then some ([], .hashes .text 1)
  else if read = ['b'] && c = '"' then some ([], .quoted .bytes [] .none)
  else if read = ['b'] && c = '\'' then some ([], .quoted .byte [] .none)
  else if read = ['r', 'b'] && c = '"' then some ([], .raw .bytes 0 [] none)
  else if read = ['r', 'b'] && c = '#' then some ([], .hashes .bytes 1)
  else (moveBetween c).after (.word (String.ofList read.reverse))

/-- Reads a character behind an opening round bracket. -/
def moveRound (c : Char) : Move := if c = ')' then some ([.unit], .between) else (moveBetween c).after (.mark '(')

def moveRawWord (read : List Char) (c : Char) : Move :=
  if continuesRawWord c then some ([], .rawWord (c :: read))
  else (moveBetween c).after (.rawWord (String.ofList read.reverse))

def moveNumber (read : List Char) (c : Char) : Move :=
  if continuesNumber c then some ([], .number (c :: read))
  else match numberLexeme? read.reverse with
    | some l => (moveBetween c).after l
    | none => none

def moveComment (depth : Nat) (last c : Char) : Mode :=
  if last = '*' && c = '/' then if depth = 1 then .between else .blockComment (depth - 1) ' '
  else if last = '/' && c = '*' then .blockComment (depth + 1) ' '
  else .blockComment depth c

def moveQuoted (q : Quoted) (content : List Part) (escape : Escape) (c : Char) : Move :=
  let more (part : Part) : Move := some ([], .quoted q (part :: content) .none)
  match escape with
  | .none =>
    if q.isSingle && !content.isEmpty then if c = '\'' then endQuoted q content else none
    else if !q.isSingle && c = '"' then endQuoted q content
    else if c = '\\' then some ([], .quoted q content .start)
    else more (.inl c)
  | .start =>
    if c = 'x' then some ([], .quoted q content (.byte 0 2))
    else if c = 'u' then if q = .byte then none else some ([], .quoted q content .brace)
    else (letterEscape? c).bind fun c => more (.inl c)
  | .byte value left =>
    (hexDigit? c).bind fun digit =>
      if left = 1 then more (bytePart (16 * value + digit))
      else some ([], .quoted q content (.byte (16 * value + digit) (left - 1)))
  | .brace => if c = Char.ofNat 0x7b then some ([], .quoted q content (.point 0 0)) else none
  | .point value count =>
    if c = Char.ofNat 0x7d then
      if 0 < count && Nat.isValidChar value then more (.inl (Char.ofNat value)) else none
    else if count < 6 then
      (hexDigit? c).map fun digit => ([], .quoted q content (.point (16 * value + digit) (count + 1)))
    else none

def moveRaw (q : Quoted) (count : Nat) (content : List Part) (closing : Option Nat) (c : Char) : Move :=
  match closing with
  | none =>
    if c = '"' then
      if count = 0 then endQuoted q content else some ([], .raw q count content (some 0))
    else some ([], .raw q count (.inl c :: content) none)
  | some marks =>
    let passed : List Part := List.replicate marks (.inl '#') ++ .inl '"' :: content
    if c = '#' then
      if marks + 1 = count then endQuoted q content else some ([], .raw q count content (some (marks + 1)))
    else if c = '"' then some ([], .raw q count passed (some 0))
    else some ([], .raw q count (.inl c :: passed) none)

def Mode.move (mode : Mode) (c : Char) : Move :=
  match mode with
  | .between => moveBetween c
  | .round => moveRound c
  | .word read => moveWord read c
  | .rawWord read => moveRawWord read c
  | .number read => moveNumber read c
  | .slash =>
    if c = '/' then some ([], .lineComment)
    else if c = '*' then some ([], .blockComment 1 ' ')
    else none
  | .lineComment => some ([], if c = '\n' then .between else .lineComment)
  | .blockComment depth last => some ([], moveComment depth last c)
  | .quoted q content escape => moveQuoted q content escape c
  | .hashes q count =>
    if c = '#' then some ([], .hashes q (count + 1))
    else if c = '"' then some ([], .raw q count [] none)
    else if q = .text && count = 1 && continuesRawWord c then some ([], .rawWord [c])
    else none
  | .raw q count content closing => moveRaw q count content closing c

/-- The lexeme that the end of the text completes. -/
def Mode.finish : Mode → Option (List Lexeme)
  | .between | .lineComment => some []
  | .round => some [.mark '(']
  | .word read => some [.word (String.ofList read.reverse)]
  | .rawWord read => some [.rawWord (String.ofList read.reverse)]
  | .number read => (numberLexeme? read.reverse).map fun l => [l]
  | _ => none

/-- The lexemes found so far, the latest first, and the mode behind them. -/
structure Scanner where
  found : List Lexeme := []
  mode : Mode := .between
  deriving Inhabited

def Scanner.step (s : Scanner) (c : Char) : Option Scanner :=
  (s.mode.move c).map fun (found, mode) => ⟨found.reverse ++ s.found, mode⟩

def lexemes? (cs : List Char) : Option (List Lexeme) := do
  let s ← cs.foldlM Scanner.step {}
  let last ← s.mode.finish
  pure ((last.reverse ++ s.found).reverse)

end ShadeGraph.Ron
