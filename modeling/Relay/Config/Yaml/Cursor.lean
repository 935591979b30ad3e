/-!
# Positions in a YAML text

A cursor is what is left of a text together with the place that has been reached. The character
classes are those of YAML; the end of the text counts as a NUL.
-/
namespace Relay.Config.Yaml

def isBreak (c : Char) : Bool := c == '\n' || c == '\r'
def isBlank (c : Char) : Bool := c == ' ' || c == '\t'

/-- The NUL that stands behind the last character. -/
def endMark : Char := '\x00'

def isEnd (c : Char) : Bool := c == endMark

/-- Whether a word ends before the character. -/
def isGap (c : Char) : Bool := isBlank c || isBreak c || isEnd c

/-- Whether the line ends before the character. -/
def isLineEnd (c : Char) : Bool := isBreak c || isEnd c

/-- The characters that flow collections are written with. -/
def isFlowMark (c : Char) : Bool := c == ',' || c == '[' || c == ']' || c == '\x7b' || c == '\x7d'

/-- Letters, digits, `_` and `-`. -/
def isWordChar (c : Char) : Bool := c.isAlphanum || c == '_' || c == '-'

def byteOrderMark : Char := Char.ofNat 0xFEFF

/-- The characters of an anchor's name. -/
def isAnchorChar (c : Char) : Bool := !isGap c && !isFlowMark c && c != byteOrderMark

/-- The characters of a tag written in full. -/
def isUriChar (c : Char) : Bool :=
  c.isAlphanum || c == '-' || "#;/?:@&=+$,_.!~*'()[]%".toList.contains c

/-- The characters of a tag written behind a handle. -/
def isTagChar (c : Char) : Bool := isUriChar c && !isFlowMark c && c != '!'

structure Cursor where
  rest : List Char
  /-- Characters passed so far. -/
  index : Nat := 0
  line : Nat := 0
  column : Nat := 0
  /-- Nothing but blanks was passed on the line. -/
  fresh : Bool := true

namespace Cursor

/-- The start of a text, which ends at its first NUL. -/
def ofText (s : String) : Cursor := { rest := s.toList.takeWhile fun c => !isEnd c }

/-- The character so many places ahead. -/
def ahead (c : Cursor) (n : Nat) : Char := (c.rest[n]?).getD endMark

def peek (c : Cursor) : Char := c.rest.headD endMark

def atEnd (c : Cursor) : Bool := c.rest.isEmpty

/-- Passes characters of a line. -/
def pass (c : Cursor) (n : Nat) : Cursor :=
  { c with rest := c.rest.drop n, index := c.index + n, column := c.column + n }

/-- Passes characters of a line, one of which is no blank. -/
def eat (c : Cursor) (n : Nat) : Cursor := { c.pass n with fresh := false }

/-- Passes a line break. -/
def newLine (c : Cursor) : Cursor :=
  let n := if c.peek == '\r' && c.ahead 1 == '\n' then 2 else 1
  { c with rest := c.rest.drop n, index := c.index + n, line := c.line + 1, column := 0
           fresh := true }

/-- The run of characters of a class, and the cursor behind it. -/
def takeRun (p : Char → Bool) (c : Cursor) : List Char × Cursor :=
  let run := c.rest.takeWhile p
  (run, if run.isEmpty then c else c.eat run.length)

/-- Passes blanks. -/
def passBlanks (c : Cursor) : Cursor := c.pass (c.rest.takeWhile isBlank).length

/-- Passes spaces up to a column. -/
def indentTo (c : Cursor) (column : Nat) : Cursor :=
  c.pass ((c.rest.take (column - c.column)).takeWhile (· == ' ')).length

/-- Goes to the end of the line. -/
def passLine (c : Cursor) : Cursor := (c.takeRun fun x => !isLineEnd x).2

/-- The blanks up to the next token of the line or up to its end, and the cursor behind them
and a comment, which has to stand behind a blank. -/
def passRest? (c : Cursor) : Option (List Char × Cursor) :=
  let blanks := c.rest.takeWhile isBlank
  let behind := c.passBlanks
  if behind.peek != '#' then some (blanks, behind)
  else if blanks.isEmpty then none
  else some (blanks, behind.passLine)

/-- Whether a line starts with three of the character and a gap. -/
def startsWithMark (c : Cursor) (x : Char) : Bool :=
  c.column == 0 && c.peek == x && c.ahead 1 == x && c.ahead 2 == x && isGap (c.ahead 3)

def atDocumentStart (c : Cursor) : Bool := c.startsWithMark '-'
def atDocumentEnd (c : Cursor) : Bool := c.startsWithMark '.'
def atDocumentMark (c : Cursor) : Bool := c.atDocumentStart || c.atDocumentEnd

end Cursor

end Relay.Config.Yaml
