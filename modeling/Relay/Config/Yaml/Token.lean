import Relay.Config.Yaml.Scalar
/-!
# Tokens of a YAML text

The tokens that a text is made of, and the reading of those that are written in one place:
anchors, tags and directives. Where blocks begin and end, and which scalars are keys, is told by
the layout of the whole text.
-/
namespace Relay.Config.Yaml

/-- Whether a collection is a sequence or a mapping. -/
inductive Shape
  | sequence
  | mapping
  deriving DecidableEq, Repr

inductive Token
  /-- `---` -/
  | documentStart
  /-- `...` -/
  | documentEnd
  | version
  /-- What tags with a handle begin with. -/
  | tagPrefix (handle leading : String)
  | blockStart (s : Shape)
  | blockEnd
  | flowStart (s : Shape)
  | flowEnd (s : Shape)
  /-- `,` -/
  | flowEntry
  /-- `-` -/
  | blockEntry
  | key
  | value
  | anchor (name : String)
  | reference (name : String)
  | tag (handle suffix : String)
  | scalar (style : Style) (text : String)
  deriving DecidableEq, Repr

namespace Token

/-- A token with the cursor behind it. -/
abbrev Read := Option (Token × Cursor)

/-! ## Anchors -/

/-- The name of an anchor or of a reference to one, behind its sign. -/
def readName (c : Cursor) : Option (String × Cursor) :=
  let (name, c) := (c.eat 1).takeRun isAnchorChar
  if name.isEmpty then none else some (String.ofList name, c)

/-! ## Tags -/

/-- The byte that `%` and two hexadecimal digits at the cursor write. -/
def escapedByte? (c : Cursor) : Option Nat :=
  if c.peek == '%' then hexNumber? [c.ahead 1, c.ahead 2] else none

/-- The character that escaped bytes at the cursor stand for. Of two bytes the first counts 256
fold; longer sequences stand for no character. -/
def readEscaped? (c : Cursor) : Option (Char × Cursor) := do
  let first ← escapedByte? c
  let c := c.eat 3
  if first < 0x80 then return (Char.ofNat first, c)
  if first / 0x20 != 6 then none
  let second ← escapedByte? c
  if second / 0x40 != 2 then none
  let x ← charOf? (256 * first + second)
  return (x, c.eat 3)

/-- The characters of a tag of a class, its escapes read, behind what was `seen`. -/
def readUri (p : Char → Bool) : Nat → List Char → Cursor → Option (String × Cursor)
  | 0, _, _ => none
  | fuel + 1, seen, c =>
    if !p c.peek then some (String.ofList seen.reverse, c)
    else if c.peek == '%' then
      match readEscaped? c with
      | some (x, c) => readUri p fuel (x :: seen) c
      | none => none
    else readUri p fuel (c.peek :: seen) (c.eat 1)

def uri (p : Char → Bool) (c : Cursor) : Option (String × Cursor) :=
  readUri p (c.rest.length + 1) [] c

/-- A handle: `!`, word characters, and perhaps another `!`. -/
def readHandle (c : Cursor) : Option (String × Cursor) :=
  if c.peek != '!' then none
  else
    let (word, c) := (c.eat 1).takeRun isWordChar
    let start := String.ofList ('!' :: word)
    if c.peek == '!' then some (start ++ "!", c.eat 1) else some (start, c)

/-- Whether a handle has a sign at either end. -/
def isClosed (handle : String) : Bool := 2 ≤ handle.length && handle.endsWith "!"

/-- A tag written in full between angle brackets. -/
def readVerbatim (c : Cursor) : Token.Read := do
  let (suffix, c) ← uri isUriChar (c.eat 2)
  if c.peek == '>' then return (.tag "" suffix, c.eat 1) else none

/-- A tag of a handle and a suffix. Without a second sign the handle is `!` and its word belongs
to the suffix; a lone sign is a tag of its own. -/
def readShorthand (c : Cursor) : Token.Read := do
  let (handle, c) ← readHandle c
  let (suffix, c) ← uri isTagChar c
  if isClosed handle then
    if suffix.isEmpty then none else return (.tag handle suffix, c)
  else
    let suffix := String.ofList (handle.toList.drop 1) ++ suffix
    return (if suffix.isEmpty then .tag "" "!" else .tag "!" suffix, c)

/-- A tag, which a gap or in a flow collection one of its marks has to follow. -/
def readTag (inFlow : Bool) (c : Cursor) : Token.Read := do
  let (t, c) ← if c.ahead 1 == '<' then readVerbatim c else readShorthand c
  if isGap c.peek || (inFlow && isFlowMark c.peek) then return (t, c) else none

/-! ## Directives -/

/-- The longest part of a version number. -/
def versionDigits : Nat := 9

def passNumber? (c : Cursor) : Option Cursor :=
  let (digits, c) := c.takeRun Char.isDigit
  if digits.isEmpty || versionDigits < digits.length then none else some c

def readVersion (c : Cursor) : Token.Read := do
  let c ← passNumber? c.passBlanks
  if c.peek != '.' then none
  let c ← passNumber? (c.eat 1)
  return (.version, c)

/-- The text that a handle stands for: a tag character or `!`, then characters of a tag. -/
def readLeading (c : Cursor) : Option (String × Cursor) :=
  if c.peek == '!' then (uri isUriChar (c.eat 1)).map fun r => ("!" ++ r.1, r.2)
  else if isTagChar c.peek then uri isUriChar c
  else none

def readTagPrefix (c : Cursor) : Token.Read := do
  let (handle, c) ← readHandle c.passBlanks
  if handle != "!" && !isClosed handle then none
  let (leading, c) ← readLeading c.passBlanks
  if isGap c.peek then return (.tagPrefix handle leading, c) else none

/-- A directive, from its `%` to the start of the next line. One of an unknown name takes its
line and says nothing. -/
def readDirective (c : Cursor) : Token.Read := do
  let (name, c) := (c.eat 1).takeRun isWordChar
  if name.isEmpty || !isGap c.peek then none
  let (t, c) ← match String.ofList name with
    | "YAML" => readVersion c
    | "TAG" => readTagPrefix c
    | _ => some (.tagPrefix "" "", c.passLine)
  let (_, c) ← c.passRest?
  if c.atEnd then return (t, c)
  else if isBreak c.peek then return (t, c.newLine)
  else none

end Token

end Relay.Config.Yaml
