import Relay.Config.Yaml.Token
/-!
# Layout of a YAML text

The pass over a text that finds its tokens. Indentation opens and closes blocks, and only a
colon tells that what stood before it was a key; the tokens that open the mapping and mark the
key are then put in where the key began.

Inside of flow collections indentation opens nothing. A pair in a flow sequence is a mapping of
its own, whose marks are put in as well.
-/
namespace Relay.Config.Yaml

/-- An open level of indentation. -/
structure Level where
  /-- The column of the level around it. -/
  outer : Int
  /-- A block begins here. The other levels only hold what a value may not stand left of. -/
  isBlock : Bool

/-- Where a key may have begun. -/
structure KeyStart where
  /-- The number of tokens before it. -/
  position : Nat
  index : Nat
  line : Nat
  column : Nat
  /-- Nothing but a key can stand here. -/
  required : Bool

structure Layout where
  cursor : Cursor
  /-- The tokens so far, last one first. -/
  tokens : List Token := []
  /-- The column of the innermost level. -/
  indent : Int := -1
  /-- Open levels, innermost first. -/
  levels : List Level := []
  /-- Where the next colon's key may have begun. -/
  key : Option KeyStart := none
  /-- The same for the levels around each open flow collection, innermost first. -/
  outerKeys : List (Option KeyStart) := []
  /-- Whether a key may begin at the cursor. -/
  keyAllowed : Bool := true
  /-- The index at which a colon in a flow collection needs no gap behind it. -/
  adjacentAt : Nat := 0
  /-- Whether the colons of the flow collection belong to a mapping that was opened. -/
  mappingOpen : Bool := false
  /-- For each open flow sequence, innermost first, whether a pair in it is open. -/
  pairs : List Bool := []

namespace Layout

def inFlow (s : Layout) : Bool := !s.outerKeys.isEmpty

/-- The deepest nesting of flow collections. -/
def deepestFlow : Nat := 255

def emit (s : Layout) (t : Token) : Layout := { s with tokens := t :: s.tokens }

/-- Puts a token behind the first `position` ones. -/
def emitAt (s : Layout) (position : Nat) (t : Token) : Layout :=
  let later := s.tokens.length - position
  { s with tokens := s.tokens.take later ++ t :: s.tokens.drop later }

def goTo (s : Layout) (c : Cursor) : Layout := { s with cursor := c }

def allowKey (s : Layout) (allowed : Bool) : Layout := { s with keyAllowed := allowed }

/-! ## Levels -/

def innermostIsBlock (s : Layout) : Bool := s.levels.head?.any Level.isBlock

/-- Closes the levels right of a column. -/
def closeLevels (s : Layout) (column : Int) : Layout :=
  if s.inFlow then s else go column s s.levels
where
  go (column : Int) (s : Layout) : List Level → Layout
    | [] => s
    | l :: ls =>
      if s.indent ≤ column then s
      else
        let s := { s with indent := l.outer, levels := ls }
        go column (if l.isBlock then s.emit .blockEnd else s) ls

/-- Closes the innermost levels that begin no block. -/
def closeHolds (s : Layout) : Layout := go s s.levels
where
  go (s : Layout) : List Level → Layout
    | [] => s
    | l :: ls => if l.isBlock then s else go { s with indent := l.outer, levels := ls } ls

/-- Opens a block at a column, unless one is open there; its first token goes behind the first
`position` ones. A hold up to the column gives way to it. -/
def openBlock (s : Layout) (column position : Nat) (shape : Shape) : Layout :=
  if s.inFlow then s
  else
    let s := match s.levels with
      | l :: ls =>
        if !l.isBlock && s.indent ≤ (column : Int) then { s with indent := l.outer, levels := ls }
        else s
      | [] => s
    if s.indent < (column : Int) then
      let s := { s with indent := column, levels := ⟨s.indent, true⟩ :: s.levels }
      s.emitAt position (.blockStart shape)
    else s

/-- Opens a block with its first token last. -/
def openBlockHere (s : Layout) (column : Nat) (shape : Shape) : Layout :=
  s.openBlock column s.tokens.length shape

/-- Holds the column right of the innermost block: a value stands right of its key. -/
def hold (s : Layout) : Layout :=
  if !s.inFlow && s.innermostIsBlock then
    { s with indent := s.indent + 1, levels := ⟨s.indent, false⟩ :: s.levels }
  else s

/-! ## Keys -/

/-- Notes that a key may begin at the cursor. -/
def noteKey (s : Layout) : Layout :=
  let c := s.cursor
  let start : KeyStart :=
    { position := s.tokens.length, index := c.index, line := c.line, column := c.column
      required := !s.inFlow && s.indent == (c.column : Int) && s.innermostIsBlock }
  if s.keyAllowed then { s with key := some start } else s

/-- Gives up the key that may have begun, which must not be a required one. -/
def dropKey (s : Layout) : Option Layout :=
  if s.key.any KeyStart.required then none else some { s with key := none }

/-- The longest key in characters. -/
def longestKey : Nat := 1024

/-- Outside of flow collections a key ends on its line and is not too long. -/
def dropStaleKey (s : Layout) : Option Layout :=
  if !s.inFlow && s.key.any fun k =>
      k.line < s.cursor.line || k.index + longestKey < s.cursor.index then
    s.dropKey
  else some s

/-- Passes blanks, line ends and comments up to the next token. A tab left of the indentation
may only stand on a blank line. -/
def toToken : Nat → Layout → Option Layout
  | 0, _ => none
  | fuel + 1, s =>
    let c := s.cursor
    if c.peek == '\t' && !s.levels.isEmpty && c.fresh && (c.column : Int) < s.indent then
      match c.passRest? with
      | some (_, c) => if isLineEnd c.peek then toToken fuel (s.goTo c) else none
      | none => none
    else if isBlank c.peek then toToken fuel (s.goTo (c.pass 1))
    else if isBreak c.peek then
      toToken fuel { s with cursor := c.newLine, keyAllowed := s.keyAllowed || !s.inFlow }
    else if c.peek == '#' then toToken fuel (s.goTo c.passLine)
    else some s

def toNextToken (s : Layout) : Option Layout := toToken (s.cursor.rest.length + 1) s

/-- Passes a mark, and the blanks and a comment behind it. -/
def passMark (s : Layout) : Option Layout :=
  ((s.cursor.eat 1).passRest?).map fun r => s.goTo r.2

/-! ## Marks of flow collections -/

def openFlow (shape : Shape) (s : Layout) : Option Layout :=
  if deepestFlow ≤ s.outerKeys.length then none
  else
    let s := s.noteKey.hold
    let s := { s with outerKeys := s.key :: s.outerKeys, key := none, keyAllowed := true }
    let s := match shape with
      | .mapping => { s with mappingOpen := true }
      | .sequence => { s with pairs := false :: s.pairs }
    s.passMark.map fun s => s.emit (.flowStart shape)

/-- Closes the pair that is open in the innermost flow sequence, if there is one. -/
def closePair (s : Layout) : Layout :=
  match s.pairs with
  | true :: ps => ({ s with mappingOpen := false, pairs := false :: ps }).emit (.flowEnd .mapping)
  | _ => s

def closeFlow (shape : Shape) (s : Layout) : Option Layout := do
  let s ← s.dropKey
  let s := match s.outerKeys with
    | k :: ks => { s with key := k, outerKeys := ks }
    | [] => s
  let s := s.allowKey false
  let s := match shape with
    | .sequence => let s := s.closePair; { s with pairs := s.pairs.tail }
    | .mapping => s
  let s ← s.passMark
  let s := if s.inFlow then { s with adjacentAt := s.cursor.index } else s
  return s.emit (.flowEnd shape)

def flowEntry (s : Layout) : Option Layout := do
  let s ← s.dropKey
  let s ← (s.allowKey true).closePair.passMark
  return s.emit .flowEntry

/-! ## Marks of blocks -/

/-- A `-` at the start of an item. A tab behind it is no room for another item. -/
def blockEntry (s : Layout) : Option Layout := do
  if s.inFlow || !s.keyAllowed then none
  let s := s.openBlockHere s.cursor.column .sequence
  let (blanks, c) ← (s.cursor.eat 1).passRest?
  if blanks.contains '\t' && c.peek == '-' && isGap (c.ahead 1) then none
  let s := s.goTo c
  let s := if isBreak c.peek || isFlowMark c.peek then s.hold else s
  let s ← s.dropKey
  return (s.allowKey true).emit .blockEntry

/-- Passes spaces, line breaks and comments; tells whether there were spaces or breaks. -/
def passSpace : Nat → Bool → Cursor → Bool × Cursor
  | 0, seen, c => (seen, c)
  | fuel + 1, seen, c =>
    if c.peek == ' ' then passSpace fuel true (c.pass 1)
    else if isBreak c.peek then passSpace fuel true c.newLine
    else if c.peek == '#' then passSpace fuel seen c.passLine
    else (seen, c)

/-- A `?` before a key of any form. -/
def explicitKey (s : Layout) : Option Layout := do
  if !s.inFlow && !s.keyAllowed then none
  let s := if s.inFlow then { s with mappingOpen := true }
    else s.openBlockHere s.cursor.column .mapping
  let s ← s.dropKey
  let (seen, c) := passSpace (s.cursor.rest.length + 1) false (s.cursor.eat 1)
  if !seen || c.peek == '\t' then none
  return ((s.allowKey (!s.inFlow)).goTo c).emit .key

/-- The cursor behind a `:`. What looks like a value needs a space between, tabs do not do. -/
def passColon (c : Cursor) : Option Cursor := do
  let c := c.eat 1
  if c.peek != '\t' then return c
  let (blanks, c) ← c.passRest?
  if !blanks.contains ' ' && isWordChar c.peek then none
  return c

/-- A `:`, which makes what may have been a key one. -/
def value (s : Layout) : Option Layout := do
  let colon := s.cursor
  let opens := !s.pairs.isEmpty && !s.mappingOpen
  let s := if opens then { s with pairs := true :: s.pairs.tail } else s
  let s := s.goTo (← passColon colon)
  match s.key with
  | some k =>
    let s := s.emitAt k.position .key
    if opens && k.line < colon.line then none
    let s := if opens then s.emitAt k.position (.flowStart .mapping) else s
    let s := (s.openBlock k.column k.position .mapping).hold
    return ({ s with key := none, keyAllowed := false }).emit .value
  | none =>
    let s := if opens then s.emit (.flowStart .mapping) else s
    if !s.inFlow && !s.keyAllowed then none
    let s := (s.openBlockHere colon.column .mapping).hold
    return (s.allowKey (!s.inFlow)).emit .value

/-! ## What a node is made of -/

/-- A token that may be a key or the start of one. -/
def part (s : Layout) (read : Cursor → Token.Read) : Option Layout := do
  let (t, c) ← read s.cursor
  return ((s.noteKey.allowKey false).goTo c).emit t

def anchor (s : Layout) : Option Layout :=
  s.part fun c => (Token.readName c).map fun r => (.anchor r.1, r.2)

def reference (s : Layout) : Option Layout :=
  s.part fun c => (Token.readName c).map fun r => (.reference r.1, r.2)

def tag (s : Layout) : Option Layout := s.part (Token.readTag s.inFlow)

/-- A plain scalar, after which a key may begin if it went on to a further line. -/
def plainScalar (s : Layout) : Option Layout := do
  let s := (s.noteKey.allowKey false).closeHolds
  let (text, c) ← readPlain s.inFlow (s.indent + 1) s.cursor
  return ((s.allowKey c.fresh).goTo c).emit (.scalar .plain (String.ofList text))

/-- A quoted scalar; a colon may stand next to it. -/
def quotedScalar (single : Bool) (s : Layout) : Option Layout := do
  let s := s.noteKey.allowKey false
  let (text, c) ← readQuoted single s.inFlow s.indent s.cursor
  let s ← (s.goTo c).toNextToken
  return { s with adjacentAt := s.cursor.index }.emit (.scalar .quoted (String.ofList text))

def blockScalar (folded : Bool) (s : Layout) : Option Layout := do
  let s := (s.noteKey.allowKey true).closeHolds
  let (text, c) ← readBlock folded s.indent s.cursor
  return (s.goTo c).emit (.scalar .block (String.ofList text))

/-! ## Marks of documents -/

/-- Closes all blocks: nothing goes on over the mark. -/
def closeAll (s : Layout) : Option Layout :=
  ((s.closeLevels (-1)).dropKey).map fun s => s.allowKey false

def documentStart (s : Layout) : Option Layout := do
  let s ← s.closeAll
  return (s.goTo (s.cursor.eat 3)).emit .documentStart

/-- The mark of an end, which has its line for itself. -/
def documentEnd (s : Layout) : Option Layout := do
  let s ← s.closeAll
  let (_, c) ← (s.cursor.eat 3).passRest?
  if isLineEnd c.peek then return (s.goTo c).emit .documentEnd else none

def directive (s : Layout) : Option Layout := do
  let s ← s.closeAll
  let (t, c) ← Token.readDirective s.cursor
  return (s.goTo c).emit t

/-- Closes what is open at the end of the text. -/
def finish (s : Layout) : Option Layout := do
  let s ← s.dropKey
  if s.outerKeys.any fun k => k.any KeyStart.required then none
  return s.closeLevels (-1)

/-! ## The pass -/

/-- The token at the cursor, which begins with the character `x` before `y`. -/
def token (x y : Char) (s : Layout) : Option Layout :=
  let colon := isGap y || (s.inFlow && (isFlowMark y || s.cursor.index == s.adjacentAt))
  match x with
  | '[' => s.openFlow .sequence
  | '{' => s.openFlow .mapping
  | ']' => s.closeFlow .sequence
  | '}' => s.closeFlow .mapping
  | ',' => s.flowEntry
  | '-' => if isGap y then s.blockEntry else s.plainScalar
  | '?' => if isGap y then s.explicitKey else s.plainScalar
  | ':' => if colon then s.value else s.plainScalar
  | '*' => s.reference
  | '&' => s.anchor
  | '!' => s.tag
  | '|' => if s.inFlow then s.plainScalar else s.blockScalar false
  | '>' => if s.inFlow then s.plainScalar else s.blockScalar true
  | '\'' => s.quotedScalar true
  | '"' => s.quotedScalar false
  | '%' => none
  | '@' => none
  | '\x60' => none
  | _ => s.plainScalar

/-- The next token, before which the levels right of it close. -/
def next (s : Layout) : Option Layout :=
  let c := s.cursor
  if c.column == 0 && c.peek == '%' then s.directive
  else if c.atDocumentStart then s.documentStart
  else if c.atDocumentEnd then s.documentEnd
  else if (c.column : Int) < s.indent then none
  else s.token c.peek (c.ahead 1)

/-- The pass up to the end of the text. Every token but the last takes a character. -/
def run : Nat → Layout → Option Layout
  | 0, _ => none
  | fuel + 1, s => do
    let s ← s.toNextToken
    let s ← s.dropStaleKey
    let s := s.closeLevels s.cursor.column
    if s.cursor.atEnd then s.finish
    else
      let s ← s.next
      run fuel s

end Layout

/-- The tokens of a text, in order. -/
def tokens? (text : String) : Option (List Token) :=
  let cursor := Cursor.ofText text
  (Layout.run (cursor.rest.length + 1) { cursor }).map fun s => s.tokens.reverse

end Relay.Config.Yaml
