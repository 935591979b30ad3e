import Relay.Bytes
import Relay.Config.Yaml.Cursor
/-!
# Scalars of a YAML text

Plain, quoted and block scalars, read from where they start. Over the lines of a plain or quoted
scalar the blanks around a line break fold: one break is a space, each further one stands for
itself. A block scalar keeps its breaks or folds them by lines, as its header says.
-/
namespace Relay.Config.Yaml

/-- How a scalar is written. -/
inductive Style
  | plain
  | quoted
  | block
  deriving DecidableEq, Repr

/-- A scalar with the cursor behind it. -/
abbrev ReadScalar := List Char × Cursor

def lineFeeds (n : Nat) : List Char := List.replicate n '\n'

/-! ## Gaps between words -/

/-- Blanks and line breaks between two words of a scalar. -/
structure Gap where
  /-- The blanks before the first break, last first. -/
  blanks : List Char := []
  /-- Whether a break counts as the one that folds. -/
  folds : Bool := false
  /-- Breaks that stand for themselves. -/
  breaks : Nat := 0

namespace Gap

/-- What a gap stands for, last character first; `lines` tells whether it goes over a line. -/
def text (g : Gap) (lines : Bool) : List Char :=
  if !lines then g.blanks
  else if g.folds && g.breaks == 0 then [' ']
  else lineFeeds g.breaks

/-- A break in the gap: the first one of an ordinary gap folds. -/
def addBreak (g : Gap) (lines : Bool) : Gap :=
  if lines then { g with breaks := g.breaks + 1 } else { g with blanks := [], folds := true }

/-- Passes a gap. On a further line a tab left of the indentation is refused, unless `tabs`
lets a line be blank in spite of it. -/
def read (indent : Int) (tabs : Bool) : Nat → Gap → Cursor → Option (Gap × Cursor)
  | 0, _, _ => none
  | fuel + 1, g, c =>
    if isBreak c.peek then read indent tabs fuel (g.addBreak c.fresh) c.newLine
    else if !isBlank c.peek then some (g, c)
    else if !c.fresh then read indent tabs fuel { g with blanks := c.peek :: g.blanks } (c.pass 1)
    else if c.peek == '\t' && (c.column : Int) < indent then
      if !tabs then none
      else
        match c.passRest? with
        | some (_, c) => if isLineEnd c.peek then read indent tabs fuel g c else none
        | none => none
    else read indent tabs fuel g (c.pass 1)

end Gap

/-! ## Plain scalars -/

/-- Whether a plain scalar goes on with the next character, which is no gap. -/
def plainGoesOn (inFlow : Bool) (c : Cursor) : Bool :=
  if c.peek == ':' && (isGap (c.ahead 1) || (inFlow && isFlowMark (c.ahead 1))) then false
  else !(inFlow && isFlowMark c.peek)

/-- The word at the cursor behind what was `seen`, last character first. -/
def plainWord (inFlow : Bool) : Nat → List Char → Cursor → List Char × Cursor
  | 0, seen, c => (seen, c)
  | fuel + 1, seen, c =>
    if isGap c.peek || !plainGoesOn inFlow c then (seen, c)
    else plainWord inFlow fuel (c.peek :: seen) (c.eat 1)

/-- The words up to the end of a plain scalar. -/
def plainWords (inFlow : Bool) (indent : Int) : Nat → List Char → Gap → Cursor → Option ReadScalar
  | 0, _, _, _ => none
  | fuel + 1, seen, g, c =>
    if c.atDocumentMark || c.peek == '#' then some (seen, c)
    else if inFlow && c.peek == '-' && isFlowMark (c.ahead 1) then none
    else if isGap c.peek || !plainGoesOn inFlow c then some (seen, c)
    else
      let (seen, c) := plainWord inFlow fuel (g.text c.fresh ++ seen) c
      if !(isBlank c.peek || isBreak c.peek) then some (seen, c)
      else
        match Gap.read indent true fuel {} c with
        | none => none
        | some (g, c) =>
          if !inFlow && (c.column : Int) < indent then some (seen, c)
          else plainWords inFlow indent fuel seen g c

/-- A plain scalar, whose further lines are at least at the indentation. It has to have a
character. -/
def readPlain (inFlow : Bool) (indent : Int) (c : Cursor) : Option ReadScalar :=
  if inFlow && (c.column : Int) < indent then none
  else
    match plainWords inFlow indent (c.rest.length + 1) [] {} c with
    | some ([], _) => none
    | some (seen, c) => some (seen.reverse, c)
    | none => none

/-! ## Quoted scalars -/

/-- The character that a one-letter escape stands for. -/
def shortEscape? : Char → Option Char
  | '0' => some (Char.ofNat 0)
  | 'a' => some (Char.ofNat 7)
  | 'b' => some (Char.ofNat 8)
  | 't' => some (Char.ofNat 9)
  | '\t' => some (Char.ofNat 9)
  | 'n' => some (Char.ofNat 10)
  | 'v' => some (Char.ofNat 11)
  | 'f' => some (Char.ofNat 12)
  | 'r' => some (Char.ofNat 13)
  | 'e' => some (Char.ofNat 27)
  | ' ' => some ' '
  | '"' => some '"'
  | '/' => some '/'
  | '\\' => some '\\'
  | 'N' => some (Char.ofNat 0x85)
  | '_' => some (Char.ofNat 0xA0)
  | 'L' => some (Char.ofNat 0x2028)
  | 'P' => some (Char.ofNat 0x2029)
  | _ => none

/-- The number of hexadecimal digits behind a letter. -/
def escapeLength? : Char → Option Nat
  | 'x' => some 2
  | 'u' => some 4
  | 'U' => some 8
  | _ => none

/-- The number that hexadecimal digits write. -/
def hexNumber? (cs : List Char) : Option Nat :=
  cs.foldl (fun n c => do return 16 * (← n) + (← Bytes.hexValue? c.toNat)) (some 0)

/-- The character of a code point. -/
def charOf? (n : Nat) : Option Char := if n.isValidChar then some (Char.ofNat n) else none

/-- The character that an escape at the cursor stands for. -/
def readEscape? (c : Cursor) : Option (Char × Cursor) :=
  match shortEscape? (c.ahead 1), escapeLength? (c.ahead 1) with
  | some x, _ => some (x, c.eat 2)
  | none, some n => do
    let digits := (c.rest.drop 2).take n
    if digits.length < n then none
    let x ← (hexNumber? digits).bind charOf?
    return (x, c.eat (2 + n))
  | none, none => none

/-- The word at the cursor behind what was `seen`, last character first. A break behind a
backslash ends the word and is not there. -/
def quotedWord (single : Bool) : Nat → List Char → Cursor → Option ReadScalar
  | 0, _, _ => none
  | fuel + 1, seen, c =>
    if isGap c.peek then some (seen, c)
    else if single then
      if c.peek == '\'' then
        if c.ahead 1 == '\'' then quotedWord single fuel ('\'' :: seen) (c.eat 2)
        else some (seen, c)
      else quotedWord single fuel (c.peek :: seen) (c.eat 1)
    else if c.peek == '"' then some (seen, c)
    else if c.peek == '\\' then
      if isBreak (c.ahead 1) then some (seen, (c.eat 1).newLine)
      else
        match readEscape? c with
        | some (x, c) => quotedWord single fuel (x :: seen) c
        | none => none
    else quotedWord single fuel (c.peek :: seen) (c.eat 1)

/-- The words up to the closing quote. -/
def quotedWords (single : Bool) (indent : Int) : Nat → List Char → Cursor → Option ReadScalar
  | 0, _, _ => none
  | fuel + 1, seen, c =>
    if c.atDocumentMark || c.atEnd || (c.column : Int) < indent then none
    else
      match quotedWord single fuel seen c with
      | none => none
      | some (seen, c) =>
        if c.peek == (if single then '\'' else '"') then some (seen, c)
        else
          match Gap.read indent false fuel {} c with
          | none => none
          | some (g, c) => quotedWords single indent fuel (g.text c.fresh ++ seen) c

/-- What may stand behind a quoted scalar that began on the line: the end of the line, in a flow
collection its marks, and a colon, which outside of them has to be on the same line. -/
def mayFollowQuoted (inFlow : Bool) (line : Nat) (c : Cursor) : Bool :=
  isLineEnd c.peek ||
    (inFlow && (c.peek == ',' || c.peek == '\x7d' || c.peek == ']')) ||
    (c.peek == ':' && (inFlow || line == c.line))

def readQuoted (single inFlow : Bool) (indent : Int) (c : Cursor) : Option ReadScalar := do
  let (seen, behind) ← quotedWords single indent (c.rest.length + 1) [] (c.eat 1)
  let (_, behind) ← (behind.eat 1).passRest?
  if mayFollowQuoted inFlow c.line behind then some (seen.reverse, behind) else none

/-! ## Block scalars -/

/-- What becomes of the breaks behind the last line. -/
inductive Chomping
  | clip
  | strip
  | keep
  deriving DecidableEq

/-- The signs behind `|` or `>`: how to chomp, and how far the lines are indented. -/
structure BlockHeader where
  chomping : Chomping := .clip
  increment : Option Nat := none

namespace BlockHeader

def chomping? : Char → Option Chomping
  | '+' => some .keep
  | '-' => some .strip
  | _ => none

/-- Reads the increment, a digit other than zero, if there is a digit. -/
def readIncrement (h : BlockHeader) (c : Cursor) : Option (BlockHeader × Cursor) :=
  if !c.peek.isDigit then some (h, c)
  else if c.peek == '0' then none
  else some ({ h with increment := some (c.peek.toNat - 48) }, c.eat 1)

def readChomping (h : BlockHeader) (c : Cursor) : BlockHeader × Cursor :=
  match chomping? c.peek with
  | some chomping => ({ h with chomping }, c.eat 1)
  | none => (h, c)

/-- Reads the signs, which come in either order. -/
def read (c : Cursor) : Option (BlockHeader × Cursor) :=
  if (chomping? c.peek).isSome then
    let (h, c) := readChomping {} c
    readIncrement h c
  else
    (readIncrement {} c).map fun (h, c) => if h.increment.isSome then readChomping h c else (h, c)

end BlockHeader

/-- Passes blank lines and the indentation of the next line with content; counts the breaks. -/
def blockIndent (indent : Nat) : Nat → Nat → Cursor → Nat × Cursor
  | 0, breaks, c => (breaks, c)
  | fuel + 1, breaks, c =>
    let c := c.indentTo indent
    if isBreak c.peek then blockIndent indent fuel (breaks + 1) c.newLine else (breaks, c)

/-- Passes blank lines and the spaces of the next line with content; counts the breaks and
finds the greatest column. -/
def findIndent : Nat → Nat → Nat → Cursor → Nat × Nat × Cursor
  | 0, column, breaks, c => (column, breaks, c)
  | fuel + 1, column, breaks, c =>
    let c := c.pass (c.rest.takeWhile (· == ' ')).length
    let column := max column c.column
    if isBreak c.peek then findIndent fuel column (breaks + 1) c.newLine else (column, breaks, c)

/-- What was read of a block scalar. -/
structure BlockText where
  /-- The text so far, last character first. -/
  text : List Char := []
  /-- Whether the line before ended in a break. -/
  broken : Bool := false
  /-- Empty lines since. -/
  breaks : Nat := 0
  /-- Whether the line before began with a blank. -/
  wasIndented : Bool := false

/-- Adds a line. In a folded scalar the break between two lines that do not begin with a blank
folds. -/
def BlockText.addLine (folded : Bool) (b : BlockText) (line : List Char) : BlockText :=
  let indented := line.head?.any isBlank
  let between :=
    if folded && b.broken && !b.wasIndented && !indented then
      if b.breaks == 0 then [' '] else lineFeeds b.breaks
    else lineFeeds (b.broken.toNat + b.breaks)
  { text := line.reverse ++ between ++ b.text, wasIndented := indented }

/-- The lines of a block scalar that stand at the indentation. -/
def blockLines (folded : Bool) (indent : Nat) : Nat → BlockText → Cursor → BlockText × Cursor
  | 0, b, c => (b, c)
  | fuel + 1, b, c =>
    if c.column != indent || c.atEnd || (indent == 0 && c.atDocumentEnd) then (b, c)
    else
      let line := c.rest.takeWhile fun x => !isLineEnd x
      let b := b.addLine folded line
      let c := c.pass line.length
      if c.atEnd then (b, c)
      else
        let (breaks, c) := blockIndent indent fuel 0 c.newLine
        blockLines folded indent fuel { b with broken := true, breaks } c

/-- What a block scalar without content stands for; `line` is the line of its header. -/
def emptyBlock (chomping : Chomping) (line : Nat) (breaks : Nat) (c : Cursor) : List Char :=
  if chomping == .strip || c.line == line then []
  else if chomping == .clip then ['\n']
  else lineFeeds (max breaks 1)

/-- The text of a block scalar with its tail chomped. -/
def chomp (chomping : Chomping) (indent : Nat) (b : BlockText) (c : Cursor) : List Char :=
  let ending := if chomping == .strip then 0
    else b.broken.toNat + (c.atEnd && max indent 1 ≤ c.column).toNat
  let kept := if chomping == .keep then b.breaks else 0
  (lineFeeds (ending + kept) ++ b.text).reverse

/-- A block scalar inside of the given indentation, from the sign before its header. -/
def readBlock (folded : Bool) (outer : Int) (start : Cursor) : Option ReadScalar := do
  let (h, c) ← BlockHeader.read (start.eat 1)
  let (_, c) ← c.passRest?
  if !isLineEnd c.peek then none
  let c := if isBreak c.peek then c.newLine else c
  if c.peek == '\t' then none
  let fuel := c.rest.length + 1
  let (indent, breaks, c) := match h.increment with
    | some n =>
      let indent := (max outer 0).toNat + n
      let (breaks, c) := blockIndent indent fuel 0 c
      (indent, breaks, c)
    | none =>
      let (column, breaks, c) := findIndent fuel 0 0 c
      (max column (outer + 1).toNat, breaks, c)
  if c.atEnd then return (emptyBlock h.chomping start.line breaks c, c)
  if c.column < indent && outer < (c.column : Int) then none
  let (b, c) := blockLines folded indent fuel { breaks } c
  return (chomp h.chomping indent b c, c)

end Relay.Config.Yaml
