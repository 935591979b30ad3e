import Relay.Config.Tree
/-!
# Paths of settings

A setting can be named by its path: a name, then names behind points and positions in brackets.
Putting a value at a path makes the maps and lists on the way that are not there.
-/
namespace Relay.Config

/-- Where to go on from a tree. -/
inductive PathStep
  | key (name : String)
  /-- A position, counted from the end if it is negative. -/
  | index (i : Int)
  deriving DecidableEq, Repr

structure Path where
  root : String
  steps : List PathStep := []
  deriving DecidableEq, Repr

/-- Why a configuration cannot be loaded. -/
inductive LoadError
  /-- A source is missing or unreadable, or does not hold settings. -/
  | unreadable
  /-- A map has a key that is neither a text nor an integer. -/
  | unnamedEntry
  /-- A position counts back beyond the start of its list. -/
  | beforeStart
  /-- A position is further than a list can reach. -/
  | tooFar
  deriving DecidableEq, Repr

/-- The text that loading stops with where it goes on no further; an unreadable source is an
ordinary failure. -/
def LoadError.panic? : LoadError → Option String
  | .unreadable => none
  | .unnamedEntry => some "internal error: entered unreachable code"
  | .beforeStart => some "attempt to subtract with overflow"
  | .tooFar => some "capacity overflow"

namespace Path

/-! ## Reading -/

/-- The characters of a name. -/
def isNameChar (c : Char) : Bool := c.isAlphanum || c == ' ' || c == '_' || c == '-'

/-- A name, which has a character at least, and what follows it. -/
def name? (cs : List Char) : Option (String × List Char) :=
  match cs.span isNameChar with
  | ([], _) => none
  | (name, rest) => some (lowercase (String.ofList name), rest)

def skipBlanks (cs : List Char) : List Char := cs.dropWhile fun c => c == ' ' || c == '\t'

/-- The range of a position. -/
def largestIndex : Nat := Int64.maxValue.toInt.toNat

/-- A position of digits, with a minus sign or without. -/
def index? (cs : List Char) : Option (Int × List Char) :=
  let (negative, cs) := match cs with
    | '-' :: cs => (true, cs)
    | cs => (false, cs)
  match cs.span Char.isDigit with
  | ([], _) => none
  | (digits, rest) =>
    let n := Double.natOfDigits digits
    if n ≤ largestIndex + negative.toNat then
      some (if negative then -Int.ofNat n else Int.ofNat n, rest)
    else none

/-- A point and a name, or a position in brackets, and what follows. -/
def step? : List Char → Option (PathStep × List Char)
  | '.' :: cs => (name? cs).map fun r => (.key r.1, r.2)
  | '[' :: cs =>
    match index? (skipBlanks cs) with
    | some (i, cs) =>
      match skipBlanks cs with
      | ']' :: cs => some (.index i, cs)
      | _ => none
    | none => none
  | _ => none

/-- The steps that take all of a text; each takes a character. -/
def steps? : Nat → List Char → Option (List PathStep)
  | _, [] => some []
  | 0, _ => none
  | fuel + 1, cs =>
    match step? cs with
    | some (s, rest) => (steps? fuel rest).map (s :: ·)
    | none => none

/-- The path that a key writes; a key that writes none is a name of its own. -/
def ofKey (key : String) : Path :=
  let path : Option Path := do
    let (root, cs) ← name? key.toList
    let steps ← steps? cs.length cs
    return { root, steps }
  path.getD { root := key }

/-! ## Putting -/

/-- The number of items that no list has. -/
def listLimit : Nat := UInt32.size

/-- The place of a position in a list of a length. -/
def place (i : Int) (length : Nat) : Except LoadError Nat :=
  match i with
  | .ofNat n => if n < listLimit then .ok n else .error .tooFar
  | .negSucc n => if n < length then .ok (length - (n + 1)) else .error .beforeStart

/-- The tree with a value at the end of the steps. What is not the map or list that a step needs
gives way to an empty one; a list grows by nulls. A map at a key is laid over what was there,
and at a position stands in its stead. -/
def putAt (v : Tree) : List PathStep → Tree → Except LoadError Tree
  | [], _ => .ok v
  | [.key k], t => .ok (Tree.layAt k v t)
  | .key k :: rest, t => do
    let es := t.entries
    let x ← putAt v rest ((Tree.lookup k es).getD .null)
    return .map (Tree.put k x es)
  | .index i :: rest, t => do
    let n ← place i t.items.length
    let xs := t.items ++ List.replicate (n + 1 - t.items.length) .null
    let x ← putAt v rest ((xs[n]?).getD .null)
    return .list (xs.set n x)

/-- The tree with a value at a path. -/
def put (p : Path) (v : Tree) (base : Tree) : Except LoadError Tree :=
  putAt v (.key p.root :: p.steps) base

end Path

end Relay.Config
