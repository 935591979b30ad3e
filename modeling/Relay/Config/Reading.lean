import Relay.Config.Tree
import Relay.Endpoint
/-!
# Reading settings from trees

A record is a map of its fields or the list of the first of them in declared order; unknown
fields are ignored. A `strict` reading converts nothing; a `lenient` one, used for files and
environment variables, also takes numbers and truth values written as texts, texts written as
numbers, and lists that go on behind the last field.
-/
namespace Relay.Config

inductive Reading
  | strict
  | lenient
  deriving DecidableEq

/-- The fields of a record of the given field names. -/
def fields? (m : Reading) (names : List String) : Tree → Option (List (String × Tree))
  | .map es => some es
  | .list xs => if m = .lenient ∨ xs.length ≤ names.length then some (names.zip xs) else none
  | _ => none

/-- A field read by `f`, or the default when it is absent. -/
def field {α : Type} (es : List (String × Tree)) (name : String) (default : α)
    (f : Tree → Option α) : Option α :=
  match Tree.lookup name es with
  | none => some default
  | some t => f t

/-- A field that has to be there. -/
def required {α : Type} (es : List (String × Tree)) (name : String) (f : Tree → Option α) :
    Option α :=
  (Tree.lookup name es).bind f

def optional {α : Type} (f : Tree → Option α) : Tree → Option (Option α)
  | .null => some none
  | t => (f t).map some

def listOf {α : Type} (f : Tree → Option α) : Tree → Option (List α)
  | .list xs => xs.mapM f
  | _ => none

/-! ## Numbers and texts -/

/-- A text read as an unsigned integer: digits, or a word for yes or no. -/
def natOfText (s : String) : Option Nat :=
  match Numeral.readNat (UInt64.size - 1) s with
  | .ok n => some n
  | .error _ =>
    if ["true", "on", "yes"].contains s.toLower then some 1
    else if ["false", "off", "no"].contains s.toLower then some 0
    else none

/-- An unsigned integer of 64 bits. -/
def word64 (m : Reading) : Tree → Option Nat
  | .int (.ofNat n) => if n < UInt64.size then some n else none
  | .bool b => if m = .lenient then some b.toNat else none
  | .text s => if m = .lenient then natOfText s else none
  | .real x => if m = .lenient then some x.toWord else none
  | _ => none

def word32 : Tree → Option UInt32
  | .int (.ofNat n) => if n < UInt32.size then some (UInt32.ofNat n) else none
  | _ => none

def textOf (m : Reading) : Tree → Option String
  | .text s => some s
  | .int n => if m = .lenient then some (toString n) else none
  | .bool b => if m = .lenient then some (toString b) else none
  | .real x => if m = .lenient then some x.toText else none
  | _ => none

/-! ## Endpoints -/

def settingsOf (m : Reading) : Tree → Option Settings
  | .map es => (es.mapM fun e => (textOf m e.2).map (e.1, ·)).map Settings.ofList
  | _ => none

def endpointOf (m : Reading) (t : Tree) : Option Endpoint := do
  let es ← fields? m ["name", "chunk_size", "settings"] t
  let name ← field es "name" "" (textOf m)
  let chunkSize ← field es "chunk_size" none (optional (word64 m))
  let settings ← field es "settings" [] (settingsOf m)
  return { name, chunkSize, settings }

end Relay.Config
