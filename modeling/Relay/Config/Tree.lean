import Relay.Double
import Relay.Json
import Relay.Lowercase
/-!
# Configuration trees

What a configuration source holds before it is read as settings. Trees of several sources are
laid over each other: maps merge key by key, everything else is replaced. The keys that are laid
are in lower case.
-/
namespace Relay.Config

inductive Tree
  | null
  | bool (b : Bool)
  | int (n : Int)
  /-- A number with a fraction or an exponent, or out of every integer range. -/
  | real (x : Double)
  | text (s : String)
  | list (items : List Tree)
  | map (entries : List (String × Tree))
  deriving Inhabited

namespace Tree

mutual

def ofJson? : Json → Option Tree
  | .null => some .null
  | .bool b => some (.bool b)
  | .number t =>
    match Json.int? (.number t) with
    | some n => some (.int n)
    | none => (Double.read? (String.ofList t)).map .real
  | .string raw => (Json.decode? raw).map .text
  | .array xs => (ofItems? xs).map .list
  | .object es => (ofEntries? es).map .map

def ofItems? : List Json → Option (List Tree)
  | [] => some []
  | x :: xs => do
    let t ← ofJson? x
    let ts ← ofItems? xs
    return t :: ts

def ofEntries? : List (Bytes × Json) → Option (List (String × Tree))
  | [] => some []
  | (k, v) :: es => do
    let k ← Json.decode? k
    let t ← ofJson? v
    let ts ← ofEntries? es
    return (k, t) :: ts

end

mutual

/-- Nesting depth. -/
def depth : Tree → Nat
  | .list xs => depthItems xs + 1
  | .map es => depthEntries es + 1
  | _ => 1

def depthItems : List Tree → Nat
  | [] => 0
  | x :: xs => max (depth x) (depthItems xs)

def depthEntries : List (String × Tree) → Nat
  | [] => 0
  | (_, v) :: es => max (depth v) (depthEntries es)

end

/-- The value last given for a key. -/
def lookup (key : String) (es : List (String × Tree)) : Option Tree :=
  (es.reverse.find? fun e => e.1 == key).map Prod.snd

/-- Puts a value under a key, in the key's place if it has one. -/
def put (key : String) (v : Tree) : List (String × Tree) → List (String × Tree)
  | [] => [(key, v)]
  | e :: rest => if e.1 == key then (key, v) :: rest else e :: put key v rest

/-- The entries of a map; anything else gives way to an empty one. -/
def entries : Tree → List (String × Tree)
  | .map es => es
  | _ => []

/-- The items of a list; anything else gives way to an empty one. -/
def items : Tree → List Tree
  | .list xs => xs
  | _ => []

mutual

/-- What a key holds once a value is laid over what it held before. A map without entries
changes nothing that is there. -/
def lay (base : Option Tree) : Tree → Tree
  | .map es => layEntries (base.getD (.map [])) es
  | t => t

/-- Lays entries over a tree, one after the other. -/
def layEntries (base : Tree) : List (String × Tree) → Tree
  | [] => base
  | (k, v) :: es =>
    let key := lowercase k
    layEntries (.map (put key (lay (lookup key base.entries) v) base.entries)) es

end

/-- Lays a value under a key of a map. -/
def layAt (key : String) (v : Tree) (base : Tree) : Tree := layEntries base [(key, v)]

end Tree

end Relay.Config
