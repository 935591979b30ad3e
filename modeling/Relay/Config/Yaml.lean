import Relay.Config.Path
import Relay.Config.Yaml.Node
/-!
# YAML documents as configuration

A text holds one document, whose node is read as a tree. Entries are named by texts or integers,
and numbers have to be decimals.
-/
namespace Relay.Config.Yaml

/-- The key that a node names an entry by. -/
def keyOf? : Node → Option String
  | .text s => some s
  | .int n => some (toString n)
  | _ => none

mutual

def treeOf : Node → Except LoadError Tree
  | .invalid => .ok .null
  | .null => .ok .null
  | .bool b => .ok (.bool b)
  | .int n => .ok (.int n)
  | .real s =>
    match Double.read? s with
    | some x => .ok (.real x)
    | none => .error .unreadable
  | .text s => .ok (.text s)
  | .list xs => (treesOf xs).map .list
  | .map es => (entriesOf es).map .map

def treesOf : List Node → Except LoadError (List Tree)
  | [] => .ok []
  | x :: xs => do
    let t ← treeOf x
    let ts ← treesOf xs
    return t :: ts

def entriesOf : List (Node × Node) → Except LoadError (List (String × Tree))
  | [] => .ok []
  | (k, v) :: es =>
    match keyOf? k with
    | none => .error .unnamedEntry
    | some k => do
      let t ← treeOf v
      let ts ← entriesOf es
      return (k, t) :: ts

end

/-- The entries of the map at the root of a text; no document is an empty map. -/
def parse (text : String) : Except LoadError (List (String × Tree)) :=
  match (tokens? text).bind Node.ofTokens? with
  | none => .error .unreadable
  | some none => .ok []
  | some (some n) =>
    match treeOf n with
    | .ok (.map es) => .ok es
    | .ok _ => .error .unreadable
    | .error e => .error e

end Relay.Config.Yaml
