import Relay.Config.Yaml.Layout
import Relay.Double
/-!
# Nodes of a YAML document

The tree that the tokens of a text build, its plain scalars read as what they stand for. An
anchor names the node behind it, and a reference stands for the node last named so.
-/
namespace Relay.Config.Yaml

inductive Node
  /-- A scalar that is not what its tag says, or a reference to a node that is still open. -/
  | invalid
  | null
  | bool (b : Bool)
  | int (n : Int)
  /-- A number with a fraction or an exponent or out of the integer range, as written. -/
  | real (text : String)
  | text (s : String)
  | list (items : List Node)
  | map (entries : List (Node × Node))
  deriving Inhabited

namespace Node

mutual

/-- Whether two nodes are alike, entries in the same order. -/
def same : Node → Node → Bool
  | .invalid, .invalid => true
  | .null, .null => true
  | .bool a, .bool b => a == b
  | .int a, .int b => a == b
  | .real a, .real b => a == b
  | .text a, .text b => a == b
  | .list as, .list bs => sameItems as bs
  | .map as, .map bs => sameEntries as bs
  | _, _ => false

def sameItems : List Node → List Node → Bool
  | [], [] => true
  | a :: as, b :: bs => same a b && sameItems as bs
  | _, _ => false

def sameEntries : List (Node × Node) → List (Node × Node) → Bool
  | [], [] => true
  | (k, v) :: as, (l, w) :: bs => same k l && same v w && sameEntries as bs
  | _, _ => false

end

def isInvalid : Node → Bool
  | .invalid => true
  | _ => false

/-! ## Scalars -/

/-- An integer of 64 bits in decimal. -/
def long? (s : String) : Option Int :=
  match Numeral.read Int64.minValue.toInt.natAbs Int64.maxValue.toInt.toNat s with
  | .ok n => some n
  | .error _ => none

/-- What digits of a base write. -/
def digits? (base : Nat) (cs : List Char) : Option Nat :=
  if cs.isEmpty then none
  else cs.foldl (fun n c => do
    let d ← Bytes.hexValue? c.toNat
    if d < base then return base * (← n) + d else none) (some 0)

/-- An integer of 64 bits in a base, with a sign or without. -/
def based? (base : Nat) (cs : List Char) : Option Int :=
  let n := match cs with
    | '-' :: ds => (digits? base ds).map fun n => -Int.ofNat n
    | '+' :: ds => (digits? base ds).map Int.ofNat
    | ds => (digits? base ds).map Int.ofNat
  n.filter fun n => Int64.minValue.toInt ≤ n && n ≤ Int64.maxValue.toInt

/-- The integer that a plain scalar writes. -/
def int? (s : String) : Option Int :=
  let other := match s.toList with
    | '0' :: 'x' :: cs => based? 16 cs
    | '0' :: 'o' :: cs => based? 8 cs
    | '+' :: cs => long? (String.ofList cs)
    | _ => none
  other.or (long? s)

/-- The words for infinity and for no number. -/
def realWords : List String :=
  [".inf", ".Inf", ".INF", "+.inf", "+.Inf", "+.INF", "-.inf", "-.Inf", "-.INF", ".nan", ".NaN",
    ".NAN"]

def isReal (s : String) : Bool := realWords.contains s || (Double.read? s).isSome

def isNullWord (s : String) : Bool := s == "~" || s == "null"

/-- What a plain scalar stands for. -/
def ofPlain (s : String) : Node :=
  if isNullWord s then .null
  else
    match Numeral.readBool s, int? s with
    | some b, _ => .bool b
    | none, some n => .int n
    | none, none => if isReal s then .real s else .text s

/-- What the tags of the common types begin with. -/
def coreTags : String := "tag:yaml.org,2002:"

/-- What a plain scalar stands for under a tag of the common types. -/
def ofTagged (type s : String) : Node :=
  match type with
  | "bool" => ((Numeral.readBool s).map Node.bool).getD .invalid
  | "int" => ((long? s).map Node.int).getD .invalid
  | "float" => if isReal s then .real s else .invalid
  | "null" => if isNullWord s then .null else .invalid
  | _ => .text s

/-- A resolved tag: what its handle stands for, and its suffix. -/
abbrev Tag := String × String

def ofScalar (style : Style) (tag : Option Tag) (s : String) : Node :=
  match style, tag with
  | .plain, none => ofPlain s
  | .plain, some (leading, type) => if leading == coreTags then ofTagged type s else .text s
  | _, _ => .text s

/-! ## Entries -/

/-- The entries of a mapping whose keys and values alternate. No two keys are alike; an invalid
key gives its place to the node behind it. -/
def pairUp (seen : List (Node × Node)) (key : Node) : List Node → Option (List (Node × Node))
  | [] => some seen.reverse
  | n :: ns =>
    if key.isInvalid then pairUp seen n ns
    else if seen.any fun e => same e.1 key then none
    else pairUp ((key, n) :: seen) .invalid ns

def ofPairs (ns : List Node) : Option Node := (pairUp [] .invalid ns).map .map

end Node

/-! ## Reading -/

/-- The tokens that are left, and what was said before them. -/
structure Reader where
  tokens : List Token
  /-- What the last directive says a handle stands for. -/
  tagPrefix : Option (String × String) := none
  /-- Names with the numbers of their anchors, latest first. -/
  anchors : List (String × Nat) := []
  /-- Finished nodes by the numbers of their anchors. -/
  nodes : List (Nat × Node) := []

abbrev Read := StateT Reader Option

namespace Read

/-- The next token, none at the end of the text. -/
def peek : Read (Option Token) := do return (← get).tokens.head?

def skip : Read Unit := modify fun r => { r with tokens := r.tokens.tail }

/-- What a handle was said to stand for. -/
def leadingOf? (handle : String) : Read (Option String) := do
  return (← get).tagPrefix.bind fun p => if p.1 == handle then some p.2 else none

def resolve (handle suffix : String) : Read Node.Tag := do
  match ← leadingOf? handle with
  | some leading => return (leading, suffix)
  | none =>
    if handle == "!!" then return (Node.coreTags, suffix)
    else if Token.isClosed handle then failure
    else return (handle, suffix)

/-- Gives an anchor the next number, for which it stands from now on. -/
def name (anchor : String) : Read Nat := modifyGet fun r =>
  (r.anchors.length, { r with anchors := (anchor, r.anchors.length) :: r.anchors })

/-- The node that a name refers to. -/
def refer (anchor : String) : Read Node := do
  let r ← get
  match r.anchors.lookup anchor with
  | none => failure
  | some i => return (r.nodes.lookup i).getD .invalid

def anchor? : Read (Option Nat) := do
  match ← peek with
  | some (.anchor a) => skip; return some (← name a)
  | _ => return none

def tag? : Read (Option Node.Tag) := do
  match ← peek with
  | some (.tag handle suffix) => skip; return some (← resolve handle suffix)
  | _ => return none

/-- The anchor and the tag of a node, in either order. -/
def properties : Read (Option Nat × Option Node.Tag) := do
  match ← anchor? with
  | some a => return (some a, ← tag?)
  | none =>
    match ← tag? with
    | some t => return (← anchor?, some t)
    | none => return (none, none)

/-- Finishes a node under its anchor. -/
def finish (anchor : Option Nat) (n : Node) : Read Node := do
  match anchor with
  | some i => modify fun r => { r with nodes := (i, n) :: r.nodes }
  | none => pure ()
  return n

/-- The node that is read, or null where one of the given tokens stands. -/
def orNull (stops : List Token) (n : Read Node) : Read Node := do
  if (← peek).any stops.contains then return .null else n

/-- The value behind a `:`, or null without one. -/
def valueOr (stops : List Token) (n : Read Node) : Read Node := do
  match ← peek with
  | some .value => skip; orNull stops n
  | _ => return .null

mutual

/-- A node. Only where `block` holds may it be a block, and where `loose` does, a sequence on
the column of its key. -/
def node : Nat → Bool → Bool → Read Node
  | 0, _, _ => failure
  | fuel + 1, block, loose => do
    if let some (.reference a) := ← peek then
      skip
      return ← refer a
    let (anchor, tag) ← properties
    let next ← peek
    let content ← match next with
      | some (.scalar style s) => skip; pure (Node.ofScalar style tag s)
      | some (.flowStart .sequence) => skip; Node.list <$> flowItems fuel true
      | some (.flowStart .mapping) => skip; liftM (Node.ofPairs (← flowEntries fuel true))
      | _ =>
        if loose && next == some .blockEntry then Node.list <$> looseItems fuel
        else if block && next == some (.blockStart .sequence) then
          skip; Node.list <$> blockItems fuel
        else if block && next == some (.blockStart .mapping) then
          skip; liftM (Node.ofPairs (← blockEntries fuel))
        else if anchor.isSome || tag.isSome then pure (Node.ofScalar .plain tag "")
        else failure
    finish anchor content

def blockItems : Nat → Read (List Node)
  | 0 => failure
  | fuel + 1 => do
    match ← peek with
    | some .blockEnd => skip; return []
    | some .blockEntry =>
      skip
      let n ← orNull [.blockEntry, .blockEnd] (node fuel true false)
      return n :: (← blockItems fuel)
    | _ => failure

/-- The items of a sequence on the column of its key, which ends without a token. -/
def looseItems : Nat → Read (List Node)
  | 0 => failure
  | fuel + 1 => do
    match ← peek with
    | some .blockEntry =>
      skip
      let n ← orNull [.blockEntry, .key, .value, .blockEnd] (node fuel true false)
      return n :: (← looseItems fuel)
    | _ => return []

/-- Keys and values in turn. -/
def blockEntries : Nat → Read (List Node)
  | 0 => failure
  | fuel + 1 => do
    let stops : List Token := [.key, .value, .blockEnd]
    match ← peek with
    | some .key =>
      skip
      let k ← orNull stops (node fuel true true)
      let v ← valueOr stops (node fuel true true)
      return k :: v :: (← blockEntries fuel)
    | some .value =>
      let v ← valueOr stops (node fuel true true)
      return .null :: v :: (← blockEntries fuel)
    | some .blockEnd => skip; return []
    | _ => failure

def flowItems : Nat → Bool → Read (List Node)
  | 0, _ => failure
  | fuel + 1, first => do
    if (← peek) == some (.flowEnd .sequence) then
      skip
      return []
    if !first then
      if (← peek) == some .flowEntry then skip else failure
    match ← peek with
    | some (.flowEnd .sequence) => skip; return []
    | some .key =>
      skip
      let n ← flowPair fuel
      return n :: (← flowItems fuel false)
    | _ =>
      let n ← node fuel false false
      return n :: (← flowItems fuel false)

/-- A mapping of one pair in a flow sequence. A mark in the place of its key is passed. -/
def flowPair : Nat → Read Node
  | 0 => failure
  | fuel + 1 => do
    let keyless := (← peek).any [.value, .flowEntry, .flowEnd .sequence].contains
    let k ← if keyless then (do skip; return .null) else node fuel false false
    let v ← valueOr [.flowEntry, .flowEnd .sequence] (node fuel false false)
    liftM (Node.ofPairs [k, v])

/-- Keys and values in turn. -/
def flowEntries : Nat → Bool → Read (List Node)
  | 0, _ => failure
  | fuel + 1, first => do
    let stops : List Token := [.flowEntry, .flowEnd .mapping]
    if (← peek) == some (.flowEnd .mapping) then
      skip
      return []
    if !first then
      if (← peek) == some .flowEntry then skip else failure
    match ← peek with
    | some (.flowEnd .mapping) => skip; return []
    | some .key =>
      skip
      let k ← orNull (.value :: stops) (node fuel false false)
      let v ← valueOr stops (node fuel false false)
      return k :: v :: (← flowEntries fuel false)
    | some .value =>
      let v ← valueOr stops (node fuel false false)
      return .null :: v :: (← flowEntries fuel false)
    | _ =>
      let k ← node fuel false false
      return k :: .null :: (← flowEntries fuel false)

end

/-- A node with fuel for the tokens that are left: of two calls in a row at least one takes a
token. -/
def wholeNode : Read Node := do node (2 * (← get).tokens.length + 2) true false

/-! ## Documents -/

/-- Passes the directives of a document, and tells what the last of them says a handle stands
for. There is one version at most. -/
def directives (versioned : Bool) (said : Option (String × String)) :
    List Token → Option (List Token × Option (String × String))
  | .version :: ts => if versioned then none else directives true none ts
  | .tagPrefix handle leading :: ts => directives versioned (some (handle, leading)) ts
  | ts => some (ts, said)

/-- Whether a token cannot begin the node of a document. -/
def beginsNothing : Token → Bool
  | .version => true
  | .tagPrefix .. => true
  | .documentStart => true
  | .documentEnd => true
  | _ => false

/-- The node of a document behind its start, null if there is none. -/
def content : Read Node := do
  if (← peek).all beginsNothing then return .null else wholeNode

/-- The node of a document with the tokens behind it. Directives need a mark of the start. -/
def document (ts : List Token) : Option (Node × List Token) := do
  let (rest, tagPrefix) ← directives false none ts
  let (n, r) ← match rest with
    | .documentStart :: rest => content.run { tokens := rest, tagPrefix }
    | rest => if rest.length < ts.length then none else wholeNode.run { tokens := rest, tagPrefix }
  return (n, r.tokens)

end Read

/-- The node of a text that holds at most one document; none inside where there is no document. -/
def Node.ofTokens? (ts : List Token) : Option (Option Node) :=
  match ts.dropWhile (· == .documentEnd) with
  | [] => some none
  | ts =>
    match Read.document ts with
    | some (n, rest) => if rest.all (· == .documentEnd) then some (some n) else none
    | none => none

end Relay.Config.Yaml
