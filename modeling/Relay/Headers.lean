/-!
# Message headers

An ordered map from names to texts. Names are compared up to ASCII case; setting a name that
is present replaces its value and keeps its place and its first spelling.
-/
namespace Relay

/-- A name up to ASCII case. -/
def foldName (name : String) : List Char := name.toList.map Char.toLower

/-- Two spellings of one name. -/
def sameName (a b : String) : Bool := foldName a == foldName b

structure Headers where
  entries : List (String × String)
  deriving DecidableEq, Repr

namespace Headers

/-! ## Well-known names -/

def messageId : String := "x-message-id"
def messageType : String := "x-message-type"
def chunkIndex : String := "x-chunk-index"
def chunksCount : String := "x-chunks-count"
def failedAttempts : String := "x-failed-attempts"
def sourceEndpoint : String := "x-source-endpoint"

/-! ## Operations -/

def empty : Headers := ⟨[]⟩

instance : Inhabited Headers := ⟨empty⟩

def get? (h : Headers) (name : String) : Option String :=
  (h.entries.find? fun e => sameName e.1 name).map Prod.snd

def contains (h : Headers) (name : String) : Bool :=
  h.entries.any fun e => sameName e.1 name

/-- The first entry of the name gets the value; without one the pair goes to the end. -/
def put (name value : String) : List (String × String) → List (String × String)
  | [] => [(name, value)]
  | e :: rest => if sameName e.1 name then (e.1, value) :: rest else e :: put name value rest

def insert (h : Headers) (name value : String) : Headers := ⟨put name value h.entries⟩

/-- Sets the name only if it is absent. -/
def insertIfMissing (h : Headers) (name value : String) : Headers :=
  if h.contains name then h else ⟨h.entries ++ [(name, value)]⟩

def remove (h : Headers) (name : String) : Headers :=
  ⟨h.entries.eraseP fun e => sameName e.1 name⟩

/-- Inserts the pairs one after the other. -/
def ofList (pairs : List (String × String)) : Headers :=
  pairs.foldl (fun h e => h.insert e.1 e.2) empty

def size (h : Headers) : Nat := h.entries.length

def isEmpty (h : Headers) : Bool := h.entries.isEmpty

def display (h : Headers) : String :=
  ", ".intercalate (h.entries.map fun e => e.1 ++ "=" ++ e.2)

end Headers

end Relay
