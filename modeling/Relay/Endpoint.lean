/-!
# Endpoints

A named destination or source with an optional chunk size and transport settings. Two
endpoints with the same name, chunk size and settings are the same endpoint; they are ordered
by name, then chunk size (none first), then settings.
-/
namespace Relay

/-- Settings in ascending order of their keys, each key once. -/
abbrev Settings := List (String × String)

namespace Settings

def insert (key value : String) : Settings → Settings
  | [] => [(key, value)]
  | e :: rest =>
    match compare key e.1 with
    | .lt => (key, value) :: e :: rest
    | .eq => (key, value) :: rest
    | .gt => e :: insert key value rest

def ofList (pairs : List (String × String)) : Settings :=
  pairs.foldl (fun s e => insert e.1 e.2 s) []

/-- Pair by pair; of two settings that agree as far as the shorter goes, the shorter is less. -/
def order : Settings → Settings → Ordering
  | [], [] => .eq
  | [], _ :: _ => .lt
  | _ :: _, [] => .gt
  | a :: s, b :: t => (compare a.1 b.1).then ((compare a.2 b.2).then (order s t))

end Settings

structure Endpoint where
  name : String
  /-- Payloads longer than this go out in chunks. -/
  chunkSize : Option Nat := none
  settings : Settings := []
  deriving DecidableEq, Repr

namespace Endpoint

instance : Inhabited Endpoint := ⟨⟨"", none, []⟩⟩

def withChunkSize (e : Endpoint) (size : Nat) : Endpoint := { e with chunkSize := some size }

def withSetting (e : Endpoint) (key value : String) : Endpoint :=
  { e with settings := e.settings.insert key value }

def orderSize : Option Nat → Option Nat → Ordering
  | none, none => .eq
  | none, some _ => .lt
  | some _, none => .gt
  | some a, some b => compare a b

def order (a b : Endpoint) : Ordering :=
  (compare a.name b.name).then
    ((orderSize a.chunkSize b.chunkSize).then (Settings.order a.settings b.settings))

/-- Ascending, equal endpoints in their given order. -/
def sort (es : List Endpoint) : List Endpoint := es.mergeSort fun a b => (order a b).isLE

end Endpoint

end Relay
