import Relay.Message
/-!
# Values and components

Handlers return values of any type, and subscribers ask for components by type. A value knows
the name of its type; a set of components holds one value a type.
-/
namespace Relay

inductive Value
  | number (n : UInt32)
  | text (s : String)
  | message (m : Message)
  /-- An instance of another type, told apart by a text. -/
  | object (type content : String)

namespace Value

def numberType : String := "u32"
def textType : String := "alloc::string::String"

def typeName : Value → String
  | .number _ => numberType
  | .text _ => textType
  | .message m => m.typeName
  | .object t _ => t

end Value

/-- Components in the order they were put in, latest first. -/
abbrev Components := List Value

namespace Components

def insert (v : Value) (cs : Components) : Components := v :: cs

/-- The component last put in for a type. -/
def resolve (cs : Components) (type : String) : Option Value :=
  cs.find? fun v => v.typeName == type

end Components

end Relay
