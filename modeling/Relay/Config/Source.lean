import Relay.Config
import Relay.Config.Yaml
/-!
# Configuration sources

Settings come from the default file if it exists, a file named by the caller, a file named by
an environment variable, and environment variables themselves, each laid over what came before.
A variable names a setting by its path, with two underscores between the keys; so does every key
at the root of a file.
-/
namespace Relay.Config

/-- The files of a directory and the environment. -/
structure Surroundings where
  files : List (String × String)
  environment : List (String × String)

def defaultFile : String := "courier.yaml"
def fileVariable : String := "COURIER_CONFIG"
def variablePrefix : String := "COURIER__"

/-! ## Files -/

/-- The parts of a name inside the directory, without the steps that stay where they are. -/
def parts (name : String) : List String :=
  if name.startsWith "/" then [] else (name.splitOn "/").filter fun p => p != "" && p != "."

/-- The content of the file of a name with something behind it. -/
def content? (s : Surroundings) (name extension : String) : Option String :=
  match parts name with
  | [] => none
  | ps =>
    let full := "/".intercalate ps ++ extension
    (s.files.find? fun f => f.1 == full).map Prod.snd

/-- Whether a name can only be that of a directory. -/
def namesDirectory (name : String) : Bool :=
  match (name.splitOn "/").getLast? with
  | some last => last == "" || last == "."
  | none => true

/-- The content of a file, whose name may leave out a YAML extension. -/
def find? (s : Surroundings) (name : String) : Option String :=
  let exact := if namesDirectory name then none else content? s name ""
  exact.or ((content? s name ".yaml").or (content? s name ".yml"))

/-- A text without the byte order mark that it may begin with. -/
def withoutMark (text : String) : String :=
  match text.toList with
  | c :: cs => if c == Yaml.byteOrderMark then String.ofList cs else text
  | [] => text

/-- Lays values over a tree, each at the path that its key writes. -/
def putAll (base : Tree) (es : List (String × Tree)) : Except LoadError Tree :=
  es.foldlM (fun base e => (Path.ofKey e.1).put e.2 base) base

/-- Adds the entries of a file to what was read before. -/
def addFile (s : Surroundings) (needed : Bool) (name : String) (base : Tree) :
    Except LoadError Tree :=
  match find? s name with
  | none => if needed then .error .unreadable else .ok base
  | some text => do putAll base (← Yaml.parse (withoutMark text))

/-- Adds the entries of a file that has to be there, if one is named. -/
def addNamed (s : Surroundings) (name : Option String) (base : Tree) : Except LoadError Tree :=
  match name with
  | none => .ok base
  | some name => addFile s true name base

/-! ## Variables -/

def setVariable? (s : Surroundings) (name : String) : Option String :=
  (s.environment.find? fun v => v.1 == name).map Prod.snd

/-- The value a variable sets: a truth value, a number or a text. -/
def valueOf (v : String) : Tree :=
  match Numeral.readBool (lowercase v), Yaml.Node.long? v, Double.read? v with
  | some b, _, _ => .bool b
  | none, some n, _ => .int n
  | none, none, some x => .real x
  | none, none, none => .text v

/-- The key that a variable's name gives, if it has the prefix. -/
def keyOf? (name : String) : Option String :=
  let start := (lowercase variablePrefix).toList
  let cs := (lowercase name).toList
  if start.isPrefixOf cs then
    some (".".intercalate ((String.ofList (cs.drop start.length)).splitOn "__"))
  else none

/-- What the variables set. -/
def settings (s : Surroundings) : List (String × Tree) :=
  s.environment.filterMap fun v => (keyOf? v.1).map (·, valueOf v.2)

/-! ## All sources -/

/-- Reads the configuration from all sources. -/
def load (s : Surroundings) (path : Option String) : Except LoadError Config := do
  let base ← addFile s false defaultFile (.map [])
  let base ← addNamed s path base
  let base ← addNamed s (setVariable? s fileVariable) base
  let base ← putAll base (settings s)
  match ofTree? .lenient base with
  | some c => return c
  | none => throw .unreadable

end Relay.Config
