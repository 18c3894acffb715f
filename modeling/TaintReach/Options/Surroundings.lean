import TaintReach.Dotenv
import TaintReach.Files
import TaintReach.Hcl.Document
import TaintReach.Ini
import TaintReach.Json.Reader
import TaintReach.Options.Layers
import TaintReach.Path
import TaintReach.Properties
import TaintReach.Toml.Document
import TaintReach.Yaml.Datum

/-! Settings files.

A variable may name the settings file; its extension then tells the format, and
whatever goes wrong is told. Without the variable a file of the usual name is looked
for in the working directory, read as YAML whatever its extension, and passed over
if it cannot be used. -/
namespace TaintReach.Options.Surroundings

/-- Why the named settings file cannot be used. -/
inductive Problem where
  | unnamed
  | unknownType (path type : String)
  | unreadable (path : String) (problem : Files.Problem)
  | malformed (path reason : String)
deriving DecidableEq, Repr

def Problem.message : Problem → String
  | .unnamed => "read config : Config File \"config\" Not Found in \"[]\""
  | .unknownType path type =>
    "read config " ++ path ++ ": Unsupported Config Type " ++ Text.quote type
  | .unreadable path problem => "read config " ++ path ++ ": " ++ problem.message
  | .malformed path reason => "read config " ++ path ++ ": While parsing config: " ++ reason

/-! ### Contents -/

/-- A value with its key, unless it is null. -/
abbrev Entry := String × Option Value

/-- What a YAML value is worth. -/
def ofDatum : Yaml.Datum → Option Value
  | .scalar .null => none
  | .scalar (.bool b) => some (.bool b)
  | .scalar (.int n) => some (.int n)
  | .scalar (.float w) => some (.float w)
  | .scalar (.infinite negative) => some (.infinite negative)
  | .scalar .notANumber => some .notANumber
  | .scalar (.timestamp t) => some (.moment t.text)
  | .scalar (.text s) => some (.text s)
  | .list _ | .table _ => some .other

/-- The members of a YAML document. -/
def ofYaml (text : String) : Except String (List Entry) :=
  match Yaml.table text with
  | .error f => .error f.message
  | .ok members => .ok (members.map fun (k, v) => (k, ofDatum v))

mutual

/-- The first number of a value that is too large for a double, as it is written. -/
def oversize? : Json → Option String
  | .number text =>
    match (Decimal.read? text.toList).bind fun w => Decimal.ofDigits w.digits w.exponent with
    | some _ => none
    | none => some text
  | .array items => oversizeItem? items
  | .object members => oversizeMember? members
  | .null | .bool _ | .string _ => none

def oversizeItem? : List Json → Option String
  | [] => none
  | v :: vs => oversize? v <|> oversizeItem? vs

def oversizeMember? : List (String × Json) → Option String
  | [] => none
  | (_, v) :: ms => oversize? v <|> oversizeMember? ms

end

/-- What is said of a value of some kind in place of another. -/
def misfit (found wanted : String) : String :=
  "json: cannot unmarshal " ++ found ++ " into Go value of type " ++ wanted

def ofJsonValue : Json → Option Value
  | .null => none
  | .bool b => some (.bool b)
  | .number text => some ((Decimal.read? text.toList).elim .other .float)
  | .string s => some (.text s)
  | .array _ | .object _ => some .other

/-- The members of a JSON object; of members with one key the last counts. -/
def ofJson (text : String) : Except String (List Entry) :=
  let noTable (kind : String) : Except String (List Entry) :=
    .error (misfit kind "map[string]interface \x7b\x7d")
  match Json.Reader.whole text.toList with
  | .error p => .error p.message
  | .ok (.object members) =>
    match oversizeMember? members with
    | some number => .error (misfit ("number " ++ number) "float64")
    | none => .ok (members.reverse.map fun (k, v) => (k, ofJsonValue v))
  | .ok .null => .ok []
  | .ok (.array _) => noTable "array"
  | .ok (.string _) => noTable "string"
  | .ok (.number _) => noTable "number"
  | .ok (.bool _) => noTable "bool"

def ofTomlValue : Toml.Value → Value
  | .text s => .text s
  | .bool b => .bool b
  | .int n => .int n
  | .float w => .float w
  | .infinite negative => .infinite negative
  | .notANumber => .notANumber
  | .moment t => .moment t.text
  | .localMoment text => .moment text
  | .array _ | .table _ => .other

def ofToml (text : String) : Except String (List Entry) :=
  match Toml.read text with
  | .error p => .error p.message
  | .ok members => .ok (members.map fun (k, v) => (k, some (ofTomlValue v)))

def ofHclValue : Hcl.Value → Value
  | .text s => .text s
  | .bool b => .bool b
  | .int n => .int n
  | .float w => .float w
  | .list | .blocks => .other

def ofHcl (text : String) : Except String (List Entry) :=
  match Hcl.read text with
  | .error p => .error p.message
  | .ok members => .ok (members.map fun (k, v) => (k, some (ofHclValue v)))

/-- The variables of a file. -/
def ofDotenv (environment : List (String × String)) (text : String) :
    Except String (List Entry) :=
  match Dotenv.read environment text with
  | .error p => .error p.message
  | .ok given => .ok (given.map fun (k, v) => (k, some (.text v)))

/-- The properties of a file, the last first. A key with points is in a table, which
its first part names. -/
def ofProperties (environment : List (String × String)) (text : String) :
    Except String (List Entry) :=
  match Properties.read environment text with
  | .error p => .error p.message
  | .ok pairs => .ok (pairs.reverse.map fun (k, v) =>
      match Text.split '.' k.toList with
      | first :: _ :: _ => (String.ofList first, some .other)
      | _ => (Text.lower k, some (.text v)))

/-- The sections of a file. Its values are all in tables, which the first parts of the
sections' names give. -/
def ofIni (text : String) : Except String (List Entry) :=
  match Ini.sections text with
  | .error p => .error p.message
  | .ok names => .ok (names.map fun name =>
      (String.ofList (name.toList.takeWhile (· ≠ '.')), some .other))

/-- Entries by keys in lower case. Of keys that differ in letter case only, one that is
not in lower case counts. -/
def settle (entries : List Entry) : List Entry :=
  let (lower, others) := entries.partition fun (k, _) => Text.lower k = k
  (others ++ lower).map fun (k, v) => (Text.lower k, v)

/-! ### Files -/

/-- The type of a settings file: its extension without the point. -/
def typeOf (path : String) : String := String.ofList ((Path.extension path).toList.drop 1)

/-- Extensions of settings files. -/
def types : List String :=
  ["json", "toml", "yaml", "yml", "properties", "props", "prop", "hcl", "tfvars", "dotenv", "env",
    "ini"]

/-- What a settings file of a type says. -/
def contents (environment : List (String × String)) (type text : String) :
    Except String (List Entry) :=
  match type with
  | "json" => ofJson text
  | "toml" => ofToml text
  | "yaml" | "yml" => ofYaml text
  | "properties" | "props" | "prop" => ofProperties environment text
  | "hcl" | "tfvars" => ofHcl text
  | "dotenv" | "env" => ofDotenv environment text
  | "ini" => ofIni text
  | _ => .ok []

/-- The variable that names the settings file. -/
def fileVariable : String := variableOf "config"

/-- Reads the settings file that a variable names. -/
def readNamed {m : Type → Type} [Monad m] [Files m] (environment : List (String × String))
    (path : String) : m (Except Problem (List Entry)) := do
  if path = "" then return .error .unnamed
  let type := typeOf path
  if type ∉ types then return .error (.unknownType path type)
  match ← Files.read path with
  | .error p => return .error (.unreadable path p)
  | .ok text =>
    match contents environment type text with
    | .error reason => return .error (.malformed path reason)
    | .ok entries => return .ok (settle entries)

/-- Paths a settings file is looked for at when none is named. -/
def usualPaths : List String := types.map ("jstaint." ++ ·) ++ ["jstaint"]

/-- Reads the first of some files that is there. -/
def readUsual {m : Type → Type} [Monad m] [Files m] :
    List String → m (List Entry)
  | [] => return []
  | path :: rest => do
    match ← Files.read path with
    | .ok text => return ((ofYaml text).map settle).toOption.getD []
    | .error ⟨_, _, .failed _⟩ => return []
    | .error _ => readUsual rest

/-- The settings that variables and a settings file give. -/
def load {m : Type → Type} [Monad m] [Files m] (environment : List (String × String)) :
    m (Except Problem Surroundings) := do
  match environment.lookup fileVariable with
  | some path => return (← readNamed environment path).map fun file => { environment, file }
  | none => return .ok { environment, file := ← readUsual usualPaths }

end TaintReach.Options.Surroundings
