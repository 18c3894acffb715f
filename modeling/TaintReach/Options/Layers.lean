import TaintReach.Options.Flag
import TaintReach.Text.Lowercase
import TaintReach.Text.Split

/-! Settings over the layers that may give them.

A setting is given by a flag on the command line, else by a variable, else in a
settings file, else by its default. Letter case does not count in keys. Points in a
key make it a path: a key and one that goes on behind it cannot both have a default,
so the later one stands, and a flag hides all settings whose keys go on behind its own. -/
namespace TaintReach.Options

/-- The path of a setting: the parts of its key between points, in lower case. -/
def pathOf (key : String) : List String :=
  (Text.split '.' (Text.lower key).toList).map String.ofList

/-! ### Surroundings -/

/-- Settings from outside the command line. -/
structure Surroundings where
  /-- Variables of the environment. -/
  environment : List (String × String) := []
  /-- What a settings file says, by keys in lower case; null gives no value. -/
  file : List (String × Option Value) := []

/-- The variable that gives a setting. -/
def variableOf (key : String) : String :=
  "JSTAINT_" ++ String.ofList (key.toList.map fun c =>
    if c = '.' || c = '-' then '_' else c.toUpper)

/-- A variable that is empty does not count. -/
def Surroundings.inEnvironment? (s : Surroundings) (key : String) : Option Value :=
  (s.environment.lookup (variableOf key)).bind fun v => if v = "" then none else some (.text v)

def Surroundings.inFile? (s : Surroundings) (key : String) : Option Value :=
  (s.file.lookup (Text.lower key)).join

/-! ### Defaults -/

/-- Defaults by their paths, of which none goes on behind another. -/
abbrev Defaults := List (List String × Value)

/-- Gives a path a default in place of those on its way and behind it. -/
def Defaults.set (ds : Defaults) (path : List String) (v : Value) : Defaults :=
  (path, v) :: ds.filter fun (p, _) => !(p.isPrefixOf path || path.isPrefixOf p)

/-- The default of a path. A path that others go on behind has no value of use. -/
def Defaults.get? (ds : Defaults) (path : List String) : Option Value :=
  ds.lookup path <|> (if ds.any fun (p, _) => path.isPrefixOf p then some .other else none)

/-! ### Settings -/

/-- The settings there are: their defaults, and the flags that give them, the last first. -/
structure Settings where
  defaults : Defaults := []
  flags : List (List String × Flag) := []

namespace Settings

/-- Adds a setting, with the flag that is declared for its key if there is one. -/
def add (declared : List Flag) (s : Settings) (f : Flag) : Settings :=
  let path := pathOf f.key
  { defaults := s.defaults.set path f.default
    flags := ((declared.find? (·.key = f.key)).map (path, ·)).toList ++ s.flags }

/-- Settings of which some are declared as flags. -/
def ofFlags (declared all : List Flag) : Settings := all.foldl (add declared) {}

/-- The value that the command line gives a path. -/
def given? (s : Settings) (line : CommandLine) (path : List String) : Option Value :=
  (s.flags.lookup path).bind fun f => line.given.lookup f.key

/-- A flag has a key that the path goes on behind. -/
def isHidden (s : Settings) (path : List String) : Bool :=
  s.flags.any fun (p, _) => p ≠ path && p.isPrefixOf path

/-- The value of a setting: that of its flag if the command line gives it, else that
of its variable, else that in the settings file, else the default. -/
def value (s : Settings) (line : CommandLine) (around : Surroundings) (key : String) : Value :=
  let path := pathOf key
  match s.given? line path with
  | some v => v
  | none =>
    if s.isHidden path then .other
    else (around.inEnvironment? key <|> around.inFile? key <|> s.defaults.get? path).getD .other

end Settings

end TaintReach.Options
