import DrawFormula.Engine
import DrawFormula.Files
import DrawFormula.Json.Integer
import DrawFormula.Json.Literal
import DrawFormula.Json.Reader
import DrawFormula.Number
import DrawFormula.Search.Limits
import DrawFormula.Text.Upper

/-! # Configuration

The values of the configuration come from variables of the environment, then key by key from a
JSON file, then from explicit changes.  Values from the file and from changes are kept as they
are, except that the batch size is an integer within its bounds and that the data folder is a path.
-/
namespace DrawFormula

/-- The keys of the configuration. -/
inductive Config.Key where
  | dataDir | cacheSize | batchSize | progressInterval | searchSeconds | searchEvaluations
  | searchSeed | zodiacYear | logLevel | allowedOrigins
deriving Repr, DecidableEq

namespace Config

namespace Key

/-- Every key. -/
def all : List Key :=
  [dataDir, cacheSize, batchSize, progressInterval, searchSeconds, searchEvaluations, searchSeed,
    zodiacYear, logLevel, allowedOrigins]

/-- The name of a key in files. -/
def name : Key → Text
  | dataDir => "data_dir".toList
  | cacheSize => "element_cache_size".toList
  | batchSize => "verify_batch_size".toList
  | progressInterval => "progress_interval".toList
  | searchSeconds => "search_time_budget".toList
  | searchEvaluations => "search_max_evaluations".toList
  | searchSeed => "search_seed".toList
  | zodiacYear => "default_zodiac_year".toList
  | logLevel => "log_level".toList
  | allowedOrigins => "allowed_origins".toList

/-- The key that a word names. -/
def ofName? (word : Text) : Option Key := all.find? fun k => k.name = word

end Key

/-- A value for every key. -/
abbrev Values := Key → Json

/-- The values with another one for a key. -/
def Values.set (values : Values) (key : Key) (v : Json) : Values :=
  fun k => if k = key then v else values k

end Config

/-- A configuration. -/
structure Config where
  values : Config.Values
  /-- The normal form of the data folder. -/
  dataDir : Text
  /-- How many formulas are tested between two messages on the progress. -/
  batchSize : Nat

/-- Why there is no configuration. -/
inductive ConfigError where
  /-- A variable holds the character that no variable can hold. -/
  | unstorable
  /-- A variable or the batch size is not taken for an integer. -/
  | integer (e : IntegerError)
  /-- A variable is not taken for a number. -/
  | number (text : Text)
  /-- The file is not read. -/
  | file (e : FileError)
  /-- The file is not read as JSON. -/
  | json (e : JsonError)
  /-- The file holds no object. -/
  | notObject
  /-- A value has the wrong type, or a key is unknown. -/
  | wrongType
deriving Repr, DecidableEq

namespace Config

/-- The configuration of these values: missing origins are all origins. -/
def make (values : Values) : Except ConfigError Config := do
  let origins := match values .allowedOrigins with
    | .null => .arr [Json.lit "*"]
    | v => v
  let size ← (values .batchSize).toInteger.mapError .integer
  let .str folder := values .dataDir | throw .wrongType
  return ⟨values.set .allowedOrigins origins, Path.normal folder, Engine.clampBatch size⟩

/-- The variables of the environment, by name. -/
abbrev Environment := List (Text × Text)

/-- The variables that have a meaning. -/
def variableNames : List String :=
  ["FORMULA_LAB_DATA_DIR", "FORMULA_LAB_CACHE_SIZE", "FORMULA_LAB_VERIFY_BATCH",
    "FORMULA_LAB_PROGRESS_INTERVAL", "FORMULA_LAB_SEARCH_SECONDS", "FORMULA_LAB_SEARCH_MAX_EVALS",
    "FORMULA_LAB_SEARCH_SEED", "FORMULA_LAB_ZODIAC_YEAR", "FORMULA_LAB_LOG_LEVEL",
    "FORMULA_LAB_CONFIG", "ALLOWED_ORIGINS"]

/-- The value of a variable. -/
def lookup? (env : Environment) (name : String) : Option Text :=
  (env.find? fun v => v.1 = name.toList).map (·.2)

/-- The value of a variable without blanks around it; empty if it is not set. -/
def stripped (env : Environment) (name : String) : Text :=
  Text.strip ((lookup? env name).getD [])

/-- The integer of a variable, or a default one if it is empty. -/
def integerOr (env : Environment) (name : String) (default : Json) : Except ConfigError Json :=
  match stripped env name with
  | [] => .ok default
  | t => (Text.readInt t).map .int |>.mapError fun e => .integer (.numeral e)

/-- The number of a variable, or a default one if it is empty. -/
def numberOr (env : Environment) (name : String) (default : Float) : Except ConfigError Json :=
  match stripped env name with
  | [] => .ok (.float default)
  | t => match Decimal.read? t with
    | some x => .ok (.float x)
    | none => .error (.number t)

/-- The values of the environment; the data folder is below `root` if no variable names it. -/
def ofEnvironment (root : Text) (env : Environment) : Except ConfigError Values := do
  if env.any fun v => v.2.any fun c => c.toNat = 0 then throw .unstorable
  let folder := match stripped env "FORMULA_LAB_DATA_DIR" with
    | [] => Path.join root "data".toList
    | t => Path.normal t
  let cacheSize ← integerOr env "FORMULA_LAB_CACHE_SIZE" (.int Engine.default.cacheSize)
  let batchSize ← integerOr env "FORMULA_LAB_VERIFY_BATCH" (.int Engine.default.batchSize)
  let interval ←
    integerOr env "FORMULA_LAB_PROGRESS_INTERVAL" (.int Engine.default.progressInterval)
  let seconds ← numberOr env "FORMULA_LAB_SEARCH_SECONDS" Engine.default.timeBudget
  let evaluations ← integerOr env "FORMULA_LAB_SEARCH_MAX_EVALS" (.int Engine.default.maxEvaluations)
  let seed ← integerOr env "FORMULA_LAB_SEARCH_SEED" .null
  let year ← integerOr env "FORMULA_LAB_ZODIAC_YEAR" (.int Number.defaultYear)
  let level := Text.upper ((lookup? env "FORMULA_LAB_LOG_LEVEL").getD "INFO".toList)
  let origins := Text.splitAtAll (· = ',') ((lookup? env "ALLOWED_ORIGINS").getD ['*'])
  return fun
    | .dataDir => .str folder
    | .cacheSize => cacheSize
    | .batchSize => batchSize
    | .progressInterval => interval
    | .searchSeconds => seconds
    | .searchEvaluations => evaluations
    | .searchSeed => seed
    | .zodiacYear => year
    | .logLevel => .str level
    | .allowedOrigins => .arr (origins.map .str)

/-- The values with those of known keys of a file. -/
def Values.withFile (values : Values) (text : Text) : Except ConfigError Values :=
  match Json.read text with
  | .error e => .error (.json e)
  | .ok (.obj fields) =>
    .ok (fields.foldl (fun values (name, v) =>
      match Key.ofName? name with
      | some key => values.set key v
      | none => values) values)
  | .ok _ => .error .notObject

/-- The path of the configuration's file: the given one, else the environment's, else one in the
data folder. -/
def filePath (env : Environment) (values : Values) (path : Option Text) : Text :=
  let folder := (values .dataDir).str?.getD []
  match path.getD [] with
  | [] => match (lookup? env "FORMULA_LAB_CONFIG").getD [] with
    | [] => Path.join folder "formula_lab_config.json".toList
    | t => t
  | t => t

/-- The configuration of an environment and files. -/
def load (root : Text) (env : Environment) (files : Files) (path : Option Text) :
    Except ConfigError Config := do
  let values ← ofEnvironment root env
  let text ← (files.readIfThere (filePath env values path)).mapError .file
  let values ← match text with
    | some text => values.withFile text
    | none => pure values
  make values

/-- The configuration with changes of known keys; an unknown key is an error. -/
def change (c : Config) (changes : List (Text × Json)) : Except ConfigError Config := do
  let current := c.values.set .dataDir (.str c.dataDir) |>.set .batchSize (.int c.batchSize)
  let values ← changes.foldlM (fun (values : Values) (name, v) =>
    match Key.ofName? name with
    | some key => .ok (values.set key v)
    | none => .error ConfigError.wrongType) current
  make values

/-- The level of notices, if the configuration has a text for it. -/
def logLevel? (c : Config) : Option Text := (c.values .logLevel).str?

/-- The file of the favorites. -/
def favoritesPath (c : Config) : Text := Path.join c.dataDir "favorites.json".toList

/-- The file of the settings. -/
def settingsPath (c : Config) : Text := Path.join c.dataDir "settings.json".toList

/-- The JSON form: every key, and the paths that follow from the data folder. -/
def toJson (c : Config) : Json :=
  let shown := c.values.set .dataDir (.str c.dataDir) |>.set .batchSize (.int c.batchSize)
  .obj (Key.all.map (fun k => (k.name, shown k)) ++
    [("favorites_path".toList, .str c.favoritesPath), ("settings_path".toList, .str c.settingsPath)])

/-- The value that a key stands for, or the error that it stands for none. -/
def valueOf {α : Type} (c : Config) (key : Key) (read? : Json → Option α) : Except ConfigError α :=
  match read? (c.values key) with
  | some a => .ok a
  | none => .error .wrongType

/-- How many element values are remembered. -/
def cacheSize (c : Config) : Except ConfigError Int :=
  (c.values .cacheSize).toInteger.mapError .integer

/-- What the engine takes from the configuration. -/
def engine (c : Config) : Except ConfigError Engine := do
  let cacheSize ← c.cacheSize
  let interval ← c.valueOf .progressInterval Search.intervalOf?
  let seconds ← c.valueOf .searchSeconds Search.secondsOf?
  let evaluations ← c.valueOf .searchEvaluations Search.evaluationsOf?
  let seed := match c.values .searchSeed with
    | .null => none
    | v => some v.plain
  return ⟨cacheSize, c.batchSize, interval, seconds, evaluations, seed⟩

/-- The zodiac year of imported draws that name none. -/
def zodiacYear (c : Config) : Except ConfigError Int :=
  (c.values .zodiacYear).toInteger.mapError .integer

end Config

end DrawFormula
