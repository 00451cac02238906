import FeatureFlags.Config.EnvFile
import FeatureFlags.Error
import FeatureFlags.FlagSet
import FeatureFlags.Identity

/-!
# Configuration

What a host is started with, read from environment variables.

* `Variable.read`     a variable that is blank counts as not set;
* `readNatural`       decimal digits, after a plus sign or not, below a limit;
* `Config.ofEnvironment`   the configuration, or the first variable at fault;
* `Config.load`       the same after an environment file was read.
-/

namespace FeatureFlags

/-- the digits of a number, each of which has to keep it below the limit -/
def readDigits (limit : Nat) : Nat → List Char → Except ValueError Nat
  | n, [] => .ok n
  | n, c :: cs =>
    match Numeral.digit? c with
    | none => .error .noNumber
    | some d => if 10 * n + d < limit then readDigits limit (10 * n + d) cs else .error .tooLarge

/-- a number below the limit, without a sign or with a plus sign -/
def readNatural (limit : Nat) (cs : List Char) : Except ValueError Nat :=
  match cs with
  | [] => .error .noNumber
  | ['+'] => .error .noNumber
  | '+' :: ds => readDigits limit 0 ds
  | ds => readDigits limit 0 ds

structure Config where
  port : Nat
  /-- without one there is no client -/
  accessKey : Option String
  backendUrl : String
  environment : String
  definitionsPath : Option String
  /-- in milliseconds -/
  initializationTimeout : Nat
  /-- in milliseconds -/
  pollInterval : Nat
  defaultLocale : String
  overwrites : FlagSet
  corsOrigin : Option String

namespace Config

open EnvFile (Environment)

/-- the value of a variable that is not blank -/
def setting? (env : Environment) (name : String) : Option String :=
  (env.find? name).filter (fun value => !Text.isBlankText value)

def portLimit : Nat := Nat.pow 2 16
def millisLimit : Nat := Nat.pow 2 64

def natural (limit : Nat) (name value : String) : Except ConfigError Nat :=
  (readNatural limit (Text.trimChars value.toList)).mapError (.invalid name)

def requiredNatural (env : Environment) (limit : Nat) (name : String) : Except ConfigError Nat :=
  match setting? env name with
  | some value => natural limit name value
  | none => .error (.missing name)

def naturalOr (env : Environment) (limit : Nat) (name : String) (default : Nat) :
    Except ConfigError Nat :=
  match setting? env name with
  | some value => natural limit name value
  | none => .ok default

def flagSetOr (env : Environment) (name : String) (default : FlagSet) :
    Except ConfigError FlagSet :=
  match setting? env name with
  | some value => (decodeText FlagSet.decode value).mapError (fun e => .invalid name (.json e))
  | none => .ok default

def defaultBackendUrl : String := "http://127.0.0.1:8080"
def defaultEnvironment : String := "production"
def defaultInitializationTimeout : Nat := 5000
def defaultPollInterval : Nat := 30000

/-- the variables that are read -/
def variableNames : List String :=
  ["PORT", "FLAG_BACKEND_KEY", "FLAG_BACKEND_URL", "FLAG_ENVIRONMENT", "FLAG_DEFINITIONS_PATH",
    "FLAG_INIT_TIMEOUT_MS", "FLAG_POLL_INTERVAL_MS", "DEFAULT_LOCALE", "EXPERIMENT_OVERWRITES",
    "CORS_ALLOWED_ORIGIN"]

def ofEnvironment (env : Environment) : Except ConfigError Config := do
  let port ← requiredNatural env portLimit "PORT"
  let initializationTimeout ←
    naturalOr env millisLimit "FLAG_INIT_TIMEOUT_MS" defaultInitializationTimeout
  let pollInterval ← naturalOr env millisLimit "FLAG_POLL_INTERVAL_MS" defaultPollInterval
  let overwrites ← flagSetOr env "EXPERIMENT_OVERWRITES" {}
  pure
    { port
      accessKey := setting? env "FLAG_BACKEND_KEY"
      backendUrl := (setting? env "FLAG_BACKEND_URL").getD defaultBackendUrl
      environment := (setting? env "FLAG_ENVIRONMENT").getD defaultEnvironment
      definitionsPath := setting? env "FLAG_DEFINITIONS_PATH"
      initializationTimeout
      pollInterval
      defaultLocale := (setting? env "DEFAULT_LOCALE").getD Identity.defaultLocale
      overwrites
      corsOrigin := setting? env "CORS_ALLOWED_ORIGIN" }

/-- The configuration after the environment file, if there is one, was read. -/
def load (env : Environment) (file : Option String) : Except ConfigError Config :=
  ofEnvironment (match file with
    | some text => EnvFile.load env text
    | none => env)

/-- the variables that count: those that are read, and those that the environment file refers to -/
def names (file : Option String) : List String :=
  variableNames ++ (file.map EnvFile.references).getD []

/-- where the host listens -/
def address (c : Config) : String := "127.0.0.1:" ++ String.ofList (Text.decimal c.port)

end Config

end FeatureFlags
