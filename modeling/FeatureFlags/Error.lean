import FeatureFlags.Json.Decode
import FeatureFlags.Text.Duration

/-!
# Errors

* `BackendError`   what can go wrong on a connection to a flag service;
* `ClientError`    what can go wrong in the life of a client;
* `ConfigError`    what can be wrong with the configuration.
-/

namespace FeatureFlags

inductive BackendError where
  /-- no answer that could be read -/
  | http
  /-- an answer that is no success -/
  | status (code : Nat) (body : String)
  | rejected (reason : String)
  | closed
  deriving DecidableEq

namespace BackendError

def message : BackendError → String
  | http => "http error"
  | status code body =>
    "flag service responded with " ++ String.ofList (Text.decimal code) ++ ": " ++ body
  | rejected reason => "flag service rejected the request: " ++ reason
  | closed => "connection closed"

end BackendError

inductive ClientError where
  | timeout (after : Duration)
  | initialization (cause : BackendError)
  | refresh (cause : BackendError)
  deriving DecidableEq

namespace ClientError

def message : ClientError → String
  | timeout after => "flag backend did not initialize within " ++ after.text
  | initialization cause => "flag backend failed to initialize: " ++ cause.message
  | refresh cause => "flag refresh failed: " ++ cause.message

end ClientError

/-- Why a variable has no usable value. -/
inductive ValueError where
  | noNumber
  | tooLarge
  | json (cause : DecodeError)
  deriving DecidableEq

def ValueError.message : ValueError → String
  | .noNumber => "invalid digit found in string"
  | .tooLarge => "number too large to fit in target type"
  | .json cause => cause.message

inductive ConfigError where
  | missing (name : String)
  | invalid (name : String) (reason : ValueError)
  deriving DecidableEq

namespace ConfigError

def message : ConfigError → String
  | missing name => name ++ " missing, it is required"
  | invalid name reason => name ++ " is invalid: " ++ reason.message

end ConfigError

end FeatureFlags
