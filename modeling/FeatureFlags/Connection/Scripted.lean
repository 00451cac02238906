import FeatureFlags.Connection.Feed
import FeatureFlags.Context
import FeatureFlags.Error

/-!
# Scripted connections

A connection whose behaviour is set from outside: when it is initialized, which flags it has, and
what becomes of an identify.

* `Scripted.Start`     how its initialization ends, and when;
* `Scripted.identify`  the flags it answers with.
-/

namespace FeatureFlags

/-- How the first flags arrive. -/
inductive Scripted.Start where
  | ready
  | failing
  /-- after so many milliseconds -/
  | after (ms : Nat)
  | never
  deriving DecidableEq

structure Scripted where
  start : Scripted.Start
  /-- the flags that every identify brings -/
  identifyFlags : Option FlagSet
  failing : Bool

namespace Scripted

def initializationFailure : BackendError := .rejected "scripted failure"
def identifyFailure : BackendError := .rejected "scripted identify failure"

/-- What an identify answers on a connection with the given flags. -/
def identify (s : Scripted) (current : FlagSet) : Except BackendError FlagSet :=
  if s.failing then .error identifyFailure else .ok (s.identifyFlags.getD current)

end Scripted

end FeatureFlags
