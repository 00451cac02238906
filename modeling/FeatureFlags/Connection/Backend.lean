import FeatureFlags.Connection.Memory
import FeatureFlags.Connection.Remote.Network
import FeatureFlags.Connection.Scripted

/-!
# Backends

* `Backend`         what connections are opened on;
* `Backend.Event`   what a backend sees of them.
-/

namespace FeatureFlags

inductive Backend where
  /-- definitions that are evaluated in process -/
  | memory (definitions : List Definition)
  | scripted (start : Scripted.Start) (flags : FlagSet)
  /-- a remote service that is polled at an interval -/
  | remote (network : Remote.Network) (interval : Nat)

inductive Backend.Event where
  | opened (key : String) (context : Context)
  | identified (context : Context)
  | closed
  | request (r : Remote.Request)

end FeatureFlags
