import FeatureFlags.Text.Digits

/-!
# Durations

A duration is written in the largest of the units s, ms, µs and ns that goes into it, with a
fraction as long as needed: `5s`, `1.5s`, `250ms`, `0ns`.
-/

namespace FeatureFlags

/-- A span of time in nanoseconds. -/
structure Duration where
  nanos : Nat
  deriving DecidableEq

namespace Duration

def ofParts (seconds nanos : Nat) : Duration := ⟨seconds * Nat.pow 10 9 + nanos⟩

/-- in the unit of `10 ^ digits` nanoseconds -/
def inUnit (d : Duration) (digits : Nat) (unit : String) : String :=
  String.ofList (Text.decimal (d.nanos / Nat.pow 10 digits) ++
    Text.fraction digits (d.nanos % Nat.pow 10 digits)) ++ unit

def text (d : Duration) : String :=
  if Nat.pow 10 9 ≤ d.nanos then d.inUnit 9 "s"
  else if Nat.pow 10 6 ≤ d.nanos then d.inUnit 6 "ms"
  else if Nat.pow 10 3 ≤ d.nanos then d.inUnit 3 "µs"
  else d.inUnit 0 "ns"

end Duration

end FeatureFlags
