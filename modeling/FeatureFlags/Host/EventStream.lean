import FeatureFlags.Json.Printer

/-!
# Event streams

The text of a response that never ends: one event per new value of a flag, and a comment now and
then while there is nothing to tell.

* `changeEvent`         the text of an event;
* `EventStream.read`    what is read from a stream, given the values that came.
-/

namespace FeatureFlags

/-- A `change` event holds the text of the value, which has no line breaks. -/
def changeEvent (value : Json) : String := "event: change\ndata: " ++ value.print ++ "\n\n"

/-- A comment, which keeps the line open. -/
def keepAlive : String := ":\n\n"

structure EventStream where
  /-- where its values come from -/
  stream : Nat
  /-- when it was opened, or text was last read from it -/
  since : Nat
  deriving DecidableEq

namespace EventStream

/-- how long a stream may be silent -/
def silence : Nat := 15000

/-- the text for the values that came -/
def events (values : List Json) : String := String.join (values.map changeEvent)

/-- What is read at a time; nothing more comes once no more values can come. -/
def read (now : Nat) (values : List Json) (ended : Bool) (e : EventStream) : EventStream × String :=
  if !values.isEmpty then ({ e with since := now }, events values)
  else if !ended && e.since + silence ≤ now then ({ e with since := now }, keepAlive)
  else (e, "")

theorem events_cons (v : Json) (vs : List Json) :
    events (v :: vs) = changeEvent v ++ events vs := by
  rw [events, List.map_cons, String.join_cons]
  rfl

end EventStream

end FeatureFlags
