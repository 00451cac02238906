import FeatureFlags.Listener.Emission
import FeatureFlags.Table

/-!
# Listeners that act

Listeners whose conduct is a list of actions on the set they belong to.  Listeners have labels, and
an action speaks of the listener that was last added under one.

* `Action`           what can be done with a set of listeners;
* `Action.conduct`   actions as conduct; what the listeners know is the labels;
* `Troupe`           a set of listeners that act;
* `Troupe.step`      one action, with its answer and the calls it leads to;
* `Calling.logAll`   calls, the nested ones among them, in the order in which they begin.
-/

namespace FeatureFlags

inductive Action where
  /-- adds a listener that does `onCall` when it is called -/
  | add (label : String) (topic : Topic) (onCall : List Action)
  | remove (label : String)
  | count (topic : Topic)
  | clear
  | emit (changes : List Change)

/-- A listener that acts. -/
structure Actor where
  label : String
  onCall : List Action

/-- the listener last added under each label -/
abbrev Labels := Table ListenerId

/-- An action, and what follows it. -/
def Action.conduct (a : Action) (next : Conduct Labels Actor) : Conduct Labels Actor :=
  match a with
  | add label topic onCall =>
    .add topic ⟨label, onCall⟩ fun id =>
      .look fun labels => .note (labels.insert label id) next
  | remove label =>
    .look fun labels =>
      match labels.find? label with
      | some id => .remove id fun _ => next
      | none => next
  | count topic => .count topic fun _ => next
  | clear => .clear next
  | emit changes => .emit changes next

/-- An actor does the same whatever it is told. -/
def Actor.conduct (a : Actor) (_ : List Change) : Conduct Labels Actor :=
  a.onCall.foldr Action.conduct .done

/-- What an action answers. -/
inductive Answer where
  | done
  | removed (was : Bool)
  | number (n : Nat)

/-- The answer to an action, read off what was done.  A label that nobody has removes nobody. -/
def Action.answer : Action → List (Deed Actor) → Answer
  | remove _, .removed _ was :: _ => .removed was
  | remove _, _ => .removed false
  | count _, .counted _ n :: _ => .number n
  | _, _ => .done

namespace Calling

def entry? : Moment Actor → Option (String × List Change)
  | .called l changes => some (l.role.label, changes)
  | _ => none

def logAll (ks : List (Calling Actor)) : List (String × List Change) :=
  (allMoments ks).filterMap entry?

end Calling

abbrev Troupe := Stage Labels Actor

namespace Troupe

def empty : Troupe := ⟨.empty, {}⟩

/-- deeper than any emission that ends -/
def depthLimit : Nat := 10000

def step (t : Troupe) (a : Action) : Troupe × Answer × List (Calling Actor) :=
  match (a.conduct .done).run (emission Actor.conduct depthLimit) t with
  | some (t', ds) => (t', a.answer ds, ds.flatMap Deed.calls)
  | none => (t, .done, [])

end Troupe

end FeatureFlags
