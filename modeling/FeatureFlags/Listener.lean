import FeatureFlags.FlagSet

/-!
# Listeners

Who is told about changed flags.

* `Topic`              the changes of one flag, or any change;
* `ListenerSet ρ`      listeners in the order of their registration; `ρ` is what is known of one;
* `ListenerSet.calls`  the calls of one emission.  They are fixed when it begins: what the called
                       listeners do to the set does not matter any more.
-/

namespace FeatureFlags

inductive Topic where
  | anyChange
  | flag (name : String)
  deriving DecidableEq

def Topic.text : Topic → String
  | anyChange => "change"
  | flag name => "change:" ++ name

/-- the number of a listener within its set -/
abbrev ListenerId := Nat

structure Listener (ρ : Type) where
  id : ListenerId
  topic : Topic
  role : ρ

/-- One call of a listener. -/
structure Call (ρ : Type) where
  role : ρ
  changes : List Change

structure ListenerSet (ρ : Type) where
  listeners : List (Listener ρ)
  /-- the number of the next listener -/
  next : ListenerId

namespace ListenerSet

variable {ρ : Type}

def empty : ListenerSet ρ := ⟨[], 0⟩

instance : Inhabited (ListenerSet ρ) := ⟨empty⟩

def add (s : ListenerSet ρ) (topic : Topic) (role : ρ) : ListenerSet ρ × ListenerId :=
  (⟨s.listeners ++ [⟨s.next, topic, role⟩], s.next + 1⟩, s.next)

def has (s : ListenerSet ρ) (id : ListenerId) : Bool := s.listeners.any (fun l => l.id = id)

def remove (s : ListenerSet ρ) (id : ListenerId) : ListenerSet ρ :=
  { s with listeners := s.listeners.filter (fun l => l.id ≠ id) }

/-- what a removal answers: whether there are fewer listeners than before -/
def removes (s : ListenerSet ρ) (id : ListenerId) : Bool :=
  (s.remove id).listeners.length ≠ s.listeners.length

def count (s : ListenerSet ρ) (topic : Topic) : Nat :=
  s.listeners.countP (fun l => l.topic = topic)

def clear (s : ListenerSet ρ) : ListenerSet ρ := { s with listeners := [] }

/-- the roles of the listeners on a topic -/
def onTopic (s : ListenerSet ρ) (topic : Topic) : List ρ :=
  (s.listeners.filter (fun l => l.topic = topic)).map Listener.role

/-- First, for each change, the listeners on its flag, with this change alone; then the listeners on
any change, with all changes.  No changes, no calls. -/
def calls (s : ListenerSet ρ) (changes : List Change) : List (Call ρ) :=
  if changes.isEmpty then []
  else
    changes.flatMap (fun c => (s.onTopic (.flag c.name)).map (fun r => ⟨r, [c]⟩)) ++
      (s.onTopic .anyChange).map (fun r => ⟨r, changes⟩)

theorem calls_nil (s : ListenerSet ρ) : s.calls [] = [] := rfl

end ListenerSet

end FeatureFlags
