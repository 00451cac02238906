import FeatureFlags.Listener

/-!
# Feeds

What every connection to a flag service has: the latest flag set, and listeners that are told what
is new in it.

* `Feed.replace`   puts a new flag set in place; all changes of flags go through it.
-/

namespace FeatureFlags

structure Feed (ρ : Type) where
  flags : FlagSet
  listeners : ListenerSet ρ

namespace Feed

variable {ρ : Type}

def empty : Feed ρ := ⟨{}, .empty⟩

/-- The feed with another flag set, and the calls that tell the listeners. -/
def replace (f : Feed ρ) (flags : FlagSet) : Feed ρ × List (Call ρ) :=
  ({ f with flags }, f.listeners.calls (f.flags.changesTo flags))

def listen (f : Feed ρ) (topic : Topic) (role : ρ) : Feed ρ × ListenerId :=
  let r := f.listeners.add topic role
  ({ f with listeners := r.1 }, r.2)

def ignore (f : Feed ρ) (id : ListenerId) : Feed ρ :=
  { f with listeners := f.listeners.remove id }

def forgetListeners (f : Feed ρ) : Feed ρ := { f with listeners := f.listeners.clear }

end Feed

end FeatureFlags
