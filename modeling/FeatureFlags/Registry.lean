import FeatureFlags.Listener
import FeatureFlags.Shape

/-!
# Registries of change streams

A registry hands out streams of the new values of single flags.  However many streams there are on a
flag, the registry has one listener for it on its connection: the first stream adds it, the last one
takes it away.

* `Registry.Stream`     what a stream was given so far, and how much of it was taken;
* `Registry.Group`      the streams on one flag, and their listener;
* `subscribe`, `unsubscribe`, `clear`   change the registry together with the listeners of its
                                        connection;
* `Registry.dispatch`   what a call of the listener does: nothing before the registry is enabled.
-/

namespace FeatureFlags

abbrev StreamId := Nat

namespace Registry

/-- What a listener on the connection is for: the streams on a flag, or something else. -/
inductive Role (κ : Type) where
  | subscribers (flag : String)
  | other (role : κ)

structure Stream where
  id : StreamId
  flag : String
  /-- the values it was given, the first one first -/
  delivered : List Json
  /-- how many of them were taken -/
  taken : Nat

structure Group where
  flag : String
  listener : ListenerId
  members : List StreamId

end Registry

structure Registry where
  groups : List Registry.Group
  /-- the streams that are not dropped -/
  streams : List Registry.Stream
  enabled : Bool
  /-- the number of the next stream -/
  next : StreamId

namespace Registry

def empty : Registry := ⟨[], [], false, 0⟩

instance : Inhabited Registry := ⟨empty⟩

def enable (r : Registry) : Registry := { r with enabled := true }

def group? (r : Registry) (flag : String) : Option Group := r.groups.find? (fun g => g.flag = flag)

def stream? (r : Registry) (id : StreamId) : Option Stream := r.streams.find? (fun s => s.id = id)

/-- number of streams on a flag that still get values -/
def count (r : Registry) (flag : String) : Nat :=
  match r.group? flag with
  | some g => g.members.length
  | none => 0

/-- whether a stream still gets values -/
def attached (r : Registry) (id : StreamId) : Bool := r.groups.any (fun g => g.members.contains id)

/-! ## subscriptions -/

def Group.join (flag : String) (id : StreamId) (g : Group) : Group :=
  if g.flag = flag then { g with members := g.members ++ [id] } else g

def Group.leave (flag : String) (id : StreamId) (g : Group) : Group :=
  if g.flag = flag then { g with members := g.members.filter (fun m => m ≠ id) } else g

variable {κ : Type}

/-- A new stream on a flag. -/
def subscribe (r : Registry) (ls : ListenerSet (Role κ)) (flag : String) :
    Registry × ListenerSet (Role κ) × StreamId :=
  let streams := r.streams ++ [⟨r.next, flag, [], 0⟩]
  match r.group? flag with
  | some _ =>
    ({ r with groups := r.groups.map (Group.join flag r.next), streams, next := r.next + 1 }, ls,
      r.next)
  | none =>
    let l := ls.add (.flag flag) (.subscribers flag)
    ({ r with groups := r.groups ++ [⟨flag, l.2, [r.next]⟩], streams, next := r.next + 1 }, l.1,
      r.next)

/-- Takes a stream out of its group, and the listener of the group with the last one. -/
def detach (r : Registry) (ls : ListenerSet (Role κ)) (flag : String) (id : StreamId) :
    Registry × ListenerSet (Role κ) :=
  match r.group? flag with
  | none => (r, ls)
  | some g =>
    if (g.leave flag id).members.isEmpty then
      ({ r with groups := r.groups.filter (fun g => g.flag ≠ flag) }, ls.remove g.listener)
    else ({ r with groups := r.groups.map (Group.leave flag id) }, ls)

/-- Drops a stream. -/
def unsubscribe (r : Registry) (ls : ListenerSet (Role κ)) (id : StreamId) :
    Registry × ListenerSet (Role κ) :=
  match r.stream? id with
  | none => (r, ls)
  | some s => detach { r with streams := r.streams.filter (fun s => s.id ≠ id) } ls s.flag id

/-- No stream gets anything any more, and no listener is left. -/
def clear (r : Registry) (ls : ListenerSet (Role κ)) : Registry × ListenerSet (Role κ) :=
  ({ r with groups := [] }, r.groups.foldl (fun ls g => ls.remove g.listener) ls)

/-- The registry is gone: its streams end, the listeners are left behind. -/
def abandon (r : Registry) : Registry := { r with groups := [], enabled := false }

/-! ## values -/

/-- what a stream gets for a change; a flag that disappeared is null -/
def valueOf (c : Change) : Json := c.current.getD .null

def Stream.give (members : List StreamId) (values : List Json) (s : Stream) : Stream :=
  if members.contains s.id then { s with delivered := s.delivered ++ values } else s

/-- Gives the new values to the streams on the flag. -/
def dispatch (r : Registry) (flag : String) (changes : List Change) : Registry :=
  if r.enabled then
    match r.group? flag with
    | some g => { r with streams := r.streams.map (Stream.give g.members (changes.map valueOf)) }
    | none => r
  else r

/-- Before it is enabled a registry gives nothing to anybody. -/
theorem dispatch_of_disabled {r : Registry} (h : r.enabled = false) (flag : String)
    (changes : List Change) : r.dispatch flag changes = r := by
  rw [dispatch, h, if_neg Bool.false_ne_true]

theorem dispatch_of_no_group {r : Registry} {flag : String} (h : r.group? flag = none)
    (changes : List Change) : r.dispatch flag changes = r := by
  rw [dispatch, h]
  split <;> rfl

def Stream.waiting (s : Stream) : List Json := s.delivered.drop s.taken

def Stream.takeAll (id : StreamId) (s : Stream) : Stream :=
  if s.id = id then { s with taken := s.delivered.length } else s

/-- Takes all that waits in a stream. -/
def take (r : Registry) (id : StreamId) : Registry × List Json :=
  match r.stream? id with
  | some s => ({ r with streams := r.streams.map (Stream.takeAll id) }, s.waiting)
  | none => (r, [])

theorem waiting_takeAll (s : Stream) : (s.takeAll s.id).waiting = [] := by
  rw [Stream.takeAll, if_pos rfl, Stream.waiting, List.drop_length]

/-- the values of a stream that have a shape -/
def itemsOf (shape : Shape) (values : List Json) : List Json := values.filterMap shape.read?

end Registry

/-- A stream in the hands of a reader. -/
structure Subscription where
  id : StreamId
  shape : Shape

end FeatureFlags
