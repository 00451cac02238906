import FeatureFlags.Connection.Feed
import FeatureFlags.Registry

/-!
# A registry at work

A registry on a connection whose flag set is put in place by commands, where other listeners may
give commands too while they are called.

* `Command`         what can be done; a `hook` is a listener that gives commands;
* `Desk.perform`    one command, its reply, and the replies to the commands that hooks gave
                    meanwhile.
-/

namespace FeatureFlags.Registry

inductive Command where
  | push (flags : FlagSet)
  | listeners (topic : Topic)
  | subscribe (label flag : String) (shape : Shape)
  | poll (label : String)
  | drop (label : String)
  | enable
  | count (flag : String)
  | clear
  | hook (topic : Topic) (onCall : List Command)
  | nothing

inductive Reply where
  | done
  | number (n : Nat)
  /-- what waited in a stream, and whether nothing will follow -/
  | items (values : List Json) (ended : Bool)
  | noStream

/-- A listener that gives commands when it is called. -/
structure Hook where
  onCall : List Command

structure Desk where
  feed : Feed (Role Hook)
  registry : Registry
  /-- streams by label -/
  held : Table Subscription

namespace Desk

def start (flags : FlagSet) : Desk := ⟨⟨flags, .empty⟩, .empty, {}⟩

def release (d : Desk) (id : StreamId) : Desk :=
  let r := d.registry.unsubscribe d.feed.listeners id
  { d with registry := r.1, feed := { d.feed with listeners := r.2 } }

/-- A new stream under a label; a stream that had the label is dropped after that. -/
def subscribe (d : Desk) (label flag : String) (shape : Shape) : Desk :=
  let r := d.registry.subscribe d.feed.listeners flag
  let d' : Desk :=
    { registry := r.1, feed := { d.feed with listeners := r.2.1 },
      held := d.held.insert label ⟨r.2.2, shape⟩ }
  match d.held.find? label with
  | some old => d'.release old.id
  | none => d'

def poll (d : Desk) (label : String) : Desk × Reply :=
  match d.held.find? label with
  | some s =>
    let r := d.registry.take s.id
    ({ d with registry := r.1 }, .items (itemsOf s.shape r.2) (!d.registry.attached s.id))
  | none => (d, .noStream)

def drop (d : Desk) (label : String) : Desk × Reply :=
  match d.held.find? label with
  | some s => ({ d.release s.id with held := d.held.erase label }, .done)
  | none => (d, .noStream)

def clear (d : Desk) : Desk :=
  let r := d.registry.clear d.feed.listeners
  { d with registry := r.1, feed := { d.feed with listeners := r.2 } }

/-- Makes calls one after the other: the registry passes values on, and a hook gives its
commands. -/
def callAll (obey : Desk → List Command → Desk × List Reply) :
    Desk → List (Call (Role Hook)) → Desk × List Reply
  | d, [] => (d, [])
  | d, c :: cs =>
    match c.role with
    | .subscribers flag =>
      callAll obey { d with registry := d.registry.dispatch flag c.changes } cs
    | .other hook =>
      let r := obey d hook.onCall
      let rest := callAll obey r.1 cs
      (rest.1, r.2 ++ rest.2)

/-- Commands one after the other; the replies to hooks within a command come before its own. -/
def performAll (perform : Desk → Command → Desk × Reply × List Reply) :
    Desk → List Command → Desk × List Reply
  | d, [] => (d, [])
  | d, c :: cs =>
    let r := perform d c
    let rest := performAll perform r.1 cs
    (rest.1, r.2.2 ++ r.2.1 :: rest.2)

/-- One command; `depth` bounds how deep pushes nest. -/
def perform : Nat → Desk → Command → Desk × Reply × List Reply
  | 0, d, .push _ => (d, .done, [])
  | depth + 1, d, .push flags =>
    let r := d.feed.replace flags
    let s := callAll (performAll (perform depth)) { d with feed := r.1 } r.2
    (s.1, .done, s.2)
  | _, d, .listeners topic => (d, .number (d.feed.listeners.count topic), [])
  | _, d, .subscribe label flag shape => (d.subscribe label flag shape, .done, [])
  | _, d, .poll label =>
    let r := d.poll label
    (r.1, r.2, [])
  | _, d, .drop label =>
    let r := d.drop label
    (r.1, r.2, [])
  | _, d, .enable => ({ d with registry := d.registry.enable }, .done, [])
  | _, d, .count flag => (d, .number (d.registry.count flag), [])
  | _, d, .clear => (d.clear, .done, [])
  | _, d, .hook topic onCall =>
    ({ d with feed := (d.feed.listen topic (.other ⟨onCall⟩)).1 }, .done, [])
  | _, d, .nothing => (d, .done, [])

/-- deeper than any nesting of pushes that ends -/
def depthLimit : Nat := 10000

def step (d : Desk) (c : Command) : Desk × Reply × List Reply := perform depthLimit d c

end Desk

end FeatureFlags.Registry
