import FeatureFlags.Connection.Backend
import FeatureFlags.Connection.Remote.Service

/-!
# Connections by label

Connections opened on one backend, each known under a label, with listeners that are known under
labels too.

* `Exchange.Side`      the connections of a backend;
* `Exchange.perform`   one command, and the calls of listeners it leads to;
* `Exchange.journal`   what the backend saw.
-/

namespace FeatureFlags

namespace Exchange

inductive Command where
  | connect (label key : String) (context : Context)
  | wait (label : String)
  | identify (label : String) (context : Context)
  | flags (label : String)
  | listen (label listener : String) (topic : Topic)
  | ignore (label listener : String)
  | close (label : String)
  | forget (label : String)
  | upsert (definition : Definition)
  | removeFlag (key : String)
  | push (flags : FlagSet)
  | identifyFlags (flags : FlagSet)
  | failIdentify (failing : Bool)
  | count (topic : Topic)
  | advance (ms : Nat)
  | nothing

inductive Reply where
  | done
  /-- how the first fetch ended, if it did -/
  | readiness (outcome : Option (Except BackendError Unit))
  /-- what an identify answered, if it did -/
  | identified (outcome : Option (Except BackendError FlagSet))
  | flags (flags : FlagSet)
  | number (n : Nat)

/-- The connections of a backend; listeners are known by label. -/
inductive Side where
  | memory (service : Memory.Service String)
  /-- one connection, whoever opens it -/
  | scripted (script : Scripted) (feed : Feed String) (seen : List Backend.Event)
  | remote (service : Remote.Service String)

def Side.ofBackend : Backend → Side
  | .memory ds => memory (.start ds)
  | .scripted start flags => scripted ⟨start, none, false⟩ ⟨flags, .empty⟩ []
  | .remote network interval => remote (.start network interval)

end Exchange

structure Exchange where
  side : Exchange.Side
  /-- connections by label -/
  labels : Table Nat
  /-- listeners by label, with their connections -/
  listeners : Table (Nat × ListenerId)

namespace Exchange

def start (b : Backend) : Exchange := ⟨.ofBackend b, {}, {}⟩

def journal (e : Exchange) : List Backend.Event :=
  match e.side with
  | .memory _ => []
  | .scripted _ _ seen => seen
  | .remote s => s.network.arrived.map .request

/-! ## feeds -/

def Side.feed? (id : Nat) : Side → Option (Feed String)
  | memory s => (s.connection? id).map Memory.Connection.feed
  | scripted _ feed _ => some feed
  | remote s => (s.line? id).map (fun l => l.connection.feed)

def Side.setFeed (id : Nat) (feed : Feed String) : Side → Side
  | memory s =>
    match s.connection? id with
    | some c => memory (s.update id { c with feed })
    | none => memory s
  | scripted script _ seen => scripted script feed seen
  | remote s =>
    match s.line? id with
    | some l => remote (s.update id { l with connection := { l.connection with feed } })
    | none => remote s

/-! ## connections -/

/-- the number of the next connection -/
def Side.next : Side → Nat
  | memory s => s.next
  | scripted .. => 0
  | remote s => s.next

def Side.connect (key : String) (context : Context) : Side → Side
  | memory s => memory (s.connect key context)
  | scripted script feed seen => scripted script feed (seen ++ [.opened key context])
  | remote s => remote (s.connect key context)

def Side.forget (id : Nat) : Side → Side
  | memory s => memory (s.forget id)
  | scripted script feed seen => scripted script feed seen
  | remote s => remote (s.forget id)

def Side.close (id : Nat) : Side → Side
  | memory s => memory (s.close id)
  | scripted script feed seen => scripted script feed (seen ++ [.closed])
  | remote s => remote (s.close id)

/-- how the wait for the first flags ends, if it does without time passing -/
def Side.outcome? (id : Nat) : Side → Option (Except BackendError Unit)
  | memory s => (s.connection? id).map (fun c => c.seat.readiness)
  | scripted script _ _ =>
    match script.start with
    | .ready | .after 0 => some (.ok ())
    | .failing => some (.error Scripted.initializationFailure)
    | .after _ | .never => none
  | remote s => (s.line? id).bind (fun l => l.seat.outcome?)

/-- Does what can be done without time passing. -/
def Side.settle : Side → Side × List (Call String)
  | remote s =>
    let r := s.settle
    (remote r.1, r.2)
  | side => (side, [])

/-- Asks for the flags of another context; answers what is there without time passing. -/
def Side.identify (id : Nat) (context : Context) :
    Side → Side × List (Call String) × Option (Except BackendError FlagSet)
  | memory s =>
    let r := s.identify id context
    (memory r.1, r.2.1, some r.2.2)
  | scripted script feed seen =>
    let seen := seen ++ [.identified context]
    match script.identify feed.flags with
    | .error e => (scripted script feed seen, [], some (.error e))
    | .ok flags =>
      let r := feed.replace flags
      (scripted script r.1 seen, r.2, some (.ok flags))
  | remote s =>
    match s.identify id context with
    | (s, .error e) => (remote s, [], some (.error e))
    | (s, .ok ticket) =>
      let r := s.settle
      (remote r.1, r.2, r.1.result? ticket)

/-! ## commands -/

def withLabel (e : Exchange) (label : String) (f : Nat → Exchange × List (Call String) × Reply) :
    Exchange × List (Call String) × Reply :=
  match e.labels.find? label with
  | some id => f id
  | none => (e, [], .done)

def connect (e : Exchange) (label key : String) (context : Context) : Exchange :=
  let side := e.side.connect key context
  let side := match e.labels.find? label with
    | some old => side.forget old
    | none => side
  { e with side, labels := e.labels.insert label e.side.next }

def listen (e : Exchange) (id : Nat) (listener : String) (topic : Topic) : Exchange :=
  match e.side.feed? id with
  | some feed =>
    let r := feed.listen topic listener
    { e with side := e.side.setFeed id r.1, listeners := e.listeners.insert listener (id, r.2) }
  | none => e

def ignore (e : Exchange) (id : Nat) (listener : String) : Exchange :=
  match e.side.feed? id, e.listeners.find? listener with
  | some feed, some (owner, l) =>
    if owner = id then { e with side := e.side.setFeed id (feed.ignore l) } else e
  | _, _ => e

def act (e : Exchange) : Command → Exchange × List (Call String) × Reply
  | .connect label key context => (e.connect label key context, [], .done)
  | .wait label => e.withLabel label fun id => (e, [], .readiness (e.side.outcome? id))
  | .identify label context => e.withLabel label fun id =>
    let r := e.side.identify id context
    ({ e with side := r.1 }, r.2.1, .identified r.2.2)
  | .flags label => e.withLabel label fun id =>
    (e, [], .flags (((e.side.feed? id).map Feed.flags).getD {}))
  | .listen label listener topic => e.withLabel label fun id =>
    (e.listen id listener topic, [], .done)
  | .ignore label listener => e.withLabel label fun id => (e.ignore id listener, [], .done)
  | .close label => e.withLabel label fun id => ({ e with side := e.side.close id }, [], .done)
  | .forget label => e.withLabel label fun id =>
    ({ e with side := e.side.forget id, labels := e.labels.erase label }, [], .done)
  | .upsert d =>
    match e.side with
    | .memory s =>
      let r := s.upsert d
      ({ e with side := .memory r.1 }, r.2, .done)
    | _ => (e, [], .done)
  | .removeFlag key =>
    match e.side with
    | .memory s =>
      let r := s.removeFlag key
      ({ e with side := .memory r.1 }, r.2, .done)
    | _ => (e, [], .done)
  | .push flags =>
    match e.side with
    | .scripted script feed seen =>
      let r := feed.replace flags
      ({ e with side := .scripted script r.1 seen }, r.2, .done)
    | _ => (e, [], .done)
  | .identifyFlags flags =>
    match e.side with
    | .scripted script feed seen =>
      let script := { script with identifyFlags := some flags }
      ({ e with side := .scripted script feed seen }, [], .done)
    | _ => (e, [], .done)
  | .failIdentify failing =>
    match e.side with
    | .scripted script feed seen =>
      ({ e with side := .scripted { script with failing } feed seen }, [], .done)
    | _ => (e, [], .done)
  | .count topic =>
    match e.side with
    | .scripted _ feed _ => (e, [], .number (feed.listeners.count topic))
    | _ => (e, [], .done)
  | .advance ms =>
    match e.side with
    | .remote s =>
      let r := s.advance ms
      ({ e with side := .remote r.1 }, r.2, .done)
    | _ => (e, [], .done)
  | .nothing => (e, [], .done)

/-- One command, and all work that can be done after it without time passing. -/
def perform (e : Exchange) (c : Command) : Exchange × List (Call String) × Reply :=
  let r := e.act c
  let s := r.1.side.settle
  ({ r.1 with side := s.1 }, r.2.1 ++ s.2, r.2.2)

end Exchange

end FeatureFlags
