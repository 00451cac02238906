import FeatureFlags.Client
import FeatureFlags.Connection.Backend

/-!
# Sessions

A client on a connection of its own, with a clock that only moves when it is told to.  Between two
moves of the clock all work is done that can be done, one piece after the other: a fetch begins, the
wait for the first flags ends, the worker identifies, a published identity is followed, an answer
arrives.

* `Session.Side`       the other side of the connection: the service, and the connection without its
                       feed;
* `Session.apply`      one event of the client, and what it means to the other side;
* `Session.proceed?`   what one of the tasks makes of the session;
* `Session.take?`, `Session.follow?`   what worker and watcher may still do when the client is shut
                       down;
* `Session.task?`      the next piece of work; there is none exactly when the session is `Idle`;
* `Session.settle`     all work that can be done without time passing;
* `Session.advance`, `Session.awaitFlags`   the clock moves;
* `Session.journal`    what the backend saw.
-/

namespace FeatureFlags

namespace Session

inductive Side where
  | memory (definitions : Definitions) (seat : Memory.Seat)
  | scripted (script : Scripted)
  | remote (network : Remote.Network) (seat : Remote.Seat)

/-- the number of the only connection -/
def line : Nat := 0

namespace Side

/-- A closed connection stays closed. -/
def close (now : Nat) : Side → Side
  | memory definitions seat => memory definitions seat.close
  | scripted script => scripted script
  | remote network seat => remote (network.abandon line now seat seat.close) seat.close

/-- How the wait for the first flags ends, if it does.  It began at a given time. -/
def readiness? (began now : Nat) : Side → Option (Except BackendError Unit)
  | memory _ seat => some seat.readiness
  | scripted script =>
    match script.start with
    | .ready => some (.ok ())
    | .failing => some (.error Scripted.initializationFailure)
    | .after ms => if began + ms ≤ now then some (.ok ()) else none
    | .never => none
  | remote _ seat => seat.outcome?

/-- Asks for the flags of another context; answers what is there at once. -/
def identify (now : Nat) (current : FlagSet) (context : Context) :
    Side → Side × Option (Except BackendError FlagSet)
  | memory definitions seat =>
    match seat.identify context with
    | .ok seat => (memory definitions seat, some (.ok (seat.flags definitions)))
    | .error e => (memory definitions seat, some (.error e))
  | scripted script => (scripted script, some (script.identify current))
  | remote network seat =>
    match seat.identify context 0 with
    | .ok next => (remote (network.follow line now seat next) next, none)
    | .error e => (remote network seat, some (.error e))

/-- What the other side can do by itself. -/
def fetch? (now : Nat) : Side → Option Side
  | remote network seat =>
    (seat.next? true now).map (fun next => remote (network.follow line now seat next) next)
  | _ => none

/-- The oldest answer that is there, and what it tells the client. -/
def land? (now : Nat) : Side → Option (Side × List Client.Event)
  | remote network seat =>
    (network.land? now).map fun r =>
      let answer := r.1.answer
      let next := seat.finish now (answer.map (fun _ => ()))
      let events := match seat.turn, answer with
        | .fetching (.identify _) _, _ => [.answered answer]
        | _, .ok flags => [.arrive flags]
        | _, .error _ => []
      (remote r.2 next, events)
  | _ => none

/-- The times at which the wait for the first flags, or an answer, may end by itself. -/
def timers (began : Nat) : Side → List Nat
  | memory _ _ => []
  | scripted script =>
    match script.start with
    | .after ms => [began + ms]
    | _ => []
  | remote network _ => network.flights.map Remote.Flight.ends

end Side

end Session

open Session in
structure Session where
  client : Client
  side : Side
  now : Nat
  /-- how long the first flags are waited for -/
  patience : Nat
  /-- when that wait began -/
  began : Option Nat

namespace Session

/-! ## beginning -/

/-- The feed of a new connection, the connection without it, and whether closing it forgets
listeners. -/
def connect (key : String) (context : Context) : Backend → Feed Client.Role × Side × Bool
  | .memory ds =>
    let definitions := Definitions.ofList ds
    let seat := Memory.Seat.new key context
    (⟨seat.flags definitions, .empty⟩, .memory definitions seat, true)
  | .scripted start flags => (⟨flags, .empty⟩, .scripted ⟨start, none, false⟩, false)
  | .remote network interval => (.empty, .remote network (.new key context interval), true)

/-- A session at its beginning, in which no work was done yet. -/
def start (backend : Backend) (options : Client.Options) (patience : Nat) (identity : Identity) :
    Session :=
  let c := connect options.key identity.context backend
  { client := .start options identity c.1 c.2.2, side := c.2.1, now := 0, patience, began := none }

/-! ## events -/

/-- An event of the client.  A client that is shut down or gone has closed its connection. -/
def apply (s : Session) (e : Client.Event) : Session :=
  let client := s.client.step e
  { s with client, side := if client.cancelled then s.side.close s.now else s.side }

def applyAll (s : Session) (es : List Client.Event) : Session := es.foldl apply s

theorem applyAll_cons (s : Session) (e : Client.Event) (es : List Client.Event) :
    s.applyAll (e :: es) = (s.apply e).applyAll es := rfl

/-! ## work -/

/-- How the wait for the first flags ends, if it does. -/
def outcome? (s : Session) : Option Client.Outcome :=
  if s.client.cancelled then some .cancelled
  else
    let began := s.began.getD s.now
    match s.side.readiness? began s.now with
    | some (.ok _) => some .ready
    | some (.error _) => some .refused
    | none => if began + s.patience ≤ s.now then some .timeout else none

/-- The wait for the first flags begins, or ends. -/
def race? (s : Session) : Option Session :=
  if s.client.waiting then s.outcome?.map (fun o => s.apply (.settle o)) else none

/-- The connection does what it can do by itself. -/
def fetch? (s : Session) : Option Session :=
  (s.side.fetch? s.now).map (fun side => { s with side })

/-- The worker takes a request, and hands it to the connection unless it is dropped. -/
def identify (s : Session) (context : Context) : Session :=
  let s := s.apply .work
  match s.client.worker with
  | .busy =>
    let r := s.side.identify s.now s.client.connection.flags context
    { s with side := r.1 }.applyAll (r.2.map Client.Event.answered).toList
  | _ => s

/-- The worker takes its next request. -/
def take? (s : Session) : Option Session :=
  match s.client.worker with
  | .idle => s.client.requests.head?.map s.identify
  | _ => none

/-- The worker stops, or takes its next request.  Stopping comes first here; a worker that can do
both may do either. -/
def work? (s : Session) : Option Session :=
  match s.client.worker with
  | .idle => if s.client.cancelled then some (s.apply .stopWorker) else s.take?
  | _ => none

/-- The watcher follows the identity that was published last. -/
def follow? (s : Session) : Option Session :=
  if s.client.following then s.client.inbox.map (fun _ => s.apply .watch) else none

/-- The watcher stops, or follows the identity that was published last.  Stopping comes first here
as it does for the worker. -/
def watch? (s : Session) : Option Session :=
  if s.client.following then
    if s.client.cancelled then some (s.apply .stopWatcher) else s.follow?
  else none

/-- An answer arrives. -/
def land? (s : Session) : Option Session :=
  (s.side.land? s.now).map (fun r => { s with side := r.1 }.applyAll r.2)

/-- The tasks of a session; an answer that arrives counts as one. -/
inductive Task where
  | fetch
  | race
  | work
  | watch
  | land
  deriving DecidableEq

/-- What a task makes of a session, if it can go on without time passing. -/
def proceed? (s : Session) : Task → Option Session
  | .fetch => s.fetch?
  | .race => s.race?
  | .work => s.work?
  | .watch => s.watch?
  | .land => s.land?

/-- Tasks go on in the order in which they were begun, and answers come after them. -/
def order : List Task := [.fetch, .race, .work, .watch, .land]

/-- the next piece of work -/
def task? (s : Session) : Option Session := order.findSome? s.proceed?

/-- Nothing can be done without time passing. -/
def Idle (s : Session) : Prop := ∀ t, s.proceed? t = none

theorem task?_eq_none_iff (s : Session) : s.task? = none ↔ s.Idle := by
  rw [task?, List.findSome?_eq_none_iff]
  constructor
  · intro h t
    exact h t (by cases t <;> decide)
  · intro h t _
    exact h t

def settleIn : Nat → Session → Session
  | 0, s => s
  | steps + 1, s =>
    match s.task? with
    | some s => settleIn steps s
    | none => s

/-- enough pieces of work for all that can be done without time passing -/
def workload (s : Session) : Nat :=
  64 + 8 * s.client.requests.length +
    match s.side with
    | .remote network seat => network.flights.length + 4 * seat.queue.length
    | _ => 0

/-- Does all work that can be done without time passing. -/
def settle (s : Session) : Session :=
  let s := { s with began := some (s.began.getD s.now) }
  settleIn s.workload s

/-! ## time -/

/-- when the wait for the first flags, or an answer, may end by itself -/
def timers (s : Session) : List Nat :=
  let began := s.began.getD s.now
  if s.client.waiting then (began + s.patience) :: s.side.timers began else s.side.timers began

/-- the next of these times that is still to come -/
def nextTimer? (s : Session) : Option Nat := (s.timers.filter (fun t => s.now < t)).min?

/-- The clock goes to a later time, and stops on the way at each time at which a wait may end. -/
def walkIn : Nat → Nat → Session → Session
  | 0, time, s => { s with now := time }
  | stops + 1, time, s =>
    match s.nextTimer? with
    | some t =>
      if t ≤ time then walkIn stops time { s with now := t }.settle else { s with now := time }
    | none => { s with now := time }

/-- Time passes.  With a remote service the clock jumps, and what became due is done after that. -/
def advance (s : Session) (ms : Nat) : Session :=
  match s.side with
  | .remote _ _ => { s with now := s.now + ms }.settle
  | _ =>
    let s := s.settle
    (walkIn s.timers.length (s.now + ms) s).settle

/-- Time passes until the client has its first flags, or will have none. -/
def awaitFlagsIn : Nat → Session → Session
  | 0, s => s
  | jumps + 1, s =>
    match s.client.lifecycle, s.nextTimer? with
    | .initializing, some t => awaitFlagsIn jumps { s with now := t }.settle
    | _, _ => s

def awaitFlags (s : Session) : Session :=
  let s := s.settle
  awaitFlagsIn s.timers.length s

/-! ## what is done to a service in process -/

/-- Other definitions, which reach the connection at once. -/
def redefine (s : Session) (change : Definitions → Definitions) : Session :=
  match s.side with
  | .memory definitions seat =>
    let definitions := change definitions
    { s with side := .memory definitions seat }.apply (.arrive (seat.flags definitions))
  | _ => s

/-- The scripted connection is told to behave in another way. -/
def direct (s : Session) (change : Scripted → Scripted) : Session :=
  match s.side with
  | .scripted script => { s with side := .scripted (change script) }
  | _ => s

/-- The scripted connection has other flags. -/
def push (s : Session) (flags : FlagSet) : Session :=
  match s.side with
  | .scripted _ => s.apply (.arrive flags)
  | _ => s

/-! ## what the other side saw -/

def eventOfMove : Client.Move → Backend.Event
  | .opened key context => .opened key context
  | .identified context => .identified context
  | .closed => .closed

/-- What the backend saw: all that was done with a scripted connection, and the requests that
arrived at a remote service. -/
def journal (s : Session) : List Backend.Event :=
  match s.side with
  | .memory _ _ => []
  | .scripted _ => s.client.moves.map eventOfMove
  | .remote network _ => network.arrived.map .request

end Session

end FeatureFlags
