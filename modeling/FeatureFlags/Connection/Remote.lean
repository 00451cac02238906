import FeatureFlags.Connection.Feed
import FeatureFlags.Context
import FeatureFlags.Error

/-!
# Remote connections

A connection to a service that answers one request at a time and never speaks first.  A task of the
connection fetches the first flags and then polls at an interval; identifying fetches too.  Fetching
takes turns: who wants to fetch while another does waits in a queue, and the context that a request
carries is the one that is set when the request starts.

* `Remote.Seat`       a connection without its feed, in which nothing depends on what answers say
                      but whether they are successes;
* `Seat.start`, `Seat.tick`, `Seat.identify`   the three ways to ask for a turn;
* `Seat.resume`, `Seat.finish`   a turn begins, with a request, and ends, with its answer;
* `Remote.Connection`   a seat and a feed: a success replaces the flags.
-/

namespace FeatureFlags.Remote

/-- Who fetches. -/
inductive Caller where
  /-- the first fetch of the connection -/
  | first
  | poll
  /-- an identify, by its number -/
  | identify (ticket : Nat)
  deriving DecidableEq

/-- Whose turn it is to fetch. -/
inductive Turn where
  | free
  /-- next, but not yet under way -/
  | granted (who : Caller)
  | fetching (who : Caller) (context : Context)

/-- How the first fetch ended. -/
inductive Readiness where
  | pending
  | ready
  | failed (reason : String)
  deriving DecidableEq

/-- What the polling task does. -/
inductive Polling where
  | unstarted
  /-- fetches the first flags -/
  | starting
  | waiting (due : Nat)
  /-- fetches again; then it waits for `next` -/
  | refreshing (next : Nat)
  | over
  deriving DecidableEq

structure Seat where
  key : String
  context : Context
  /-- time from one poll to the next -/
  interval : Nat
  turn : Turn
  queue : List Caller
  readiness : Readiness
  polling : Polling
  closed : Bool

namespace Seat

def new (key : String) (context : Context) (interval : Nat) : Seat :=
  ⟨key, context, interval, .free, [], .pending, .unstarted, false⟩

/-- Begins a turn: the request carries the context as it is now. -/
def fetch (s : Seat) (who : Caller) : Seat := { s with turn := .fetching who s.context }

/-- Asks for a turn, which begins at once if nobody has one. -/
def join (s : Seat) (who : Caller) : Seat :=
  match s.turn with
  | .free => s.fetch who
  | _ => { s with queue := s.queue ++ [who] }

/-- Ends a turn: the next in the queue has it. -/
def release (s : Seat) : Seat :=
  match s.queue with
  | [] => { s with turn := .free }
  | who :: rest => { s with turn := .granted who, queue := rest }

/-- The polling task begins with the first fetch. -/
def start (s : Seat) : Seat :=
  match s.polling with
  | .unstarted =>
    if s.closed then { s with polling := .over } else { s with polling := .starting }.join .first
  | _ => s

/-- how late a poll may be to count as on time -/
def tolerance : Nat := 5

/-- When to poll again after a poll that was due: an interval later, or, if it was late, an interval
from now. -/
def nextDue (s : Seat) (due now : Nat) : Nat :=
  if due + tolerance < now then now + s.interval else due + s.interval

/-- The polling task fetches again when it is time. -/
def tick (s : Seat) (now : Nat) : Seat :=
  match s.polling with
  | .waiting due =>
    if s.closed then { s with polling := .over }
    else if due ≤ now then { s with polling := .refreshing (s.nextDue due now) }.join .poll
    else s
  | _ => s

/-- Nobody holds the connection when it is time to poll: the polling task ends. -/
def stopPolling (s : Seat) : Seat := { s with polling := .over }

/-- Another context, and a fetch for it; refused when closed. -/
def identify (s : Seat) (context : Context) (ticket : Nat) : Except BackendError Seat :=
  if s.closed then .error .closed else .ok ({ s with context }.join (.identify ticket))

/-- The one whose turn it is goes on. -/
def resume (s : Seat) : Seat :=
  match s.turn with
  | .granted who => s.fetch who
  | _ => s

/-- What polling task and readiness make of the first answer.  A timer with no interval cannot be
started, which ends the task. -/
def settleFirst (s : Seat) (now : Nat) : Except BackendError Unit → Seat
  | .ok _ =>
    { s with
      readiness := .ready
      polling := if s.interval = 0 then .over else .waiting (now + s.interval) }
  | .error e => { s with readiness := .failed e.message, polling := .over }

/-- what the polling task does after a poll, whatever the answer -/
def settlePoll (s : Seat) : Seat :=
  match s.polling with
  | .refreshing next => { s with polling := if s.closed then .over else .waiting next }
  | _ => s

/-- The turn that is under way ends with an answer. -/
def finish (s : Seat) (now : Nat) (answer : Except BackendError Unit) : Seat :=
  match s.turn with
  | .fetching who _ =>
    let s := s.release
    match who with
    | .first => s.settleFirst now answer
    | .poll => s.settlePoll
    | .identify _ => s
  | _ => s

/-- Takes the first fetch out of turn and queue. -/
def abandonFirst (s : Seat) : Seat :=
  let s := { s with queue := s.queue.filter (fun who => who ≠ Caller.first) }
  match s.turn with
  | .fetching .first _ => s.release
  | .granted .first => s.release
  | _ => s

/-- what polling is left after closing -/
def pollingAfterClose (s : Seat) : Polling :=
  match s.polling with
  | .refreshing next => .refreshing next
  | _ => .over

/-- Closes the connection: the first fetch is given up, polling ends, and who still waits for the
first flags learns that there will be none.  A fetch for a poll or an identify goes on. -/
def close (s : Seat) : Seat :=
  let readiness := if s.readiness = .pending then .failed BackendError.closed.message
    else s.readiness
  { s.abandonFirst with closed := true, readiness, polling := s.pollingAfterClose }

/-- the context of the request that is under way -/
def request? (s : Seat) : Option Context :=
  match s.turn with
  | .fetching _ context => some context
  | _ => none

/-- somebody fetches or waits for a turn -/
def busy (s : Seat) : Bool :=
  match s.turn with
  | .free => !s.queue.isEmpty
  | _ => true

/-- What the seat becomes by the next thing it can do by itself: a turn goes on, the polling task
begins, or it is time to poll.  A poll needs somebody who holds the connection. -/
def next? (held : Bool) (now : Nat) (s : Seat) : Option Seat :=
  match s.turn, s.polling with
  | .granted _, _ => some s.resume
  | _, .unstarted => some (if held then s.start else s.stopPolling)
  | _, .waiting due =>
    if due ≤ now then some (if held || s.busy then s.tick now else s.stopPolling) else none
  | _, _ => none

/-- what waiting for the first flags ends with, if it ends -/
def outcome? (s : Seat) : Option (Except BackendError Unit) :=
  match s.readiness with
  | .pending => none
  | .ready => some (.ok ())
  | .failed reason => some (.error (.rejected reason))

end Seat

structure Connection (ρ : Type) where
  seat : Seat
  feed : Feed ρ

namespace Connection

variable {ρ : Type}

/-- An answer to the request that is under way.  Only a success changes the flags. -/
def finish (c : Connection ρ) (now : Nat) (answer : Except BackendError FlagSet) :
    Connection ρ × List (Call ρ) :=
  let seat := c.seat.finish now (answer.map (fun _ => ()))
  match answer with
  | .ok flags =>
    let r := c.feed.replace flags
    (⟨seat, r.1⟩, r.2)
  | .error _ => (⟨seat, c.feed⟩, [])

def close (c : Connection ρ) : Connection ρ := ⟨c.seat.close, c.feed.forgetListeners⟩

end Connection

end FeatureFlags.Remote
