import FeatureFlags.Connection.Remote.Network

/-!
# Remote connections over time

The connections to one remote service, with a clock that only moves when it is told to.  Between two
moves of the clock all work is done that can be done: tasks first, then answers that are there, the
oldest first.

* `Service.runTask?`   the next thing a connection can do by itself;
* `Service.land?`      the next answer;
* `Service.settle`     both, until nothing is left to do;
* `Service.advance`    the clock jumps, and what became due is done.
-/

namespace FeatureFlags.Remote

variable {ρ : Type}

/-- A connection, and whether somebody holds it. -/
structure Line (ρ : Type) where
  connection : Connection ρ
  held : Bool

def Line.seat (l : Line ρ) : Seat := l.connection.seat

def Line.setSeat (l : Line ρ) (seat : Seat) : Line ρ :=
  { l with connection := { l.connection with seat } }

structure Service (ρ : Type) where
  network : Network
  lines : List (Nat × Line ρ)
  next : Nat
  interval : Nat
  now : Nat
  /-- the answers to identifies, by ticket -/
  results : List (Nat × Except BackendError FlagSet)
  nextTicket : Nat

namespace Service

def start (network : Network) (interval : Nat) : Service ρ :=
  ⟨network, [], 0, interval, 0, [], 0⟩

def line? (s : Service ρ) (id : Nat) : Option (Line ρ) :=
  (s.lines.find? (fun l => l.1 = id)).map Prod.snd

def update (s : Service ρ) (id : Nat) (l : Line ρ) : Service ρ :=
  { s with lines := s.lines.map (fun e => if e.1 = id then (id, l) else e) }

/-- Puts a seat in place of that of a line, and sends the request that began. -/
def moveSeat (s : Service ρ) (id : Nat) (l : Line ρ) (seat : Seat) : Service ρ :=
  { s.update id (l.setSeat seat) with network := s.network.follow id s.now l.seat seat }

def connect (s : Service ρ) (key : String) (context : Context) : Service ρ :=
  { s with
    lines := s.lines ++ [(s.next, ⟨⟨.new key context s.interval, .empty⟩, true⟩)]
    next := s.next + 1 }

/-- Asks for the flags of another context; the answer will be found under the ticket. -/
def identify (s : Service ρ) (id : Nat) (context : Context) :
    Service ρ × Except BackendError Nat :=
  match s.line? id with
  | none => (s, .error .closed)
  | some l =>
    match l.seat.identify context s.nextTicket with
    | .error e => (s, .error e)
    | .ok seat =>
      ({ s.moveSeat id l seat with nextTicket := s.nextTicket + 1 }, .ok s.nextTicket)

def result? (s : Service ρ) (ticket : Nat) : Option (Except BackendError FlagSet) :=
  (s.results.find? (fun r => r.1 = ticket)).map Prod.snd

def close (s : Service ρ) (id : Nat) : Service ρ :=
  match s.line? id with
  | none => s
  | some l =>
    let c := l.connection.close
    { s.update id { l with connection := c } with
      network := s.network.abandon id s.now l.seat c.seat }

/-- Nobody holds the connection any more. -/
def forget (s : Service ρ) (id : Nat) : Service ρ :=
  match s.line? id with
  | none => s
  | some l => s.update id { l with held := false }

def runTask? (s : Service ρ) : Option (Service ρ) :=
  s.lines.findSome?
    (fun e => (e.2.seat.next? e.2.held s.now).map (fun seat => s.moveSeat e.1 e.2 seat))

/-- Gives an answer to the connection that waits for it. -/
def deliver (s : Service ρ) (f : Flight) : Service ρ × List (Call ρ) :=
  match s.line? f.connection with
  | none => (s, [])
  | some l =>
    let r := l.connection.finish s.now f.answer
    let s' := s.update f.connection { l with connection := r.1 }
    match l.seat.turn with
    | .fetching (.identify ticket) _ =>
      ({ s' with results := s'.results ++ [(ticket, f.answer)] }, r.2)
    | _ => (s', r.2)

def land? (s : Service ρ) : Option (Service ρ × List (Call ρ)) :=
  (s.network.land? s.now).map (fun r => deliver { s with network := r.2 } r.1)

/-- enough steps for all work that can be done without time passing -/
def work (s : Service ρ) : Nat :=
  s.lines.foldl (fun n e => n + 32 + 4 * e.2.seat.queue.length) (8 + s.network.flights.length)

def settleIn : Nat → Service ρ → Service ρ × List (Call ρ)
  | 0, s => (s, [])
  | steps + 1, s =>
    match s.runTask? with
    | some s => settleIn steps s
    | none =>
      match s.land? with
      | some r =>
        let rest := settleIn steps r.1
        (rest.1, r.2 ++ rest.2)
      | none => (s, [])

/-- Does all work that can be done without time passing. -/
def settle (s : Service ρ) : Service ρ × List (Call ρ) := settleIn s.work s

def advance (s : Service ρ) (ms : Nat) : Service ρ × List (Call ρ) :=
  settle { s with now := s.now + ms }

end Service

end FeatureFlags.Remote
