import FeatureFlags.Host.Answer
import FeatureFlags.Host.EventStream

/-!
# A host at work

A host that is given commands: by its own code, by whoever signs in, by those who send requests, and
by the service behind its client.  Streams are known by label.

* `Command`         what can be done;
* `Reader`          what is left to read of the body of a response;
* `Desk.perform`    one command and its reply, without the work that follows;
* `Desk.step`       the same with that work.
-/

namespace FeatureFlags.Host

inductive Command where
  | nothing
  /-- waits for the first flags -/
  | ready
  | experiment (flag : String) (shape : Shape) (default : Json)
  | subscribe (label flag : String) (shape : Shape)
  | poll (label : String)
  | drop (label : String)
  | count (flag : String)
  | addContext (kind key : String)
  | removeContext (kind : String)
  | context
  | flags
  | snapshot
  | overrides
  | signIn (identity : Identity)
  /-- nobody publishes identities any more, nor sends requests -/
  | leave
  | shutdown
  /-- nobody holds the client any more -/
  | release
  /-- a request, whose body is read later under a label or at once -/
  | request (r : Request) (label : Option String)
  | readBody (label : String)
  | dropBody (label : String)
  | upsert (definition : Definition)
  | removeFlag (key : String)
  | push (flags : FlagSet)
  | identifyFlags (flags : FlagSet)
  | failIdentify (failing : Bool)
  | listeners (topic : Topic)
  | advance (ms : Nat)

inductive Reply where
  | done
  | disabled
  | noStream
  | truth (b : Bool)
  | number (n : Nat)
  | value (j : Json)
  | context (c : Context)
  | flags (flags : FlagSet)
  | lifecycle (l : Lifecycle)
  | overrides (o : Overrides)
  | items (values : List Json) (ended : Bool)
  | response (r : Response)
  /-- a response whose body is kept -/
  | opened (r : Response)
  | text (content : String) (ended : Bool)

inductive Reader where
  | events (e : EventStream)
  | text (rest : String)
  deriving DecidableEq

structure Desk where
  host : Host
  /-- streams of the host's own code -/
  held : Table Subscription
  /-- bodies of responses -/
  bodies : Table Reader
  /-- identities may be published, and requests sent -/
  visited : Bool
  /-- the client is held -/
  inUse : Bool

namespace Desk

def start (host : Host) : Desk := ⟨host, {}, {}, true, true⟩

/-- the host as its own code sees it: a client that is not held is none -/
def front (d : Desk) : Host := if d.inUse then d.host else { d.host with session := none }

def update (d : Desk) (f : Session → Session) : Desk := { d with host := d.host.update f }

/-- What is told of the client, if there is one. -/
def tell (d : Desk) (f : Session → Reply) : Desk × Reply :=
  (d, ((d.front.session.map f).getD .done))

def now (d : Desk) : Nat := ((d.host.session.map Session.now).getD 0)

/-! ## streams -/

def unsubscribe (d : Desk) (id : StreamId) : Desk := { d with host := d.host.unsubscribe id }

/-- A new stream under a label; a stream that had the label is dropped after that. -/
def subscribe (d : Desk) (label flag : String) (shape : Shape) : Desk × Reply :=
  match (d.front.subscribe flag).2 with
  | none => (d, .disabled)
  | some id =>
    let host := (d.host.subscribe flag).1
    let next := { d with host, held := d.held.insert label ⟨id, shape⟩ }
    match d.held.find? label with
    | some old => (next.unsubscribe old.id, .done)
    | none => (next, .done)

def poll (d : Desk) (label : String) : Desk × Reply :=
  match d.held.find? label with
  | some s =>
    let r := d.host.take s.id
    ({ d with host := r.1 }, .items (Registry.itemsOf s.shape r.2) (!d.host.attached s.id))
  | none => (d, .noStream)

def drop (d : Desk) (label : String) : Desk × Reply :=
  match d.held.find? label with
  | some s => ({ d.unsubscribe s.id with held := d.held.erase label }, .done)
  | none => (d, .noStream)

/-! ## requests -/

/-- Ends the reading of a body. -/
def discard (d : Desk) : Option Reader → Desk
  | some (.events e) => d.unsubscribe e.stream
  | _ => d

/-- Keeps a body under a label; one that had the label is discarded after that. -/
def keep (d : Desk) (label : String) (reader : Reader) : Desk :=
  { d with bodies := d.bodies.insert label reader }.discard (d.bodies.find? label)

def request (d : Desk) (r : Request) (label : Option String) : Desk × Reply :=
  if d.visited ∧ d.inUse then
    let a := d.host.respond r
    let d := { d with host := a.1 }
    match label, a.2.status, a.2.body with
    | some label, 200, .events id =>
      (d.keep label (.events ⟨id, d.now⟩), .opened a.2)
    | some label, 200, .text content => (d.keep label (.text content), .opened a.2)
    | _, _, .events id => (d.unsubscribe id, .response a.2.silent)
    | _, _, _ => (d, .response a.2)
  else (d, .done)

def readBody (d : Desk) (label : String) : Desk × Reply :=
  match d.bodies.find? label with
  | some (.events e) =>
    let ended := !d.host.attached e.stream
    let r := d.host.take e.stream
    let s := e.read d.now r.2 ended
    ({ d with host := r.1, bodies := d.bodies.insert label (.events s.1) }, .text s.2 ended)
  | some (.text rest) =>
    ({ d with bodies := d.bodies.insert label (.text "") }, .text rest true)
  | none => (d, .noStream)

def dropBody (d : Desk) (label : String) : Desk × Reply :=
  match d.bodies.find? label with
  | some reader => ({ d with bodies := d.bodies.erase label }.discard (some reader), .done)
  | none => (d, .noStream)

/-! ## commands -/

/-- The service behind the client does something of its own. -/
def serve (d : Desk) (f : Session → Session) : Desk × Reply := (d.update f, .done)

def redefine (d : Desk) (change : Definitions → Definitions) : Desk × Reply :=
  d.serve (fun s => s.redefine change)

def direct (d : Desk) (change : Scripted → Scripted) : Desk × Reply :=
  d.serve (fun s => s.direct change)

def listeners (topic : Topic) (s : Session) : Reply :=
  match s.side with
  | .scripted _ => .number (s.client.connection.listeners.count topic)
  | _ => .done

def signIn (d : Desk) (identity : Identity) : Desk :=
  if d.visited then { d with host := d.host.signIn identity } else d

def shutdown (d : Desk) : Desk :=
  if d.inUse then { d with host := d.host.perform .shutdown } else d

def release (d : Desk) : Desk :=
  { d with host := d.host.perform .release, inUse := false }

def perform (d : Desk) : Command → Desk × Reply
  | .nothing => (d, .done)
  | .ready =>
    let d := if d.inUse then d.update Session.awaitFlags else d
    d.tell (fun s => .lifecycle s.client.lifecycle)
  | .experiment flag shape default =>
    (d, .value ((d.front.experiment shape flag).getD ((shape.read? default).getD default)))
  | .subscribe label flag shape => d.subscribe label flag shape
  | .poll label => d.poll label
  | .drop label => d.drop label
  | .count flag => d.tell (fun s => .number (s.client.subscriberCount flag))
  | .addContext kind key =>
    if d.inUse then
      let r := d.host.addContext kind key
      ({ d with host := r.1 }, .truth r.2)
    else (d, .truth false)
  | .removeContext kind =>
    if d.inUse then
      let r := d.host.removeContext kind
      ({ d with host := r.1 }, .truth r.2)
    else (d, .truth false)
  | .context => d.tell (fun s => .context s.client.context)
  | .flags => d.tell (fun s => .flags s.client.flagsInUse)
  | .snapshot => (d, .flags d.front.snapshot)
  | .overrides => (d, .overrides d.host.overrides)
  | .signIn identity => (d.signIn identity, .done)
  | .leave => ({ d with visited := false }, .done)
  | .shutdown => (d.shutdown, .done)
  | .release => (d.release, .done)
  | .request r label => d.request r label
  | .readBody label => d.readBody label
  | .dropBody label => d.dropBody label
  | .upsert definition => d.redefine (fun ds => ds.insert definition.key definition)
  | .removeFlag key => d.redefine (fun ds => ds.erase key)
  | .push flags => d.serve (fun s => s.push flags)
  | .identifyFlags flags => d.direct (fun c => { c with identifyFlags := some flags })
  | .failIdentify failing => d.direct (fun c => { c with failing })
  | .listeners topic => (d, ((d.host.session.map (listeners topic)).getD .done))
  | .advance ms => d.serve (fun s => s.advance ms)

/-- All work that can be done without time passing. -/
def settle (d : Desk) : Desk := { d with host := d.host.settle }

/-- One command, and all work that can be done after it. -/
def step (d : Desk) (c : Command) : Desk × Reply :=
  let r := d.perform c
  (r.1.settle, r.2)

end Desk

end FeatureFlags.Host
