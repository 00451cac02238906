import FeatureFlags.Connection.Feed
import FeatureFlags.Error
import FeatureFlags.Evaluation
import FeatureFlags.Text.Blank

/-!
# Connections in process

A service that keeps flag definitions and evaluates them for the context of each of its connections.

* `Memory.Seat`          a connection without its feed: its context, and whether it is closed;
* `Memory.Connection`    a seat and a feed; `reevaluate` brings the feed up to date;
* `Memory.Service`       definitions and connections; a changed definition reaches every connection;
* `Memory.ofFile`        definitions read from a file.
-/

namespace FeatureFlags.Memory

/-! ## one connection -/

structure Seat where
  context : Context
  /-- opened with a blank access key -/
  rejected : Bool
  closed : Bool

namespace Seat

def new (key : String) (context : Context) : Seat := ⟨context, Text.isBlankText key, false⟩

/-- what waiting for the first flags ends with, at once -/
def readiness (s : Seat) : Except BackendError Unit :=
  if s.rejected then .error (.rejected "empty access key") else .ok ()

/-- the values of all flags for the context of the connection -/
def flags (s : Seat) (ds : Definitions) : FlagSet := ds.flagSet s.context

/-- A closed connection keeps its context. -/
def identify (s : Seat) (context : Context) : Except BackendError Seat :=
  if s.closed then .error .closed else .ok { s with context }

def close (s : Seat) : Seat := { s with closed := true }

end Seat

structure Connection (ρ : Type) where
  seat : Seat
  feed : Feed ρ

namespace Connection

variable {ρ : Type}

def reevaluate (ds : Definitions) (c : Connection ρ) : Connection ρ × List (Call ρ) :=
  let r := c.feed.replace (c.seat.flags ds)
  ({ c with feed := r.1 }, r.2)

def identify (ds : Definitions) (context : Context) (c : Connection ρ) :
    Connection ρ × List (Call ρ) × Except BackendError FlagSet :=
  match c.seat.identify context with
  | .error e => (c, [], .error e)
  | .ok seat =>
    let r := reevaluate ds { c with seat }
    (r.1, r.2, .ok r.1.feed.flags)

def close (c : Connection ρ) : Connection ρ := ⟨c.seat.close, c.feed.forgetListeners⟩

end Connection

/-! ## the service -/

/-- Connections are known by number, in the order in which they were opened. -/
structure Service (ρ : Type) where
  definitions : Definitions
  connections : List (Nat × Connection ρ)
  next : Nat

namespace Service

variable {ρ : Type}

def start (ds : List Definition) : Service ρ := ⟨.ofList ds, [], 0⟩

def connection? (s : Service ρ) (id : Nat) : Option (Connection ρ) :=
  (s.connections.find? (fun c => c.1 = id)).map Prod.snd

def update (s : Service ρ) (id : Nat) (c : Connection ρ) : Service ρ :=
  { s with connections := s.connections.map (fun e => if e.1 = id then (id, c) else e) }

/-- A new connection has its flags at once. -/
def connect (s : Service ρ) (key : String) (context : Context) : Service ρ :=
  let seat := Seat.new key context
  { s with
    connections := s.connections ++ [(s.next, ⟨seat, ⟨seat.flags s.definitions, .empty⟩⟩)]
    next := s.next + 1 }

/-- Brings all connections up to date, in the order in which they were opened. -/
def reevaluateAll (ds : Definitions) :
    List (Nat × Connection ρ) → List (Nat × Connection ρ) × List (Call ρ)
  | [] => ([], [])
  | (id, c) :: cs =>
    let r := c.reevaluate ds
    let rest := reevaluateAll ds cs
    ((id, r.1) :: rest.1, r.2 ++ rest.2)

def redefine (s : Service ρ) (ds : Definitions) : Service ρ × List (Call ρ) :=
  let r := reevaluateAll ds s.connections
  ({ s with definitions := ds, connections := r.1 }, r.2)

def upsert (s : Service ρ) (d : Definition) : Service ρ × List (Call ρ) :=
  s.redefine (s.definitions.insert d.key d)

def removeFlag (s : Service ρ) (key : String) : Service ρ × List (Call ρ) :=
  s.redefine (s.definitions.erase key)

/-- Switches a connection to another context. -/
def identify (s : Service ρ) (id : Nat) (context : Context) :
    Service ρ × List (Call ρ) × Except BackendError FlagSet :=
  match s.connection? id with
  | none => (s, [], .error .closed)
  | some c =>
    let r := c.identify s.definitions context
    (s.update id r.1, r.2.1, r.2.2)

def close (s : Service ρ) (id : Nat) : Service ρ :=
  match s.connection? id with
  | none => s
  | some c => s.update id c.close

/-- Nobody holds the connection any more. -/
def forget (s : Service ρ) (id : Nat) : Service ρ :=
  { s with connections := s.connections.filter (fun e => e.1 ≠ id) }

end Service

/-! ## files -/

/-- What is found at a path. -/
inductive File where
  | absent
  | content (bytes : ByteArray)

def fileError (path reason : String) : BackendError := .rejected (path ++ ": " ++ reason)

/-- the text of a file -/
def File.text (path : String) : File → Except BackendError String
  | absent => .error (fileError path "No such file or directory (os error 2)")
  | content bytes =>
    match String.fromUTF8? bytes with
    | some text => .ok text
    | none => .error (fileError path "stream did not contain valid UTF-8")

/-- the definitions in a file -/
def ofFile (path : String) (file : File) : Except BackendError (List Definition) := do
  let text ← file.text path
  (decodeText Definition.decodeAll text).mapError (fun e => fileError path e.message)

end FeatureFlags.Memory
