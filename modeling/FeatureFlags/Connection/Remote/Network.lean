import FeatureFlags.Connection.Remote

/-!
# The way to a remote service

Requests on their way to a service that answers by a list of responses, in the order in which
requests arrive; the last one serves all further requests.

* `Response.answer`      what a response means to the one who asked;
* `Network.send`         a request leaves; its answer is known, and when it will be there;
* `Network.land?`        the oldest answer that is there.
-/

namespace FeatureFlags.Remote

inductive Response where
  | reply (status : Nat) (body : String)
  /-- the line is cut without an answer -/
  | drop
  /-- no answer ever -/
  | hang

/-! ## answers -/

/-- what is known of an answer while its members are read -/
structure Draft where
  flags : Option FlagSet := none

def Draft.take (o : Origin) (d : Draft) (name : String) (node : Node) :
    Except DecodeError Draft := do
  match name with
  | "flags" => pure { d with flags := ← fill name d.flags (FlagSet.decode o node) }
  | _ => node.ignore d

def answerOfItems (o : Origin) (items : Items) : Except DecodeError FlagSet := do
  let (flags, items) ← items.next? (FlagSet.decode o)
  items.finish o (flags.getD {})

/-- The flag set in the body of an answer: its member `flags`, or an empty set. -/
def decodeAnswer (o : Origin) : Node → Except DecodeError FlagSet
  | .array items closed => do answerOfItems (← o.enter) ⟨items, closed⟩
  | node => do pure ((← node.fold Draft.take {} o).flags.getD {})

def isSuccess (status : Nat) : Bool := 200 ≤ status && status < 300

def Response.answer : Response → Except BackendError FlagSet
  | reply status body =>
    if isSuccess status then (decodeText decodeAnswer body).mapError (fun _ => .http)
    else .error (.status status body)
  | drop => .error .http
  | hang => .error .http

/-! ## requests -/

structure Request where
  target : String
  key : String
  body : String

def requestDocument (environment : String) (context : Context) : Json :=
  .obj [("environment", .str environment), ("context", context.document)]

/-- Control characters, the tab apart, cannot stand in a header. -/
def isHeaderChar (c : Char) : Bool := c = '\t' || (0x20 ≤ c.toNat && c.toNat ≠ 0x7f)

def isHeaderText (s : String) : Bool := s.toList.all isHeaderChar

/-- A request on its way, or its answer. -/
structure Flight where
  connection : Nat
  /-- when the answer, or the lack of it, is known -/
  ends : Nat
  answer : Except BackendError FlagSet

structure Network where
  environment : String
  /-- where requests go; nowhere if the address of the service cannot be read -/
  target : Option String
  responses : List Response
  /-- in the order in which they left -/
  flights : List Flight
  /-- all requests that arrived -/
  arrived : List Request

namespace Network

/-- how long an answer is waited for -/
def patience : Nat := 10000

/-- the response to the next request, and those that are left -/
def nextResponse : List Response → Response × List Response
  | [] => (.drop, [])
  | [r] => (r, [r])
  | r :: rs => (r, rs)

def flightTime : Response → Nat
  | .hang => patience
  | _ => 0

/-- where a request with a key goes, if it can be sent -/
def target? (n : Network) (key : String) : Option String :=
  if isHeaderText key then n.target else none

/-- A request leaves.  One that cannot be sent fails and does not arrive. -/
def send (n : Network) (connection now : Nat) (key : String) (context : Context) : Network :=
  match n.target? key with
  | some target =>
    let r := nextResponse n.responses
    { n with
      responses := r.2
      flights := n.flights ++ [⟨connection, now + flightTime r.1, r.1.answer⟩]
      arrived := n.arrived ++ [⟨target, key, (requestDocument n.environment context).print⟩] }
  | none => { n with flights := n.flights ++ [⟨connection, now, .error .http⟩] }

/-- the oldest flight that has ended, and the others -/
def split (now : Nat) : List Flight → Option (Flight × List Flight)
  | [] => none
  | f :: fs =>
    if f.ends ≤ now then some (f, fs) else (split now fs).map (fun r => (r.1, f :: r.2))

def land? (n : Network) (now : Nat) : Option (Flight × Network) :=
  (split now n.flights).map (fun r => (r.1, { n with flights := r.2 }))

/-- The answer to a connection is not waited for any more. -/
def abort (n : Network) (connection : Nat) : Network :=
  { n with flights := n.flights.filter (fun f => f.connection ≠ connection) }

/-- Sends the request that began with a step of a seat, if one did. -/
def follow (n : Network) (connection now : Nat) (before after : Seat) : Network :=
  match before.request?, after.request? with
  | none, some context => n.send connection now after.key context
  | _, _ => n

/-- Gives up the request that ended with a step of a seat without an answer. -/
def abandon (n : Network) (connection now : Nat) (before after : Seat) : Network :=
  match before.request?, after.request? with
  | some _, none => n.abort connection
  | _, _ => n.follow connection now before after

end Network

end FeatureFlags.Remote
