import FeatureFlags.Session

/-!
# Hosts

A host is the application around a client.  It knows who is signed in, reads experiments, and keeps
the overwrites that the client publishes.  Without a client experiments are disabled: every read has
its default and nothing can be changed.

* `Host.status`        what has become of the experiments;
* `Host.experiment`, `Host.snapshot`, `Host.context?`   reads;
* `Host.addContext`, `Host.removeContext`, `Host.signIn`   changes.
-/

namespace FeatureFlags

structure Host where
  /-- without one experiments are disabled -/
  session : Option Session
  /-- the identity that was published last -/
  identity : Identity
  /-- whether what the client publishes goes to the overwrites of the host -/
  keeps : Bool

namespace Host

def disabled (identity : Identity) : Host := ⟨none, identity, true⟩

/-! ## reading -/

def status (h : Host) : String :=
  match h.session with
  | none => "disabled"
  | some s => s.client.lifecycle.text

/-- The client has neither its first flags yet nor given up on them. -/
def isInitializing (h : Host) : Bool :=
  match h.session with
  | none => false
  | some s => s.client.lifecycle = .initializing

def experiment (h : Host) (shape : Shape) (flag : String) : Option Json :=
  h.session.bind (fun s => s.client.experiment shape flag)

def snapshot (h : Host) : FlagSet :=
  match h.session with
  | none => {}
  | some s => s.client.snapshot

/-- the context that is evaluated -/
def context? (h : Host) : Option Context := h.session.map (fun s => s.client.context)

def overrides (h : Host) : Overrides :=
  match h.session, h.keeps with
  | some s, true => .ofNotices s.client.notices
  | _, _ => .empty

/-! ## changes -/

def update (h : Host) (f : Session → Session) : Host := { h with session := h.session.map f }

def perform (h : Host) (e : Client.Event) : Host := h.update (fun s => s.apply e)

/-- Adds a sub-context; answers whether flags will be asked for again. -/
def addContext (h : Host) (kind key : String) : Host × Bool :=
  (h.perform (.addContext kind key),
    h.session.any (fun s => (s.client.addContext kind key).2))

def removeContext (h : Host) (kind : String) : Host × Bool :=
  (h.perform (.removeContext kind), h.session.any (fun s => (s.client.removeContext kind).2))

/-- Another identity is published. -/
def signIn (h : Host) (identity : Identity) : Host :=
  { h with identity }.perform (.publish identity)

/-- Opens a stream of the new values of a flag, unless experiments are disabled. -/
def subscribe (h : Host) (flag : String) : Host × Option StreamId :=
  (h.perform (.subscribe flag), h.session.map (fun s => (s.client.subscribe flag).2))

def unsubscribe (h : Host) (id : StreamId) : Host := h.perform (.unsubscribe id)

/-- Takes all values that wait in a stream. -/
def take (h : Host) (id : StreamId) : Host × List Json :=
  (h.perform (.take id), ((h.session.map (fun s => (s.client.take id).2)).getD []))

/-- whether a stream may still get values -/
def attached (h : Host) (id : StreamId) : Bool :=
  h.session.any (fun s => s.client.registry.attached id)

/-- Does all work that can be done without time passing. -/
def settle (h : Host) : Host := h.update Session.settle

end Host

end FeatureFlags
