import FeatureFlags.Connection.Feed
import FeatureFlags.Error
import FeatureFlags.Identity
import FeatureFlags.Notice
import FeatureFlags.Registry

/-!
# Clients

A client owns one connection to a flag service and everything its application reads from it.  Three
tasks work for it: one waits for the first flags, with a limit; one takes requests to identify, one
after the other; one follows the identities that are published.  Each step of a task, each operation
of the application and each event of the connection is an `Event`, and `Client.step` says what it
does, whatever the order in which they come.

* `Client.start`          a client that waits for its first flags;
* `Client.refresh`        takes over the flags of the connection and publishes them;
* `Client.schedule`       asks for an identify, unless none will happen;
* `Client.addContext`, `Client.removeContext`, `Client.follow`   the ways the context changes;
* `Client.flagsInUse`, `Client.experiment`, `Client.snapshot`   what the application reads;
* `Client.step`, `Client.run`   events.

The connection is seen from outside here: its feed, and the answers it gives.
-/

namespace FeatureFlags

inductive Lifecycle where
  | initializing
  | initialized
  | failed
  deriving DecidableEq

def Lifecycle.text : Lifecycle → String
  | initializing => "initializing"
  | initialized => "initialized"
  | failed => "failed"

namespace Client

/-- A listener of a client: for the streams on a flag, or for the client itself. -/
abbrev Role := Registry.Role Unit

/-- How the wait for the first flags ends. -/
inductive Outcome where
  | ready
  | refused
  | timeout
  | cancelled
  deriving DecidableEq

/-- The task that identifies. -/
inductive Worker where
  | idle
  /-- an identify is under way -/
  | busy
  | stopped
  deriving DecidableEq

/-- What a client does with its connection. -/
inductive Move where
  | opened (key : String) (context : Context)
  | identified (context : Context)
  | closed

/-- the context that a move hands to the connection -/
def Move.context? : Move → Option Context
  | opened _ c => some c
  | identified c => some c
  | closed => none

structure Options where
  key : String
  overwrites : FlagSet

end Client

open Client in
structure Client where
  lifecycle : Lifecycle
  context : Context
  /-- the last known flags -/
  flags : FlagSet
  /-- laid over the flags in snapshots only -/
  overwrites : FlagSet
  connection : Feed Role
  /-- whether closing the connection forgets its listeners -/
  forgetful : Bool
  registry : Registry
  /-- the listener of the client itself -/
  listener : Option ListenerId
  /-- contexts that wait to be identified -/
  requests : List Context
  /-- the wait for the first flags goes on -/
  waiting : Bool
  worker : Worker
  /-- the identity that was followed last -/
  followed : Identity
  /-- the identity that was published last, as long as it was not followed -/
  inbox : Option Identity
  /-- identities are still followed -/
  following : Bool
  /-- shut down, or gone -/
  cancelled : Bool
  /-- the application holds the client -/
  held : Bool
  /-- nobody refers to the client any more -/
  gone : Bool
  /-- all that was published -/
  notices : List Notice
  /-- all that was done with the connection -/
  moves : List Move

namespace Client

/-- A client at its beginning, on a connection with the given flags. -/
def start (options : Options) (identity : Identity) (connection : Feed Role) (forgetful : Bool) :
    Client :=
  { lifecycle := .initializing
    context := identity.context
    flags := {}
    overwrites := options.overwrites
    connection, forgetful
    registry := .empty
    listener := none
    requests := []
    waiting := true
    worker := .idle
    followed := identity
    inbox := none
    following := true
    cancelled := false
    held := true
    gone := false
    notices := []
    moves := [.opened options.key identity.context] }

/-! ## reading -/

/-- The flags that are served: none before the client is initialized. -/
def flagsInUse (c : Client) : FlagSet :=
  match c.lifecycle with
  | .initialized => c.flags
  | _ => {}

/-- The value of a flag in a shape; nothing if there is none, or of another shape. -/
def experiment (c : Client) (shape : Shape) (flag : String) : Option Json :=
  (c.flagsInUse.find? flag).bind shape.read?

/-- the flags with the overwrites laid over them -/
def snapshot (c : Client) : FlagSet := c.flagsInUse.union c.overwrites

def subscriberCount (c : Client) (flag : String) : Nat := c.registry.count flag

theorem flagsInUse_of_initialized {c : Client} (h : c.lifecycle = .initialized) :
    c.flagsInUse = c.flags := by
  rw [flagsInUse, h]

theorem flagsInUse_of_failed {c : Client} (h : c.lifecycle = .failed) : c.flagsInUse = {} := by
  rw [flagsInUse, h]

theorem flagsInUse_of_initializing {c : Client} (h : c.lifecycle = .initializing) :
    c.flagsInUse = {} := by
  rw [flagsInUse, h]

/-! ## flags -/

def note (c : Client) (ns : List Notice) : Client := { c with notices := c.notices ++ ns }

/-- Publishes what is derived from the flags. -/
def publish (c : Client) : Client := c.note (Notice.ofFlags c.flags)

def refresh (c : Client) : Client := publish { c with flags := c.connection.flags }

/-- What a call of one of its listeners makes the client do. -/
def receive (c : Client) (call : Call Role) : Client :=
  if c.gone then c
  else
    match call.role with
    | .subscribers flag => { c with registry := c.registry.dispatch flag call.changes }
    | .other _ => c.refresh

/-- The connection has other flags. -/
def arrive (c : Client) (flags : FlagSet) : Client :=
  let r := c.connection.replace flags
  r.2.foldl receive { c with connection := r.1 }

/-! ## the first flags -/

/-- The first flags are there: they are in place before reads are served from them. -/
def becomeReady (c : Client) : Client :=
  let l := c.connection.listen .anyChange (.other ())
  refresh
    { c with
      lifecycle := .initialized
      connection := l.1
      listener := some l.2
      registry := c.registry.enable }

/-- The wait for the first flags ends.  Only one who waited can settle what becomes of the
client. -/
def settle (c : Client) (o : Outcome) : Client :=
  if c.waiting then
    let c := { c with waiting := false }
    match o with
    | .ready => c.becomeReady
    | .refused => { c with lifecycle := .failed }
    | .timeout => note { c with lifecycle := .failed } [.loadTimeout]
    | .cancelled => c
  else c

/-- A wait that is over does not end again. -/
theorem settle_of_not_waiting {c : Client} (h : c.waiting = false) (o : Outcome) :
    c.settle o = c := by
  rw [settle, h, if_neg Bool.false_ne_true]

/-! ## contexts -/

/-- Asks for an identify with the context of the client; answers whether one will happen. -/
def schedule (c : Client) : Client × Bool :=
  if c.lifecycle = .failed then (c, false)
  else if c.worker = .stopped then (c, false)
  else ({ c with requests := c.requests ++ [c.context] }, true)

/-- Adds or replaces the sub-context of a kind, unless it is there with that key. -/
def addContext (c : Client) (kind key : String) : Client × Bool :=
  if c.context.key? kind = some key then (c, false)
  else schedule { c with context := c.context.insert (.keyed kind key) }

/-- Removes the sub-context of a kind, unless it is the only one. -/
def removeContext (c : Client) (kind : String) : Client × Bool :=
  match c.context.get? kind with
  | none => (c, false)
  | some _ =>
    match c.context.erase? kind with
    | some context => schedule { c with context }
    | none => (c, false)

/-- the context after a change of identity: the user sub-context is made anew if user or locale
changed, and the workspace is followed if it changed -/
def updated (context : Context) (previous next : Identity) : Context :=
  let context :=
    if previous.user == next.user && previous.locale == next.locale then context
    else context.insert (.ofUser next.user next.locale)
  if previous.workspaceId == next.workspaceId then context
  else
    match next.workspaceId with
    | some id => context.insert (.ofWorkspace id)
    | none => (context.erase? SubContext.workspaceKind).getD context

/-- Follows an identity; an identify is asked for if the context changes. -/
def follow (c : Client) (next : Identity) : Client :=
  let context := updated c.context c.followed next
  let c := { c with followed := next }
  if context == c.context then c else (schedule { c with context }).1

/-! ## tasks -/

/-- The worker takes the next request. -/
def work (c : Client) : Client :=
  match c.worker, c.requests with
  | .idle, context :: rest =>
    if c.gone then c
    else if c.lifecycle = .failed then { c with requests := rest }
    else
      { c with requests := rest, worker := .busy, moves := c.moves ++ [.identified context] }
  | _, _ => c

/-- The identify that is under way ends.  A success is published also if no flag changed. -/
def answered (c : Client) (answer : Except BackendError FlagSet) : Client :=
  match c.worker with
  | .busy =>
    let c := { c with worker := .idle }
    match answer with
    | .error _ => c
    | .ok flags =>
      let c := { c.arrive flags with flags }
      if c.lifecycle = .initialized then c.publish else c
  | _ => c

/-- A worker that has nothing under way stops when the client is shut down. -/
def stopWorker (c : Client) : Client :=
  if c.cancelled ∧ c.worker = .idle then { c with worker := .stopped, requests := [] } else c

/-- The identity that was published last is followed. -/
def watch (c : Client) : Client :=
  match c.inbox with
  | some next =>
    let c := { c with inbox := none }
    if c.following ∧ ¬ c.gone then c.follow next else c
  | none => c

def stopWatcher (c : Client) : Client := { c with following := false }

/-- An identify that fails only frees the worker. -/
theorem answered_error {c : Client} (h : c.worker = .busy) (e : BackendError) :
    c.answered (.error e) = { c with worker := .idle } := by
  rw [answered, h]

/-! ## streams -/

def setListeners (c : Client) (listeners : ListenerSet Role) : Client :=
  { c with connection := { c.connection with listeners } }

def subscribe (c : Client) (flag : String) : Client × StreamId :=
  let r := c.registry.subscribe c.connection.listeners flag
  ({ c.setListeners r.2.1 with registry := r.1 }, r.2.2)

def unsubscribe (c : Client) (id : StreamId) : Client :=
  let r := c.registry.unsubscribe c.connection.listeners id
  { c.setListeners r.2 with registry := r.1 }

def take (c : Client) (id : StreamId) : Client × List Json :=
  let r := c.registry.take id
  ({ c with registry := r.1 }, r.2)

/-! ## the end -/

def close (c : Client) : Client :=
  { c with
    connection := if c.forgetful then c.connection.forgetListeners else c.connection
    moves := c.moves ++ [.closed] }

/-- Stops background work and closes the connection.  Streams end. -/
def shutdown (c : Client) : Client :=
  if c.cancelled then c
  else
    let listeners := match c.listener with
      | some id => c.connection.listeners.remove id
      | none => c.connection.listeners
    let r := c.registry.clear listeners
    close { c.setListeners r.2 with cancelled := true, listener := none, registry := r.1 }

/-- somebody still refers to the client -/
def alive (c : Client) : Bool := c.held || c.waiting || c.worker = .busy

/-- Once nobody refers to the client any more it closes the connection and is gone. -/
def retire (c : Client) : Client :=
  if c.alive || c.gone then c
  else close { c with cancelled := true, gone := true, registry := c.registry.abandon }

theorem retire_of_alive {c : Client} (h : c.alive = true) : c.retire = c := by
  rw [retire, h, Bool.true_or, if_pos rfl]

/-! ## events -/

inductive Event where
  -- the application
  | addContext (kind key : String)
  | removeContext (kind : String)
  | subscribe (flag : String)
  | unsubscribe (id : StreamId)
  | take (id : StreamId)
  | shutdown
  | release
  -- the identity provider
  | publish (identity : Identity)
  -- the connection
  | arrive (flags : FlagSet)
  | answered (answer : Except BackendError FlagSet)
  -- the tasks
  | settle (outcome : Outcome)
  | work
  | stopWorker
  | watch
  | stopWatcher

def act (c : Client) : Event → Client
  | .addContext kind key => (c.addContext kind key).1
  | .removeContext kind => (c.removeContext kind).1
  | .subscribe flag => (c.subscribe flag).1
  | .unsubscribe id => c.unsubscribe id
  | .take id => (c.take id).1
  | .shutdown => c.shutdown
  | .release => { c with held := false }
  | .publish identity => { c with inbox := some identity }
  | .arrive flags => c.arrive flags
  | .answered answer => c.answered answer
  | .settle outcome => c.settle outcome
  | .work => c.work
  | .stopWorker => c.stopWorker
  | .watch => c.watch
  | .stopWatcher => c.stopWatcher

/-- What an event does, and the end of the client if it was the last that referred to it. -/
def step (c : Client) (e : Event) : Client := (c.act e).retire

def run (c : Client) (es : List Event) : Client := es.foldl step c

theorem run_cons (c : Client) (e : Event) (es : List Event) :
    c.run (e :: es) = (c.step e).run es := rfl

theorem run_append (c : Client) (es fs : List Event) : c.run (es ++ fs) = (c.run es).run fs := by
  rw [run, run, run, List.foldl_append]

end Client

end FeatureFlags
