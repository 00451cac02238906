import FeatureFlags.Config
import FeatureFlags.Connection.Remote.Target
import FeatureFlags.Host.Answer

/-!
# Servers

A host that was started from its surroundings and answers requests from any origin.

* `Surroundings`     what a server finds where it is started;
* `Server.launch`    a server, or why there is none;
* `Server.respond`   the answer to a request, with the headers that tell who may read it.
-/

namespace FeatureFlags

/-- What a server finds where it is started. -/
structure Surroundings where
  environment : EnvFile.Environment
  /-- the text of the environment file -/
  envFile : Option String
  files : String → Memory.File
  /-- whether a port can be listened on -/
  free : Nat → Bool
  /-- what the service below a URL answers -/
  remote : String → List Remote.Response
  /-- the target of requests for flags to the service below a URL, if it can be read as a URL; there
  are more ways to write one than the usual -/
  target : String → Option String := Remote.Target.ofUrl?

inductive LaunchError where
  | config (cause : ConfigError)
  | backend (cause : BackendError)
  | address (taken : String)

def LaunchError.message : LaunchError → String
  | config cause => "Failed to load config: " ++ cause.message
  | backend cause => "Failed to set up flag backend: " ++ cause.message
  | address taken => "Failed to bind " ++ taken

namespace Surroundings

/-- Definitions in a file go before a remote service. -/
def backend (s : Surroundings) (c : Config) : Except BackendError Backend :=
  match c.definitionsPath with
  | some path => (Memory.ofFile path (s.files path)).map .memory
  | none =>
    .ok (.remote
      { environment := c.environment
        target := s.target c.backendUrl
        responses := s.remote c.backendUrl
        flights := [], arrived := [] }
      c.pollInterval)

/-- The host of a configuration.  Nothing is served before the first flags are there or given up
on. -/
def host (s : Surroundings) (c : Config) : Except BackendError Host :=
  let identity := Identity.anonymous c.defaultLocale
  match c.accessKey with
  | none => .ok (.disabled identity)
  | some key => do
    let backend ← s.backend c
    let session := Session.start backend ⟨key, c.overwrites⟩ c.initializationTimeout identity
    pure ⟨some session.awaitFlags, identity, true⟩

end Surroundings

structure Server where
  host : Host
  /-- who may read answers -/
  origin : String

namespace Server

def anyone : String := "*"

def isSpace (c : Char) : Bool := c = ' ' || c = '\t'

/-- A text as the value of a header: spaces around it do not count. -/
def headerValue (s : String) : String :=
  String.ofList ((s.toList.dropWhile isSpace).reverse.dropWhile isSpace).reverse

/-- The origin that may read answers: everyone, unless one is set that can stand in a header. -/
def originOf (setting : Option String) : String :=
  ((setting.filter Remote.isHeaderText).map headerValue).getD anyone

def launch (s : Surroundings) : Except LaunchError Server := do
  let c ← (Config.load s.environment s.envFile).mapError .config
  let host ← (s.host c).mapError .backend
  if s.free c.port then pure ⟨host, originOf c.corsOrigin⟩ else throw (.address c.address)

/-- A response and the headers that tell who may read it. -/
structure Answer where
  response : Response
  crossOrigin : List (String × String)

def originHeader (s : Server) : String × String := ("access-control-allow-origin", s.origin)

/-- A request for options asks only who may do what, which is the same for every path. -/
def preflight (s : Server) : Answer :=
  { response := .bare 200
    crossOrigin :=
      [s.originHeader, ("access-control-allow-methods", anyone),
        ("access-control-allow-headers", anyone)] }

/-- Answers a request, and does the work that follows from it. -/
def respond (s : Server) (r : Request) : Server × Answer :=
  if r.method = "OPTIONS" then (s, s.preflight)
  else
    let a := s.host.respond r
    ({ s with host := a.1.settle }, ⟨a.2, [s.originHeader]⟩)

end Server

end FeatureFlags
