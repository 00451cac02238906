import FeatureFlags.Host
import FeatureFlags.Host.ContentType
import FeatureFlags.Host.Message
import FeatureFlags.Host.Route
import FeatureFlags.Text.Blank

/-!
# What a host answers

* `kindFault?`                what is wrong with the kind of a sub-context;
* `Host.answer`               the answer of a route;
* `Host.respond`              the answer to a request, whatever its path and method.
-/

namespace FeatureFlags.Host

/-! ## kinds and keys -/

def isKindChar (c : Char) : Bool := c.isAlphanum || c = '_' || c = '-' || c = '.'

/-- What is wrong with the kind of a sub-context. -/
inductive KindFault where
  | empty
  | reserved
  | character

def kindFault? (kind : String) : Option KindFault :=
  if kind = "" then some .empty
  else if kind = Context.multiKind then some .reserved
  else if kind.toList.all isKindChar then none
  else some .character

def KindFault.message : KindFault → String
  | empty => "Context kind cannot be empty"
  | reserved => "\"multi\" is reserved"
  | character => "Context kind can only contain letters, numbers, '.', '_' and '-'"

/-! ## documents -/

def healthDocument (status : Nat) (experiments : String) : Json :=
  .obj [("status", .integer status), ("experiments", .str experiments)]

def experimentDocument (name : String) (value : Json) : Json :=
  .obj [("name", .str name), ("value", value)]

def changeDocument (kind : String) (reidentify : Bool) : Json :=
  .obj [("kind", .str kind), ("reidentify", .bool reidentify)]

def identityDocument (h : Host) : Json :=
  .obj [("identity", h.identity.document), ("context", .ofOption Context.document h.context?)]

/-! ## answers -/

def document (status : Nat) (j : Json) : Response := .json status j.print

def disabledAnswer : Response := .text 503 "Experiments are disabled"

def health (h : Host) : Response :=
  let status := if h.isInitializing then 503 else 200
  document status (healthDocument status h.status)

def experimentAnswer (h : Host) (name : String) : Response :=
  document 200 (experimentDocument name ((h.experiment .any name).getD .null))

def changes (h : Host) (name : String) : Host × Response :=
  let r := h.subscribe name
  match r.2 with
  | some id => (r.1, ⟨200, some .events, none, .events id⟩)
  | none => (h, disabledAnswer)

def putContext (h : Host) (kind key : String) : Host × Response :=
  match kindFault? kind with
  | some fault => (h, .text 400 fault.message)
  | none =>
    if Text.isBlankText key then (h, .text 400 "Context key cannot be empty")
    else if h.session.isNone then (h, disabledAnswer)
    else
      let r := h.addContext kind key
      (r.1, document 200 (changeDocument kind r.2))

def deleteContext (h : Host) (kind : String) : Host × Response :=
  match kindFault? kind with
  | some fault => (h, .text 400 fault.message)
  | none =>
    if h.session.isNone then (h, disabledAnswer)
    else
      let r := h.removeContext kind
      (r.1, document 200 (changeDocument kind r.2))

/-- The status for a body that is no identity: the fault is in the text, or in what it says. -/
def bodyStatus : DecodeError → Nat
  | .malformed | .tooDeep => 400
  | _ => 422

def putIdentity (h : Host) (r : Request) : Host × Response :=
  if (r.header? "content-type").any ContentType.isJson then
    match decodeText Identity.decode r.body with
    | .error e => (h, .refusal (bodyStatus e))
    | .ok identity =>
      if Text.isBlankText identity.locale then (h, .text 400 "locale cannot be empty")
      else (h.signIn identity, .bare 202)
  else (h, .refusal 415)

/-- Goes on with the text of a parameter. -/
def reading (h : Host) (p : Parameter) (f : String → Host × Response) : Host × Response :=
  match p.read? with
  | some value => f value
  | none => (h, .text 400 ("Invalid URL: Invalid UTF-8 in \x60" ++ p.name ++ "\x60"))

/-- The answer of a route, to a request with one of its methods. -/
def answer (h : Host) (r : Request) : Route → Host × Response
  | .root => (h, .text 200 "Experiment client host")
  | .health => (h, h.health)
  | .experiments => (h, document 200 h.snapshot.document)
  | .experiment name => h.reading name (fun name => (h, h.experimentAnswer name))
  | .changes name => h.reading name h.changes
  | .contextKind kind => h.reading kind h.deleteContext
  | .context kind key => h.reading kind fun kind => h.reading key fun key => h.putContext kind key
  | .identity => if r.method = "PUT" then h.putIdentity r else (h, document 200 h.identityDocument)
  | .overrides => (h, document 200 h.overrides.document)

/-- Leaves out the body; a stream that was opened for it is dropped. -/
def silence (h : Host) (r : Response) : Host × Response :=
  match r.body with
  | .events id => (h.unsubscribe id, r.silent)
  | _ => (h, r.silent)

def respond (h : Host) (r : Request) : Host × Response :=
  match Route.ofPath? r.path with
  | none => (h, .bare 404)
  | some route =>
    if route.methods.contains r.method then h.answer r route
    else if r.method = "HEAD" && route.methods.contains "GET" then
      let a := h.answer { r with method := "GET" } route
      a.1.silence a.2
    else (h, { Response.bare 405 with allow := some route.allowed })

end FeatureFlags.Host
