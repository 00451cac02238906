/-!
# Requests and responses

* `Request`, `Response`   what a host is asked, and what it answers;
* `Request.header?`       names of headers have no case;
* `Response.text`, `Response.json`, `Response.bare`   the usual responses.
-/

namespace FeatureFlags

structure Request where
  method : String
  /-- the path, with a query or without one -/
  target : String
  headers : List (String × String)
  body : String

namespace Request

def lowered (s : String) : List Char := s.toList.map Char.toLower

def header? (r : Request) (name : String) : Option String :=
  (r.headers.find? (fun h => lowered h.1 = lowered name)).map Prod.snd

/-- the path alone -/
def path (r : Request) : String :=
  String.ofList (r.target.toList.takeWhile (fun c => c ≠ '?' && c ≠ '#'))

end Request

inductive MediaType where
  | text
  | json
  | events

def MediaType.name : MediaType → String
  | text => "text/plain; charset=utf-8"
  | json => "application/json"
  | events => "text/event-stream"

/-- What a response carries. -/
inductive Body where
  | text (content : String)
  /-- the stream of change events with a number -/
  | events (stream : Nat)
  /-- an explanation in words that are not fixed here -/
  | explanation

structure Response where
  status : Nat
  media : Option MediaType
  /-- the methods that a path has -/
  allow : Option String
  body : Body

namespace Response

def bare (status : Nat) : Response := ⟨status, none, none, .text ""⟩

def text (status : Nat) (content : String) : Response := ⟨status, some .text, none, .text content⟩

def json (status : Nat) (content : String) : Response := ⟨status, some .json, none, .text content⟩

/-- The body is not fit to be decoded. -/
def refusal (status : Nat) : Response := ⟨status, some .text, none, .explanation⟩

/-- The response without its body. -/
def silent (r : Response) : Response := { r with body := .text "" }

end Response

end FeatureFlags
