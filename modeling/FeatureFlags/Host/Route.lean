import FeatureFlags.Text.Percent
import FeatureFlags.Text.Pieces

/-!
# Routes

The paths that a host serves.  The segments of a path are compared as they are written; those that
stand for a parameter are decoded after that, so that an encoded slash does not end a segment.

* `Route.ofPath?`     the route of a path; a parameter at its end cannot be empty;
* `Route.methods`     the methods of a route;
* `Parameter.read?`   the text of a parameter.
-/

namespace FeatureFlags

/-- A part of a path that may be anything. -/
structure Parameter where
  name : String
  /-- as it is written in the path -/
  written : String
  deriving DecidableEq

def Parameter.read? (p : Parameter) : Option String := Text.percentDecode? p.written

inductive Route where
  | root
  | health
  | experiments
  | experiment (name : Parameter)
  | changes (name : Parameter)
  | contextKind (kind : Parameter)
  | context (kind key : Parameter)
  | identity
  | overrides
  deriving DecidableEq

namespace Route

/-- the parts between the slashes -/
def segments (path : String) : List String :=
  (Text.pieces (· = '/') path.toList).map String.ofList

def ofSegments? : List String → Option Route
  | ["", ""] => some root
  | ["", "health"] => some health
  | ["", "api", "identity"] => some identity
  | ["", "api", "overrides"] => some overrides
  | ["", "api", "experiments"] => some experiments
  | ["", "api", "experiments", name] =>
    if name = "" then none else some (experiment ⟨"name", name⟩)
  | ["", "api", "experiments", name, "changes"] => some (changes ⟨"name", name⟩)
  | ["", "api", "contexts", kind] =>
    if kind = "" then none else some (contextKind ⟨"kind", kind⟩)
  | ["", "api", "contexts", kind, key] =>
    if key = "" then none else some (context ⟨"kind", kind⟩ ⟨"key", key⟩)
  | _ => none

def ofPath? (path : String) : Option Route := ofSegments? (segments path)

def methods : Route → List String
  | root | health | experiments | experiment _ | changes _ | overrides => ["GET"]
  | identity => ["GET", "PUT"]
  | contextKind _ => ["DELETE"]
  | context _ _ => ["PUT"]

/-- The methods as a host lists them: who can be asked to get can be asked for the head alone. -/
def allowed (r : Route) : String :=
  ",".intercalate (r.methods.flatMap (fun m => if m = "GET" then ["GET", "HEAD"] else [m]))

end Route

end FeatureFlags
