import FeatureFlags.Json.Decode
import FeatureFlags.Json.Printer

/-!
# Contexts

Whom flags are evaluated for.  A `SubContext` describes one thing of some kind: a user, a
workspace.  A `Context` is one of them, or several.

* `Context.compose`   puts sub-contexts together, at most one of each kind: a later one takes the
                      place of an earlier one of its kind, and a lone one is not wrapped;
* `Context.Normal`    the contexts that composing gives;
* `Context.insert`, `Context.erase?`   a context changed in one kind;
* `Context.document`   the JSON document of a context.
-/

namespace FeatureFlags

/-- One kind of evaluation context. -/
structure SubContext where
  kind : String
  anonymous : Option Bool
  key : Option String
  email : Option String
  name : Option String
  locale : Option String
  /-- what else is known, written after the fields above -/
  attributes : Table Json

namespace SubContext

def userKind : String := "user"
def workspaceKind : String := "workspace"

/-- an auxiliary sub-context, which has a key only -/
def keyed (kind key : String) : SubContext :=
  { kind, key := some key, anonymous := none, email := none, name := none, locale := none,
    attributes := {} }

/-- equality, where attributes are compared as JSON -/
def same (c d : SubContext) : Bool :=
  c.kind == d.kind && c.anonymous == d.anonymous && c.key == d.key && c.email == d.email &&
    c.name == d.name && c.locale == d.locale &&
    Json.sameMembers c.attributes.entries d.attributes.entries

instance : BEq SubContext := ⟨same⟩

/-! ## as JSON -/

/-- a member that is left out when there is no value -/
def optionalMember (name : String) (f : α → Json) : Option α → List (Entry Json)
  | none => []
  | some a => [(name, f a)]

def fixedNames : List String := ["kind", "anonymous", "key", "email", "name", "locale"]

def fixedMembers (c : SubContext) : List (Entry Json) :=
  ("kind", .str c.kind) :: (optionalMember "anonymous" .bool c.anonymous ++
    (optionalMember "key" .str c.key ++ (optionalMember "email" .str c.email ++
      (optionalMember "name" .str c.name ++ optionalMember "locale" .str c.locale))))

/-- The fields in their order, then the attributes in theirs.  An attribute with the name of a field
repeats it. -/
def document (c : SubContext) : Json := .obj (c.fixedMembers ++ c.attributes.entries)

def value (c : SubContext) : Json := c.document.collapse

/-- what is known of a sub-context while its members are read -/
structure Draft where
  kind : Option String := none
  anonymous : Option (Option Bool) := none
  key : Option (Option String) := none
  email : Option (Option String) := none
  name : Option (Option String) := none
  locale : Option (Option String) := none
  attributes : Table Json := {}

def Draft.take (o : Origin) (d : Draft) (name : String) (node : Node) :
    Except DecodeError Draft := do
  match name with
  | "kind" => pure { d with kind := ← fill name d.kind (node.toStr o) }
  | "anonymous" =>
    pure { d with anonymous := ← fill name d.anonymous (node.toOption Node.toBool o) }
  | "key" => pure { d with key := ← fill name d.key (node.toOption Node.toStr o) }
  | "email" => pure { d with email := ← fill name d.email (node.toOption Node.toStr o) }
  | "name" => pure { d with name := ← fill name d.name (node.toOption Node.toStr o) }
  | "locale" => pure { d with locale := ← fill name d.locale (node.toOption Node.toStr o) }
  | _ => pure { d with attributes := d.attributes.insert name (← node.toJson o) }

def Draft.finish (d : Draft) : Except DecodeError SubContext := do
  let kind ← required "kind" d.kind
  pure { kind, anonymous := d.anonymous.join, key := d.key.join, email := d.email.join,
         name := d.name.join, locale := d.locale.join, attributes := d.attributes }

def decode (o : Origin) (node : Node) : Except DecodeError SubContext := do
  (← node.fold Draft.take {} o).finish

end SubContext

inductive Context where
  | single (c : SubContext)
  | multi (cs : List SubContext)

namespace Context

def multiKind : String := "multi"

def kind : Context → String
  | single c => c.kind
  | multi _ => multiKind

def isMulti : Context → Bool
  | single _ => false
  | multi _ => true

/-- the sub-contexts in their order -/
def parts : Context → List SubContext
  | single c => [c]
  | multi cs => cs

/-- the first sub-context of a kind -/
def get? (c : Context) (kind : String) : Option SubContext := c.parts.find? (fun s => s.kind = kind)

def key? (c : Context) (kind : String) : Option String := (c.get? kind).bind SubContext.key

/-- The sub-contexts with `s` in place of the first of its kind, or at the end. -/
def place (s : SubContext) : List SubContext → List SubContext
  | [] => [s]
  | t :: ts => if t.kind = s.kind then s :: ts else t :: place s ts

def ofParts : List SubContext → Context
  | [s] => single s
  | ss => multi ss

def compose (first : SubContext) (rest : List SubContext) : Context :=
  ofParts (rest.foldl (fun ss s => place s ss) [first])

/-- The context with `s` added, in place of any sub-context of its kind. -/
def insert (c : Context) (s : SubContext) : Context :=
  match c.parts with
  | [] => single s
  | first :: rest => compose first (rest ++ [s])

/-- The context without the sub-contexts of a kind, unless nothing would be left. -/
def erase? (c : Context) (kind : String) : Option Context :=
  match c.parts.filter (fun s => s.kind ≠ kind) with
  | [] => none
  | first :: rest => some (compose first rest)

/-- at least one sub-context, no kind twice, and wrapped only if there are several -/
def Normal : Context → Prop
  | single _ => True
  | multi cs => 2 ≤ cs.length ∧ (cs.map SubContext.kind).Nodup

/-- equality, where the order of sub-contexts counts and attributes are compared as JSON -/
def same : Context → Context → Bool
  | single c, single d => c == d
  | multi cs, multi ds => cs == ds
  | _, _ => false

instance : BEq Context := ⟨same⟩

/-- A lone sub-context is written as it is, several as members under their kinds. -/
def document : Context → Json
  | single c => c.document
  | multi cs => .obj (("kind", .str multiKind) :: cs.map (fun c => (c.kind, c.document)))

def value (c : Context) : Json := c.document.collapse

def text (c : Context) : String := c.document.print

theorem parts_single (c : SubContext) : (single c).parts = [c] := rfl
theorem parts_multi (cs : List SubContext) : (multi cs).parts = cs := rfl

theorem parts_ofParts (ss : List SubContext) : (ofParts ss).parts = ss := by
  match ss with
  | [] => rfl
  | [_] => rfl
  | _ :: _ :: _ => rfl

theorem place_nil (s : SubContext) : place s [] = [s] := rfl
theorem place_cons (s t : SubContext) (ts : List SubContext) :
    place s (t :: ts) = if t.kind = s.kind then s :: ts else t :: place s ts := rfl

end Context

end FeatureFlags
