import FeatureFlags.Context

/-!
# Identities

Who is signed in, as an identity provider reports it, and the context this person is evaluated in.

* `User`, `Identity`       with their JSON documents and decoders;
* `SubContext.ofUser`      the sub-context of a user; nobody signed in is an anonymous one;
* `Identity.context`       the user sub-context, and that of the selected workspace.
-/

namespace FeatureFlags

structure User where
  userId : String
  name : String
  email : String
  /-- what else the provider tells -/
  attributes : Table Json

namespace User

def same (u v : User) : Bool :=
  u.userId == v.userId && u.name == v.name && u.email == v.email &&
    Json.sameMembers u.attributes.entries v.attributes.entries

instance : BEq User := ⟨same⟩

def fixedNames : List String := ["userId", "name", "email"]

def fixedMembers (u : User) : List (Entry Json) :=
  [("userId", .str u.userId), ("name", .str u.name), ("email", .str u.email)]

def document (u : User) : Json := .obj (u.fixedMembers ++ u.attributes.entries)

def value (u : User) : Json := u.document.collapse

/-- what is known of a user while the members are read -/
structure Draft where
  userId : Option String := none
  name : Option String := none
  email : Option String := none
  attributes : Table Json := {}

def Draft.take (o : Origin) (d : Draft) (name : String) (node : Node) :
    Except DecodeError Draft := do
  match name with
  | "userId" => pure { d with userId := ← fill name d.userId (node.toStr o) }
  | "name" => pure { d with name := ← fill name d.name (node.toStr o) }
  | "email" => pure { d with email := ← fill name d.email (node.toStr o) }
  | _ => pure { d with attributes := d.attributes.insert name (← node.toJson o) }

def Draft.finish (d : Draft) : Except DecodeError User := do
  let userId ← required "userId" d.userId
  let name ← required "name" d.name
  let email ← required "email" d.email
  pure { userId, name, email, attributes := d.attributes }

def decode (o : Origin) (node : Node) : Except DecodeError User := do
  (← node.fold Draft.take {} o).finish

end User

namespace SubContext

/-- The sub-context of a user; without one it is anonymous. -/
def ofUser (user : Option User) (locale : String) : SubContext :=
  match user with
  | none =>
    { kind := userKind, anonymous := some true, key := none, email := none, name := none,
      locale := some locale, attributes := {} }
  | some u =>
    { kind := userKind, anonymous := some false, key := some u.userId, email := some u.email,
      name := some u.name, locale := some locale, attributes := u.attributes }

def ofWorkspace (id : String) : SubContext := keyed workspaceKind id

end SubContext

structure Identity where
  user : Option User
  locale : String
  workspaceId : Option String

namespace Identity

/-- nobody signed in -/
def anonymous (locale : String) : Identity := ⟨none, locale, none⟩

def defaultLocale : String := "en"

instance : Inhabited Identity := ⟨anonymous defaultLocale⟩

def context (i : Identity) : Context :=
  .compose (.ofUser i.user i.locale) (i.workspaceId.map SubContext.ofWorkspace).toList

def document (i : Identity) : Json :=
  .obj [("user", .ofOption User.document i.user), ("locale", .str i.locale),
    ("workspace_id", .ofOption .str i.workspaceId)]

def value (i : Identity) : Json := i.document.collapse

/-- what is known of an identity while the members are read -/
structure Draft where
  user : Option (Option User) := none
  locale : Option String := none
  workspaceId : Option (Option String) := none

def Draft.take (o : Origin) (d : Draft) (name : String) (node : Node) :
    Except DecodeError Draft := do
  match name with
  | "user" => pure { d with user := ← fill name d.user (node.toOption User.decode o) }
  | "locale" => pure { d with locale := ← fill name d.locale (node.toStr o) }
  | "workspace_id" =>
    pure { d with workspaceId := ← fill name d.workspaceId (node.toOption Node.toStr o) }
  | _ => node.ignore d

def Draft.finish (d : Draft) : Except DecodeError Identity := do
  let locale ← required "locale" d.locale
  pure { user := d.user.join, locale, workspaceId := d.workspaceId.join }

def ofItems (o : Origin) (items : Items) : Except DecodeError Identity := do
  let (user, items) ← items.next? (Node.toOption User.decode o)
  let (locale, items) ← items.next (Node.toStr o)
  let (workspaceId, items) ← items.next? (Node.toOption Node.toStr o)
  items.finish o { user := user.join, locale, workspaceId := workspaceId.join }

def decode (o : Origin) : Node → Except DecodeError Identity
  | .array items closed => do ofItems (← o.enter) ⟨items, closed⟩
  | node => do (← node.fold Draft.take {} o).finish

end Identity

end FeatureFlags
