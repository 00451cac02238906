import FeatureFlags.Context

/-!
# Flag definitions

* `Rule`         a targeting rule: contexts for which a flag is on;
* `Target`       what a rule looks at, read off its type;
* `Definition`   a flag: whether it is on at all, its two values, its rules and its rollout.
-/

namespace FeatureFlags

/-- What a rule compares its value with. -/
inductive Target where
  | userKey
  | userEmail
  /-- the end of the user's email address -/
  | emailDomain
  /-- the key of the sub-context of a kind -/
  | contextKey (kind : String)
  /-- a type that no context matches -/
  | unknown
  deriving DecidableEq

def Target.ofType (type : String) : Target :=
  match type with
  | "user_key" => .userKey
  | "user_email" => .userEmail
  | "email_domain" => .emailDomain
  | _ =>
    match Text.after? "context:" type with
    | some kind => .contextKey kind
    | none => .unknown

structure Rule where
  type : String
  value : String
  enabled : Bool
  priority : Int32

namespace Rule

def document (r : Rule) : Json :=
  .obj [("rule_type", .str r.type), ("rule_value", .str r.value), ("enabled", .bool r.enabled),
    ("priority", .integer r.priority.toInt)]

def defaultEnabled : Bool := true
def defaultPriority : Int32 := 0

/-- what is known of a rule while the members are read -/
structure Draft where
  type : Option String := none
  value : Option String := none
  enabled : Option Bool := none
  priority : Option Int32 := none

def Draft.take (o : Origin) (d : Draft) (name : String) (node : Node) :
    Except DecodeError Draft := do
  match name with
  | "rule_type" => pure { d with type := ← fill name d.type (node.toStr o) }
  | "rule_value" => pure { d with value := ← fill name d.value (node.toStr o) }
  | "enabled" => pure { d with enabled := ← fill name d.enabled (node.toBool o) }
  | "priority" => pure { d with priority := ← fill name d.priority (node.toInt32 o) }
  | _ => node.ignore d

def Draft.finish (d : Draft) : Except DecodeError Rule := do
  let type ← required "rule_type" d.type
  let value ← required "rule_value" d.value
  pure { type, value, enabled := d.enabled.getD defaultEnabled,
         priority := d.priority.getD defaultPriority }

def ofItems (o : Origin) (items : Items) : Except DecodeError Rule := do
  let (type, items) ← items.next (Node.toStr o)
  let (value, items) ← items.next (Node.toStr o)
  let (enabled, items) ← items.next? (Node.toBool o)
  let (priority, items) ← items.next? (Node.toInt32 o)
  items.finish o { type, value, enabled := enabled.getD defaultEnabled,
                   priority := priority.getD defaultPriority }

def decode (o : Origin) : Node → Except DecodeError Rule
  | .array items closed => do ofItems (← o.enter) ⟨items, closed⟩
  | node => do (← node.fold Draft.take {} o).finish

end Rule

structure Definition where
  key : String
  enabled : Bool
  /-- share of contexts for which the flag is on when no rule matches; without one it is on for
  all -/
  rollout : Option Int32
  onValue : Json
  offValue : Json
  rules : List Rule

namespace Definition

def document (d : Definition) : Json :=
  .obj [("key", .str d.key), ("enabled", .bool d.enabled),
    ("rollout_percentage", .ofOption (fun p => .integer p.toInt) d.rollout),
    ("value", d.onValue), ("off_value", d.offValue), ("rules", .arr (d.rules.map Rule.document))]

def value (d : Definition) : Json := d.document.collapse

def defaultEnabled : Bool := false
def defaultOnValue : Json := .bool true
def defaultOffValue : Json := .bool false

/-- what is known of a definition while the members are read -/
structure Draft where
  key : Option String := none
  enabled : Option Bool := none
  rollout : Option (Option Int32) := none
  onValue : Option Json := none
  offValue : Option Json := none
  rules : Option (List Rule) := none

def Draft.take (o : Origin) (d : Draft) (name : String) (node : Node) :
    Except DecodeError Draft := do
  match name with
  | "key" => pure { d with key := ← fill name d.key (node.toStr o) }
  | "enabled" => pure { d with enabled := ← fill name d.enabled (node.toBool o) }
  | "rollout_percentage" =>
    pure { d with rollout := ← fill name d.rollout (node.toOption Node.toInt32 o) }
  | "value" => pure { d with onValue := ← fill name d.onValue (node.toJson o) }
  | "off_value" => pure { d with offValue := ← fill name d.offValue (node.toJson o) }
  | "rules" => pure { d with rules := ← fill name d.rules (node.toList Rule.decode o) }
  | _ => node.ignore d

def Draft.finish (d : Draft) : Except DecodeError Definition := do
  let key ← required "key" d.key
  pure { key, enabled := d.enabled.getD defaultEnabled, rollout := d.rollout.join,
         onValue := d.onValue.getD defaultOnValue, offValue := d.offValue.getD defaultOffValue,
         rules := d.rules.getD [] }

def ofItems (o : Origin) (items : Items) : Except DecodeError Definition := do
  let (key, items) ← items.next (Node.toStr o)
  let (enabled, items) ← items.next? (Node.toBool o)
  let (rollout, items) ← items.next? (Node.toOption Node.toInt32 o)
  let (onValue, items) ← items.next? (Node.toJson o)
  let (offValue, items) ← items.next? (Node.toJson o)
  let (rules, items) ← items.next? (Node.toList Rule.decode o)
  items.finish o { key, enabled := enabled.getD defaultEnabled, rollout := rollout.join,
                   onValue := onValue.getD defaultOnValue,
                   offValue := offValue.getD defaultOffValue, rules := rules.getD [] }

def decode (o : Origin) : Node → Except DecodeError Definition
  | .array items closed => do ofItems (← o.enter) ⟨items, closed⟩
  | node => do (← node.fold Draft.take {} o).finish

/-- a list of definitions -/
def decodeAll (o : Origin) (node : Node) : Except DecodeError (List Definition) :=
  node.toList decode o

end Definition

end FeatureFlags
