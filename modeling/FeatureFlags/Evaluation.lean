import FeatureFlags.Definition
import FeatureFlags.FlagSet
import FeatureFlags.Rollout

/-!
# Evaluation

Which value a flag has for a context, and why.

* `Rule.covers`           whether a rule matches a context;
* `ranked`, `matching?`   the enabled rules in the order in which they are tried, and the first of
                          them that matches;
* `Definition.evaluate`   a flag that is off as a whole has its off value; otherwise a matching rule
                          turns it on; otherwise the rollout decides;
* `Definitions.flagSet`   the values of all flags.
-/

namespace FeatureFlags

/-- Why a flag has its value. -/
inductive Reason where
  | disabled
  | rule (type value : String)
  | inRollout (percentage : Int32)
  | notInRollout (percentage : Int32)
  | everyone
  deriving DecidableEq

def Reason.text : Reason → String
  | .disabled => "Flag is globally disabled"
  | .rule type value => "Matched " ++ type ++ " rule: " ++ value
  | .inRollout p => "Context in " ++ String.ofList (Json.integerChars p.toInt) ++ "% rollout"
  | .notInRollout p => "Context not in " ++ String.ofList (Json.integerChars p.toInt) ++ "% rollout"
  | .everyone => "Flag enabled globally, no specific rules applied"

structure Evaluation where
  value : Json
  reason : Reason

namespace Context

def userKey? (c : Context) : Option String := c.key? SubContext.userKind

def userEmail? (c : Context) : Option String := (c.get? SubContext.userKind).bind SubContext.email

/-- what a rollout knows a context by: the user's key, or else the email address -/
def identifier (c : Context) : String := (c.userKey?.or c.userEmail?).getD "anonymous"

end Context

namespace Rule

def covers (r : Rule) (c : Context) : Bool :=
  match Target.ofType r.type with
  | .userKey => c.userKey? == some r.value
  | .userEmail => c.userEmail? == some r.value
  | .emailDomain => c.userEmail?.any (Text.endsWith r.value)
  | .contextKey kind => c.key? kind == some r.value
  | .unknown => false

/-- `r` is tried before `s`, or may be: it has at least the same priority -/
def precedes (r s : Rule) : Bool := s.priority ≤ r.priority

end Rule

/-- The enabled rules by descending priority; rules of one priority stay in their order. -/
def ranked (rs : List Rule) : List Rule := (rs.filter Rule.enabled).mergeSort Rule.precedes

/-- the first of the ranked rules that matches -/
def matching? (rs : List Rule) (c : Context) : Option Rule :=
  (ranked rs).find? (fun r => r.covers c)

namespace Definition

def on (d : Definition) (reason : Reason) : Evaluation := ⟨d.onValue, reason⟩
def off (d : Definition) (reason : Reason) : Evaluation := ⟨d.offValue, reason⟩

/-- the value where no rule matches -/
def evaluateRollout (d : Definition) (c : Context) : Evaluation :=
  match d.rollout with
  | some p =>
    if Rollout.includes p d.key c.identifier then d.on (.inRollout p) else d.off (.notInRollout p)
  | none => d.on .everyone

def evaluate (d : Definition) (c : Context) : Evaluation :=
  if d.enabled then
    match matching? d.rules c with
    | some r => d.on (.rule r.type r.value)
    | none => d.evaluateRollout c
  else d.off .disabled

/-- a flag with a key only, on for the given share of contexts -/
def shared (key : String) (percentage : Int32) : Definition :=
  { key, enabled := true, rollout := some percentage, onValue := defaultOnValue,
    offValue := defaultOffValue, rules := [] }

/-- whether a flag with this key is on for the context, at each whole percentage from 0 to 100 -/
def rolloutProfile (key : String) (c : Context) : List Bool :=
  (List.range 101).map (fun p => ((shared key (Int32.ofNat p)).evaluate c).value == .bool true)

/-- the least percentage at which it is on -/
def leastRollout? (key : String) (c : Context) : Option Nat := (rolloutProfile key c).idxOf? true

/-- whether it stays on from there -/
def rolloutOnlyWidens (key : String) (c : Context) : Bool :=
  ((rolloutProfile key c).dropWhile (fun b => !b)).all id

end Definition

/-- flag definitions by key -/
abbrev Definitions := Table Definition

namespace Definitions

/-- of several definitions with one key the last counts -/
def ofList (ds : List Definition) : Definitions := Table.ofList (ds.map (fun d => (d.key, d)))

/-- the values of all flags for a context -/
def flagSet (ds : Definitions) (c : Context) : FlagSet :=
  ds.map (fun _ d => (d.evaluate c).value)

end Definitions

end FeatureFlags
