import FeatureFlags.Json.Decode
import FeatureFlags.Json.Printer

/-!
# Flag sets

The values of all flags for one context.

* `FlagSet.changesTo`   what is different in another set, ordered by name;
* `FlagSet.messages`    message overwrites: flags `i18n_<message id>` with a text that is not empty;
* `FlagSet.features`    feature overwrites: flags `featureService.<feature>` with a boolean
                        `enabled`.
-/

namespace FeatureFlags

abbrev FlagSet := Table Json

/-- A flag whose value differs between two sets; absent where the set has no such flag. -/
structure Change where
  name : String
  previous : Option Json
  current : Option Json

namespace FlagSet

/-- equality of values, flag by flag -/
def same (f g : FlagSet) : Bool := Json.sameMembers f.entries g.entries

def document (f : FlagSet) : Json := .ofTable f

def text (f : FlagSet) : String := f.document.print

def decode (o : Origin) (node : Node) : Except DecodeError FlagSet :=
  node.toTable Node.toJson o

/-! ## differences -/

def unchanged (previous current : Option Json) : Bool :=
  match previous, current with
  | some a, some b => a == b
  | none, none => true
  | _, _ => false

/-- the flags of `new` that `old` lacks or has with another value -/
def updates (old new : FlagSet) : List Change :=
  (new.entries.filter (fun e => !unchanged (old.find? e.1) (some e.2))).map
    (fun e => ⟨e.1, old.find? e.1, some e.2⟩)

/-- the flags of `old` that `new` lacks -/
def removals (old new : FlagSet) : List Change :=
  (old.entries.filter (fun e => !new.contains e.1)).map (fun e => ⟨e.1, some e.2, none⟩)

/-- The differences from `old` to `new`, in the order of the names. -/
def changesTo (old new : FlagSet) : List Change :=
  (updates old new ++ removals old new).mergeSort (fun a b => a.name ≤ b.name)

/-- a flag set after one change -/
def apply (flags : FlagSet) (c : Change) : FlagSet :=
  match c.current with
  | some value => flags.insert c.name value
  | none => flags.erase c.name

/-- a flag set after changes, one after the other -/
def applyAll (flags : FlagSet) (cs : List Change) : FlagSet := cs.foldl apply flags

/-! ## flags with a meaning -/

def messageMark : String := "i18n_"

def featureMark : String := "featureService."

def message? (value : Json) : Option String := value.str?.filter (fun m => !m.isEmpty)

def toggle? (value : Json) : Option Bool := (value.member? "enabled").bind Json.bool?

/-- the entry that a flag contributes to a map of overwrites -/
def overwrite? (mark : String) (read : Json → Option α) (e : Entry Json) : Option (Entry α) :=
  (Text.after? mark e.1).bind (fun id => (read e.2).map (fun a => (id, a)))

/-- message id to text -/
def messages (flags : FlagSet) : Table String :=
  .ofList (flags.entries.filterMap (overwrite? messageMark message?))

/-- feature name to forced state -/
def features (flags : FlagSet) : Table Bool :=
  .ofList (flags.entries.filterMap (overwrite? featureMark toggle?))

end FlagSet

end FeatureFlags
