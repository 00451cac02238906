import FeatureFlags.FlagSet
import FeatureFlags.Text.Timestamp

/-!
# Notices

What a client tells the application it is part of.

* `Notice`             one message to one of its receivers;
* `Notice.ofFlags`     what is derived from a flag set: message overwrites, feature overwrites, and
                       the text of the set as an analytics tag;
* `Overrides`          a store that keeps the latest of each;
* `Overrides.ofNotices`   its content after a history of notices.
-/

namespace FeatureFlags

inductive Notice where
  /-- all message overwrites -/
  | messages (texts : Table String)
  /-- all feature overwrites -/
  | features (states : Table Bool)
  | tag (key value : String)
  /-- the first flags did not arrive in time -/
  | loadTimeout

namespace Notice

/-- the analytics tag that holds the text of the flag set -/
def experimentsTag : String := "experiments"

def ofFlags (flags : FlagSet) : List Notice :=
  [.messages flags.messages, .features flags.features, .tag experimentsTag flags.text]

/-- the record of a load timeout -/
def loadTimeoutDocument (time : Timestamp) : Json :=
  .obj [("action", .str "flag_backend_load_timeout"), ("at", .str time.text)]

end Notice

/-- The overwrites that were published last. -/
structure Overrides where
  messages : Table String
  features : Table Bool
  tags : Table String

namespace Overrides

def empty : Overrides := ⟨{}, {}, {}⟩

instance : Inhabited Overrides := ⟨empty⟩

def accept (o : Overrides) : Notice → Overrides
  | .messages texts => { o with messages := texts }
  | .features states => { o with features := states }
  | .tag key value => { o with tags := o.tags.insert key value }
  | .loadTimeout => o

def ofNotices (ns : List Notice) : Overrides := ns.foldl accept empty

def texts (t : Table String) : Json := .ofTable (t.map (fun _ s => .str s))
def states (t : Table Bool) : Json := .ofTable (t.map (fun _ b => .bool b))

def document (o : Overrides) : Json :=
  .obj [("messages", texts o.messages), ("features", states o.features),
    ("analytics_context", texts o.tags)]

theorem ofNotices_append (ms ns : List Notice) :
    ofNotices (ms ++ ns) = ns.foldl accept (ofNotices ms) := by
  rw [ofNotices, List.foldl_append]
  rfl

end Overrides

end FeatureFlags
