import FeatureFlags.Table
import FeatureFlags.Json.Decimal

/-!
# JSON values

* `Number`   a whole number of 64 bits or a double; the two kinds are never equal;
* `Json`     the values.  In a *value* the members of every object are sorted by name
             (`Json.WellFormed`); the same type also holds *documents*, whose members stand in the
             order in which they are written and may repeat a name;
* `Json.same`   equality, for which the sign of a zero does not count;
* `Json.collapse`   the value of a document: of members with one name the last counts.
-/

namespace FeatureFlags

/-- A whole number that fits 64 bits, signed or not, or a double. -/
inductive Number where
  | integer (n : Int)
  | double (x : Binary64)
  deriving DecidableEq

namespace Number

def same : Number → Number → Bool
  | .integer m, .integer n => m == n
  | .double x, .double y => x == y
  | _, _ => false

instance : BEq Number := ⟨same⟩

theorem same_refl (n : Number) : same n n = true := by
  cases n with
  | integer n => exact beq_self_eq_true n
  | double x => exact Binary64.same_refl x

end Number

inductive Json where
  | null
  | bool (b : Bool)
  | num (n : Number)
  | str (s : String)
  | arr (items : List Json)
  | obj (members : List (String × Json))
  deriving Inhabited

namespace Json

def integer (n : Int) : Json := .num (.integer n)

def ofOption (f : α → Json) : Option α → Json
  | none => .null
  | some a => f a

/-- an object with the entries of a table -/
def ofTable (t : Table Json) : Json := .obj t.entries

/-! ## equality -/

mutual

def same : Json → Json → Bool
  | .null, .null => true
  | .bool a, .bool b => a == b
  | .num a, .num b => a == b
  | .str a, .str b => a == b
  | .arr a, .arr b => sameItems a b
  | .obj a, .obj b => sameMembers a b
  | _, _ => false

def sameItems : List Json → List Json → Bool
  | [], [] => true
  | a :: as, b :: bs => same a b && sameItems as bs
  | _, _ => false

def sameMembers : List (Entry Json) → List (Entry Json) → Bool
  | [], [] => true
  | (m, a) :: as, (n, b) :: bs => m == n && same a b && sameMembers as bs
  | _, _ => false

end

instance : BEq Json := ⟨same⟩

/-! ## values and documents -/

mutual

/-- the members of every object are in strictly ascending order -/
def WellFormed : Json → Prop
  | .arr items => WellFormedItems items
  | .obj members => Entries.Sorted members ∧ WellFormedMembers members
  | _ => True

def WellFormedItems : List Json → Prop
  | [] => True
  | a :: as => WellFormed a ∧ WellFormedItems as

def WellFormedMembers : List (Entry Json) → Prop
  | [] => True
  | (_, a) :: as => WellFormed a ∧ WellFormedMembers as

end

mutual

/-- the value of a document -/
def collapse : Json → Json
  | .arr items => .arr (collapseItems items)
  | .obj members => .obj (Entries.collect (collapseMembers members))
  | a => a

def collapseItems : List Json → List Json
  | [] => []
  | a :: as => collapse a :: collapseItems as

def collapseMembers : List (Entry Json) → List (Entry Json)
  | [] => []
  | (name, a) :: as => (name, collapse a) :: collapseMembers as

end

/-! ## looking inside -/

/-- the member of an object -/
def member? (name : String) : Json → Option Json
  | .obj members => Entries.find? name members
  | _ => none

def bool? : Json → Option Bool
  | .bool b => some b
  | _ => none

def str? : Json → Option String
  | .str s => some s
  | _ => none

end Json

end FeatureFlags
