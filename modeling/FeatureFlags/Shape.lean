import FeatureFlags.Json.Value

/-!
# Shapes of flag values

A reader of flags asks for values of some shape, and gets those that have it.

* `Shape`         the shapes;
* `Shape.read?`   the value in that shape: whole numbers are doubles too, but not the other way
                  round.
-/

namespace FeatureFlags

inductive Shape where
  | bool
  /-- a whole number of 64 bits with sign -/
  | int64
  /-- a whole number from 0 to 255 -/
  | byte
  | double
  | string
  | any
  | optionalInt64
  | int64List
  | boolMap
  deriving DecidableEq

namespace Shape

/-- two to the power of 63 -/
def int64Limit : Int := 0x8000000000000000

def int64? (value : Json) : Option Json :=
  match value with
  | .num (.integer n) => if -int64Limit ≤ n ∧ n < int64Limit then some value else none
  | _ => none

def byte? (value : Json) : Option Json :=
  match value with
  | .num (.integer n) => if 0 ≤ n ∧ n < 256 then some value else none
  | _ => none

def double? (value : Json) : Option Json :=
  match value with
  | .num (.integer n) => some (.num (.double (.ofInt n)))
  | .num (.double x) => some (.num (.double x))
  | _ => none

def boolMember? : Entry Json → Option (Entry Json)
  | (name, .bool b) => some (name, .bool b)
  | _ => none

def read? (shape : Shape) (value : Json) : Option Json :=
  match shape with
  | bool => value.bool?.map .bool
  | int64 => int64? value
  | byte => byte? value
  | double => double? value
  | string => value.str?.map .str
  | any => some value
  | optionalInt64 =>
    match value with
    | .null => some .null
    | _ => int64? value
  | int64List =>
    match value with
    | .arr items => (items.mapM int64?).map .arr
    | _ => none
  | boolMap =>
    match value with
    | .obj members => (members.mapM boolMember?).map .obj
    | _ => none

end Shape

end FeatureFlags
