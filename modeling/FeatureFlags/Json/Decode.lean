import FeatureFlags.Json.Node

/-!
# Decoding

Typed values from trees.  A decoder walks the tree in reading order and reports the first problem it
meets: a wrong type is noticed at the first character of a bracketed value, and after the whole of
any other.

* `DecodeError`    the problems, and their texts;
* `Origin`         whether the tree was read from a text, which may nest only so deep, or is a
                   value;
* `Node.toJson`, `Node.toStr`, `Node.toInt32`, …   decoders;
* `Node.fold`, `fill`   records given as objects: members in order, each field at most once;
* `Items`          records given as arrays of their fields;
* `decodeText`, `decodeValue`   a whole text, a whole value.
-/

namespace FeatureFlags

inductive DecodeError where
  | missingField (name : String)
  | duplicateField (name : String)
  | invalidType
  /-- an integer beyond the range of its type -/
  | invalidValue
  /-- a record given as an array with too few or too many items -/
  | invalidLength
  | tooDeep
  /-- a text that is not JSON -/
  | malformed
  deriving DecidableEq

def DecodeError.message : DecodeError → String
  | .missingField name => "missing field `" ++ name ++ "`"
  | .duplicateField name => "duplicate field `" ++ name ++ "`"
  | .invalidType => "invalid type"
  | .invalidValue => "invalid value"
  | .invalidLength => "invalid length"
  | .tooDeep => "recursion limit exceeded"
  | .malformed => "syntax"

/-- A text has room for so many levels of brackets, less one; a value is as deep as it is. -/
inductive Origin where
  | text (room : Nat)
  | value

namespace Origin

/-- a whole text: 127 levels of brackets -/
def wholeText : Origin := text 128

/-- what holds inside a bracket -/
def enter : Origin → Except DecodeError Origin
  | text room => if room ≤ 1 then .error .tooDeep else .ok (text (room - 1))
  | value => .ok value

/-- the problem with items for which a record has no field -/
def excess : Origin → DecodeError
  | text _ => .malformed
  | value => .invalidLength

end Origin

namespace Node

/-- the problem with a tree of another type than wanted -/
def mismatch : Node → DecodeError
  | fault => .malformed
  | number none => .malformed
  | string none => .malformed
  | _ => .invalidType

def toStr (_ : Origin) : Node → Except DecodeError String
  | string (some s) => .ok s
  | node => .error node.mismatch

def toBool (_ : Origin) : Node → Except DecodeError Bool
  | bool b => .ok b
  | node => .error node.mismatch

/-- two to the power of 31 -/
def int32Limit : Int := 0x80000000

def toInt32 (_ : Origin) : Node → Except DecodeError Int32
  | number (some (.integer n)) =>
    if -int32Limit ≤ n ∧ n < int32Limit then .ok (Int32.ofInt n) else .error .invalidValue
  | node => .error node.mismatch

/-- null is no value -/
def toOption (read : Origin → Node → Except DecodeError α) (o : Origin) :
    Node → Except DecodeError (Option α)
  | null => .ok none
  | node => some <$> read o node

/-- fails at the end of an array or object that is not closed -/
def finish (closed : Bool) (a : α) : Except DecodeError α :=
  if closed then .ok a else .error .malformed

def toList (read : Origin → Node → Except DecodeError α) (o : Origin) :
    Node → Except DecodeError (List α)
  | array items closed => do
    let o ← o.enter
    let as ← items.mapM (read o)
    finish closed as
  | node => .error node.mismatch

mutual

/-- any value -/
def toJson (o : Origin) : Node → Except DecodeError Json
  | null => .ok .null
  | bool b => .ok (.bool b)
  | number (some n) => .ok (.num n)
  | string (some s) => .ok (.str s)
  | array items closed => do
    let o ← o.enter
    let as ← toJsonItems o items
    finish closed (.arr as)
  | object members closed => do
    let o ← o.enter
    let es ← toJsonMembers o members
    finish closed (.obj (Entries.collect es))
  | number none => .error .malformed
  | string none => .error .malformed
  | fault => .error .malformed

def toJsonItems (o : Origin) : List Node → Except DecodeError (List Json)
  | [] => .ok []
  | n :: ns => do
    let a ← toJson o n
    let as ← toJsonItems o ns
    pure (a :: as)

def toJsonMembers (o : Origin) :
    List (Option String × Node) → Except DecodeError (List (Entry Json))
  | [] => .ok []
  | (none, _) :: _ => .error .malformed
  | (some name, n) :: ns => do
    let a ← toJson o n
    let es ← toJsonMembers o ns
    pure ((name, a) :: es)

end

/-- Hands the members of an object, in reading order, to `take`. -/
def fold (take : Origin → σ → String → Node → Except DecodeError σ) (start : σ) (o : Origin) :
    Node → Except DecodeError σ
  | object members closed => do
    let o ← o.enter
    let s ← members.foldlM
      (fun s m => match m.1 with
        | some name => take o s name m.2
        | none => .error .malformed) start
    finish closed s
  | node => .error node.mismatch

/-- an object with values of one type; of members with one name the last counts -/
def toTable (read : Origin → Node → Except DecodeError α) (o : Origin) (node : Node) :
    Except DecodeError (Table α) :=
  fold (fun o t name n => do
    let a ← read o n
    pure (t.insert name a)) {} o node

/-- a member that no field is read from only has to be grammatical -/
def ignore (s : σ) (node : Node) : Except DecodeError σ :=
  if node.sound then .ok s else .error .malformed

end Node

/-- Reads a field that may occur only once into its slot. -/
def fill (name : String) (slot : Option α) (read : Except DecodeError α) :
    Except DecodeError (Option α) :=
  match slot with
  | some _ => .error (.duplicateField name)
  | none => some <$> read

/-- the content of a slot that has to be filled -/
def required (name : String) (slot : Option α) : Except DecodeError α :=
  match slot with
  | some a => .ok a
  | none => .error (.missingField name)

/-- The items of an array that are left while a record is read from it. -/
structure Items where
  rest : List Node
  closed : Bool

namespace Items

/-- the next item, if there is one -/
def next? (read : Node → Except DecodeError α) (items : Items) :
    Except DecodeError (Option α × Items) :=
  match items.rest with
  | n :: ns => do
    let a ← read n
    pure (some a, ⟨ns, items.closed⟩)
  | [] => Node.finish items.closed (none, items)

/-- the next item, which has to be there -/
def next (read : Node → Except DecodeError α) (items : Items) :
    Except DecodeError (α × Items) := do
  let r ← items.next? read
  match r.1 with
  | some a => pure (a, r.2)
  | none => throw .invalidLength

def finish (o : Origin) (items : Items) (a : α) : Except DecodeError α :=
  if items.rest.isEmpty then Node.finish items.closed a else .error o.excess

end Items

/-- A text, all of which has to be one value. -/
def decodeText (read : Origin → Node → Except DecodeError α) (text : String) :
    Except DecodeError α := do
  let r := Node.read text
  let a ← read .wholeText r.1
  Node.finish r.2 a

def decodeValue (read : Origin → Node → Except DecodeError α) (value : Json) :
    Except DecodeError α := read .value (Node.ofJson value)

end FeatureFlags
