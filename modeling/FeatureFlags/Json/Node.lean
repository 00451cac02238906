import FeatureFlags.Json.Numeral
import FeatureFlags.Text.Affix
import FeatureFlags.Text.Hex

/-!
# Text as it was read

A `Node` is what a reader has seen of a JSON text before anybody asked which type is wanted there.
Reading never fails: where the text stops being JSON the tree has a `fault`, or an array or object
that is not closed, and nothing follows.  A number too large for a double and a string with half of
a surrogate pair are grammatical, so they are kept as a number or string without a value.

* `Node`          the tree; the members of an object in the order of the text;
* `Node.read`     the tree of a text, and whether nothing but blanks follows it;
* `Node.ofJson`   the tree of a value;
* `Node.sound`    no fault anywhere.
-/

namespace FeatureFlags

inductive Node where
  | null
  | bool (b : Bool)
  | number (value : Option Number)
  | string (value : Option String)
  | array (items : List Node) (closed : Bool)
  | object (members : List (Option String × Node)) (closed : Bool)
  | fault
  deriving Inhabited

namespace Node

/-! ## strings -/

/-- a character, or the number of an escape, which may be half of a surrogate pair -/
inductive Unit16 where
  | char (c : Char)
  | code (n : Nat)

def hexQuad? (a b c d : Char) : Option Nat := do
  let a ← Text.hexDigit? a
  let b ← Text.hexDigit? b
  let c ← Text.hexDigit? c
  let d ← Text.hexDigit? d
  pure (((a * 16 + b) * 16 + c) * 16 + d)

/-- the character of an escape of one letter -/
def shortEscape? (c : Char) : Option Char :=
  if c = '"' ∨ c = '\\' ∨ c = '/' then some c
  else if c = 'b' then some '\x08'
  else if c = 't' then some '\t'
  else if c = 'n' then some '\n'
  else if c = 'f' then some '\x0c'
  else if c = 'r' then some '\r'
  else none

/-- The units up to the closing quote, and what follows it.  Nothing if the text ends before, or has
a character below `U+0020` or an unknown escape. -/
def scanUnits : List Char → Option (List Unit16 × List Char)
  | [] => none
  | '"' :: cs => some ([], cs)
  | '\\' :: 'u' :: a :: b :: c :: d :: cs =>
    match hexQuad? a b c d, scanUnits cs with
    | some n, some r => some (.code n :: r.1, r.2)
    | _, _ => none
  | '\\' :: e :: cs =>
    match shortEscape? e, scanUnits cs with
    | some c, some r => some (.char c :: r.1, r.2)
    | _, _ => none
  | c :: cs =>
    if c.toNat < 0x20 ∨ c = '\\' then none
    else
      match scanUnits cs with
      | some r => some (.char c :: r.1, r.2)
      | none => none

def isLead (n : Nat) : Bool := 0xD800 ≤ n && n < 0xDC00
def isTrail (n : Nat) : Bool := 0xDC00 ≤ n && n < 0xE000

/-- The characters of units: a lead and the trail after it are one character, and half of a pair is
none. -/
def joinUnits : List Unit16 → Option (List Char)
  | [] => some []
  | .char c :: us => (joinUnits us).map (c :: ·)
  | .code m :: us =>
    if isLead m then
      match us with
      | .code n :: us =>
        if isTrail n then
          (joinUnits us).map (Char.ofNat (0x10000 + (m - 0xD800) * 0x400 + (n - 0xDC00)) :: ·)
        else none
      | _ => none
    else if isTrail m then none
    else (joinUnits us).map (Char.ofNat m :: ·)

/-- a string after its opening quote -/
def scanString (cs : List Char) : Option (Option String × List Char) :=
  (scanUnits cs).map fun r => ((joinUnits r.1).map String.ofList, r.2)

/-! ## values -/

def isJsonBlank (c : Char) : Bool := c = ' ' || c = '\t' || c = '\n' || c = '\r'

def skipBlanks (cs : List Char) : List Char := cs.dropWhile isJsonBlank

def scanWord (word : String) (node : Node) (cs : List Char) : Node × Option (List Char) :=
  match Text.dropHead? word.toList cs with
  | some rest => (node, some rest)
  | none => (fault, none)

def scanNumber (cs : List Char) : Node × Option (List Char) :=
  match Numeral.scan cs with
  | some (n, rest) => (number n.number?, some rest)
  | none => (fault, none)

mutual

/-- One value after blanks, and what follows it; nothing follows a fault.  Every step takes at least
one character, so the length of the text is enough fuel. -/
def readValue : Nat → List Char → Node × Option (List Char)
  | 0, _ => (fault, none)
  | fuel + 1, cs =>
    match skipBlanks cs with
    | [] => (fault, none)
    | 'n' :: cs => scanWord "ull" null cs
    | 't' :: cs => scanWord "rue" (bool true) cs
    | 'f' :: cs => scanWord "alse" (bool false) cs
    | '"' :: cs =>
      match scanString cs with
      | some (s, rest) => (string s, some rest)
      | none => (fault, none)
    | '[' :: cs =>
      match skipBlanks cs with
      | ']' :: rest => (array [] true, some rest)
      | cs =>
        let r := readItems fuel cs
        (array r.1 r.2.isSome, r.2)
    | '{' :: cs =>
      match skipBlanks cs with
      | '}' :: rest => (object [] true, some rest)
      | cs =>
        let r := readMembers fuel cs
        (object r.1 r.2.isSome, r.2)
    | c :: cs => if c = '-' ∨ (Numeral.digit? c).isSome then scanNumber (c :: cs) else (fault, none)

/-- items up to the closing bracket -/
def readItems : Nat → List Char → List Node × Option (List Char)
  | 0, _ => ([], none)
  | fuel + 1, cs =>
    match readValue fuel cs with
    | (item, none) => ([item], none)
    | (item, some rest) =>
      match skipBlanks rest with
      | ']' :: rest => ([item], some rest)
      | ',' :: rest =>
        match skipBlanks rest with
        | ']' :: _ => ([item], none)
        | [] => ([item], none)
        | rest =>
          let r := readItems fuel rest
          (item :: r.1, r.2)
      | _ => ([item], none)

/-- members up to the closing brace -/
def readMembers : Nat → List Char → List (Option String × Node) × Option (List Char)
  | 0, _ => ([], none)
  | fuel + 1, cs =>
    match cs with
    | '"' :: cs =>
      match scanString cs with
      | none => ([], none)
      | some (name, rest) =>
        match skipBlanks rest with
        | ':' :: rest =>
          match readValue fuel rest with
          | (value, none) => ([(name, value)], none)
          | (value, some rest) =>
            match skipBlanks rest with
            | '}' :: rest => ([(name, value)], some rest)
            | ',' :: rest =>
              let r := readMembers fuel (skipBlanks rest)
              ((name, value) :: r.1, r.2)
            | _ => ([(name, value)], none)
        | _ => ([(name, fault)], none)
    | _ => ([], none)

end

/-- The tree of a text, and whether the text is over after it. -/
def read (text : String) : Node × Bool :=
  let cs := text.toList
  match readValue (2 * cs.length + 2) cs with
  | (node, some rest) => (node, (skipBlanks rest).isEmpty)
  | (node, none) => (node, false)

mutual

def ofJson : Json → Node
  | .null => null
  | .bool b => bool b
  | .num n => number (some n)
  | .str s => string (some s)
  | .arr items => array (ofItems items) true
  | .obj members => object (ofMembers members) true

def ofItems : List Json → List Node
  | [] => []
  | a :: as => ofJson a :: ofItems as

def ofMembers : List (Entry Json) → List (Option String × Node)
  | [] => []
  | (name, a) :: as => (some name, ofJson a) :: ofMembers as

end

mutual

/-- grammatical throughout -/
def sound : Node → Bool
  | fault => false
  | array items closed => soundItems items && closed
  | object members closed => soundMembers members && closed
  | _ => true

def soundItems : List Node → Bool
  | [] => true
  | n :: ns => sound n && soundItems ns

def soundMembers : List (Option String × Node) → Bool
  | [] => true
  | (_, n) :: ns => sound n && soundMembers ns

end

end Node

end FeatureFlags
