/-!
# Content types

A content type is a type and a subtype with parameters, as in `application/json; charset=utf-8`.  A
subtype may end in a suffix, which names the format that it is built on.

* `isJson`   the content types whose bodies are JSON.
-/

namespace FeatureFlags.ContentType

def isTokenChar (c : Char) : Bool := c.isAlphanum || "!#$%&'*+-.^_\x60|~".toList.contains c

/-- How far a list of parameters was read. -/
inductive Progress where
  /-- before a parameter -/
  | gap
  | name
  /-- after the sign between name and value -/
  | equals
  | value
  | quoted
  /-- after the end of a quoted value -/
  | closed
  | bad
  deriving DecidableEq

def Progress.step : Progress → Char → Progress
  | gap, c => if c = ' ' then gap else if isTokenChar c then name else bad
  | name, c => if c = '=' then equals else if isTokenChar c then name else bad
  | equals, c => if c = '"' then quoted else if isTokenChar c then value else bad
  | value, c => if c = ';' then gap else if isTokenChar c then value else bad
  | quoted, c =>
    if c = '"' then closed else if ' '.toNat ≤ c.toNat ∧ c.toNat < 0x7f then quoted else bad
  | closed, c => if c = ';' then gap else if c = ' ' then closed else bad
  | bad, _ => bad

/-- whether the parameters may end here -/
def Progress.complete : Progress → Bool
  | gap | equals | value | closed => true
  | name | quoted | bad => false

/-- what may follow the subtype -/
def areParameters : List Char → Bool
  | [] => true
  | c :: cs => (c = ';' || c = ' ') && (cs.foldl Progress.step .gap).complete

/-- a subtype and its suffix, which begins after the last plus sign that is not the first
character -/
def splitSuffix (subtype : List Char) : List Char × List Char :=
  let backwards := subtype.reverse
  match (backwards.dropWhile (· ≠ '+')).tail.reverse with
  | [] => (subtype, [])
  | head => (head, (backwards.takeWhile (· ≠ '+')).reverse)

def isJsonSubtype (subtype : List Char) : Bool :=
  let parts := splitSuffix subtype
  parts.1 = "json".toList || parts.2 = "json".toList

def isJson (value : String) : Bool :=
  let cs := value.toList.map Char.toLower
  match cs.dropWhile isTokenChar with
  | '/' :: rest =>
    cs.takeWhile isTokenChar = "application".toList && isJsonSubtype (rest.takeWhile isTokenChar) &&
      areParameters (rest.dropWhile isTokenChar)
  | _ => false

end FeatureFlags.ContentType
