import FeatureFlags.Text.Affix
import FeatureFlags.Text.Percent
import FeatureFlags.Text.Pieces

/-!
# Targets of requests

Where the requests to a service go: to one path below the address of the service, whose slashes at
the end do not count.  Segments of dots are resolved, a backslash is a slash, and what cannot stand
in a target is percent-encoded.

* `Target.resolve`    the segments of a path without those that only move up or stay;
* `Target.ofBase?`    the target below what follows the host in an address;
* `Target.ofUrl?`     the target below an address in its usual form.
-/

namespace FeatureFlags.Remote.Target

/-- the path that flags are asked for at -/
def evaluatePath : List Char := "/sdk/evaluate".toList

/-! ## segments -/

def isSlash (c : Char) : Bool := c = '/' || c = '\\'

/-- A segment with encoded dots written out. -/
def dotted (segment : List Char) : List Char :=
  match segment with
  | '%' :: '2' :: c :: cs => if c = 'e' ∨ c = 'E' then '.' :: dotted cs else segment
  | c :: cs => c :: dotted cs
  | [] => []

/-- Follows the segments of a path; `done` are those behind, the last one first.  A path that ends
in dots ends in a slash. -/
def resolveFrom : List (List Char) → List (List Char) → List (List Char)
  | done, [] => done.reverse
  | done, s :: rest =>
    if dotted s = ['.', '.'] then
      if rest.isEmpty then resolveFrom ([] :: done.tail) rest else resolveFrom done.tail rest
    else if dotted s = ['.'] then
      if rest.isEmpty then resolveFrom ([] :: done) rest else resolveFrom done rest
    else resolveFrom (s :: done) rest

def resolve (segments : List (List Char)) : List (List Char) := resolveFrom [] segments

/-! ## characters -/

/-- ASCII without control characters -/
def isPrintable (c : Char) : Bool := 0x20 ≤ c.toNat && c.toNat < 0x7f

def isPathChar (c : Char) : Bool :=
  isPrintable c && !" \"#<>?\x60\x7b\x7d".toList.contains c

def isQueryChar (c : Char) : Bool := isPrintable c && !" \"#<>'".toList.contains c

/-- Line breaks and tabs in an address do not count. -/
def isCounted (c : Char) : Bool := c ≠ '\t' && c ≠ '\n' && c ≠ '\r'

/-! ## targets -/

def path (cs : List Char) : List Char :=
  (resolve (Text.pieces isSlash cs)).flatMap (fun s => '/' :: Text.percentEncode isPathChar s)

def query : List Char → List Char
  | '?' :: cs => '?' :: Text.percentEncode isQueryChar (cs.takeWhile (· ≠ '#'))
  | _ => []

def isPathEnd (c : Char) : Bool := c = '?' || c = '#'

/-- The target of what follows a host: a path, a query and a fragment, none of which there has to
be. -/
def ofRest? (cs : List Char) : Option String :=
  let tail := cs.dropWhile (fun c => !isPathEnd c)
  match cs.takeWhile (fun c => !isPathEnd c) with
  | [] => some (String.ofList ('/' :: query tail))
  | c :: rest => if isSlash c then some (String.ofList (path rest ++ query tail)) else none

def dropSlashes (cs : List Char) : List Char := (cs.reverse.dropWhile (· = '/')).reverse

/-- The target below a base, which is what follows the host in the address of a service. -/
def ofBase? (base : String) : Option String :=
  ofRest? ((dropSlashes base.toList ++ evaluatePath).filter isCounted)

/-- what follows scheme and host -/
def afterHost (cs : List Char) : List Char := cs.dropWhile (fun c => !isSlash c && !isPathEnd c)

/-- The target below an address that begins with its scheme, written in lower case. -/
def ofUrl? (url : String) : Option String :=
  ((Text.after? "http://" url).or (Text.after? "https://" url)).bind
    (fun rest => ofBase? (String.ofList (afterHost rest.toList)))

end FeatureFlags.Remote.Target
