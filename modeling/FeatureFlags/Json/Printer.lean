import FeatureFlags.Json.Value

/-!
# JSON text

The compact text of a value or document, without blanks.

* `Json.quotedChars`   a text in quotes: the quote, the backslash and the characters below `U+0020`
                       are escaped, all others stand as they are;
* `Json.chars`, `Json.print`   the text.
-/

namespace FeatureFlags.Json

/-- the two hexadecimal digits of a small number -/
def hexPair (n : Nat) : List Char := [Nat.digitChar (n / 16), Nat.digitChar (n % 16)]

def escapeChar (c : Char) : List Char :=
  if c = '"' then ['\\', '"']
  else if c = '\\' then ['\\', '\\']
  else if 0x20 ≤ c.toNat then [c]
  else if c.toNat = 8 then ['\\', 'b']
  else if c.toNat = 9 then ['\\', 't']
  else if c.toNat = 10 then ['\\', 'n']
  else if c.toNat = 12 then ['\\', 'f']
  else if c.toNat = 13 then ['\\', 'r']
  else '\\' :: 'u' :: '0' :: '0' :: hexPair c.toNat

def escapeChars : List Char → List Char
  | [] => []
  | c :: cs => escapeChar c ++ escapeChars cs

def quotedChars (s : String) : List Char := '"' :: (escapeChars s.toList ++ ['"'])

theorem escapeChars_cons (c : Char) (cs : List Char) :
    escapeChars (c :: cs) = escapeChar c ++ escapeChars cs := rfl

def naturalChars (n : Nat) : List Char := Nat.toDigits 10 n

def integerChars : Int → List Char
  | .ofNat n => naturalChars n
  | .negSucc n => '-' :: naturalChars (n + 1)

def numberChars : Number → List Char
  | .integer n => integerChars n
  | .double x => x.chars

mutual

def chars : Json → List Char
  | .null => ['n', 'u', 'l', 'l']
  | .bool true => ['t', 'r', 'u', 'e']
  | .bool false => ['f', 'a', 'l', 's', 'e']
  | .num n => numberChars n
  | .str s => quotedChars s
  | .arr items => '[' :: (itemsChars items ++ [']'])
  | .obj members => '{' :: (membersChars members ++ ['}'])

/-- the items with a comma between any two -/
def itemsChars : List Json → List Char
  | [] => []
  | a :: as => chars a ++ furtherItemsChars as

def furtherItemsChars : List Json → List Char
  | [] => []
  | a :: as => ',' :: (chars a ++ furtherItemsChars as)

def membersChars : List (Entry Json) → List Char
  | [] => []
  | (name, a) :: as => quotedChars name ++ ':' :: (chars a ++ furtherMembersChars as)

def furtherMembersChars : List (Entry Json) → List Char
  | [] => []
  | (name, a) :: as =>
    ',' :: (quotedChars name ++ ':' :: (chars a ++ furtherMembersChars as))

end

def print (a : Json) : String := String.ofList a.chars

end FeatureFlags.Json
