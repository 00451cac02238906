import FeatureFlags.Text.Hex

/-!
# Percent-encoded text

A percent sign and two hexadecimal digits stand for a byte.  A percent sign that is followed by
anything else stands for itself, and so does every other character.

* `percentBytes`     the bytes that a text stands for;
* `percentDecode?`   the text whose bytes these are, if there is one;
* `percentEncode`    stands the other way round for characters that cannot be written as they are.
-/

namespace FeatureFlags.Text

/-- the byte of two hexadecimal digits -/
def hexByte? (a b : Char) : Option UInt8 := do
  let a ← hexDigit? a
  let b ← hexDigit? b
  pure (UInt8.ofNat (16 * a + b))

def charBytes (c : Char) : List UInt8 := (String.singleton c).toUTF8.toList

def percentBytes : List Char → List UInt8
  | '%' :: a :: b :: cs =>
    match hexByte? a b with
    | some byte => byte :: percentBytes cs
    | none => charBytes '%' ++ percentBytes (a :: b :: cs)
  | c :: cs => charBytes c ++ percentBytes cs
  | [] => []

def percentDecode? (s : String) : Option String :=
  String.fromUTF8? ⟨(percentBytes s.toList).toArray⟩

def upperHex (n : Nat) : Char := (Nat.digitChar n).toUpper

def percentByte (byte : UInt8) : List Char :=
  ['%', upperHex (byte.toNat / 16), upperHex (byte.toNat % 16)]

/-- Encodes the bytes of all characters that are not plain. -/
def percentEncode (plain : Char → Bool) (cs : List Char) : List Char :=
  cs.flatMap (fun c => if plain c then [c] else (charBytes c).flatMap percentByte)

end FeatureFlags.Text
