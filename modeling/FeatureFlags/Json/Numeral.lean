import FeatureFlags.Json.Value

/-!
# Numerals

The numbers of JSON text: an optional minus sign, digits without a leading zero, and optionally a
fraction and an exponent.

* `Numeral`        the parts of a numeral as they stand in the text;
* `Numeral.scan`   splits one off the beginning of a text;
* `Numeral.number?`   its value.  A numeral without fraction and exponent is a whole number if it
                      fits 64 bits and is not `-0`; every other one is a double.  A double is not
                      always the one nearest to the numeral: at most 64 bits of its digits are kept
                      as `Mantissa`, rounded, and multiplied or divided by a rounded power of ten.
-/

namespace FeatureFlags

structure Numeral where
  negative : Bool
  whole : List Nat
  /-- digits after the point -/
  fraction : Option (List Nat)
  /-- sign and digits of the exponent -/
  exponent : Option (Bool × List Nat)

namespace Numeral

/-! ## from text -/

def digit? (c : Char) : Option Nat :=
  if '0'.toNat ≤ c.toNat ∧ c.toNat ≤ '9'.toNat then some (c.toNat - '0'.toNat) else none

/-- the digits a text begins with, and the rest -/
def scanDigits : List Char → List Nat × List Char
  | [] => ([], [])
  | c :: cs =>
    match digit? c with
    | some d =>
      let r := scanDigits cs
      (d :: r.1, r.2)
    | none => ([], c :: cs)

def scanSign : List Char → Bool × List Char
  | '-' :: cs => (true, cs)
  | cs => (false, cs)

/-- digits of which there is at least one and the first is zero only if it is the only one -/
def scanWhole (cs : List Char) : Option (List Nat × List Char) :=
  match scanDigits cs with
  | ([], _) => none
  | (0 :: _ :: _, _) => none
  | r => some r

/-- a point and digits, or nothing -/
def scanFraction : List Char → Option (Option (List Nat) × List Char)
  | '.' :: cs =>
    match scanDigits cs with
    | ([], _) => none
    | (ds, rest) => some (some ds, rest)
  | cs => some (none, cs)

def scanExponentSign : List Char → Bool × List Char
  | '-' :: cs => (true, cs)
  | '+' :: cs => (false, cs)
  | cs => (false, cs)

/-- a letter E, a sign or none, and digits; or nothing -/
def scanExponent : List Char → Option (Option (Bool × List Nat) × List Char)
  | c :: cs =>
    if c = 'e' ∨ c = 'E' then
      let s := scanExponentSign cs
      match scanDigits s.2 with
      | ([], _) => none
      | (ds, rest) => some (some (s.1, ds), rest)
    else some (none, c :: cs)
  | [] => some (none, [])

/-- the numeral a text begins with, and the rest; nothing where there is none -/
def scan (cs : List Char) : Option (Numeral × List Char) := do
  let s := scanSign cs
  let w ← scanWhole s.2
  let f ← scanFraction w.2
  let e ← scanExponent f.2
  pure (⟨s.1, w.1, f.1, e.1⟩, e.2)

/-! ## value -/

def ofDigits (ds : List Nat) : Nat := ds.foldl (fun n d => 10 * n + d) 0

/-- The digits of a numeral that are kept, and the power of ten they are multiplied with. -/
structure Mantissa where
  significand : Nat
  exponent : Int

namespace Mantissa

def significandLimit : Nat := Nat.pow 2 64

/-- Appends the digits before the point.  From the first one that would take the significand beyond
64 bits on, a digit only raises the exponent. -/
def pushWhole (m : Mantissa) : List Nat → Mantissa
  | [] => m
  | d :: ds =>
    let n := 10 * m.significand + d
    if n < significandLimit then pushWhole ⟨n, m.exponent⟩ ds
    else ⟨m.significand, m.exponent + (d :: ds).length⟩

/-- Appends the digits after the point.  The first one that would take the significand beyond 64
bits and all further ones are dropped. -/
def pushFraction (m : Mantissa) : List Nat → Mantissa
  | [] => m
  | d :: ds =>
    let n := 10 * m.significand + d
    if n < significandLimit then pushFraction ⟨n, m.exponent - 1⟩ ds else m

end Mantissa

/-- the double nearest to a power of ten, for exponents up to 308 -/
def powerOfTen (e : Nat) : Binary64 := (Binary64.ofNat? (Nat.pow 10 e)).getD (Binary64.zero false)

/-- Divides by a power of ten, in steps where there is no double for it. -/
def divideByPower : Nat → Binary64 → Nat → Option Binary64
  | 0, _, _ => some (Binary64.zero false)
  | steps + 1, x, e =>
    if e ≤ 308 then x.div? (powerOfTen e)
    else if x.isZero then some x
    else (x.div? (powerOfTen 308)).bind (fun y => divideByPower steps y (e - 308))

/-- the magnitude of a mantissa; nothing beyond the finite doubles -/
def Mantissa.magnitude? (m : Mantissa) : Option Binary64 :=
  (Binary64.ofNat? m.significand).bind fun x =>
    match m.exponent with
    | .ofNat e => if e ≤ 308 then x.mul? (powerOfTen e) else if x.isZero then some x else none
    | .negSucc e => divideByPower 4 x (e + 1)

/-- the largest exponent that is read digit by digit -/
def exponentLimit : Nat := Nat.pow 2 31

/-- The magnitude with an exponent.  One of more than 31 bits makes any number too large or zero. -/
def scaled? (m : Mantissa) : Option (Bool × List Nat) → Option Binary64
  | none => m.magnitude?
  | some (down, ds) =>
    let e := ofDigits ds
    if e < exponentLimit then
      Mantissa.magnitude? ⟨m.significand, if down then m.exponent - e else m.exponent + e⟩
    else if m.significand ≠ 0 ∧ down = false then none
    else some (Binary64.zero false)

/-- the whole number, if the numeral denotes one -/
def integer? (n : Numeral) : Option Int :=
  if n.fraction.isNone ∧ n.exponent.isNone then
    let k := ofDigits n.whole
    if n.negative then if 0 < k ∧ k ≤ Nat.pow 2 63 then some (-(k : Int)) else none
    else if k < Nat.pow 2 64 then some k else none
  else none

/-- the double, unless its magnitude is beyond the finite ones -/
def double? (n : Numeral) : Option Binary64 :=
  let m := Mantissa.pushFraction (Mantissa.pushWhole ⟨0, 0⟩ n.whole) (n.fraction.getD [])
  (scaled? m n.exponent).map (Binary64.withSign n.negative)

def number? (n : Numeral) : Option Number :=
  match n.integer? with
  | some k => some (.integer k)
  | none => n.double?.map .double

end Numeral

end FeatureFlags
