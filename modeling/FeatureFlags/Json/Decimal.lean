import FeatureFlags.Json.Binary64

/-!
# Shortest decimal text of a double

The text of a double is the decimal number with the fewest digits that reads back as the same
double, and of several such the one nearest to it.  The search is exact: `Shortest.hit?` looks at
the two neighbours of the number on the grid of numbers with `n` digits, and `Shortest.digits` takes
the first grid with a hit.

* `Shortest.digits`   the digits, as a whole number, and the power of ten they are multiplied with;
* `Layout`            from which to which exponent the text is written without one;
* `Binary64.chars`    the text.
-/

namespace FeatureFlags

namespace Shortest

/-- `10 ^ e` as a quotient of whole numbers -/
def power (e : Int) : Nat × Nat :=
  if 0 ≤ e then (Nat.pow 10 e.toNat, 1) else (1, Nat.pow 10 (-e).toNat)

/-- The numbers that round to the given rank, in halves of a unit: the midpoints to both
neighbours.  The ends themselves round to it exactly when the rank is even. -/
structure Interval where
  low : Nat
  high : Nat
  closed : Bool

def interval (rank : Nat) : Interval :=
  let u := Binary64.units rank
  ⟨Binary64.units (rank - 1) + u, u + Binary64.units (rank + 1), rank % 2 == 0⟩

/-- whether `n / d` half units lie in the interval -/
def Interval.contains (i : Interval) (n d : Nat) : Bool :=
  if i.closed then i.low * d ≤ n && n ≤ i.high * d else i.low * d < n && n < i.high * d

/-- the exponent of the first decimal digit of `n / d`, found from a start below it -/
def leadingExponent (n d : Nat) : Nat → Int → Int
  | 0, e => e
  | fuel + 1, e =>
    let p := power (e + 1)
    if p.1 * d ≤ n * p.2 then leadingExponent n d fuel (e + 1) else e

/-- The multiple of `10 ^ e` nearest to the double of the given rank, among its two neighbours on
that grid that round to it; of two equally near the even one. -/
def hit? (rank : Nat) (e : Int) : Option Nat :=
  let i := interval rank
  let p := power e
  let scale := p.1 * (2 * Binary64.unitsPerOne)
  let num := 2 * Binary64.units rank * p.2
  let below := num / scale
  let fits (k : Nat) : Bool := i.contains (k * scale) p.2
  let fromBelow := num % scale
  match fits below, fits (below + 1) with
  | true, false => some below
  | false, true => some (below + 1)
  | false, false => none
  | true, true =>
    if 2 * fromBelow < scale then some below
    else if scale < 2 * fromBelow then some (below + 1)
    else some (below + below % 2)

/-- the first hit on finer and finer grids; seventeen digits are always enough -/
def search (rank : Nat) : Nat → Int → Nat × Int
  | 0, e => (((hit? rank e).getD 0), e)
  | finer + 1, e =>
    match hit? rank e with
    | some k => (k, e)
    | none => search rank finer (e - 1)

/-- the digits without zeros at their end -/
def stripZeros : Nat → Nat × Int → Nat × Int
  | 0, r => r
  | fuel + 1, (k, e) => if k ≠ 0 ∧ k % 10 = 0 then stripZeros fuel (k / 10, e + 1) else (k, e)

/-- The fewest digits that read back as the double of this rank, and their exponent. -/
def digits (rank : Nat) : Nat × Int :=
  let first := leadingExponent (Binary64.units rank) Binary64.unitsPerOne 650 (-330)
  stripZeros 20 (search rank 17 first)

end Shortest

/-- How a decimal number is written: without an exponent as long as the exponent of its first digit
is at least `low` and below `high`. -/
structure Layout where
  low : Int
  high : Int

namespace Layout

/-- The text of digits `ds` whose first one stands for `10 ^ e`.  A text without an exponent always
has a fraction; the exponent has its sign. -/
def write (l : Layout) (ds : List Char) (e : Int) : List Char :=
  if l.low ≤ e ∧ e < l.high then
    if e < 0 then
      '0' :: '.' :: List.replicate (-e - 1).toNat '0' ++ ds
    else
      let whole := e.toNat + 1
      let fraction := ds.drop whole
      (ds ++ List.replicate (whole - ds.length) '0').take whole ++
        '.' :: (if fraction.isEmpty then ['0'] else fraction)
  else
    let fraction := ds.drop 1
    ds.take 1 ++ (if fraction.isEmpty then [] else '.' :: fraction) ++
      'e' :: (if e < 0 then '-' else '+') :: Nat.toDigits 10 e.natAbs

end Layout

namespace Binary64

/-- Doubles are written plainly from `0.00001` up to below `10^16`. -/
def layout : Layout := ⟨-5, 16⟩

def magnitudeChars (rank : Nat) : List Char :=
  if rank = 0 then ['0', '.', '0']
  else
    let r := Shortest.digits rank
    let ds := Nat.toDigits 10 r.1
    layout.write ds (r.2 + (ds.length - 1 : Nat))

def chars (x : Binary64) : List Char :=
  if x.negative then '-' :: magnitudeChars x.rank else magnitudeChars x.rank

end Binary64

end FeatureFlags
