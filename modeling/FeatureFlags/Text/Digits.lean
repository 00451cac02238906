/-!
# Decimal digits of fixed width

* `padded`   a number with zeros in front up to a width;
* `fraction`   digits after a point, without the zeros at their end.
-/

namespace FeatureFlags.Text

def decimal (n : Nat) : List Char := Nat.toDigits 10 n

/-- at least `width` digits -/
def padded (width n : Nat) : List Char :=
  let ds := decimal n
  List.replicate (width - ds.length) '0' ++ ds

/-- The digits of `n / 10 ^ width` after the point, with the point; nothing for zero. -/
def fraction (width n : Nat) : List Char :=
  if n = 0 then []
  else '.' :: ((padded width n).reverse.dropWhile (· = '0')).reverse

end FeatureFlags.Text
