/-!
# Double precision numbers

The finite numbers of the 64-bit binary format, with exact arithmetic underneath.  A magnitude is
given by its *rank*, its place among all finite magnitudes in ascending order: rank 0 is zero, rank
1 is `2^-1074`, and the rank of a number is also its bit pattern without the sign.  `units` counts a
magnitude in multiples of `2^-1074`, so that all comparisons are between natural numbers.

* `roundHalfEven`   the nearest whole number to a quotient, an exact half going to the even one;
* `nearestRank`     the rank nearest to a quotient of units, which may lie beyond the largest finite
                    one;
* `Binary64`        sign and rank; zero has two signs, which `==` does not tell apart.
-/

namespace FeatureFlags

/-- the nearest whole number to `n / d`, the even one of two -/
def roundHalfEven (n d : Nat) : Nat :=
  let q := n / d
  let r := n % d
  if 2 * r < d then q else if d < 2 * r then q + 1 else q + q % 2

namespace Binary64

/-- how many of the lowest bits of a rank are the fraction -/
def fractionBits : Nat := 52

/-- one more than the rank of the largest finite number -/
def rankBound : Nat := 2047 * Nat.pow 2 fractionBits

/-- the magnitude of a rank, in multiples of `2^-1074` -/
def units (rank : Nat) : Nat :=
  match rank / Nat.pow 2 fractionBits with
  | 0 => rank
  | e + 1 => (Nat.pow 2 fractionBits + rank % Nat.pow 2 fractionBits) * Nat.pow 2 e

/-- one, in multiples of `2^-1074` -/
def unitsPerOne : Nat := Nat.pow 2 1074

/-- The rank nearest to `n / d` units.  Between two powers of two ranks are evenly spaced, and the
number of spare binary digits of the quotient gives the spacing. -/
def nearestRank (n d : Nat) : Nat :=
  let spare := (n / d).log2 - fractionBits
  spare * Nat.pow 2 fractionBits + roundHalfEven n (d * Nat.pow 2 spare)

end Binary64

/-- A finite number of the 64-bit binary format. -/
structure Binary64 where
  negative : Bool
  rank : Nat
  rank_lt : rank < Binary64.rankBound

namespace Binary64

def zero (negative : Bool) : Binary64 := ⟨negative, 0, by decide⟩

instance : Inhabited Binary64 := ⟨zero false⟩

/-- the number with the given sign and rank, unless the rank is beyond the finite ones -/
def ofRank? (negative : Bool) (rank : Nat) : Option Binary64 :=
  if h : rank < rankBound then some ⟨negative, rank, h⟩ else none

/-- the same number with the other sign, or with this one -/
def withSign (negative : Bool) (x : Binary64) : Binary64 := { x with negative }

/-- the nearest number to a whole number -/
def ofNat? (n : Nat) : Option Binary64 := ofRank? false (nearestRank (n * unitsPerOne) 1)

/-- The nearest number to an integer, for the integers that stand in JSON; beyond the finite range
it is zero. -/
def ofInt (n : Int) : Binary64 := ((ofNat? n.natAbs).getD (zero false)).withSign (n < 0)

/-- the rounded product of two magnitudes -/
def mul? (x y : Binary64) : Option Binary64 :=
  ofRank? (x.negative != y.negative) (nearestRank (units x.rank * units y.rank) unitsPerOne)

/-- the rounded quotient of two magnitudes -/
def div? (x y : Binary64) : Option Binary64 :=
  ofRank? (x.negative != y.negative) (nearestRank (units x.rank * unitsPerOne) (units y.rank))

def isZero (x : Binary64) : Bool := x.rank == 0

/-- equality of numbers, for which the sign of zero does not count -/
def same (x y : Binary64) : Bool := x.rank == y.rank && (x.negative == y.negative || x.rank == 0)

instance : BEq Binary64 := ⟨same⟩

theorem same_refl (x : Binary64) : same x x = true := by simp [same]

theorem same_symm {x y : Binary64} (h : same x y = true) : same y x = true := by
  simp only [same, Bool.and_eq_true, Bool.or_eq_true, beq_iff_eq] at h ⊢
  exact ⟨h.1.symm, h.2.imp Eq.symm (fun hz => h.1 ▸ hz)⟩

theorem same_trans {x y z : Binary64} (h : same x y = true) (h' : same y z = true) :
    same x z = true := by
  simp only [same, Bool.and_eq_true, Bool.or_eq_true, beq_iff_eq] at h h' ⊢
  refine ⟨h.1.trans h'.1, ?_⟩
  rcases h.2 with h2 | h2
  · rcases h'.2 with h3 | h3
    · exact .inl (h2.trans h3)
    · exact .inr (h.1.trans h3)
  · exact .inr h2

instance : DecidableEq Binary64 := fun x y =>
  if h : x.negative = y.negative ∧ x.rank = y.rank then
    isTrue (by cases x; cases y; obtain ⟨h1, h2⟩ := h; cases h1; cases h2; rfl)
  else
    isFalse (fun hc => h (hc ▸ ⟨rfl, rfl⟩))

end Binary64

end FeatureFlags
