import FeatureFlags.Json.Decimal
import Mathlib.Algebra.Order.Ring.Nat
import Mathlib.Tactic.Ring

/-!
# Seventeen digits are enough

The search for the shortest digits of a double ends with a hit.

* `Binary64.units_succ`      the distance to the next double;
* `Shortest.power_add`       powers of ten as quotients;
* `Shortest.leadingExponent_le`   the first digit stands for no more than the double;
* `Shortest.hit?_isSome`     a grid finer than a double by sixteen digits has a hit;
* `Shortest.digits_ne_zero`   the digits of a double that is not zero are not zero.
-/

namespace FeatureFlags

namespace Binary64

theorem unitsPerOne_pos : 0 < unitsPerOne := by decide +kernel

/-! ## neighbours -/

/-- the number of ranks with one exponent -/
def block : Nat := Nat.pow 2 fractionBits

theorem block_pos : 0 < block := Nat.two_pow_pos fractionBits

/-- the distance from a double to the next one, in units -/
def spacing (rank : Nat) : Nat := 2 ^ (rank / block - 1)

theorem spacing_pos (rank : Nat) : 0 < spacing rank := Nat.two_pow_pos _

theorem div_block {q f : Nat} (hf : f < block) : (q * block + f) / block = q := by
  rw [Nat.mul_comm, Nat.mul_add_div block_pos, Nat.div_eq_of_lt hf, Nat.add_zero]

theorem mod_block {q f : Nat} (hf : f < block) : (q * block + f) % block = f := by
  rw [Nat.add_comm, Nat.add_mul_mod_self_right, Nat.mod_eq_of_lt hf]

theorem units_eq (rank : Nat) :
    units rank = match rank / block with
      | 0 => rank
      | e + 1 => (block + rank % block) * 2 ^ e := rfl

theorem units_zero_add {f : Nat} (hf : f < block) : units (0 * block + f) = f := by
  rw [units_eq, div_block hf, Nat.zero_mul, Nat.zero_add]

theorem units_succ_add {k f : Nat} (hf : f < block) :
    units ((k + 1) * block + f) = (block + f) * 2 ^ k := by
  rw [units_eq, div_block hf, mod_block hf]

theorem spacing_add {q f : Nat} (hf : f < block) : spacing (q * block + f) = 2 ^ (q - 1) := by
  rw [spacing, div_block hf]

theorem exists_block (rank : Nat) : ∃ q f, f < block ∧ rank = q * block + f :=
  ⟨rank / block, rank % block, Nat.mod_lt _ block_pos, by
    rw [Nat.mul_comm]
    exact (Nat.div_add_mod rank block).symm⟩

theorem units_succ (rank : Nat) : units (rank + 1) = units rank + spacing rank := by
  obtain ⟨q, f, hf, rfl⟩ := exists_block rank
  rw [spacing_add hf]
  by_cases hn : f + 1 < block
  · rw [Nat.add_assoc]
    cases q with
    | zero => rw [units_zero_add hf, units_zero_add hn, Nat.zero_sub, Nat.pow_zero]
    | succ k =>
      rw [units_succ_add hf, units_succ_add hn, Nat.add_sub_cancel]
      ring
  · -- the next one is the first of the next block
    have hlast : f + 1 = block := by omega
    have hnext : q * block + f + 1 = (q + 1) * block + 0 := by
      rw [Nat.succ_mul, Nat.add_assoc, hlast, Nat.add_zero]
    rw [hnext, units_succ_add block_pos, Nat.add_zero]
    cases q with
    | zero =>
      rw [units_zero_add hf, Nat.zero_sub, Nat.pow_zero, hlast, Nat.mul_one]
    | succ k =>
      rw [units_succ_add hf, Nat.add_sub_cancel, ← Nat.succ_mul, ← Nat.add_one, Nat.add_assoc,
        hlast, Nat.pow_succ]
      ring

/-- A double and the distance to the next one are at most `2 ^ 53` of these distances. -/
theorem units_add_spacing_le (rank : Nat) :
    units rank + spacing rank ≤ 2 * block * spacing rank := by
  obtain ⟨q, f, hf, rfl⟩ := exists_block rank
  rw [spacing_add hf]
  cases q with
  | zero =>
    rw [units_zero_add hf, Nat.zero_sub, Nat.pow_zero]
    omega
  | succ k =>
    rw [units_succ_add hf, Nat.add_sub_cancel, ← Nat.succ_mul]
    exact Nat.mul_le_mul_right _ (by omega)

theorem units_pos {rank : Nat} (h : 0 < rank) : 0 < units rank := by
  obtain ⟨r, rfl⟩ := Nat.exists_eq_succ_of_ne_zero (Nat.ne_of_gt h)
  rw [units_succ]
  exact Nat.add_pos_right _ (spacing_pos r)

end Binary64

namespace Shortest

open Binary64

/-! ## powers of ten -/

theorem power_num_pos (e : Int) : 0 < (power e).1 := by
  rw [power]
  split
  · exact Nat.pow_pos (by decide)
  · exact Nat.one_pos

theorem power_den_pos (e : Int) : 0 < (power e).2 := by
  rw [power]
  split
  · exact Nat.one_pos
  · exact Nat.pow_pos (by decide)

theorem power_of_nonneg {e : Int} (h : 0 ≤ e) : power e = (10 ^ e.toNat, 1) := if_pos h

theorem power_of_neg {e : Int} (h : ¬0 ≤ e) : power e = (1, 10 ^ (-e).toNat) := if_neg h

/-- `10 ^ (e + k) = 10 ^ e * 10 ^ k`, as quotients -/
theorem power_add (e : Int) (k : Nat) :
    (power (e + k)).1 * (power e).2 = (power e).1 * (power (e + k)).2 * 10 ^ k := by
  by_cases he : 0 ≤ e
  · rw [power_of_nonneg he, power_of_nonneg (by omega), Nat.mul_one, Nat.mul_one,
      show (e + k).toNat = e.toNat + k by omega, Nat.pow_add]
  · rw [power_of_neg he, Nat.one_mul]
    by_cases hk : 0 ≤ e + k
    · rw [power_of_nonneg hk, Nat.one_mul, ← Nat.pow_add,
        show (e + k).toNat + (-e).toNat = k by omega]
    · rw [power_of_neg hk, Nat.one_mul, ← Nat.pow_add,
        show (-e).toNat = (-(e + k)).toNat + k by omega]

/-- What is found stands for no more than the number, if the start does not. -/
theorem leadingExponent_le {n d : Nat} {e : Int} (h : (power e).1 * d ≤ n * (power e).2)
    (fuel : Nat) :
    (power (leadingExponent n d fuel e)).1 * d ≤ n * (power (leadingExponent n d fuel e)).2 := by
  induction fuel generalizing e with
  | zero => exact h
  | succ fuel ih =>
    rw [leadingExponent]
    split
    next hn => exact ih hn
    next => exact h

/-! ## hits -/

theorem Interval.contains_of_lt {i : Interval} {n d : Nat} (hl : i.low * d < n)
    (hh : n < i.high * d) : i.contains n d = true := by
  rw [contains]
  split
  · exact Bool.and_eq_true_iff.mpr
      ⟨decide_eq_true (Nat.le_of_lt hl), decide_eq_true (Nat.le_of_lt hh)⟩
  · exact Bool.and_eq_true_iff.mpr ⟨decide_eq_true hl, decide_eq_true hh⟩

theorem Interval.not_contains_zero {i : Interval} {d : Nat} (h : 0 < i.low * d) :
    i.contains 0 d = false := by
  rw [contains]
  split
  · rw [decide_eq_false (Nat.not_le.mpr h), Bool.false_and]
  · rw [decide_eq_false (Nat.not_lt_zero _), Bool.false_and]

theorem interval_low_pos {rank : Nat} (h : 0 < rank) : 0 < (interval rank).low :=
  Nat.add_pos_right _ (units_pos h)

/-- what is looked at on a grid: the multiples of this many halves of a unit -/
def scale (e : Int) : Nat := (power e).1 * (2 * unitsPerOne)

/-- whether a multiple rounds to the double -/
def fits (rank : Nat) (e : Int) (k : Nat) : Bool :=
  (interval rank).contains (k * scale e) (power e).2

/-- the multiple below the double -/
def below (rank : Nat) (e : Int) : Nat := 2 * units rank * (power e).2 / scale e

/-- the way from that multiple to the double -/
def remainder (rank : Nat) (e : Int) : Nat := 2 * units rank * (power e).2 % scale e

theorem hit?_eq (rank : Nat) (e : Int) :
    hit? rank e = match fits rank e (below rank e), fits rank e (below rank e + 1) with
      | true, false => some (below rank e)
      | false, true => some (below rank e + 1)
      | false, false => none
      | true, true =>
        if 2 * remainder rank e < scale e then some (below rank e)
        else if scale e < 2 * remainder rank e then some (below rank e + 1)
        else some (below rank e + below rank e % 2) := rfl

theorem not_fits_zero {rank : Nat} (h : 0 < rank) (e : Int) : fits rank e 0 = false := by
  rw [fits, Nat.zero_mul]
  exact Interval.not_contains_zero (Nat.mul_pos (interval_low_pos h) (power_den_pos e))

/-- A hit is not zero. -/
theorem hit?_ne_zero {rank : Nat} (h : 0 < rank) {e : Int} {k : Nat} (hk : hit? rank e = some k) :
    k ≠ 0 := by
  have hb : fits rank e (below rank e) = true → below rank e ≠ 0 := fun hf hz => by
    rw [hz, not_fits_zero h] at hf
    cases hf
  rw [hit?_eq] at hk
  split at hk
  next hf _ => exact Option.some.inj hk ▸ hb hf
  next => exact Option.some.inj hk ▸ Nat.succ_ne_zero _
  next => cases hk
  next hf _ =>
    have := hb hf
    split at hk
    · exact Option.some.inj hk ▸ this
    · split at hk
      · exact Option.some.inj hk ▸ Nat.succ_ne_zero _
      · have := Option.some.inj hk
        omega

theorem hit?_isSome_of_fits {rank : Nat} {e : Int}
    (h : fits rank e (below rank e) = true ∨ fits rank e (below rank e + 1) = true) :
    (hit? rank e).isSome = true := by
  rw [hit?_eq]
  split
  next => rfl
  next => rfl
  next hf hg =>
    rcases h with h | h
    · exact absurd (hf.symm.trans h) Bool.false_ne_true
    · exact absurd (hg.symm.trans h) Bool.false_ne_true
  next =>
    split
    · rfl
    · split <;> rfl

/-- A grid that is finer than a double by sixteen digits has a hit: one of the two neighbours on the
grid is nearer than the midpoints to the neighbouring doubles. -/
theorem hit?_isSome {rank : Nat} (h : 0 < rank) {e : Int}
    (he : (power e).1 * 10 ^ 16 * unitsPerOne ≤ units rank * (power e).2) :
    (hit? rank e).isSome = true := by
  obtain ⟨r, rfl⟩ := Nat.exists_eq_add_of_lt h
  rw [Nat.zero_add] at h he ⊢
  refine hit?_isSome_of_fits ?_
  -- all in multiples of the same small part of a unit
  have hs : 0 < scale e := Nat.mul_pos (power_num_pos e) (Nat.mul_pos (by decide) unitsPerOne_pos)
  have hp := power_den_pos e
  have hdiv : scale e * below (r + 1) e + remainder (r + 1) e = 2 * units (r + 1) * (power e).2 :=
    Nat.div_add_mod _ _
  have hrem : remainder (r + 1) e < scale e := Nat.mod_lt _ hs
  have hgrid : scale e * 10 ^ 16 ≤ 2 * units (r + 1) * (power e).2 := by
    calc scale e * 10 ^ 16 = 2 * ((power e).1 * 10 ^ 16 * unitsPerOne) := by rw [scale]; ring
      _ ≤ 2 * (units (r + 1) * (power e).2) := Nat.mul_le_mul_left 2 he
      _ = _ := by ring
  have hlow : (interval (r + 1)).low * (power e).2 + spacing r * (power e).2 =
      2 * units (r + 1) * (power e).2 := by
    rw [interval, Nat.add_sub_cancel, units_succ]
    ring
  have hhigh : (interval (r + 1)).high * (power e).2 =
      2 * units (r + 1) * (power e).2 + spacing (r + 1) * (power e).2 := by
    rw [interval, units_succ (r + 1)]
    ring
  have hbefore : 2 * units (r + 1) * (power e).2 ≤ 4 * block * (spacing r * (power e).2) := by
    calc 2 * units (r + 1) * (power e).2 ≤ 2 * (2 * block * spacing r) * (power e).2 := by
          rw [units_succ]
          exact Nat.mul_le_mul_right _ (Nat.mul_le_mul_left 2 (units_add_spacing_le r))
      _ = _ := by ring
  have hafter : 2 * units (r + 1) * (power e).2 ≤
      4 * block * (spacing (r + 1) * (power e).2) := by
    calc 2 * units (r + 1) * (power e).2 ≤ 2 * (2 * block * spacing (r + 1)) * (power e).2 := by
          refine Nat.mul_le_mul_right _ (Nat.mul_le_mul_left 2 ?_)
          exact Nat.le_trans (Nat.le_add_right _ _) (units_add_spacing_le (r + 1))
      _ = _ := by ring
  have hb : block = 4503599627370496 := rfl
  rw [hb] at hbefore hafter
  rw [Nat.mul_comm] at hdiv
  by_cases hr : 2 * remainder (r + 1) e ≤ scale e
  · refine .inl (Interval.contains_of_lt ?_ ?_)
    · omega
    · omega
  · refine .inr (Interval.contains_of_lt ?_ ?_)
    · rw [Nat.succ_mul]
      omega
    · rw [Nat.succ_mul]
      omega

/-! ## digits -/

theorem search_ne_zero {rank : Nat} (h : 0 < rank) {finer : Nat} {e : Int} {j : Nat}
    (hj : j < finer) (he : (hit? rank (e - j)).isSome = true) : (search rank finer e).1 ≠ 0 := by
  induction finer generalizing e j with
  | zero => cases hj
  | succ finer ih =>
    rw [search]
    split
    next k hk => exact hit?_ne_zero h hk
    next hk =>
      cases j with
      | zero =>
        rw [Int.natCast_zero, Int.sub_zero, hk] at he
        cases he
      | succ j =>
        refine ih (Nat.lt_of_succ_lt_succ hj) ?_
        rwa [show e - 1 - (j : Int) = e - ((j + 1 : Nat) : Int) by omega]

theorem stripZeros_ne_zero {r : Nat × Int} (h : r.1 ≠ 0) (fuel : Nat) :
    (stripZeros fuel r).1 ≠ 0 := by
  induction fuel generalizing r with
  | zero => exact h
  | succ fuel ih =>
    obtain ⟨k, e⟩ := r
    rw [stripZeros]
    split
    next hk =>
      refine ih ?_
      show k / 10 ≠ 0
      omega
    next => exact h

/-- **The digits of a double that is not zero are not zero.** -/
theorem digits_ne_zero {rank : Nat} (h : 0 < rank) : (digits rank).1 ≠ 0 := by
  have hu := units_pos h
  have hstart : (power (-330)).1 * unitsPerOne ≤ units rank * (power (-330)).2 := by
    rw [power_of_neg (by decide), Nat.one_mul]
    exact Nat.le_trans (by decide +kernel) (Nat.le_mul_of_pos_left _ hu)
  have hfirst := leadingExponent_le hstart 650
  refine stripZeros_ne_zero (search_ne_zero h (j := 16) (by decide) (hit?_isSome h ?_)) 20
  -- ten to the exponent, sixteen digits later
  generalize leadingExponent (units rank) unitsPerOne 650 (-330) = e at hfirst ⊢
  have hadd := power_add (e - 16) 16
  rw [show e - 16 + ((16 : Nat) : Int) = e by omega] at hadd
  refine Nat.le_of_mul_le_mul_right ?_ (power_den_pos e)
  calc (power (e - 16)).1 * 10 ^ 16 * unitsPerOne * (power e).2
      = (power (e - 16)).1 * (power e).2 * 10 ^ 16 * unitsPerOne := by ring
    _ = (power e).1 * unitsPerOne * (power (e - 16)).2 := by rw [← hadd]; ring
    _ ≤ units rank * (power e).2 * (power (e - 16)).2 := Nat.mul_le_mul_right _ hfirst
    _ = units rank * (power (e - 16)).2 * (power e).2 := by ring

end Shortest

end FeatureFlags
