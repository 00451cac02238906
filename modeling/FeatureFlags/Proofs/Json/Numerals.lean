import FeatureFlags.Json.Printer
import FeatureFlags.Json.Numeral
import FeatureFlags.Proofs.Json.Shortest

/-!
# Numbers as text

The text of a number is a numeral, and is read as one wherever it stands in a JSON text.

* `Numeral.Digits`, `Numeral.Leading`   texts of digits;
* `Numeral.Ends`            a text that does not go on with a numeral;
* `Numeral.scan_of_parts`      a numeral is read part by part;
* `Numeral.Reads`           a text is read as a numeral, whatever follows it;
* `Json.exists_reads_numberChars`   so is the text of every number.
-/

namespace FeatureFlags

namespace Numeral

/-! ## digits -/

/-- a text of digits -/
def Digits (cs : List Char) : Prop := ∀ c ∈ cs, (digit? c).isSome = true

/-- digits of which there is at least one and the first is not zero -/
structure Leading (cs : List Char) : Prop where
  digits : Digits cs
  head : ∃ c tail, cs = c :: tail ∧ c ≠ '0'

theorem Digits.append {as bs : List Char} (h : Digits as) (k : Digits bs) : Digits (as ++ bs) :=
  fun c hc => (List.mem_append.mp hc).elim (h c) (k c)

theorem Digits.of_subset {as bs : List Char} (h : Digits bs) (hs : as ⊆ bs) : Digits as :=
  fun c hc => h c (hs hc)

theorem digits_zeros (n : Nat) : Digits (List.replicate n '0') := fun c hc => by
  rw [(List.mem_replicate.mp hc).2]
  rfl

theorem digit?_of_isDigit {c : Char} (h : c.isDigit = true) : (digit? c).isSome = true := by
  rw [digit?, if_pos]
  · rfl
  · rw [Char.isDigit, Bool.and_eq_true, decide_eq_true_eq, decide_eq_true_eq] at h
    exact h

theorem digits_toDigits (n : Nat) : Digits (Nat.toDigits 10 n) := fun _ hc =>
  digit?_of_isDigit (Nat.isDigit_of_mem_toDigits (by decide) (by decide) hc)

theorem digitChar_ne_zero : ∀ n < 10, 0 < n → n.digitChar ≠ '0' := by decide

/-- The digits of a number that is not zero begin with a digit that is not zero. -/
theorem leading_toDigits {n : Nat} (h : n ≠ 0) : Leading (Nat.toDigits 10 n) := by
  refine ⟨digits_toDigits n, ?_⟩
  induction n using Nat.strongRecOn with
  | ind n ih =>
    by_cases hn : n < 10
    · exact ⟨_, _, Nat.toDigits_of_lt_base hn, digitChar_ne_zero n hn (Nat.pos_of_ne_zero h)⟩
    · obtain ⟨c, tail, hc, hz⟩ := ih (n / 10) (by omega) (by omega)
      refine ⟨c, tail ++ [(n % 10).digitChar], ?_, hz⟩
      rw [Nat.toDigits_of_base_le (by decide) (by omega), hc, List.cons_append]

theorem eq_zero_of_digit? {c : Char} (h : digit? c = some 0) : c = '0' := by
  rw [digit?] at h
  split at h
  next hc =>
    have hn := Option.some.inj h
    exact Char.toNat_inj.mp (Nat.le_antisymm (Nat.le_of_sub_eq_zero hn) hc.1)
  next => cases h

/-! ## what follows -/

/-- The text does not go on with a numeral. -/
def Ends (cs : List Char) : Prop :=
  ∀ c ∈ cs.head?, digit? c = none ∧ c ≠ '.' ∧ c ≠ 'e' ∧ c ≠ 'E'

theorem ends_nil : Ends [] := nofun

/-- The text does not go on with a digit. -/
def Stops (cs : List Char) : Prop := ∀ c ∈ cs.head?, digit? c = none

theorem Ends.stops {cs : List Char} (h : Ends cs) : Stops cs := fun c hc => (h c hc).1

theorem stops_cons {c : Char} (h : digit? c = none) (cs : List Char) : Stops (c :: cs) :=
  fun _ hd => Option.some.inj hd ▸ h

/-! ## parts -/

theorem scanDigits_of_stops {cs : List Char} (h : Stops cs) : scanDigits cs = ([], cs) := by
  cases cs with
  | nil => rfl
  | cons c cs => rw [scanDigits, h c rfl]

theorem scanDigits_append {ds rest : List Char} (h : Digits ds) (hr : Stops rest) :
    scanDigits (ds ++ rest) = (ds.filterMap digit?, rest) := by
  induction ds with
  | nil => exact scanDigits_of_stops hr
  | cons d ds ih =>
    obtain ⟨n, hn⟩ := Option.isSome_iff_exists.mp (h d List.mem_cons_self)
    rw [List.cons_append, scanDigits, hn, List.filterMap_cons_some hn,
      ih (fun c hc => h c (List.mem_cons_of_mem _ hc))]

theorem filterMap_digits_ne_nil {ds : List Char} (h : Digits ds) (hn : ds ≠ []) :
    ds.filterMap digit? ≠ [] := by
  obtain ⟨d, tail, rfl⟩ := List.exists_cons_of_ne_nil hn
  obtain ⟨n, hd⟩ := Option.isSome_iff_exists.mp (h d List.mem_cons_self)
  rw [List.filterMap_cons_some hd]
  exact List.cons_ne_nil _ _

theorem scanWhole_zero {rest : List Char} (hr : Stops rest) :
    scanWhole ('0' :: rest) = some ([0], rest) := by
  have h : scanDigits ('0' :: rest) = ([0], rest) := by
    show (0 :: (scanDigits rest).1, (scanDigits rest).2) = _
    rw [scanDigits_of_stops hr]
  rw [scanWhole, h]
  rfl

theorem scanWhole_append {ds rest : List Char} (h : Leading ds) (hr : Stops rest) :
    scanWhole (ds ++ rest) = some (ds.filterMap digit?, rest) := by
  obtain ⟨c, tail, rfl, hz⟩ := h.head
  obtain ⟨n, hn⟩ := Option.isSome_iff_exists.mp (h.digits c List.mem_cons_self)
  rw [scanWhole, scanDigits_append h.digits hr, List.filterMap_cons_some hn]
  cases n with
  | zero => exact absurd (eq_zero_of_digit? hn) hz
  | succ n => rfl

theorem scanFraction_of_no_point {cs : List Char} (h : cs.head? ≠ some '.') :
    scanFraction cs = some (none, cs) := by
  rw [scanFraction]
  rintro tail rfl
  exact h rfl

theorem scanFraction_of_ends {cs : List Char} (h : Ends cs) :
    scanFraction cs = some (none, cs) :=
  scanFraction_of_no_point fun hc => (h _ hc).2.1 rfl

theorem scanFraction_append {ds rest : List Char} (h : Digits ds) (hn : ds ≠ [])
    (hr : Stops rest) :
    scanFraction ('.' :: (ds ++ rest)) = some (some (ds.filterMap digit?), rest) := by
  rw [scanFraction, scanDigits_append h hr]
  split
  next heq => exact absurd (Prod.mk.inj heq).1 (filterMap_digits_ne_nil h hn)
  next heq =>
    obtain ⟨rfl, rfl⟩ := Prod.mk.inj heq
    rfl

theorem scanExponent_of_ends {cs : List Char} (h : Ends cs) :
    scanExponent cs = some (none, cs) := by
  cases cs with
  | nil => rfl
  | cons c cs => rw [scanExponent, if_neg (not_or.mpr ⟨(h c rfl).2.2.1, (h c rfl).2.2.2⟩)]

theorem scanExponent_append {sign : Char} (hs : sign = '-' ∨ sign = '+') {ds rest : List Char}
    (h : Digits ds) (hn : ds ≠ []) (hr : Stops rest) :
    scanExponent ('e' :: sign :: (ds ++ rest)) =
      some (some (decide (sign = '-'), ds.filterMap digit?), rest) := by
  have hsign : scanExponentSign (sign :: (ds ++ rest)) = (decide (sign = '-'), ds ++ rest) := by
    rcases hs with rfl | rfl <;> rfl
  rw [scanExponent, if_pos (.inl rfl), hsign]
  dsimp only
  rw [scanDigits_append h hr]
  split
  next heq => exact absurd (Prod.mk.inj heq).1 (filterMap_digits_ne_nil h hn)
  next heq =>
    obtain ⟨rfl, rfl⟩ := Prod.mk.inj heq
    rfl

/-! ## whole numerals -/

def signChars (negative : Bool) : List Char := if negative then ['-'] else []

theorem scan_of_parts {negative : Bool} {cs after rest : List Char} {whole : List Nat}
    {fraction : Option (List Nat)} {exponent : Option (Bool × List Nat)} {point : List Char}
    (hc : cs.head? ≠ some '-') (hw : scanWhole cs = some (whole, after))
    (hf : scanFraction after = some (fraction, point))
    (he : scanExponent point = some (exponent, rest)) :
    scan (signChars negative ++ cs) =
      some (⟨negative, whole, fraction, exponent⟩, rest) := by
  have hs : scanSign (signChars negative ++ cs) = (negative, cs) := by
    cases negative with
    | true => rfl
    | false =>
      show scanSign cs = (false, cs)
      rw [scanSign]
      rintro tail rfl
      exact hc rfl
  rw [scan, hs]
  show (scanWhole cs).bind _ = _
  rw [hw, Option.bind_some, hf]
  show (scanExponent point).bind _ = _
  rw [he]
  rfl

/-- The text is read as a numeral, whatever follows it that does not go on with one. -/
def Reads (cs : List Char) (n : Numeral) : Prop :=
  ∀ rest, Ends rest → scan (cs ++ rest) = some (n, rest)

/-- The part of a numeral before point and exponent, however it goes on. -/
def IsWhole (cs : List Char) : Prop :=
  (∀ rest, (cs ++ rest).head? ≠ some '-') ∧
    ∃ whole, ∀ rest, Stops rest → scanWhole (cs ++ rest) = some (whole, rest)

/-- The fraction and the exponent of a numeral, as far as it has them. -/
def IsTail (cs : List Char) : Prop :=
  ∃ fraction exponent, ∀ rest, Ends rest → Stops (cs ++ rest) ∧
    ∃ point, scanFraction (cs ++ rest) = some (fraction, point) ∧
      scanExponent point = some (exponent, rest)

theorem isWhole_zero : IsWhole ['0'] :=
  ⟨fun _ => nofun, [0], fun _ hr => scanWhole_zero hr⟩

theorem Leading.isWhole {ds : List Char} (h : Leading ds) : IsWhole ds := by
  refine ⟨fun rest hc => ?_, ds.filterMap digit?, fun _ hr => scanWhole_append h hr⟩
  obtain ⟨c, tail, rfl, -⟩ := h.head
  have hd := h.digits c List.mem_cons_self
  rw [Option.some.inj hc] at hd
  cases hd

theorem isTail_nil : IsTail [] :=
  ⟨none, none, fun rest hr =>
    ⟨hr.stops, rest, scanFraction_of_ends hr, scanExponent_of_ends hr⟩⟩

theorem isTail_fraction {ds : List Char} (h : Digits ds) (hn : ds ≠ []) : IsTail ('.' :: ds) :=
  ⟨some (ds.filterMap digit?), none, fun rest hr =>
    ⟨stops_cons rfl _, rest, scanFraction_append h hn hr.stops, scanExponent_of_ends hr⟩⟩

theorem isTail_exponent {sign : Char} (hs : sign = '-' ∨ sign = '+') {ds : List Char}
    (h : Digits ds) (hn : ds ≠ []) : IsTail ('e' :: sign :: ds) :=
  ⟨none, some (decide (sign = '-'), ds.filterMap digit?), fun _ hr =>
    ⟨stops_cons rfl _, _, scanFraction_of_no_point nofun, scanExponent_append hs h hn hr.stops⟩⟩

theorem isTail_fraction_exponent {fs : List Char} (hf : Digits fs) (hfn : fs ≠ []) {sign : Char}
    (hs : sign = '-' ∨ sign = '+') {ds : List Char} (h : Digits ds) (hn : ds ≠ []) :
    IsTail ('.' :: fs ++ 'e' :: sign :: ds) := by
  refine ⟨some (fs.filterMap digit?), some (decide (sign = '-'), ds.filterMap digit?),
    fun rest hr => ⟨stops_cons rfl _, 'e' :: sign :: (ds ++ rest), ?_,
      scanExponent_append hs h hn hr.stops⟩⟩
  rw [List.append_assoc]
  exact scanFraction_append hf hfn (stops_cons rfl _)

/-- A sign or none, a whole part and a tail are read as a numeral. -/
theorem exists_reads (negative : Bool) {whole tail : List Char} (hw : IsWhole whole)
    (ht : IsTail tail) : ∃ n, Reads (signChars negative ++ (whole ++ tail)) n := by
  obtain ⟨hsign, w, hw⟩ := hw
  obtain ⟨f, e, ht⟩ := ht
  refine ⟨⟨negative, w, f, e⟩, fun rest hr => ?_⟩
  obtain ⟨hstops, point, hf, he⟩ := ht rest hr
  rw [List.append_assoc, List.append_assoc]
  exact scan_of_parts (hsign _) (hw _ hstops) hf he

/-! ## integers -/

theorem exists_reads_naturalChars (negative : Bool) (n : Nat) :
    ∃ m, Reads (signChars negative ++ Json.naturalChars n) m := by
  rw [← List.append_nil (Json.naturalChars n)]
  refine exists_reads negative ?_ isTail_nil
  by_cases h : n = 0
  · rw [h]
    exact isWhole_zero
  · exact (leading_toDigits h).isWhole

/-! ## doubles -/

theorem Leading.take {ds : List Char} (h : Leading ds) {zeros : List Char} (hz : Digits zeros)
    (n : Nat) : Leading ((ds ++ zeros).take (n + 1)) := by
  refine ⟨(h.digits.append hz).of_subset (List.take_subset _ _), ?_⟩
  obtain ⟨c, tail, rfl, hc⟩ := h.head
  exact ⟨c, (tail ++ zeros).take n, rfl, hc⟩

theorem isTail_point {ds : List Char} (h : Digits ds) :
    IsTail ('.' :: (if ds.isEmpty then ['0'] else ds)) := by
  cases ds with
  | nil => exact isTail_fraction (digits_zeros 1) (List.cons_ne_nil _ _)
  | cons d ds => exact isTail_fraction h (List.cons_ne_nil _ _)

theorem isTail_scientific {fs : List Char} (h : Digits fs) (e : Int) :
    IsTail ((if fs.isEmpty then [] else '.' :: fs) ++
      'e' :: (if e < 0 then '-' else '+') :: Nat.toDigits 10 e.natAbs) := by
  have hs : (if e < 0 then '-' else '+') = '-' ∨ (if e < 0 then '-' else '+') = '+' := by
    split
    · exact .inl rfl
    · exact .inr rfl
  cases fs with
  | nil => exact isTail_exponent hs (digits_toDigits _) Nat.toDigits_ne_nil
  | cons f fs =>
    exact isTail_fraction_exponent h (List.cons_ne_nil _ _) hs (digits_toDigits _)
      Nat.toDigits_ne_nil

/-- Digits that begin with one that is not zero are written as a numeral. -/
theorem exists_reads_write (negative : Bool) {ds : List Char} (h : Leading ds) (l : Layout)
    (e : Int) : ∃ n, Reads (signChars negative ++ l.write ds e) n := by
  rw [Layout.write]
  split
  next =>
    split
    next =>
      show ∃ n, Reads (signChars negative ++
        (['0'] ++ '.' :: (List.replicate (-e - 1).toNat '0' ++ ds))) n
      refine exists_reads negative isWhole_zero (isTail_fraction ?_ ?_)
      · exact (digits_zeros _).append h.digits
      · obtain ⟨c, tail, rfl, -⟩ := h.head
        exact List.append_ne_nil_of_right_ne_nil _ (List.cons_ne_nil _ _)
    next =>
      exact exists_reads negative (h.take (digits_zeros _) e.toNat).isWhole
        (isTail_point (h.digits.of_subset (List.drop_subset _ _)))
  next =>
    have hw : Leading (ds.take 1) := by
      have := h.take (digits_zeros 0) 0
      rwa [List.replicate_zero, List.append_nil] at this
    dsimp only
    rw [List.append_assoc]
    exact exists_reads negative hw.isWhole
      (isTail_scientific (h.digits.of_subset (List.drop_subset 1 ds)) e)

theorem exists_reads_chars (x : Binary64) : ∃ n, Reads x.chars n := by
  have hsign : x.chars = signChars x.negative ++ Binary64.magnitudeChars x.rank := by
    rw [Binary64.chars, signChars]
    split <;> rfl
  rw [hsign, Binary64.magnitudeChars]
  split
  next =>
    exact exists_reads _ isWhole_zero (isTail_fraction (digits_zeros 1) (List.cons_ne_nil _ _))
  next h =>
    exact exists_reads_write _
      (leading_toDigits (Shortest.digits_ne_zero (Nat.pos_of_ne_zero h))) _ _

end Numeral

/-- A numeral begins with a sign or a digit. -/
theorem Numeral.head_of_scan {cs rest : List Char} {n : Numeral}
    (h : Numeral.scan cs = some (n, rest)) :
    ∃ c tail, cs = c :: tail ∧ (c = '-' ∨ (Numeral.digit? c).isSome = true) := by
  cases cs with
  | nil => cases h
  | cons c tail =>
    refine ⟨c, tail, rfl, ?_⟩
    by_cases hc : c = '-'
    · exact .inl hc
    · refine .inr (Option.isSome_iff_ne_none.mpr fun hd => ?_)
      have hs : Numeral.scanSign (c :: tail) = (false, c :: tail) := by
        rw [Numeral.scanSign]
        exact fun _ heq => hc (List.cons.inj heq).1
      have hw : Numeral.scanWhole (c :: tail) = none := by
        rw [Numeral.scanWhole, Numeral.scanDigits_of_stops (Numeral.stops_cons hd tail)]
      rw [Numeral.scan, hs] at h
      change (Numeral.scanWhole (c :: tail)).bind _ = _ at h
      rw [hw] at h
      cases h

/-- **The text of every number is read as one numeral.** -/
theorem Json.exists_reads_numberChars (n : Number) :
    ∃ m, Numeral.Reads (Json.numberChars n) m := by
  cases n with
  | double x => exact Numeral.exists_reads_chars x
  | integer n =>
    cases n with
    | ofNat n => exact Numeral.exists_reads_naturalChars false n
    | negSucc n => exact Numeral.exists_reads_naturalChars true (n + 1)

end FeatureFlags
