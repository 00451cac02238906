import FeatureFlags.Json.Printer
import Mathlib.Data.List.Basic

/-!
# Characters of JSON texts

The text of a value has no characters below `U+0020`, so it is one line wherever it stands.

* `Json.Plain`          a text without such characters;
* `Json.plain_quotedChars`   a text in quotes, whatever characters it is made of;
* `Json.plain_numberChars`   a number;
* `Json.plain_chars`    every value, however deep its texts and names of members are.
-/

namespace FeatureFlags.Json

/-- a text without the characters below `U+0020` -/
def Plain (cs : List Char) : Prop := ∀ c ∈ cs, 0x20 ≤ c.toNat

instance (cs : List Char) : Decidable (Plain cs) :=
  List.decidableBAll (fun c : Char => 0x20 ≤ c.toNat) cs

@[simp] theorem plain_nil : Plain [] := nofun

@[simp] theorem plain_cons_iff {c : Char} {cs : List Char} :
    Plain (c :: cs) ↔ 0x20 ≤ c.toNat ∧ Plain cs := List.forall_mem_cons

@[simp] theorem plain_append_iff {as bs : List Char} : Plain (as ++ bs) ↔ Plain as ∧ Plain bs :=
  List.forall_mem_append

theorem Plain.of_subset {as bs : List Char} (h : Plain bs) (hs : as ⊆ bs) : Plain as :=
  fun c hc => h c (hs hc)

/-! ## texts in quotes -/

theorem plain_hexPair : ∀ n < 0x20, Plain (hexPair n) := by decide

theorem plain_escapeChar (c : Char) : Plain (escapeChar c) := by
  unfold escapeChar
  split
  · decide
  split
  · decide
  split
  next h => exact plain_cons_iff.mpr ⟨h, plain_nil⟩
  next h =>
    iterate 5
      split
      · decide
    have hhex : Plain (hexPair c.toNat) := plain_hexPair c.toNat (Nat.lt_of_not_le h)
    exact plain_append_iff.mpr ⟨(by decide : Plain ['\\', 'u', '0', '0']), hhex⟩

theorem plain_escapeChars (cs : List Char) : Plain (escapeChars cs) := by
  induction cs with
  | nil => exact plain_nil
  | cons c cs ih =>
    rw [escapeChars_cons]
    exact plain_append_iff.mpr ⟨plain_escapeChar c, ih⟩

theorem plain_quotedChars (s : String) : Plain (quotedChars s) := by
  simp [quotedChars, plain_escapeChars]

/-! ## numbers -/

theorem plain_toDigits (n : Nat) : Plain (Nat.toDigits 10 n) := by
  intro c hc
  have hd := Nat.isDigit_of_mem_toDigits (by decide) (by decide) hc
  rw [Char.isDigit, Bool.and_eq_true, decide_eq_true_eq] at hd
  exact Nat.le_trans (by decide) (UInt32.le_iff_toNat_le.mp hd.1)

theorem plain_zeros (n : Nat) : Plain (List.replicate n '0') := by
  intro c hc
  rw [(List.mem_replicate.mp hc).2]
  decide

theorem plain_integerChars (n : Int) : Plain (integerChars n) := by
  cases n with
  | ofNat n => exact plain_toDigits n
  | negSucc n => exact plain_cons_iff.mpr ⟨by decide, plain_toDigits (n + 1)⟩

theorem plain_write (l : Layout) {ds : List Char} (h : Plain ds) (e : Int) :
    Plain (l.write ds e) := by
  have hdrop : ∀ n, Plain (ds.drop n) := fun n => h.of_subset (List.drop_subset n ds)
  have hfraction : ∀ n, Plain (if (ds.drop n).isEmpty then ['0'] else ds.drop n) := by
    intro n
    split
    · decide
    · exact hdrop n
  unfold Layout.write
  split
  · split
    · simp [plain_zeros, h]
    · have hwhole : Plain ((ds ++ List.replicate (e.toNat + 1 - ds.length) '0').take
          (e.toNat + 1)) :=
        (plain_append_iff.mpr ⟨h, plain_zeros _⟩).of_subset (List.take_subset _ _)
      refine plain_append_iff.mpr ⟨hwhole, plain_cons_iff.mpr ⟨by decide, hfraction _⟩⟩
  · have hexponent : Plain ('e' :: (if e < 0 then '-' else '+') :: Nat.toDigits 10 e.natAbs) := by
      refine plain_cons_iff.mpr ⟨by decide, plain_cons_iff.mpr ⟨?_, plain_toDigits _⟩⟩
      split <;> decide
    refine plain_append_iff.mpr ⟨plain_append_iff.mpr ⟨?_, ?_⟩, hexponent⟩
    · exact h.of_subset (List.take_subset 1 ds)
    · split
      · exact plain_nil
      · exact plain_cons_iff.mpr ⟨by decide, hdrop 1⟩

theorem plain_numberChars (n : Number) : Plain (numberChars n) := by
  have hmagnitude : ∀ rank, Plain (Binary64.magnitudeChars rank) := by
    intro rank
    rw [Binary64.magnitudeChars]
    split
    · decide
    · exact plain_write _ (plain_toDigits _) _
  cases n with
  | integer n => exact plain_integerChars n
  | double x =>
    rw [numberChars, Binary64.chars]
    split
    · exact plain_cons_iff.mpr ⟨by decide, hmagnitude x.rank⟩
    · exact hmagnitude x.rank

/-! ## values -/

mutual

/-- **The text of a value has no control characters.** -/
theorem plain_chars : ∀ a : Json, Plain (chars a)
  | .null => by decide
  | .bool true => by decide
  | .bool false => by decide
  | .num n => plain_numberChars n
  | .str s => plain_quotedChars s
  | .arr items => by simp [chars, plain_itemsChars items]
  | .obj members => by simp [chars, plain_membersChars members]

theorem plain_itemsChars : ∀ as : List Json, Plain (itemsChars as)
  | [] => plain_nil
  | a :: as => plain_append_iff.mpr ⟨plain_chars a, plain_furtherItemsChars as⟩

theorem plain_furtherItemsChars : ∀ as : List Json, Plain (furtherItemsChars as)
  | [] => plain_nil
  | a :: as => by simp [furtherItemsChars, plain_chars a, plain_furtherItemsChars as]

theorem plain_membersChars : ∀ as : List (Entry Json), Plain (membersChars as)
  | [] => plain_nil
  | (name, a) :: as => by
    simp [membersChars, plain_quotedChars, plain_chars a, plain_furtherMembersChars as]

theorem plain_furtherMembersChars : ∀ as : List (Entry Json), Plain (furtherMembersChars as)
  | [] => plain_nil
  | (name, a) :: as => by
    simp [furtherMembersChars, plain_quotedChars, plain_chars a, plain_furtherMembersChars as]

end

theorem toList_print (a : Json) : a.print.toList = a.chars := String.toList_ofList

end FeatureFlags.Json
