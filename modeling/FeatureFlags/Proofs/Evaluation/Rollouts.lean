import FeatureFlags.Proofs.Evaluation.Rules

/-!
# Rollouts

A rollout reaches a context from one percentage on, which lies between 1 and 100 and is told by the
flag's key and the name under which the context is counted alone.

* `Rollout.least`             that percentage;
* `Rollout.includes_iff`      a percentage reaches a context if it is not below the least one;
* `Definition.rolledOut`      a flag with another rollout;
* `Definition.value_rolledOut`   its value, wherever no rule matches;
* `Definition.leastRollout?_eq`, `Definition.rolloutOnlyWidens_eq_true`   a search among the whole
                              percentages from 0 to 100 finds the least one, and nothing above it
                              is off;
* `Definition.rollouts_only_widen`   who is reached by a rollout is reached by every greater one.
-/

namespace FeatureFlags

namespace Rollout

/-- the least percentage that reaches the bucket -/
def least (flagKey identifier : String) : Int32 := Int32.ofNat (bucket flagKey identifier + 1)

variable (flagKey identifier : String)

theorem toInt_least : (least flagKey identifier).toInt = bucket flagKey identifier + 1 := by
  have hb : bucket flagKey identifier < 100 := bucket_lt flagKey identifier
  rw [least, Int32.toInt_ofNat_of_lt (by omega)]
  rfl

theorem one_le_least : 1 ≤ least flagKey identifier := by
  rw [Int32.le_iff_toInt_le, toInt_least]
  show (1 : Int) ≤ bucket flagKey identifier + 1
  omega

theorem least_le_hundred : least flagKey identifier ≤ 100 := by
  have hb : bucket flagKey identifier < 100 := bucket_lt flagKey identifier
  rw [Int32.le_iff_toInt_le, toInt_least]
  show (bucket flagKey identifier + 1 : Int) ≤ 100
  omega

/-- **A percentage reaches a context if it is not below the least one.**  The percentages at and
below 0 and those at and above 100 are no exception: the least one lies between. -/
theorem includes_iff (percentage : Int32) :
    includes percentage flagKey identifier = true ↔ least flagKey identifier ≤ percentage := by
  have hone := one_le_least flagKey identifier
  have hhundred := least_le_hundred flagKey identifier
  rw [includes]
  split
  next hzero =>
    refine iff_of_false Bool.false_ne_true fun hle => ?_
    exact absurd (Int32.le_trans hone (Int32.le_trans hle hzero)) (by decide)
  next =>
    split
    next hp => exact iff_of_true rfl (Int32.le_trans hhundred hp)
    next =>
      rw [decide_eq_true_iff, Int32.le_iff_toInt_le, toInt_least]
      exact Int.lt_iff_add_one_le

end Rollout

namespace Definition

/-- the flag with another rollout -/
def rolledOut (d : Definition) (percentage : Int32) : Definition :=
  { d with rollout := some percentage }

/-- Where no rule matches, the least percentage for the context decides. -/
theorem value_rolledOut {d : Definition} {c : Context} (he : d.enabled = true)
    (hm : matching? d.rules c = none) (p : Int32) :
    ((d.rolledOut p).evaluate c).value =
      if Rollout.least d.key c.identifier ≤ p then d.onValue else d.offValue := by
  rw [evaluate_of_none (d := d.rolledOut p) he hm, evaluateRollout]
  show (if Rollout.includes p d.key c.identifier then _ else _ : Evaluation).value = _
  by_cases hp : Rollout.least d.key c.identifier ≤ p
  · rw [if_pos hp, if_pos ((Rollout.includes_iff _ _ p).mpr hp)]
    rfl
  · rw [if_neg hp, if_neg fun hi => hp ((Rollout.includes_iff _ _ p).mp hi)]
    rfl

/-- A rule that matches and a flag that is off do not look at the rollout. -/
theorem value_rolledOut_of_other {d : Definition} {c : Context}
    (h : d.enabled = false ∨ (matching? d.rules c).isSome = true) (p q : Int32) :
    ((d.rolledOut p).evaluate c).value = ((d.rolledOut q).evaluate c).value := by
  rw [value_evaluate, value_evaluate]
  show (if d.enabled then if (matching? d.rules c).isSome then d.onValue else _ else d.offValue) =
    if d.enabled then if (matching? d.rules c).isSome then d.onValue else _ else d.offValue
  rcases h with h | h
  · rw [h, if_neg Bool.false_ne_true, if_neg Bool.false_ne_true]
  · rw [if_pos h, if_pos h]

/-! ## the least percentage, searched for -/

theorem rolloutProfile_eq (key : String) (c : Context) :
    rolloutProfile key c =
      List.replicate (Rollout.bucket key c.identifier + 1) false ++
        List.replicate (100 - Rollout.bucket key c.identifier) true := by
  have hb : Rollout.bucket key c.identifier < 100 := Rollout.bucket_lt key c.identifier
  refine List.ext_getElem (by simp [rolloutProfile]; omega) fun p hp _ => ?_
  have hp : p < 101 := by simpa [rolloutProfile] using hp
  have hnone : matching? (shared key 0).rules c = none :=
    matching_eq_none_iff.mpr fun _ hr => absurd hr List.not_mem_nil
  have hvalue : ((shared key (Int32.ofNat p)).evaluate c).value =
      if Rollout.least key c.identifier ≤ Int32.ofNat p then .bool true else .bool false :=
    value_rolledOut (d := shared key 0) rfl hnone (Int32.ofNat p)
  have hle : Rollout.least key c.identifier ≤ Int32.ofNat p ↔
      Rollout.bucket key c.identifier + 1 ≤ p := by
    rw [Int32.le_iff_toInt_le, Rollout.toInt_least, Int32.toInt_ofNat_of_lt (by omega)]
    omega
  rw [List.getElem_append]
  simp only [rolloutProfile, List.getElem_map, List.getElem_range, List.length_replicate,
    List.getElem_replicate, hvalue, hle]
  by_cases hlt : p < Rollout.bucket key c.identifier + 1
  · rw [if_neg (by omega), dif_pos hlt]
    rfl
  · rw [if_pos (by omega), dif_neg hlt]
    rfl

theorem leastRollout?_eq (key : String) (c : Context) :
    leastRollout? key c = some (Rollout.bucket key c.identifier + 1) := by
  have hb : Rollout.bucket key c.identifier < 100 := Rollout.bucket_lt key c.identifier
  rw [leastRollout?, rolloutProfile_eq, List.idxOf?, List.findIdx?_append]
  simp [List.findIdx?_replicate]
  omega

theorem rolloutOnlyWidens_eq_true (key : String) (c : Context) :
    rolloutOnlyWidens key c = true := by
  rw [rolloutOnlyWidens, rolloutProfile_eq]
  simp

/-! ## rollouts that grow -/

/-- **Rollouts only widen.**  Who has the value of a flag that is on keeps it when the rollout
grows.  Where no enabled rule matches, nobody has it at 0 and below and everybody at 100 and above;
and if the two values differ, a context has it from one percentage on, which lies between 1 and 100
and for which only the flag's key counts and the user's key, or else the email address, or else the
name of all that have neither. -/
theorem rollouts_only_widen (d : Definition) (c : Context) :
    (∀ p q : Int32, p ≤ q → ((d.rolledOut p).evaluate c).value = d.onValue →
      ((d.rolledOut q).evaluate c).value = d.onValue) ∧
    (d.enabled = true → (∀ r ∈ d.rules, ¬ r.applies c = true) →
      (∀ p : Int32, p ≤ 0 → ((d.rolledOut p).evaluate c).value = d.offValue) ∧
      (∀ p : Int32, 100 ≤ p → ((d.rolledOut p).evaluate c).value = d.onValue) ∧
      (d.onValue ≠ d.offValue → ∀ p : Int32, ((d.rolledOut p).evaluate c).value = d.onValue ↔
        Rollout.least d.key ((c.userKey?.or c.userEmail?).getD "anonymous") ≤ p)) ∧
    ∀ key identifier, 1 ≤ Rollout.least key identifier ∧ Rollout.least key identifier ≤ 100 := by
  refine ⟨fun p q hpq hp => ?_, fun he hn => ?_, fun key identifier => ?_⟩
  · cases he : d.enabled with
    | false => rw [← hp, value_rolledOut_of_other (.inl he) q p]
    | true =>
      cases hm : matching? d.rules c with
      | some r => rw [← hp, value_rolledOut_of_other (.inr (hm ▸ rfl)) q p]
      | none =>
        rw [value_rolledOut he hm] at hp ⊢
        split at hp
        next hle => rw [if_pos (Int32.le_trans hle hpq)]
        -- off at `p` with the value of on, so both values are one
        next => rw [hp, ite_self]
  · have hvalue := value_rolledOut he (matching_eq_none_iff.mpr hn)
    have hone := Rollout.one_le_least d.key c.identifier
    refine ⟨fun p hp => ?_, fun p hp => ?_, fun hne p => ?_⟩
    · rw [hvalue, if_neg]
      intro hle
      exact absurd (Int32.le_trans hone (Int32.le_trans hle hp)) (by decide)
    · rw [hvalue, if_pos (Int32.le_trans (Rollout.least_le_hundred _ _) hp)]
    · rw [hvalue, show (c.userKey?.or c.userEmail?).getD "anonymous" = c.identifier from rfl]
      split
      next hle => exact iff_of_true rfl hle
      next hle => exact iff_of_false (Ne.symm hne) hle
  · exact ⟨Rollout.one_le_least key identifier, Rollout.least_le_hundred key identifier⟩

/-- Somebody of whom nothing is known gets the flag `tied` from 92 percent on. -/
theorem widened_for_anonymous :
    let c := Context.single (.ofUser none "en")
    tied.enabled = true ∧ (∀ r ∈ tied.rules, ¬ r.applies c = true) ∧ tied.onValue ≠ tied.offValue ∧
      ((tied.rolledOut (-5)).evaluate c).value = .str "off" ∧
      ((tied.rolledOut 91).evaluate c).value ≠ .str "on" ∧
      ((tied.rolledOut 92).evaluate c).value = .str "on" ∧
      ((tied.rolledOut 95).evaluate c).value = .str "on" := by
  intro c
  have hn : ∀ r ∈ tied.rules, ¬ r.applies c = true := by decide
  have hne : tied.onValue ≠ tied.offValue := fun h => absurd (Json.str.inj h) (by decide)
  obtain ⟨hmono, hends, -⟩ := rollouts_only_widen tied c
  obtain ⟨hoff, -, hleast⟩ := hends rfl hn
  have hbucket : Rollout.bucket "beta" "anonymous" = 91 := by decide +kernel
  have h92 : ((tied.rolledOut 92).evaluate c).value = .str "on" := by
    refine (hleast hne 92).mpr ?_
    show Rollout.least "beta" "anonymous" ≤ 92
    rw [Rollout.least, hbucket]
    decide
  refine ⟨rfl, hn, hne, hoff (-5) (by decide), fun h91 => ?_, h92, hmono 92 95 (by decide) h92⟩
  have hle : Rollout.least "beta" "anonymous" ≤ 91 := (hleast hne 91).mp h91
  rw [Rollout.least, hbucket] at hle
  exact absurd hle (by decide)

end Definition

end FeatureFlags
