import FeatureFlags.Proofs.Differences

/-!
# Differences as a whole

`Proofs/Differences` says what a single change holds.  Here the list of changes is pinned down:
which names are in it, in which order, and what becomes of it when the two sets change places.

* `FlagSet.Disagree`             a name that only one of two sets has, or under which they hold
                                 unequal values;
* `FlagSet.ascending_changesTo`  the names of the changes ascend strictly;
* `FlagSet.changed_iff_disagree` there is a change for a name exactly when the sets disagree on it;
* `FlagSet.changesTo_reversed`   seen from the other set, every change is reversed, in its place;
* `FlagSet.changesTo_exact`      all of this, with what is carried and where it leads.
-/

namespace FeatureFlags

/-- the change back -/
def Change.reversed (c : Change) : Change := ⟨c.name, c.current, c.previous⟩

theorem Change.reversed_reversed (c : Change) : c.reversed.reversed = c := rfl

theorem Change.reversed_injective : Function.Injective reversed := fun c d h => by
  rw [← reversed_reversed c, h, reversed_reversed]

namespace FlagSet

/-! ## the order of changes -/

/-- **The names of changes ascend strictly,** so none occurs twice. -/
theorem ascending_changesTo (old new : FlagSet) :
    (changesTo old new).Pairwise (fun a b => a.name < b.name) := by
  have hle : (changesTo old new).Pairwise (fun a b => decide (a.name ≤ b.name) = true) := by
    refine List.pairwise_mergeSort (fun a b c hab hbc => ?_) (fun a b => ?_) _
    · exact decide_eq_true (String.le_trans (of_decide_eq_true hab) (of_decide_eq_true hbc))
    · rw [Bool.or_eq_true, decide_eq_true_iff, decide_eq_true_iff]
      exact String.le_total a.name b.name
  have hne : (changesTo old new).Pairwise (fun a b => a.name ≠ b.name) :=
    List.pairwise_map.mp (nodup_changesTo old new)
  refine (hle.and hne).imp fun {a b} h => ?_
  exact Entries.lt_of_not_lt_of_ne (String.not_lt.mpr (of_decide_eq_true h.1)) (Ne.symm h.2)

theorem nodup_of_ascending {cs : List Change} (h : cs.Pairwise (fun a b => a.name < b.name)) :
    cs.Nodup := by
  refine List.Pairwise.imp ?_ h
  intro a b hlt heq
  exact String.lt_irrefl _ (heq ▸ hlt)

/-- Lists of changes that ascend are determined by what is in them. -/
theorem eq_of_ascending {cs ds : List Change} (hc : cs.Pairwise (fun a b => a.name < b.name))
    (hd : ds.Pairwise (fun a b => a.name < b.name)) (h : ∀ c, c ∈ cs ↔ c ∈ ds) : cs = ds := by
  refine List.Perm.eq_of_pairwise (fun a b _ _ hab hba => ?_) hc hd
    ((List.perm_ext_iff_of_nodup (nodup_of_ascending hc) (nodup_of_ascending hd)).mpr h)
  exact absurd (String.lt_trans hab hba) (String.lt_irrefl _)

/-! ## where two sets disagree -/

/-- Only one of two sets has the name, or they hold unequal values under it. -/
def Disagree (old new : FlagSet) (name : String) : Prop :=
  (name ∈ old.names ∧ name ∉ new.names) ∨ (name ∉ old.names ∧ name ∈ new.names) ∨
    ∃ v w, (name, v) ∈ old.entries ∧ (name, w) ∈ new.entries ∧ (v == w) = false

theorem mem_names_iff (f : FlagSet) (name : String) : name ∈ f.names ↔ f.find? name ≠ none :=
  (not_iff_not.mp (not_not.trans Entries.find?_eq_none_iff)).symm

theorem disagree_iff (old new : FlagSet) (name : String) :
    Disagree old new name ↔ unchanged (old.find? name) (new.find? name) = false := by
  simp only [Disagree, mem_names_iff, Table.mem_entries_iff]
  cases old.find? name with
  | none =>
    cases new.find? name with
    | none => simp [unchanged]
    | some w => simp [unchanged]
  | some v =>
    cases new.find? name with
    | none => simp [unchanged]
    | some w => simp [unchanged]

/-- **There is a change for a name exactly when the sets disagree on it.** -/
theorem changed_iff_disagree (old new : FlagSet) (name : String) :
    (∃ c ∈ changesTo old new, c.name = name) ↔ Disagree old new name := by
  rw [disagree_iff]
  constructor
  · rintro ⟨c, hc, rfl⟩
    obtain ⟨hp, hn, hu⟩ := mem_changesTo_iff.mp hc
    rwa [hp, hn] at hu
  · intro hu
    exact ⟨⟨name, old.find? name, new.find? name⟩, mem_changesTo_iff.mpr ⟨rfl, rfl, hu⟩, rfl⟩

/-! ## from the other side -/

theorem unchanged_comm (a b : Option Json) : unchanged a b = unchanged b a := by
  cases a with
  | none => cases b <;> rfl
  | some v =>
    cases b with
    | none => rfl
    | some w => exact Bool.eq_iff_iff.mpr ⟨Json.same_symm, Json.same_symm⟩

theorem mem_changesTo_swap {old new : FlagSet} {c : Change} :
    c ∈ changesTo new old ↔ c.reversed ∈ changesTo old new := by
  rw [mem_changesTo_iff, mem_changesTo_iff, ← and_assoc, ← and_assoc,
    and_comm (a := c.previous = _), unchanged_comm]
  rfl

/-- **Seen from the other set, every change is reversed, in its place.** -/
theorem changesTo_reversed (old new : FlagSet) :
    changesTo new old = (changesTo old new).map Change.reversed := by
  refine eq_of_ascending (ascending_changesTo new old)
    (List.pairwise_map.mpr (ascending_changesTo old new)) fun c => ?_
  rw [mem_changesTo_swap, ← Change.reversed_reversed c,
    List.mem_map_of_injective Change.reversed_injective, Change.reversed_reversed]

/-! ## the whole -/

/-- **The changes from one flag set to another are exactly their differences.**  They ascend
strictly by name; a name occurs exactly when the sets disagree on it; a change carries what both
sets hold, and nothing where there is no entry (a null is an entry); they lead from the one set to
the other; and from the other side they are the same, reversed. -/
theorem changesTo_exact (old new : FlagSet) :
    (old.changesTo new).Pairwise (fun a b => a.name < b.name) ∧
    (∀ name, (∃ c ∈ old.changesTo new, c.name = name) ↔ Disagree old new name) ∧
    (∀ c ∈ old.changesTo new,
      (∀ v, c.previous = some v ↔ (c.name, v) ∈ old.entries) ∧
      (∀ v, c.current = some v ↔ (c.name, v) ∈ new.entries)) ∧
    (old.applyAll (old.changesTo new)).same new = true ∧
    new.changesTo old = (old.changesTo new).map Change.reversed := by
  refine ⟨ascending_changesTo old new, changed_iff_disagree old new, fun c hc => ?_,
    same_applyAll_changesTo old new, changesTo_reversed old new⟩
  obtain ⟨hp, hn, -⟩ := mem_changesTo_iff.mp hc
  refine ⟨fun v => ?_, fun v => ?_⟩
  · rw [hp, Table.mem_entries_iff]
  · rw [hn, Table.mem_entries_iff]

end FlagSet

end FeatureFlags
