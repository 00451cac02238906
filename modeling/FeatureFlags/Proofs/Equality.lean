import FeatureFlags.FlagSet

/-!
# Equality of values and of flag sets

Values are compared as JSON, where the two zeros are one number, so equal values need not be
identical.  Equality is an equivalence all the same, on values and on flag sets.

* `Json.same_refl`, `Json.same_symm`, `Json.same_trans`   values;
* `FlagSet.same_iff_unchanged`   two flag sets are equal when they hold equal values under every
                                 name;
* `FlagSet.changesTo_eq_nil_iff`   there are no changes exactly between equal flag sets.
-/

namespace FeatureFlags

theorem Number.same_symm {a b : Number} (h : same a b = true) : same b a = true := by
  cases a with
  | integer m =>
    cases b with
    | integer n => exact beq_iff_eq.mpr (beq_iff_eq.mp h).symm
    | double y => cases h
  | double x =>
    cases b with
    | integer n => cases h
    | double y => exact Binary64.same_symm h

theorem Number.same_trans {a b c : Number} (h : same a b = true) (h' : same b c = true) :
    same a c = true := by
  cases a with
  | integer m =>
    cases b with
    | integer n => rwa [beq_iff_eq.mp (show (m == n) = true from h)]
    | double y => cases h
  | double x =>
    cases b with
    | integer n => cases h
    | double y =>
      cases c with
      | integer k => cases h'
      | double z => exact Binary64.same_trans h h'

namespace Json

/-! ## values -/

mutual

theorem same_refl : ∀ a : Json, same a a = true
  | .null => rfl
  | .bool b => beq_self_eq_true b
  | .num n => Number.same_refl n
  | .str s => beq_self_eq_true s
  | .arr items => sameItems_refl items
  | .obj members => sameMembers_refl members

theorem sameItems_refl : ∀ as : List Json, sameItems as as = true
  | [] => rfl
  | a :: as => by
    rw [sameItems, same_refl a, sameItems_refl as]
    rfl

theorem sameMembers_refl : ∀ ms : List (Entry Json), sameMembers ms ms = true
  | [] => rfl
  | (m, a) :: ms => by
    rw [sameMembers, same_refl a, sameMembers_refl ms, beq_self_eq_true m]
    rfl

end

theorem sameItems_cons_iff {a b : Json} {as bs : List Json} :
    sameItems (a :: as) (b :: bs) = true ↔ same a b = true ∧ sameItems as bs = true := by
  rw [sameItems, Bool.and_eq_true]

theorem sameMembers_cons_iff {m n : String} {a b : Json} {ms ns : List (Entry Json)} :
    sameMembers ((m, a) :: ms) ((n, b) :: ns) = true ↔
      m = n ∧ same a b = true ∧ sameMembers ms ns = true := by
  rw [sameMembers, Bool.and_eq_true, Bool.and_eq_true, beq_iff_eq, and_assoc]

mutual

theorem same_symm : ∀ {a b : Json}, same a b = true → same b a = true
  | .null, .null, _ => rfl
  | .bool _, .bool _, h => beq_iff_eq.mpr (beq_iff_eq.mp h).symm
  | .num _, .num _, h => Number.same_symm h
  | .str _, .str _, h => beq_iff_eq.mpr (beq_iff_eq.mp h).symm
  | .arr _, .arr _, h => sameItems_symm h
  | .obj _, .obj _, h => sameMembers_symm h

theorem sameItems_symm : ∀ {as bs : List Json}, sameItems as bs = true → sameItems bs as = true
  | [], [], _ => rfl
  | _ :: _, _ :: _, h =>
    have h := sameItems_cons_iff.mp h
    sameItems_cons_iff.mpr ⟨same_symm h.1, sameItems_symm h.2⟩

theorem sameMembers_symm :
    ∀ {ms ns : List (Entry Json)}, sameMembers ms ns = true → sameMembers ns ms = true
  | [], [], _ => rfl
  | (_, _) :: _, (_, _) :: _, h =>
    have h := sameMembers_cons_iff.mp h
    sameMembers_cons_iff.mpr ⟨h.1.symm, same_symm h.2.1, sameMembers_symm h.2.2⟩

end

mutual

theorem same_trans : ∀ {a b c : Json}, same a b = true → same b c = true → same a c = true
  | .null, .null, .null, _, _ => rfl
  | .bool _, .bool _, .bool _, h, h' =>
    beq_iff_eq.mpr ((beq_iff_eq.mp h).trans (beq_iff_eq.mp h'))
  | .num _, .num _, .num _, h, h' => Number.same_trans h h'
  | .str _, .str _, .str _, h, h' =>
    beq_iff_eq.mpr ((beq_iff_eq.mp h).trans (beq_iff_eq.mp h'))
  | .arr _, .arr _, .arr _, h, h' => sameItems_trans h h'
  | .obj _, .obj _, .obj _, h, h' => sameMembers_trans h h'

theorem sameItems_trans : ∀ {as bs cs : List Json},
    sameItems as bs = true → sameItems bs cs = true → sameItems as cs = true
  | [], [], [], _, _ => rfl
  | _ :: _, _ :: _, _ :: _, h, h' =>
    have h := sameItems_cons_iff.mp h
    have h' := sameItems_cons_iff.mp h'
    sameItems_cons_iff.mpr ⟨same_trans h.1 h'.1, sameItems_trans h.2 h'.2⟩

theorem sameMembers_trans : ∀ {ls ms ns : List (Entry Json)},
    sameMembers ls ms = true → sameMembers ms ns = true → sameMembers ls ns = true
  | [], [], [], _, _ => rfl
  | (_, _) :: _, (_, _) :: _, (_, _) :: _, h, h' =>
    have h := sameMembers_cons_iff.mp h
    have h' := sameMembers_cons_iff.mp h'
    sameMembers_cons_iff.mpr
      ⟨h.1.trans h'.1, same_trans h.2.1 h'.2.1, sameMembers_trans h.2.2 h'.2.2⟩

end

/-- Members that are equal one by one have the same names. -/
theorem sameMembers_names {ms ns : List (Entry Json)} (h : sameMembers ms ns = true) :
    ms.map Prod.fst = ns.map Prod.fst := by
  induction ms generalizing ns with
  | nil =>
    cases ns with
    | nil => rfl
    | cons n ns => cases h
  | cons m ms ih =>
    cases ns with
    | nil => cases h
    | cons n ns =>
      have h := sameMembers_cons_iff.mp h
      rw [List.map_cons, List.map_cons, h.1, ih h.2.2]

/-- What is equal to a truth value, a text or an object is one too. -/
theorem eq_bool_of_same {b : Bool} {a : Json} (h : same (.bool b) a = true) : a = .bool b := by
  cases a with
  | bool c => rw [beq_iff_eq.mp (show (b == c) = true from h)]
  | _ => exact absurd h (by simp [same])

theorem eq_str_of_same {s : String} {a : Json} (h : same (.str s) a = true) : a = .str s := by
  cases a with
  | str t => rw [beq_iff_eq.mp (show (s == t) = true from h)]
  | _ => exact absurd h (by simp [same])

theorem exists_obj_of_same {ms : List (Entry Json)} {a : Json} (h : same (.obj ms) a = true) :
    ∃ ns, a = .obj ns ∧ sameMembers ms ns = true := by
  cases a with
  | obj ns => exact ⟨ns, rfl, h⟩
  | _ => exact absurd h (by simp [same])

end Json

namespace FlagSet

/-! ## what is held under a name -/

theorem unchanged_none_iff {a : Option Json} : unchanged a none = true ↔ a = none := by
  cases a with
  | none => exact ⟨fun _ => rfl, fun _ => rfl⟩
  | some a => exact ⟨nofun, nofun⟩

theorem unchanged_some_iff {a : Option Json} {b : Json} :
    unchanged a (some b) = true ↔ ∃ v, a = some v ∧ (v == b) = true := by
  cases a with
  | none => exact ⟨nofun, nofun⟩
  | some a =>
    constructor
    · intro h
      exact ⟨a, rfl, h⟩
    · rintro ⟨v, h, hv⟩
      cases h
      exact hv

theorem some_unchanged_iff {a : Json} {b : Option Json} :
    unchanged (some a) b = true ↔ ∃ w, b = some w ∧ (a == w) = true := by
  cases b with
  | none => exact ⟨nofun, nofun⟩
  | some b =>
    constructor
    · intro h
      exact ⟨b, rfl, h⟩
    · rintro ⟨w, h, hw⟩
      cases h
      exact hw

/-! ## flag sets -/

theorem unchanged_of_sameMembers {es fs : List (Entry Json)}
    (h : Json.sameMembers es fs = true) (name : String) :
    unchanged (Entries.find? name es) (Entries.find? name fs) = true := by
  induction es generalizing fs with
  | nil =>
    cases fs with
    | nil => rfl
    | cons f fs => cases h
  | cons e es ih =>
    cases fs with
    | nil => cases h
    | cons f fs =>
      have h := Json.sameMembers_cons_iff.mp h
      rw [Entries.find?_cons, Entries.find?_cons, h.1]
      split
      · exact h.2.1
      · exact ih h.2.2

/-- Sorted entries that hold equal values under every name are equal one by one. -/
theorem sameMembers_of_unchanged {es fs : List (Entry Json)} (he : Entries.Sorted es)
    (hf : Entries.Sorted fs)
    (h : ∀ name, unchanged (Entries.find? name es) (Entries.find? name fs) = true) :
    Json.sameMembers es fs = true := by
  induction es generalizing fs with
  | nil =>
    cases fs with
    | nil => rfl
    | cons f fs =>
      have := h f.1
      rw [Entries.find?_cons, if_pos rfl] at this
      cases this
  | cons e es ih =>
    cases fs with
    | nil =>
      have := unchanged_none_iff.mp (h e.1)
      rw [Entries.find?_cons, if_pos rfl] at this
      cases this
    | cons f fs =>
      have he' := List.pairwise_cons.mp he
      have hf' := List.pairwise_cons.mp hf
      -- the least names are the same: each of them is found on the other side
      have hname : e.1 = f.1 := by
        have h1 : Entries.find? e.1 (f :: fs) ≠ none := fun hn => by
          have := unchanged_none_iff.mp (hn ▸ h e.1)
          rw [Entries.find?_cons, if_pos rfl] at this
          cases this
        have h2 : Entries.find? f.1 (e :: es) ≠ none := fun hn => by
          have := h f.1
          rw [hn, Entries.find?_cons, if_pos rfl] at this
          cases this
        obtain ⟨v, hv⟩ := Option.ne_none_iff_exists'.mp h1
        obtain ⟨w, hw⟩ := Option.ne_none_iff_exists'.mp h2
        rcases List.mem_cons.mp (Entries.mem_of_find? hv) with h1 | h1
        · rw [← h1]
        · rcases List.mem_cons.mp (Entries.mem_of_find? hw) with h2 | h2
          · rw [← h2]
          · exact absurd (String.lt_trans (hf'.1 _ h1) (he'.1 _ h2)) (String.lt_irrefl _)
      have hvalue := h e.1
      rw [Entries.find?_cons, if_pos rfl, Entries.find?_cons, if_pos hname.symm] at hvalue
      refine Json.sameMembers_cons_iff.mpr ⟨hname, hvalue, ih he'.2 hf'.2 fun name => ?_⟩
      by_cases hn : e.1 = name
      · subst hn
        rw [Entries.find?_eq_none_of_lt he'.1, hname, Entries.find?_eq_none_of_lt hf'.1]
        rfl
      · have := h name
        rwa [Entries.find?_cons, if_neg hn, Entries.find?_cons, if_neg (hname ▸ hn)] at this

/-- **Flag sets are equal when they hold equal values under every name.** -/
theorem same_iff_unchanged (f g : FlagSet) :
    f.same g = true ↔ ∀ name, unchanged (f.find? name) (g.find? name) = true :=
  ⟨fun h => unchanged_of_sameMembers h, sameMembers_of_unchanged f.sorted g.sorted⟩

theorem same_refl (f : FlagSet) : f.same f = true := Json.sameMembers_refl f.entries

theorem same_trans {f g k : FlagSet} (h : f.same g = true) (h' : g.same k = true) :
    f.same k = true := Json.sameMembers_trans h h'

theorem names_eq_of_same {f g : FlagSet} (h : f.same g = true) : f.names = g.names :=
  Json.sameMembers_names h

/-! ## no changes -/

theorem updates_eq_nil_iff (old new : FlagSet) :
    updates old new = [] ↔
      ∀ e ∈ new.entries, unchanged (old.find? e.1) (some e.2) = true := by
  rw [updates, List.map_eq_nil_iff, List.filter_eq_nil_iff]
  refine forall₂_congr fun e _ => ?_
  rw [Bool.not_eq_true', Bool.not_eq_false]

theorem removals_eq_nil_iff (old new : FlagSet) :
    removals old new = [] ↔ ∀ e ∈ old.entries, new.contains e.1 = true := by
  rw [removals, List.map_eq_nil_iff, List.filter_eq_nil_iff]
  refine forall₂_congr fun e _ => ?_
  rw [Bool.not_eq_true', Bool.not_eq_false]

theorem changesTo_eq_nil (old new : FlagSet) :
    changesTo old new = [] ↔ updates old new = [] ∧ removals old new = [] := by
  rw [changesTo, ← List.append_eq_nil_iff]
  exact ⟨fun h => (h ▸ List.mergeSort_perm _ _).nil_eq.symm,
    fun h => by rw [h, List.mergeSort_nil]⟩

/-- **There are no changes exactly between equal flag sets.** -/
theorem changesTo_eq_nil_iff (old new : FlagSet) :
    changesTo old new = [] ↔ old.same new = true := by
  rw [changesTo_eq_nil, updates_eq_nil_iff, removals_eq_nil_iff, same_iff_unchanged]
  constructor
  · intro ⟨hu, hr⟩ name
    cases hn : new.find? name with
    | some v => exact hu (name, v) ((Table.mem_entries_iff new name v).mpr hn)
    | none =>
      rw [unchanged_none_iff]
      cases ho : old.find? name with
      | none => rfl
      | some w =>
        have := hr (name, w) ((Table.mem_entries_iff old name w).mpr ho)
        rw [Table.contains, hn] at this
        cases this
  · intro h
    refine ⟨fun e he => ?_, fun e he => ?_⟩
    · exact (Table.mem_entries_iff new e.1 e.2).mp he ▸ h e.1
    · have ho := (Table.mem_entries_iff old e.1 e.2).mp he
      rw [Table.contains, Option.isSome_iff_ne_none]
      intro hn
      have := unchanged_none_iff.mp (hn ▸ h e.1)
      rw [ho] at this
      cases this

end FlagSet

end FeatureFlags
