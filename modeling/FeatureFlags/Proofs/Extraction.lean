import FeatureFlags.Proofs.Equality
import FeatureFlags.Proofs.Json.Values

/-!
# Flags with a meaning

What flags say about messages and features is read off one flag at a time: a flag contributes at
most one entry to at most one of the two maps, under what follows the mark in its name, and nothing
else contributes to that entry.

* `FlagSet.overwrites`        the map of a mark and a reading of values; `FlagSet.messages` and
                              `FlagSet.features` are two of them;
* `FlagSet.entries_overwrites`   its entries are what the flags contribute, none left out;
* `FlagSet.find?_overwrites`  an entry is read off the flag with the mark before its name;
* `FlagSet.overwrites_congr`  flags that contribute nothing do not count;
* `FlagSet.extraction_exact`  what this means for messages and features.
-/

namespace FeatureFlags

variable {α : Type}

namespace FlagSet

/-- what the flags with a mark say, as far as it can be read -/
def overwrites (mark : String) (read : Json → Option α) (flags : FlagSet) : Table α :=
  .ofList (flags.entries.filterMap (overwrite? mark read))

theorem messages_eq (flags : FlagSet) :
    flags.messages = flags.overwrites messageMark message? := rfl

theorem features_eq (flags : FlagSet) : flags.features = flags.overwrites featureMark toggle? := rfl

/-! ## one map -/

section

variable {mark : String} {read : Json → Option α}

theorem overwrite?_eq_some_iff {e : Entry Json} {x : Entry α} :
    overwrite? mark read e = some x ↔ e.1 = mark ++ x.1 ∧ read e.2 = some x.2 := by
  obtain ⟨id, a⟩ := x
  simp only [overwrite?, Option.bind_eq_some_iff, Option.map_eq_some_iff, Text.after?_eq_some_iff,
    Prod.mk.injEq]
  constructor
  · rintro ⟨id, hname, a, ha, rfl, rfl⟩
    exact ⟨hname, ha⟩
  · rintro ⟨hname, ha⟩
    exact ⟨id, hname, a, ha, rfl, rfl⟩

/-- Without their common mark names keep their order. -/
theorem sorted_overwrites (flags : FlagSet) :
    Entries.Sorted (flags.entries.filterMap (overwrite? mark read)) := by
  rw [Entries.Sorted, List.pairwise_filterMap]
  refine flags.sorted.imp fun hlt x hx y hy => ?_
  rw [(overwrite?_eq_some_iff.mp hx).1, (overwrite?_eq_some_iff.mp hy).1] at hlt
  exact Text.lt_of_append_lt hlt

/-- **The entries are what the flags contribute**, one for each, in the order of the flags: nothing
takes the place of anything. -/
theorem entries_overwrites (flags : FlagSet) :
    (flags.overwrites mark read).entries = flags.entries.filterMap (overwrite? mark read) :=
  Entries.collect_of_sorted (sorted_overwrites flags)

/-- **An entry is read off the flag with the mark before its name.** -/
theorem find?_overwrites (flags : FlagSet) (id : String) :
    (flags.overwrites mark read).find? id = (flags.find? (mark ++ id)).bind read := by
  refine Option.ext fun a => ?_
  rw [← Table.mem_entries_iff, entries_overwrites, List.mem_filterMap, Option.bind_eq_some_iff]
  constructor
  · rintro ⟨⟨name, value⟩, he, hx⟩
    obtain ⟨rfl, hread⟩ := overwrite?_eq_some_iff.mp hx
    exact ⟨value, (flags.mem_entries_iff _ _).mp he, hread⟩
  · rintro ⟨value, hfind, hread⟩
    exact ⟨(mark ++ id, value), (flags.mem_entries_iff _ _).mpr hfind,
      overwrite?_eq_some_iff.mpr ⟨rfl, hread⟩⟩

/-- Two flag sets have equal values under the names of all flags that contribute to either. -/
def AgreeOn (mark : String) (read : Json → Option α) (f g : FlagSet) : Prop :=
  ∀ e, e ∈ f.entries ∨ e ∈ g.entries → (overwrite? mark read e).isSome = true →
    unchanged (f.find? e.1) (g.find? e.1) = true

theorem AgreeOn.unchanged_of_read {f g : FlagSet} (h : AgreeOn mark read f g) {id : String}
    {value : Json} {a : α}
    (hv : f.find? (mark ++ id) = some value ∨ g.find? (mark ++ id) = some value)
    (ha : read value = some a) :
    unchanged (f.find? (mark ++ id)) (g.find? (mark ++ id)) = true := by
  refine h (mark ++ id, value) ?_ (Option.isSome_iff_exists.mpr ⟨(id, a), ?_⟩)
  · exact hv.imp (f.mem_entries_iff _ _).mpr (g.mem_entries_iff _ _).mpr
  · exact overwrite?_eq_some_iff.mpr ⟨rfl, ha⟩

/-- **Flags that contribute nothing do not count**, nor does which of two equal values a flag
has. -/
theorem overwrites_congr (hread : ∀ {v w : Json}, (v == w) = true → read v = read w)
    {f g : FlagSet} (h : AgreeOn mark read f g) :
    f.overwrites mark read = g.overwrites mark read := by
  refine Table.ext_find? fun id => Option.ext fun a => ?_
  rw [find?_overwrites, find?_overwrites, Option.bind_eq_some_iff, Option.bind_eq_some_iff]
  constructor
  · rintro ⟨v, hv, ha⟩
    have hu := h.unchanged_of_read (.inl hv) ha
    rw [hv] at hu
    obtain ⟨w, hw, hsame⟩ := some_unchanged_iff.mp hu
    exact ⟨w, hw, (hread hsame).symm.trans ha⟩
  · rintro ⟨w, hw, ha⟩
    have hu := h.unchanged_of_read (.inr hw) ha
    rw [hw] at hu
    obtain ⟨v, hv, hsame⟩ := unchanged_some_iff.mp hu
    exact ⟨v, hv, (hread hsame).trans ha⟩

end

/-! ## what is read -/

theorem message?_eq_some_iff {value : Json} {m : String} :
    message? value = some m ↔ value = .str m ∧ m ≠ "" := by
  rw [message?, Option.filter_eq_some_iff]
  constructor
  · rintro ⟨hs, hm⟩
    cases value with
    | str s =>
      cases hs
      exact ⟨rfl, by simpa using hm⟩
    | _ => cases hs
  · rintro ⟨rfl, hm⟩
    exact ⟨rfl, by simpa using hm⟩

theorem toggle?_eq_some_iff {value : Json} {b : Bool} :
    toggle? value = some b ↔
      ∃ members, value = .obj members ∧ Entries.find? "enabled" members = some (.bool b) := by
  rw [toggle?, Option.bind_eq_some_iff]
  constructor
  · rintro ⟨enabled, hm, hb⟩
    cases value with
    | obj members =>
      cases enabled with
      | bool c =>
        cases hb
        exact ⟨members, rfl, hm⟩
      | _ => cases hb
    | _ => cases hm
  · rintro ⟨members, rfl, hm⟩
    exact ⟨.bool b, hm, rfl⟩

/-- A reading that equal values keep is the same for them. -/
theorem read_of_same {read : Json → Option α}
    (hkeep : ∀ {v w : Json} {a : α}, (v == w) = true → read v = some a → read w = some a)
    {v w : Json} (h : (v == w) = true) : read v = read w :=
  Option.ext fun _ => ⟨hkeep h, hkeep (Json.same_symm h)⟩

theorem message?_of_same {v w : Json} (h : (v == w) = true) : message? v = message? w := by
  refine read_of_same (fun hsame hm => ?_) h
  obtain ⟨rfl, hne⟩ := message?_eq_some_iff.mp hm
  exact message?_eq_some_iff.mpr ⟨Json.eq_str_of_same hsame, hne⟩

theorem toggle?_of_same {v w : Json} (h : (v == w) = true) : toggle? v = toggle? w := by
  refine read_of_same (fun hsame hb => ?_) h
  obtain ⟨ms, rfl, hms⟩ := toggle?_eq_some_iff.mp hb
  obtain ⟨ns, rfl, hmembers⟩ := Json.exists_obj_of_same hsame
  have hu := unchanged_of_sameMembers hmembers "enabled"
  rw [hms] at hu
  obtain ⟨a, ha, hab⟩ := some_unchanged_iff.mp hu
  rw [Json.eq_bool_of_same hab] at ha
  exact toggle?_eq_some_iff.mpr ⟨ns, rfl, ha⟩

/-! ## both maps -/

theorem messageMark_ne_featureMark (s t : String) : messageMark ++ s ≠ featureMark ++ t := by
  intro h
  have hhead := congrArg (fun name => name.toList.head?) h
  simp [messageMark, featureMark] at hhead

/-- **What is read off flags is exact.**  A message has the text `m` if and only if the flag with
its name after `i18n_` is the text `m` and that is not empty; a feature is forced to `b` if and only
if the flag with its name after `featureService.` is an object whose member `enabled` is `b`.  Every
flag that contributes has an entry of its own, no flag contributes to both maps, and flag sets that
agree on the flags that contribute to a map have the same map. -/
theorem extraction_exact (f : FlagSet) :
    (∀ id m, f.messages.find? id = some m ↔ f.find? ("i18n_" ++ id) = some (.str m) ∧ m ≠ "") ∧
    (∀ feature b, f.features.find? feature = some b ↔
      ∃ members, f.find? ("featureService." ++ feature) = some (.obj members) ∧
        Entries.find? "enabled" members = some (.bool b)) ∧
    f.messages.entries = f.entries.filterMap (overwrite? messageMark message?) ∧
    f.features.entries = f.entries.filterMap (overwrite? featureMark toggle?) ∧
    (∀ e, overwrite? messageMark message? e = none ∨ overwrite? featureMark toggle? e = none) ∧
    ∀ g : FlagSet, (AgreeOn messageMark message? f g → f.messages = g.messages) ∧
      (AgreeOn featureMark toggle? f g → f.features = g.features) := by
  refine ⟨fun id m => ?_, fun feature b => ?_, f.entries_overwrites, f.entries_overwrites,
    fun e => ?_, fun g => ⟨overwrites_congr message?_of_same, overwrites_congr toggle?_of_same⟩⟩
  · rw [messages_eq, find?_overwrites, Option.bind_eq_some_iff]
    simp only [message?_eq_some_iff]
    constructor
    · rintro ⟨value, hfind, rfl, hm⟩
      exact ⟨hfind, hm⟩
    · rintro ⟨hfind, hm⟩
      exact ⟨.str m, hfind, rfl, hm⟩
  · rw [features_eq, find?_overwrites, Option.bind_eq_some_iff]
    simp only [toggle?_eq_some_iff]
    constructor
    · rintro ⟨value, hfind, members, rfl, hb⟩
      exact ⟨members, hfind, hb⟩
    · rintro ⟨members, hfind, hb⟩
      exact ⟨.obj members, hfind, members, rfl, hb⟩
  · cases hm : overwrite? messageMark message? e with
    | none => exact .inl rfl
    | some x =>
      refine .inr (Option.eq_none_iff_forall_ne_some.mpr fun y hy => ?_)
      have hname := (overwrite?_eq_some_iff.mp hm).1.symm.trans (overwrite?_eq_some_iff.mp hy).1
      exact messageMark_ne_featureMark x.1 y.1 hname

/-- a title and a feature, beside flags that contribute nothing -/
def titled : FlagSet := .ofList [("i18n_title", .str "Hello"), ("i18n_empty", .str ""),
  ("featureService.search", .obj [("enabled", .bool true), ("rate", .num (.double (.zero true)))]),
  ("featureService.export", .obj []), ("title", .str "Bye")]

/-- the same, beside others, and with the other zero -/
def retitled : FlagSet := .ofList [("i18n_title", .str "Hello"), ("i18n_count", .integer 42),
  ("featureService.search", .obj [("enabled", .bool true), ("rate", .num (.double (.zero false)))]),
  ("search", .obj [("enabled", .bool false)])]

theorem extraction_of_titled :
    AgreeOn messageMark message? titled retitled ∧ AgreeOn featureMark toggle? titled retitled ∧
      retitled.messages = titled.messages ∧ retitled.features = titled.features ∧
      retitled.messages.find? "title" = some "Hello" ∧
      retitled.features.find? "search" = some true ∧ retitled.messages.find? "count" = none := by
  obtain ⟨hmessage, hfeature, -, -, -, hagree⟩ := extraction_exact titled
  have hboth : ∀ e ∈ titled.entries ++ retitled.entries,
      ((overwrite? messageMark message? e).isSome = true →
        unchanged (titled.find? e.1) (retitled.find? e.1) = true) ∧
      ((overwrite? featureMark toggle? e).isSome = true →
        unchanged (titled.find? e.1) (retitled.find? e.1) = true) := by decide +kernel
  have hmessages : AgreeOn messageMark message? titled retitled :=
    fun e he => (hboth e (List.mem_append.mpr he)).1
  have hfeatures : AgreeOn featureMark toggle? titled retitled :=
    fun e he => (hboth e (List.mem_append.mpr he)).2
  have hm := ((hagree retitled).1 hmessages).symm
  have hf := ((hagree retitled).2 hfeatures).symm
  refine ⟨hmessages, hfeatures, hm, hf, ?_, ?_, ?_⟩
  · rw [hm]
    exact (hmessage "title" "Hello").mpr ⟨rfl, by decide⟩
  · rw [hf]
    exact (hfeature "search" true).mpr ⟨_, rfl, rfl⟩
  · rw [hm]
    decide +kernel

end FlagSet

end FeatureFlags
