import FeatureFlags.Connection.Feed
import FeatureFlags.Proofs.Equality
import Mathlib.Data.List.Nodup

/-!
# Differences and those who are told them

What the changes between two flag sets say, and what a listener on any change can make of the
batches that it gets.

* `FlagSet.mem_changesTo_iff`   a change says what both sets hold under a name;
* `FlagSet.find?_applyAll_of_mem`   what is found after changes with different names;
* `FlagSet.same_applyAll_changesTo`   the changes lead from one set to the other;
* `FlagSet.Follows`             batches of changes that lead from one flag set to another;
* `ListenerSet.Tagged`, `ListenerSet.Sole`   listeners that are told apart by their roles;
* `Call.batches`                what calls hand to the listeners of a role;
* `ListenerSet.Sole.batches_calls`   a listener on any change gets all changes at once, if there are
                                any.
-/

namespace FeatureFlags

namespace FlagSet

/-! ## names of changes -/

theorem names_updates (old new : FlagSet) :
    (updates old new).map Change.name =
      (new.entries.filter (fun e => !unchanged (old.find? e.1) (some e.2))).map Prod.fst := by
  rw [updates, List.map_map]
  rfl

theorem names_removals (old new : FlagSet) :
    (removals old new).map Change.name =
      (old.entries.filter (fun e => !new.contains e.1)).map Prod.fst := by
  rw [removals, List.map_map]
  rfl

theorem mem_updates_iff {old new : FlagSet} {c : Change} :
    c ∈ updates old new ↔
      c.previous = old.find? c.name ∧ c.current = new.find? c.name ∧ c.current ≠ none ∧
        unchanged c.previous c.current = false := by
  rw [updates, List.mem_map]
  constructor
  · rintro ⟨e, he, rfl⟩
    obtain ⟨he, hu⟩ := List.mem_filter.mp he
    have hf := (Table.mem_entries_iff new e.1 e.2).mp he
    exact ⟨rfl, hf.symm, Option.some_ne_none e.2, by simpa using hu⟩
  · rintro ⟨hp, hc, hn, hu⟩
    obtain ⟨v, hv⟩ := Option.ne_none_iff_exists'.mp hn
    refine ⟨(c.name, v), List.mem_filter.mpr ⟨?_, ?_⟩, ?_⟩
    · exact (Table.mem_entries_iff new c.name v).mpr (hc ▸ hv)
    · rw [← hp, ← hv, hu]
      rfl
    · rw [← hp, ← hv]

theorem mem_removals_iff {old new : FlagSet} {c : Change} :
    c ∈ removals old new ↔
      c.previous = old.find? c.name ∧ c.current = new.find? c.name ∧ c.current = none ∧
        unchanged c.previous c.current = false := by
  rw [removals, List.mem_map]
  constructor
  · rintro ⟨e, he, rfl⟩
    obtain ⟨he, hn⟩ := List.mem_filter.mp he
    have hf := (Table.mem_entries_iff old e.1 e.2).mp he
    have hn : new.find? e.1 = none := by simpa [Table.contains] using hn
    exact ⟨hf.symm, hn.symm, rfl, rfl⟩
  · rintro ⟨hp, hc, hn, hu⟩
    have hp' : c.previous ≠ none := fun h => by
      rw [h, hn] at hu
      cases hu
    obtain ⟨v, hv⟩ := Option.ne_none_iff_exists'.mp hp'
    refine ⟨(c.name, v), List.mem_filter.mpr ⟨?_, ?_⟩, ?_⟩
    · exact (Table.mem_entries_iff old c.name v).mpr (hp ▸ hv)
    · rw [Table.contains, ← hc, hn]
      rfl
    · rw [← hv, ← hn]

/-- **A change says what both sets hold under its name, where this is not equal.** -/
theorem mem_changesTo_iff {old new : FlagSet} {c : Change} :
    c ∈ changesTo old new ↔
      c.previous = old.find? c.name ∧ c.current = new.find? c.name ∧
        unchanged c.previous c.current = false := by
  rw [changesTo, (List.mergeSort_perm _ _).mem_iff, List.mem_append, mem_updates_iff,
    mem_removals_iff]
  constructor
  · rintro (⟨hp, hc, -, hu⟩ | ⟨hp, hc, -, hu⟩)
    · exact ⟨hp, hc, hu⟩
    · exact ⟨hp, hc, hu⟩
  · rintro ⟨hp, hc, hu⟩
    by_cases hn : c.current = none
    · exact .inr ⟨hp, hc, hn, hu⟩
    · exact .inl ⟨hp, hc, hn, hu⟩

/-- No name occurs in two changes. -/
theorem nodup_changesTo (old new : FlagSet) : ((changesTo old new).map Change.name).Nodup := by
  rw [changesTo, ((List.mergeSort_perm _ _).map Change.name).nodup_iff, List.map_append,
    names_updates, names_removals, List.nodup_append]
  refine ⟨new.sorted.nodup_names.sublist (List.filter_sublist.map _),
    old.sorted.nodup_names.sublist (List.filter_sublist.map _), ?_⟩
  rintro _ ha _ hb rfl
  obtain ⟨e, he, hname⟩ := List.mem_map.mp ha
  obtain ⟨d, hd, hname'⟩ := List.mem_map.mp hb
  -- a name with an update is one that the new set has, a name with a removal one that it lacks
  have he := (Table.mem_entries_iff new e.1 e.2).mp (List.mem_filter.mp he).1
  have hd := (List.mem_filter.mp hd).2
  rw [hname', ← hname, Table.contains, he] at hd
  cases hd

/-! ## changes applied -/

theorem applyAll_cons (f : FlagSet) (c : Change) (cs : List Change) :
    f.applyAll (c :: cs) = (f.apply c).applyAll cs := rfl
theorem applyAll_append (f : FlagSet) (cs ds : List Change) :
    f.applyAll (cs ++ ds) = (f.applyAll cs).applyAll ds := List.foldl_append

theorem find?_apply (f : FlagSet) (c : Change) (name : String) :
    (f.apply c).find? name = if c.name = name then c.current else f.find? name := by
  rw [apply]
  split
  next v hv => rw [Table.find?_insert, hv]
  next hn => rw [Table.find?_erase, hn]

theorem find?_applyAll_of_not_mem {cs : List Change} {name : String}
    (h : ∀ c ∈ cs, c.name ≠ name) (f : FlagSet) : (f.applyAll cs).find? name = f.find? name := by
  induction cs generalizing f with
  | nil => rfl
  | cons c cs ih =>
    rw [applyAll_cons, ih (fun d hd => h d (List.mem_cons_of_mem _ hd)), find?_apply,
      if_neg (h c List.mem_cons_self)]

/-- After changes with different names each of them holds. -/
theorem find?_applyAll_of_mem {cs : List Change} (hn : (cs.map Change.name).Nodup) {c : Change}
    (hc : c ∈ cs) (f : FlagSet) : (f.applyAll cs).find? c.name = c.current := by
  induction cs generalizing f with
  | nil => cases hc
  | cons d cs ih =>
    rw [List.map_cons, List.nodup_cons] at hn
    rw [applyAll_cons]
    rcases List.mem_cons.mp hc with rfl | hc
    · rw [find?_applyAll_of_not_mem, find?_apply, if_pos rfl]
      intro e he heq
      exact hn.1 (heq ▸ List.mem_map_of_mem he)
    · exact ih hn.2 hc _

/-- **The changes from one flag set to another lead from the one to the other.** -/
theorem same_applyAll_changesTo (old new : FlagSet) :
    (old.applyAll (old.changesTo new)).same new = true := by
  rw [same_iff_unchanged]
  intro name
  by_cases h : ∃ c ∈ changesTo old new, c.name = name
  · obtain ⟨c, hc, rfl⟩ := h
    rw [find?_applyAll_of_mem (nodup_changesTo old new) hc, (mem_changesTo_iff.mp hc).2.1]
    exact (same_iff_unchanged new new).mp (same_refl new) c.name
  · rw [find?_applyAll_of_not_mem (fun c hc hn => h ⟨c, hc, hn⟩)]
    by_contra hu
    have hc : (⟨name, old.find? name, new.find? name⟩ : Change) ∈ changesTo old new :=
      mem_changesTo_iff.mpr ⟨rfl, rfl, Bool.eq_false_iff.mpr hu⟩
    exact h ⟨_, hc, rfl⟩

theorem same_apply {f g : FlagSet} (h : f.same g = true) (c : Change) :
    (f.apply c).same (g.apply c) = true := by
  rw [same_iff_unchanged] at h ⊢
  intro name
  rw [find?_apply, find?_apply]
  split
  next =>
    cases c.current with
    | none => rfl
    | some v => exact Json.same_refl v
  next => exact h name

theorem same_applyAll {f g : FlagSet} (h : f.same g = true) (cs : List Change) :
    (f.applyAll cs).same (g.applyAll cs) = true := by
  induction cs generalizing f g with
  | nil => exact h
  | cons c cs ih => exact ih (same_apply h c)

/-- Who applies the batches to `old`, one after the other, has `new`. -/
def Follows (old : FlagSet) (batches : List (List Change)) (new : FlagSet) : Prop :=
  (old.applyAll batches.flatten).same new = true

theorem Follows.refl (f : FlagSet) : Follows f [] f := same_refl f

/-- the batch that leads to another flag set, if one is needed -/
def batchTo (old new : FlagSet) : List (List Change) :=
  if old.same new then [] else [old.changesTo new]

/-- Whatever flag set is next, the batch that leads to it is followed. -/
theorem Follows.next {old new : FlagSet} {batches : List (List Change)}
    (h : Follows old batches new) (next : FlagSet) :
    Follows old (batches ++ new.batchTo next) next := by
  rw [batchTo]
  split
  next hs =>
    rw [List.append_nil]
    exact same_trans h hs
  next =>
    rw [Follows, List.flatten_append, List.flatten_singleton, applyAll_append]
    exact same_trans (same_applyAll h _) (same_applyAll_changesTo new next)

theorem batchTo_of_same {old new : FlagSet} (h : old.same new = true) : old.batchTo new = [] :=
  if_pos h

theorem length_batchTo_le (old new : FlagSet) : (old.batchTo new).length ≤ 1 := by
  rw [batchTo]
  split
  · exact Nat.zero_le _
  · exact Nat.le_refl _

end FlagSet

/-! ## listeners that are told apart -/

namespace Call

variable {ρ : Type} [DecidableEq ρ]

/-- what the listeners of a role are handed by calls -/
def batches (role : ρ) (calls : List (Call ρ)) : List (List Change) :=
  (calls.filter (fun k => k.role = role)).map changes

theorem batches_append (role : ρ) (ks ls : List (Call ρ)) :
    batches role (ks ++ ls) = batches role ks ++ batches role ls := by
  rw [batches, List.filter_append, List.map_append]
  rfl

theorem batches_eq_nil {role : ρ} {calls : List (Call ρ)} (h : ∀ k ∈ calls, k.role ≠ role) :
    batches role calls = [] := by
  rw [batches, List.filter_eq_nil_iff.mpr (fun k hk => by simpa using h k hk), List.map_nil]

end Call

namespace ListenerSet

variable {ρ : Type}

/-- Every listener has the role that goes with its number. -/
structure Tagged (tag : ListenerId → ρ) (s : ListenerSet ρ) : Prop where
  role_eq : ∀ l ∈ s.listeners, l.role = tag l.id
  lt_next : ∀ l ∈ s.listeners, l.id < s.next

theorem tagged_empty (tag : ListenerId → ρ) : Tagged tag empty :=
  ⟨nofun, nofun⟩

theorem Tagged.add {tag : ListenerId → ρ} {s : ListenerSet ρ} (h : Tagged tag s) (topic : Topic) :
    Tagged tag (s.add topic (tag s.next)).1 := by
  constructor
  · intro l hl
    rcases List.mem_append.mp hl with hl | hl
    · exact h.role_eq l hl
    · rw [List.mem_singleton.mp hl]
  · intro l hl
    rcases List.mem_append.mp hl with hl | hl
    · exact Nat.lt_succ_of_lt (h.lt_next l hl)
    · rw [List.mem_singleton.mp hl]
      exact Nat.lt_succ_self _

theorem Tagged.remove {tag : ListenerId → ρ} {s : ListenerSet ρ} (h : Tagged tag s)
    (id : ListenerId) : Tagged tag (s.remove id) :=
  ⟨fun l hl => h.role_eq l (List.mem_filter.mp hl).1,
    fun l hl => h.lt_next l (List.mem_filter.mp hl).1⟩

theorem Tagged.clear {tag : ListenerId → ρ} (s : ListenerSet ρ) : Tagged tag s.clear :=
  ⟨nofun, nofun⟩

theorem mem_of_mem_calls {s : ListenerSet ρ} {changes : List Change} {k : Call ρ}
    (h : k ∈ s.calls changes) : ∃ l ∈ s.listeners, l.role = k.role := by
  have of_onTopic : ∀ {topic r}, r ∈ s.onTopic topic → ∃ l ∈ s.listeners, l.role = r := by
    intro topic r hr
    obtain ⟨l, hl, hrole⟩ := List.mem_map.mp hr
    exact ⟨l, (List.mem_filter.mp hl).1, hrole⟩
  rw [calls] at h
  split at h
  · cases h
  · rcases List.mem_append.mp h with h | h
    · obtain ⟨c, -, h⟩ := List.mem_flatMap.mp h
      obtain ⟨r, hr, rfl⟩ := List.mem_map.mp h
      exact of_onTopic hr
    · obtain ⟨r, hr, rfl⟩ := List.mem_map.mp h
      exact of_onTopic hr

theorem Tagged.role_of_mem_calls {tag : ListenerId → ρ} {s : ListenerSet ρ} (h : Tagged tag s)
    {changes : List Change} {k : Call ρ} (hk : k ∈ s.calls changes) : ∃ id, k.role = tag id := by
  obtain ⟨l, hl, hrole⟩ := mem_of_mem_calls hk
  exact ⟨l.id, hrole ▸ h.role_eq l hl⟩

variable [DecidableEq ρ]

/-- The listener with a number is the only one of its role, and it is on any change. -/
structure Sole (s : ListenerSet ρ) (id : ListenerId) (role : ρ) : Prop where
  filter_eq : s.listeners.filter (fun l => l.role = role) = [⟨id, .anyChange, role⟩]
  lt_next : id < s.next

theorem Tagged.sole {tag : ListenerId → ρ} {s : ListenerSet ρ} (h : Tagged tag s)
    (hi : tag.Injective) : Sole (s.add .anyChange (tag s.next)).1 s.next (tag s.next) := by
  refine ⟨?_, Nat.lt_succ_self _⟩
  show (s.listeners ++ [_]).filter _ = _
  rw [List.filter_append, List.filter_eq_nil_iff.mpr, List.nil_append]
  · simp
  · intro l hl
    rw [decide_eq_true_iff, h.role_eq l hl]
    exact fun heq => Nat.lt_irrefl _ (hi heq ▸ h.lt_next l hl)

namespace Sole

variable {s : ListenerSet ρ} {id : ListenerId} {role : ρ}

theorem add (h : Sole s id role) (topic : Topic) {other : ρ} (ho : other ≠ role) :
    Sole (s.add topic other).1 id role := by
  refine ⟨?_, Nat.lt_succ_of_lt h.lt_next⟩
  show (s.listeners ++ [_]).filter _ = _
  rw [List.filter_append, h.filter_eq, List.filter_eq_nil_iff.mpr (by simpa using ho)]
  rfl

theorem remove (h : Sole s id role) {other : ListenerId} (ho : other ≠ id) :
    Sole (s.remove other) id role := by
  refine ⟨?_, h.lt_next⟩
  show (s.listeners.filter _).filter _ = _
  rw [List.filter_filter, List.filter_congr (fun l _ => Bool.and_comm _ _), ← List.filter_filter,
    h.filter_eq]
  simp [ho.symm]

theorem onTopic_anyChange (h : Sole s id role) :
    (s.onTopic .anyChange).filter (fun r => r = role) = [role] := by
  rw [onTopic, List.filter_map, List.filter_filter]
  have : s.listeners.filter (fun l => ((fun r => decide (r = role)) ∘ Listener.role) l &&
      decide (l.topic = .anyChange)) =
        (s.listeners.filter (fun l => l.role = role)).filter (fun l => l.topic = .anyChange) := by
    rw [List.filter_filter]
    exact List.filter_congr fun l _ => Bool.and_comm _ _
  rw [this, h.filter_eq]
  rfl

theorem not_mem_onTopic_flag (h : Sole s id role) (flag : String) :
    role ∉ s.onTopic (.flag flag) := by
  intro hm
  obtain ⟨l, hl, hrole⟩ := List.mem_map.mp hm
  obtain ⟨hl, htopic⟩ := List.mem_filter.mp hl
  have : l ∈ s.listeners.filter (fun l => l.role = role) :=
    List.mem_filter.mpr ⟨hl, by simpa using hrole⟩
  rw [h.filter_eq, List.mem_singleton] at this
  rw [this] at htopic
  simp at htopic

/-- **A listener on any change gets all changes at once, if there are any.** -/
theorem batches_calls (h : Sole s id role) (changes : List Change) :
    Call.batches role (s.calls changes) = if changes.isEmpty then [] else [changes] := by
  rw [calls]
  split
  · rfl
  · rw [Call.batches_append, Call.batches_eq_nil, List.nil_append, Call.batches, List.filter_map]
    · rw [show ((fun k : Call ρ => decide (k.role = role)) ∘ fun r => ⟨r, changes⟩) =
        fun r => decide (r = role) from rfl, h.onTopic_anyChange]
      rfl
    · intro k hk heq
      obtain ⟨c, -, hk⟩ := List.mem_flatMap.mp hk
      obtain ⟨r, hr, rfl⟩ := List.mem_map.mp hk
      exact h.not_mem_onTopic_flag c.name (heq ▸ hr)

end Sole

end ListenerSet

/-! ## a listener on a feed -/

namespace Feed

variable {ρ : Type} [DecidableEq ρ]

/-- A new flag set brings to a listener on any change the batch that leads to it. -/
theorem batches_replace {f : Feed ρ} {id : ListenerId} {role : ρ} (h : f.listeners.Sole id role)
    (flags : FlagSet) : Call.batches role (f.replace flags).2 = f.flags.batchTo flags := by
  show Call.batches role (f.listeners.calls (f.flags.changesTo flags)) = _
  rw [h.batches_calls, FlagSet.batchTo]
  by_cases hs : f.flags.same flags = true
  · rw [if_pos hs, (FlagSet.changesTo_eq_nil_iff _ _).mpr hs]
    rfl
  · rw [if_neg hs, if_neg]
    intro hn
    exact hs ((FlagSet.changesTo_eq_nil_iff _ _).mp (List.isEmpty_iff.mp hn))

end Feed

end FeatureFlags
