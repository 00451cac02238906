import FeatureFlags.Registry
import Mathlib.Data.List.Nodup

/-!
# How a registry is wired to its connection

The listeners on a connection are those of the registry, one for each group of streams, and those of
others.  `Wired` says that the registry and its listeners match one by one; all that changes the
registry together with the listeners keeps it, and leaves the listeners of others alone.

* `ListenerSet.Numbered`    the listeners have different numbers, all of them given out;
* `Registry.own`, `Registry.foreign`   the two kinds of listeners;
* `Registry.Wired`          the listeners of the registry are those of its groups;
* `Registry.hear`           what the calls of an emission do to the registry;
* `Registry.announce`       what an emission ought to do: every group gets each change of its flag;
* `Registry.hear_calls`     it does.
-/

namespace FeatureFlags

/-! ## numbers of listeners -/

namespace ListenerSet

variable {ρ : Type}

/-- The listeners have different numbers, all below the next one. -/
structure Numbered (s : ListenerSet ρ) : Prop where
  nodup : (s.listeners.map Listener.id).Nodup
  lt_next : ∀ l ∈ s.listeners, l.id < s.next

theorem numbered_empty : (empty : ListenerSet ρ).Numbered :=
  ⟨List.nodup_nil, fun _ h => nomatch h⟩

theorem listeners_add (s : ListenerSet ρ) (topic : Topic) (role : ρ) :
    (s.add topic role).1.listeners = s.listeners ++ [⟨s.next, topic, role⟩] := rfl

theorem Numbered.add {s : ListenerSet ρ} (h : s.Numbered) (topic : Topic) (role : ρ) :
    (s.add topic role).1.Numbered := by
  constructor
  · rw [listeners_add, List.map_append, List.nodup_append]
    refine ⟨h.nodup, List.nodup_singleton _, fun a ha b hb hab => ?_⟩
    obtain ⟨l, hl, rfl⟩ := List.mem_map.mp ha
    have hb : b = s.next := List.mem_singleton.mp hb
    exact Nat.lt_irrefl _ (hb ▸ hab ▸ h.lt_next l hl)
  · intro l hl
    rcases List.mem_append.mp hl with hl | hl
    · exact Nat.lt_succ_of_lt (h.lt_next l hl)
    · rw [List.mem_singleton.mp hl]
      exact Nat.lt_succ_self _

theorem Numbered.of_sublist {s t : ListenerSet ρ} (h : s.Numbered)
    (hl : t.listeners.Sublist s.listeners) (hn : t.next = s.next) : t.Numbered :=
  ⟨h.nodup.sublist (hl.map _), fun l hm => hn ▸ h.lt_next l (hl.subset hm)⟩

theorem Numbered.remove {s : ListenerSet ρ} (h : s.Numbered) (id : ListenerId) :
    (s.remove id).Numbered := h.of_sublist List.filter_sublist rfl

theorem Numbered.eq_of_id_eq {s : ListenerSet ρ} (h : s.Numbered) {k l : Listener ρ}
    (hk : k ∈ s.listeners) (hl : l ∈ s.listeners) (hid : k.id = l.id) : k = l :=
  List.inj_on_of_nodup_map h.nodup hk hl hid

end ListenerSet

namespace Registry

variable {κ : Type}

/-! ## own and foreign listeners -/

/-- the flag whose streams a listener is for -/
def Role.flag? : Role κ → Option String
  | .subscribers flag => some flag
  | .other _ => none

def Role.foreign? : Role κ → Option κ
  | .subscribers _ => none
  | .other role => some role

/-- number, topic and flag of a listener of the registry -/
def ownOf (l : Listener (Role κ)) : Option (ListenerId × Topic × String) :=
  l.role.flag?.map (fun flag => (l.id, l.topic, flag))

/-- number, topic and role of a listener of somebody else -/
def foreignOf (l : Listener (Role κ)) : Option (ListenerId × Topic × κ) :=
  l.role.foreign?.map (fun role => (l.id, l.topic, role))

def own (ls : ListenerSet (Role κ)) : List (ListenerId × Topic × String) :=
  ls.listeners.filterMap ownOf

def foreign (ls : ListenerSet (Role κ)) : List (ListenerId × Topic × κ) :=
  ls.listeners.filterMap foreignOf

/-- the listener that a group should have -/
def Group.wire (g : Group) : ListenerId × Topic × String := (g.listener, .flag g.flag, g.flag)

theorem own_add (ls : ListenerSet (Role κ)) (topic : Topic) (role : Role κ) :
    own (ls.add topic role).1 =
      own ls ++ (role.flag?.map (fun flag => (ls.next, topic, flag))).toList := by
  rw [own, ListenerSet.listeners_add, List.filterMap_append]
  cases role <;> rfl

theorem foreign_add (ls : ListenerSet (Role κ)) (topic : Topic) (role : Role κ) :
    foreign (ls.add topic role).1 =
      foreign ls ++ (role.foreign?.map (fun k => (ls.next, topic, k))).toList := by
  rw [foreign, ListenerSet.listeners_add, List.filterMap_append]
  cases role <;> rfl

theorem ownOf_eq_some {l : Listener (Role κ)} {w : ListenerId × Topic × String}
    (h : ownOf l = some w) : l.id = w.1 ∧ l.topic = w.2.1 ∧ l.role = .subscribers w.2.2 := by
  obtain ⟨id, topic, role⟩ := l
  cases role with
  | subscribers flag =>
    cases h
    exact ⟨rfl, rfl, rfl⟩
  | other k => cases h

theorem foreignOf_eq_some {l : Listener (Role κ)} {w : ListenerId × Topic × κ}
    (h : foreignOf l = some w) : l.id = w.1 ∧ l.topic = w.2.1 ∧ l.role = .other w.2.2 := by
  obtain ⟨id, topic, role⟩ := l
  cases role with
  | subscribers flag => cases h
  | other k =>
    cases h
    exact ⟨rfl, rfl, rfl⟩

theorem own_remove (ls : ListenerSet (Role κ)) (id : ListenerId) :
    own (ls.remove id) = (own ls).filter (fun w => w.1 ≠ id) := by
  rw [own, own, ListenerSet.remove, List.filterMap_filter, List.filter_filterMap]
  congr 1
  funext l
  obtain ⟨lid, topic, role⟩ := l
  cases role with
  | subscribers flag => by_cases h : lid = id <;> simp [ownOf, Role.flag?, Option.filter, h]
  | other k => simp [ownOf, Role.flag?]

theorem foreign_remove (ls : ListenerSet (Role κ)) (id : ListenerId) :
    foreign (ls.remove id) = (foreign ls).filter (fun w => w.1 ≠ id) := by
  rw [foreign, foreign, ListenerSet.remove, List.filterMap_filter, List.filter_filterMap]
  congr 1
  funext l
  obtain ⟨lid, topic, role⟩ := l
  cases role with
  | subscribers flag => simp [foreignOf, Role.foreign?]
  | other k => by_cases h : lid = id <;> simp [foreignOf, Role.foreign?, Option.filter, h]

theorem foreign_remove_sublist (ls : ListenerSet (Role κ)) (id : ListenerId) :
    (foreign (ls.remove id)).Sublist (foreign ls) := by
  rw [foreign_remove]
  exact List.filter_sublist

/-- Every listener is one or the other. -/
theorem listeners_eq_nil {ls : ListenerSet (Role κ)} (ho : own ls = []) (hf : foreign ls = []) :
    ls.listeners = [] := by
  rw [List.eq_nil_iff_forall_not_mem]
  intro l hl
  have hown : ownOf l = none := List.filterMap_eq_nil_iff.mp ho l hl
  have hforeign : foreignOf l = none := List.filterMap_eq_nil_iff.mp hf l hl
  obtain ⟨id, topic, role⟩ := l
  cases role with
  | subscribers flag => cases hown
  | other k => cases hforeign

/-- Removing a listener of the registry leaves those of others alone. -/
theorem foreign_remove_own {ls : ListenerSet (Role κ)} (h : ls.Numbered)
    {w : ListenerId × Topic × String} (hw : w ∈ own ls) :
    foreign (ls.remove w.1) = foreign ls := by
  rw [foreign_remove, List.filter_eq_self]
  intro v hv
  obtain ⟨k, hk, hkw⟩ := List.mem_filterMap.mp hw
  obtain ⟨l, hl, hlv⟩ := List.mem_filterMap.mp hv
  obtain ⟨hkid, -, hkrole⟩ := ownOf_eq_some hkw
  obtain ⟨hlid, -, hlrole⟩ := foreignOf_eq_some hlv
  refine decide_eq_true fun hid => ?_
  have := h.eq_of_id_eq hk hl (hkid.trans (hid.symm.trans hlid.symm))
  rw [← this, hkrole] at hlrole
  cases hlrole

/-! ## the wiring -/

/-- The listeners of a registry are those of its groups, in their order, and no two groups are for
the same flag. -/
structure Wired (r : Registry) (ls : ListenerSet (Role κ)) : Prop where
  own_eq : own ls = r.groups.map Group.wire
  flags_nodup : (r.groups.map Group.flag).Nodup
  numbered : ls.Numbered

theorem wired_empty : Wired empty (ListenerSet.empty : ListenerSet (Role κ)) :=
  ⟨rfl, List.nodup_nil, ListenerSet.numbered_empty⟩

namespace Wired

variable {r : Registry} {ls : ListenerSet (Role κ)}

/-- The wiring depends on the groups only. -/
theorem of_groups_eq (h : Wired r ls) {q : Registry} (hq : q.groups = r.groups) : Wired q ls :=
  ⟨hq ▸ h.own_eq, hq ▸ h.flags_nodup, h.numbered⟩

theorem listener_nodup (h : Wired r ls) : (r.groups.map Group.listener).Nodup := by
  have he : r.groups.map Group.listener = (own ls).map Prod.fst := by
    rw [h.own_eq, List.map_map]
    rfl
  have hs : ((own ls).map Prod.fst).Sublist (ls.listeners.map Listener.id) := by
    unfold own
    induction ls.listeners with
    | nil => exact List.Sublist.slnil
    | cons l k ih =>
      obtain ⟨id, topic, role⟩ := l
      cases role with
      | subscribers flag => exact ih.cons_cons _
      | other o => exact ih.cons _
  exact he ▸ h.numbered.nodup.sublist hs

/-- A listener of somebody else changes nothing. -/
theorem listen (h : Wired r ls) (topic : Topic) (role : κ) :
    Wired r (ls.add topic (.other role)).1 := by
  refine ⟨?_, h.flags_nodup, h.numbered.add _ _⟩
  rw [own_add, ← h.own_eq]
  exact List.append_nil _

end Wired

/-! ## subscriptions -/

theorem wire_join (flag : String) (id : StreamId) (g : Group) :
    (g.join flag id).wire = g.wire := by
  rw [Group.join]
  split <;> rfl

theorem flag_join (flag : String) (id : StreamId) (g : Group) :
    (g.join flag id).flag = g.flag := by
  rw [Group.join]
  split <;> rfl

theorem wire_leave (flag : String) (id : StreamId) (g : Group) :
    (g.leave flag id).wire = g.wire := by
  rw [Group.leave]
  split <;> rfl

theorem flag_leave (flag : String) (id : StreamId) (g : Group) :
    (g.leave flag id).flag = g.flag := by
  rw [Group.leave]
  split <;> rfl

theorem mem_of_group? {r : Registry} {flag : String} {g : Group} (h : r.group? flag = some g) :
    g ∈ r.groups ∧ g.flag = flag :=
  ⟨List.mem_of_find?_eq_some h, by simpa using List.find?_some h⟩

theorem not_mem_flags_of_group? {r : Registry} {flag : String} (h : r.group? flag = none) :
    flag ∉ r.groups.map Group.flag := by
  intro hm
  obtain ⟨g, hg, hf⟩ := List.mem_map.mp hm
  simpa [hf] using List.find?_eq_none.mp h g hg

/-- Groups that keep flag and listener keep the wiring. -/
theorem Wired.map_groups {r : Registry} {ls : ListenerSet (Role κ)} (h : Wired r ls)
    {f : Group → Group} (hw : ∀ g, (f g).wire = g.wire) {q : Registry}
    (hq : q.groups = r.groups.map f) : Wired q ls := by
  have hf : ∀ g, (f g).flag = g.flag := fun g => congrArg (fun w => w.2.2) (hw g)
  refine ⟨?_, ?_, h.numbered⟩
  · rw [hq, List.map_map, h.own_eq]
    exact List.map_congr_left fun g _ => (hw g).symm
  · rw [hq, List.map_map, show Group.flag ∘ f = Group.flag from funext hf]
    exact h.flags_nodup

theorem Wired.subscribe {r : Registry} {ls : ListenerSet (Role κ)} (h : Wired r ls)
    (flag : String) : Wired (r.subscribe ls flag).1 (r.subscribe ls flag).2.1 := by
  rw [Registry.subscribe]
  cases hg : r.group? flag with
  | some g => exact h.map_groups (wire_join flag r.next) rfl
  | none =>
    refine ⟨?_, ?_, h.numbered.add _ _⟩
    · show own (ls.add (.flag flag) (.subscribers flag)).1 = _
      rw [own_add, h.own_eq, List.map_append]
      rfl
    · show ((r.groups ++ [_]).map Group.flag).Nodup
      rw [List.map_append, List.nodup_append]
      refine ⟨h.flags_nodup, List.nodup_singleton _, fun a ha b hb hab => ?_⟩
      have hb : b = flag := List.mem_singleton.mp hb
      exact not_mem_flags_of_group? hg (hb ▸ hab ▸ ha)

theorem foreign_subscribe (r : Registry) (ls : ListenerSet (Role κ)) (flag : String) :
    foreign (r.subscribe ls flag).2.1 = foreign ls := by
  rw [Registry.subscribe]
  cases r.group? flag with
  | some g => rfl
  | none =>
    show foreign (ls.add (.flag flag) (.subscribers flag)).1 = _
    rw [foreign_add]
    exact List.append_nil _

/-- In a wired registry the group of a flag is the one with its listener. -/
theorem Wired.listener_ne_iff {r : Registry} {ls : ListenerSet (Role κ)} (h : Wired r ls)
    {g k : Group} (hg : g ∈ r.groups) (hk : k ∈ r.groups) :
    k.listener ≠ g.listener ↔ k.flag ≠ g.flag := by
  refine not_congr ⟨fun he => ?_, fun he => ?_⟩
  · rw [List.inj_on_of_nodup_map h.listener_nodup hk hg he]
  · rw [List.inj_on_of_nodup_map h.flags_nodup hk hg he]

theorem Wired.detach {r : Registry} {ls : ListenerSet (Role κ)} (h : Wired r ls)
    (flag : String) (id : StreamId) :
    Wired (r.detach ls flag id).1 (r.detach ls flag id).2 := by
  rw [Registry.detach]
  cases hg : r.group? flag with
  | none => exact h
  | some g =>
    obtain ⟨hm, rfl⟩ := mem_of_group? hg
    show Wired (if _ then _ else _ : Registry × ListenerSet (Role κ)).1
      (if _ then _ else _ : Registry × ListenerSet (Role κ)).2
    split
    · refine ⟨?_, ?_, h.numbered.remove _⟩
      · rw [own_remove, h.own_eq, List.filter_map]
        refine congrArg (List.map Group.wire) (List.filter_congr fun k hk => ?_)
        exact decide_eq_decide.mpr (h.listener_ne_iff hm hk)
      · exact h.flags_nodup.sublist (List.filter_sublist.map _)
    · exact h.map_groups (wire_leave g.flag id) rfl

theorem Wired.unsubscribe {r : Registry} {ls : ListenerSet (Role κ)} (h : Wired r ls)
    (id : StreamId) : Wired (r.unsubscribe ls id).1 (r.unsubscribe ls id).2 := by
  rw [Registry.unsubscribe]
  cases r.stream? id with
  | none => exact h
  | some s =>
    have hs : Wired { r with streams := r.streams.filter (fun s => s.id ≠ id) } ls :=
      h.of_groups_eq rfl
    exact hs.detach s.flag id

theorem Wired.foreign_detach {r : Registry} {ls : ListenerSet (Role κ)} (h : Wired r ls)
    (flag : String) (id : StreamId) : foreign (r.detach ls flag id).2 = foreign ls := by
  rw [Registry.detach]
  cases hg : r.group? flag with
  | none => rfl
  | some g =>
    show foreign (if _ then _ else _ : Registry × ListenerSet (Role κ)).2 = _
    split
    · have hw : g.wire ∈ own ls := h.own_eq ▸ List.mem_map_of_mem (mem_of_group? hg).1
      exact foreign_remove_own h.numbered hw
    · rfl

theorem Wired.foreign_unsubscribe {r : Registry} {ls : ListenerSet (Role κ)} (h : Wired r ls)
    (id : StreamId) : foreign (r.unsubscribe ls id).2 = foreign ls := by
  rw [Registry.unsubscribe]
  cases r.stream? id with
  | none => rfl
  | some s =>
    have hs : Wired { r with streams := r.streams.filter (fun s => s.id ≠ id) } ls :=
      h.of_groups_eq rfl
    exact hs.foreign_detach s.flag id

theorem foreign_unsubscribe_sublist (r : Registry) (ls : ListenerSet (Role κ)) (id : StreamId) :
    (foreign (r.unsubscribe ls id).2).Sublist (foreign ls) := by
  rw [Registry.unsubscribe]
  cases r.stream? id with
  | none => exact List.Sublist.refl _
  | some s =>
    show (foreign (detach _ ls s.flag id).2).Sublist _
    rw [Registry.detach]
    split
    · exact List.Sublist.refl _
    · split
      · exact foreign_remove_sublist ls _
      · exact List.Sublist.refl _

/-- Clearing removes the listeners of all groups and no others. -/
theorem own_clear (r : Registry) (ls : ListenerSet (Role κ)) :
    own (r.clear ls).2 = (own ls).filter (fun w => w.1 ∉ r.groups.map Group.listener) := by
  show own (r.groups.foldl (fun ls g => ls.remove g.listener) ls) = _
  induction r.groups generalizing ls with
  | nil => simp
  | cons g gs ih =>
    rw [List.foldl_cons, ih, own_remove, List.filter_filter]
    refine List.filter_congr fun w _ => ?_
    rw [← Bool.decide_and, List.map_cons]
    exact decide_eq_decide.mpr (by rw [List.mem_cons, not_or, and_comm])

theorem foreign_clear_sublist (r : Registry) (ls : ListenerSet (Role κ)) :
    (foreign (r.clear ls).2).Sublist (foreign ls) := by
  show (foreign (r.groups.foldl (fun ls g => ls.remove g.listener) ls)).Sublist _
  induction r.groups generalizing ls with
  | nil => exact List.Sublist.refl _
  | cons g gs ih => exact (ih _).trans (foreign_remove_sublist ls g.listener)

theorem numbered_clear {ls : ListenerSet (Role κ)} (h : ls.Numbered) (r : Registry) :
    (r.clear ls).2.Numbered := by
  show (r.groups.foldl (fun ls g => ls.remove g.listener) ls).Numbered
  induction r.groups generalizing ls with
  | nil => exact h
  | cons g gs ih => exact ih (h.remove g.listener)

theorem Wired.own_clear_of_subset {r : Registry} {ls ls' : ListenerSet (Role κ)} (h : Wired r ls)
    (ho : own ls' ⊆ own ls) : own (r.clear ls').2 = [] := by
  rw [own_clear, List.filter_eq_nil_iff]
  intro w hw
  have hmem := ho hw
  rw [h.own_eq] at hmem
  obtain ⟨g, hg, rfl⟩ := List.mem_map.mp hmem
  rw [decide_eq_true_eq, not_not]
  exact List.mem_map_of_mem hg

theorem Wired.clear {r : Registry} {ls : ListenerSet (Role κ)} (h : Wired r ls) :
    Wired (r.clear ls).1 (r.clear ls).2 := by
  exact ⟨h.own_clear_of_subset (List.Subset.refl _), List.nodup_nil, numbered_clear h.numbered r⟩

/-- Of listeners that are all for the registry none is left. -/
theorem Wired.listeners_clear {r : Registry} {ls ls' : ListenerSet (Role κ)} (h : Wired r ls)
    (ho : own ls' ⊆ own ls) (hf : foreign ls' = []) : (r.clear ls').2.listeners = [] := by
  refine listeners_eq_nil (h.own_clear_of_subset ho) ?_
  have hs := foreign_clear_sublist r ls'
  rw [hf] at hs
  exact List.sublist_nil.mp hs

/-- Where there is no group, a stream that is dropped takes nothing with it. -/
theorem unsubscribe_of_no_groups {r : Registry} (h : r.groups = []) (ls : ListenerSet (Role κ))
    (id : StreamId) : (r.unsubscribe ls id).1.groups = [] ∧ (r.unsubscribe ls id).2 = ls := by
  have hn : ∀ (q : Registry) (flag : String), q.groups = [] → q.detach ls flag id = (q, ls) := by
    intro q flag hq
    rw [Registry.detach, group?, hq]
    rfl
  rw [Registry.unsubscribe]
  cases r.stream? id with
  | none => exact ⟨h, rfl⟩
  | some s =>
    show (detach _ ls s.flag id).1.groups = [] ∧ (detach _ ls s.flag id).2 = ls
    rw [hn { r with streams := r.streams.filter (fun s => s.id ≠ id) } s.flag h]
    exact ⟨h, rfl⟩

/-! ## emissions -/

theorem groups_dispatch (r : Registry) (flag : String) (changes : List Change) :
    (r.dispatch flag changes).groups = r.groups := by
  rw [dispatch]
  split
  · split <;> rfl
  · rfl

theorem enabled_dispatch (r : Registry) (flag : String) (changes : List Change) :
    (r.dispatch flag changes).enabled = r.enabled := by
  rw [dispatch]
  split
  · split <;> rfl
  · rfl

theorem next_dispatch (r : Registry) (flag : String) (changes : List Change) :
    (r.dispatch flag changes).next = r.next := by
  rw [dispatch]
  split
  · split <;> rfl
  · rfl

/-- What a call makes of the registry: one for somebody else is none of its business. -/
def receive (r : Registry) (call : Call (Role κ)) : Registry :=
  match call.role with
  | .subscribers flag => r.dispatch flag call.changes
  | .other _ => r

def hear (r : Registry) (calls : List (Call (Role κ))) : Registry := calls.foldl receive r

theorem hear_nil (r : Registry) : r.hear ([] : List (Call (Role κ))) = r := rfl
theorem hear_cons (r : Registry) (call : Call (Role κ)) (calls : List (Call (Role κ))) :
    r.hear (call :: calls) = (r.receive call).hear calls := rfl
theorem hear_append (r : Registry) (cs ds : List (Call (Role κ))) :
    r.hear (cs ++ ds) = (r.hear cs).hear ds := by
  rw [hear, List.foldl_append]
  rfl

theorem groups_hear (r : Registry) (calls : List (Call (Role κ))) :
    (r.hear calls).groups = r.groups := by
  induction calls generalizing r with
  | nil => rfl
  | cons call calls ih =>
    rw [hear_cons, ih]
    obtain ⟨role, changes⟩ := call
    cases role with
    | subscribers flag => exact groups_dispatch r flag changes
    | other k => rfl

theorem enabled_hear (r : Registry) (calls : List (Call (Role κ))) :
    (r.hear calls).enabled = r.enabled := by
  induction calls generalizing r with
  | nil => rfl
  | cons call calls ih =>
    rw [hear_cons, ih]
    obtain ⟨role, changes⟩ := call
    cases role with
    | subscribers flag => exact enabled_dispatch r flag changes
    | other k => rfl

/-- what an emission makes of a registry: one change after the other -/
def announce (r : Registry) (changes : List Change) : Registry :=
  changes.foldl (fun r c => r.dispatch c.name [c]) r

theorem announce_nil (r : Registry) : r.announce [] = r := rfl
theorem announce_cons (r : Registry) (c : Change) (cs : List Change) :
    r.announce (c :: cs) = (r.dispatch c.name [c]).announce cs := rfl

theorem groups_announce (r : Registry) (changes : List Change) :
    (r.announce changes).groups = r.groups := by
  induction changes generalizing r with
  | nil => rfl
  | cons c cs ih => rw [announce_cons, ih, groups_dispatch]

theorem enabled_announce (r : Registry) (changes : List Change) :
    (r.announce changes).enabled = r.enabled := by
  induction changes generalizing r with
  | nil => rfl
  | cons c cs ih => rw [announce_cons, ih, enabled_dispatch]

theorem hear_map_roles (r : Registry) (changes : List Change) (roles : List (Role κ)) :
    r.hear (roles.map (fun role => ⟨role, changes⟩)) =
      (roles.filterMap Role.flag?).foldl (fun r flag => r.dispatch flag changes) r := by
  induction roles generalizing r with
  | nil => rfl
  | cons role roles ih =>
    rw [List.map_cons, hear_cons, ih]
    cases role <;> rfl

theorem flags_onTopic (ls : ListenerSet (Role κ)) (topic : Topic) :
    (ls.onTopic topic).filterMap Role.flag? =
      ((own ls).filter (fun w => w.2.1 = topic)).map (fun w => w.2.2) := by
  rw [ListenerSet.onTopic, own, List.filterMap_map, List.filterMap_filter, List.filter_filterMap,
    List.map_filterMap]
  congr 1
  funext l
  obtain ⟨id, t, role⟩ := l
  cases role with
  | subscribers flag => by_cases h : t = topic <;> simp [ownOf, Role.flag?, Option.filter, h]
  | other k => simp [ownOf, Role.flag?]

theorem foreign_onTopic (ls : ListenerSet (Role κ)) (topic : Topic) :
    (ls.onTopic topic).filterMap Role.foreign? =
      ((foreign ls).filter (fun w => w.2.1 = topic)).map (fun w => w.2.2) := by
  rw [ListenerSet.onTopic, foreign, List.filterMap_map, List.filterMap_filter,
    List.filter_filterMap, List.map_filterMap]
  congr 1
  funext l
  obtain ⟨id, t, role⟩ := l
  cases role with
  | subscribers flag => simp [foreignOf, Role.foreign?]
  | other k => by_cases h : t = topic <;> simp [foreignOf, Role.foreign?, Option.filter, h]

/-- the calls for somebody else -/
def others (calls : List (Call (Role κ))) : List κ :=
  calls.filterMap (fun call => call.role.foreign?)

theorem others_map_roles (roles : List (Role κ)) (changes : List Change) :
    others (roles.map (fun role => ⟨role, changes⟩)) = roles.filterMap Role.foreign? := by
  rw [others, List.filterMap_map]
  rfl

/-- If nobody else listens to single flags, an emission calls those who listen to any change. -/
theorem others_calls {ls : ListenerSet (Role κ)}
    (h : ∀ name, (ls.onTopic (.flag name)).filterMap Role.foreign? = []) {changes : List Change}
    (hc : changes ≠ []) :
    others (ls.calls changes) = (ls.onTopic .anyChange).filterMap Role.foreign? := by
  have hflags : others (changes.flatMap
      (fun c => (ls.onTopic (.flag c.name)).map (fun role => ⟨role, [c]⟩))) = [] := by
    rw [others, List.filterMap_flatMap, List.flatMap_eq_nil_iff]
    intro c _
    exact (others_map_roles _ [c]).trans (h c.name)
  rw [ListenerSet.calls, if_neg (by simpa using hc), others, List.filterMap_append]
  show others _ ++ others _ = _
  rw [hflags, others_map_roles, List.nil_append]

theorem others_calls_of_foreign_nil {ls : ListenerSet (Role κ)} (h : foreign ls = [])
    (changes : List Change) : others (ls.calls changes) = [] := by
  have ht : ∀ topic, (ls.onTopic topic).filterMap Role.foreign? = [] := by
    intro topic
    rw [foreign_onTopic, h]
    rfl
  by_cases hc : changes = []
  · rw [hc]
    rfl
  · rw [others_calls (fun name => ht (.flag name)) hc, ht]

theorem others_calls_of_anyChange {ls : ListenerSet (Role κ)} {id : ListenerId} {k : κ}
    (h : foreign ls = [(id, .anyChange, k)]) {changes : List Change} (hc : changes ≠ []) :
    others (ls.calls changes) = [k] := by
  have ht : ∀ name, (ls.onTopic (.flag name)).filterMap Role.foreign? = [] := by
    intro name
    rw [foreign_onTopic, h]
    rfl
  rw [others_calls ht hc, foreign_onTopic, h]
  rfl

theorem filter_eq_find?_of_nodup {α β : Type} [DecidableEq β] {f : α → β} {as : List α}
    (h : (as.map f).Nodup) (b : β) :
    as.filter (fun a => f a = b) = (as.find? (fun a => f a = b)).toList := by
  induction as with
  | nil => rfl
  | cons a as ih =>
    rw [List.map_cons, List.nodup_cons] at h
    by_cases hb : f a = b
    · rw [List.filter_cons_of_pos (by simpa using hb), List.find?_cons_of_pos (by simpa using hb)]
      refine congrArg (a :: ·) (List.filter_eq_nil_iff.mpr fun c hc => ?_)
      intro hcb
      exact h.1 (hb ▸ of_decide_eq_true hcb ▸ List.mem_map_of_mem hc)
    · rw [List.filter_cons_of_neg (by simpa using hb), List.find?_cons_of_neg (by simpa using hb),
        ih h.2]

namespace Wired

variable {r : Registry} {ls : ListenerSet (Role κ)}

/-- Among the listeners on a flag there is one of the registry if the flag has a group. -/
theorem flags_onTopic_flag (h : Wired r ls) (name : String) :
    (ls.onTopic (.flag name)).filterMap Role.flag? =
      ((r.group? name).map Group.flag).toList := by
  have hp : r.groups.filter ((fun w => decide (w.2.1 = .flag name)) ∘ Group.wire) =
      (r.group? name).toList := by
    rw [group?, ← filter_eq_find?_of_nodup h.flags_nodup]
    refine List.filter_congr fun g _ => decide_eq_decide.mpr ?_
    exact ⟨fun h => Topic.flag.inj h, fun h => congrArg Topic.flag h⟩
  rw [flags_onTopic, h.own_eq, List.filter_map, List.map_map, hp]
  cases r.group? name <;> rfl

/-- Among the listeners on any change there is none of the registry. -/
theorem flags_onTopic_anyChange (h : Wired r ls) :
    (ls.onTopic .anyChange).filterMap Role.flag? = [] := by
  rw [flags_onTopic, h.own_eq, List.filter_map, List.map_map]
  refine List.map_eq_nil_iff.mpr (List.filter_eq_nil_iff.mpr fun g _ ht => ?_)
  have ht : decide (Topic.flag g.flag = .anyChange) = true := ht
  cases of_decide_eq_true ht

theorem hear_flag (h : Wired r ls) (name : String) (changes : List Change) :
    r.hear ((ls.onTopic (.flag name)).map (fun role => ⟨role, changes⟩)) =
      r.dispatch name changes := by
  rw [hear_map_roles, h.flags_onTopic_flag]
  cases hg : r.group? name with
  | none =>
    rw [dispatch_of_no_group hg]
    rfl
  | some g =>
    show r.dispatch g.flag changes = _
    rw [(mem_of_group? hg).2]

/-- **An emission reaches every group once for each change of its flag, in the order of the
changes.** -/
theorem hear_calls (h : Wired r ls) (changes : List Change) :
    r.hear (ls.calls changes) = r.announce changes := by
  have hflags : ∀ (cs : List Change) (q : Registry), q.groups = r.groups →
      q.hear (cs.flatMap (fun c => (ls.onTopic (.flag c.name)).map (fun role => ⟨role, [c]⟩))) =
        q.announce cs := by
    intro cs
    induction cs with
    | nil => exact fun q _ => rfl
    | cons c cs ih =>
      intro q hq
      rw [List.flatMap_cons, hear_append, (h.of_groups_eq hq).hear_flag, announce_cons]
      exact ih _ ((groups_dispatch q c.name [c]).trans hq)
  rw [ListenerSet.calls]
  split
  next he => rw [List.isEmpty_iff.mp he, hear_nil, announce_nil]
  next =>
    rw [hear_append, hflags changes r rfl, hear_map_roles, h.flags_onTopic_anyChange,
      List.foldl_nil]

end Wired

end Registry

end FeatureFlags
