import FeatureFlags.Proofs.Registry.Wiring

/-!
# Single streams of a registry

What the operations of a registry make of one of its streams.

* `Registry.Member`    the streams of a group, and how they come and go;
* `Registry.Tracks`    a stream in the hands of its reader, with one lemma for each operation;
* `Registry.Dropped`   a stream that is gone for good;
* `Registry.Fresh`     the numbers of new streams are new;
* `Registry.Silent`    a registry that is not enabled has given nothing to anybody;
* `Registry.Over`      the streams that a registry had are over in a later one.
-/

namespace FeatureFlags.Registry

variable {κ : Type}

/-! ## streams by number -/

theorem find?_map_id {f : Stream → Stream} (hf : ∀ s, (f s).id = s.id) (ss : List Stream)
    (id : StreamId) :
    (ss.map f).find? (fun s => s.id = id) = (ss.find? (fun s => s.id = id)).map f := by
  rw [List.find?_map]
  congr 2
  funext s
  rw [Function.comp_apply, hf]

theorem id_give (members : List StreamId) (values : List Json) (s : Stream) :
    (s.give members values).id = s.id := by
  rw [Stream.give]
  split <;> rfl

theorem id_takeAll (id : StreamId) (s : Stream) : (s.takeAll id).id = s.id := by
  rw [Stream.takeAll]
  split <;> rfl

section
variable (r : Registry) (ls : ListenerSet (Role κ))

theorem streams_subscribe (flag : String) :
    (r.subscribe ls flag).1.streams = r.streams ++ [⟨r.next, flag, [], 0⟩] := by
  rw [subscribe]
  cases r.group? flag <;> rfl

theorem next_subscribe (flag : String) : (r.subscribe ls flag).1.next = r.next + 1 := by
  rw [subscribe]
  cases r.group? flag <;> rfl

theorem id_subscribe (flag : String) : (r.subscribe ls flag).2.2 = r.next := by
  rw [subscribe]
  cases r.group? flag <;> rfl

theorem enabled_subscribe (flag : String) : (r.subscribe ls flag).1.enabled = r.enabled := by
  rw [subscribe]
  cases r.group? flag <;> rfl

theorem detach_fields (flag : String) (id : StreamId) :
    (r.detach ls flag id).1.streams = r.streams ∧ (r.detach ls flag id).1.next = r.next ∧
      (r.detach ls flag id).1.enabled = r.enabled := by
  rw [detach]
  cases r.group? flag with
  | none => exact ⟨rfl, rfl, rfl⟩
  | some g => by_cases h : (g.leave flag id).members.isEmpty <;> simp [h]

theorem streams_unsubscribe (id : StreamId) :
    (r.unsubscribe ls id).1.streams = r.streams.filter (fun s => s.id ≠ id) := by
  rw [unsubscribe]
  cases h : r.stream? id with
  | none =>
    refine (List.filter_eq_self.mpr fun s hs => ?_).symm
    simpa using List.find?_eq_none.mp h s hs
  | some s => exact (detach_fields _ ls s.flag id).1

theorem next_unsubscribe (id : StreamId) : (r.unsubscribe ls id).1.next = r.next := by
  rw [unsubscribe]
  cases r.stream? id with
  | none => rfl
  | some s => exact (detach_fields _ ls s.flag id).2.1

theorem enabled_unsubscribe (id : StreamId) :
    (r.unsubscribe ls id).1.enabled = r.enabled := by
  rw [unsubscribe]
  cases r.stream? id with
  | none => rfl
  | some s => exact (detach_fields _ ls s.flag id).2.2

theorem stream?_subscribe (flag : String) {id : StreamId} (h : id < r.next) :
    (r.subscribe ls flag).1.stream? id = r.stream? id := by
  rw [stream?, streams_subscribe, List.find?_append, stream?,
    List.find?_cons_of_neg (by simpa using Nat.ne_of_gt h), List.find?_nil, Option.or_none]

theorem stream?_unsubscribe (i id : StreamId) :
    (r.unsubscribe ls i).1.stream? id = if i = id then none else r.stream? id := by
  rw [stream?, streams_unsubscribe, List.find?_filter]
  by_cases h : i = id
  · subst h
    simp
  · rw [if_neg h, stream?]
    congr 1
    funext s
    by_cases hs : s.id = id
    · simp [hs, Ne.symm h]
    · simp [hs]

theorem stream?_take (i id : StreamId) :
    (r.take i).1.stream? id =
      if i = id then (r.stream? id).map (Stream.takeAll id) else r.stream? id := by
  rw [take]
  cases hi : r.stream? i with
  | none =>
    by_cases h : i = id
    · subst h
      rw [if_pos rfl, hi]
      rfl
    · rw [if_neg h]
  | some s =>
    show (r.streams.map (Stream.takeAll i)).find? _ = _
    rw [find?_map_id (id_takeAll i)]
    by_cases h : i = id
    · subst h
      rw [if_pos rfl]
      rfl
    · rw [if_neg h, stream?]
      cases hs : r.streams.find? (fun s => s.id = id) with
      | none => rfl
      | some t =>
        have ht : t.id = id := by simpa using List.find?_some hs
        rw [Option.map_some, Stream.takeAll, if_neg (fun e => h (e.symm.trans ht))]

theorem next_take (i : StreamId) : (r.take i).1.next = r.next := by
  rw [take]
  cases r.stream? i <;> rfl

theorem groups_take (i : StreamId) : (r.take i).1.groups = r.groups := by
  rw [take]
  cases r.stream? i <;> rfl

theorem enabled_take (i : StreamId) : (r.take i).1.enabled = r.enabled := by
  rw [take]
  cases r.stream? i <;> rfl

end

/-! ## members of groups -/

/-- The group of a flag has a stream. -/
def Member (r : Registry) (flag : String) (id : StreamId) : Prop :=
  ∃ g ∈ r.groups, g.flag = flag ∧ id ∈ g.members

theorem attached_iff {r : Registry} {id : StreamId} :
    r.attached id = true ↔ ∃ flag, r.Member flag id := by
  rw [attached, List.any_eq_true]
  constructor
  · rintro ⟨g, hg, hm⟩
    exact ⟨g.flag, g, hg, rfl, List.contains_iff_mem.mp hm⟩
  · rintro ⟨flag, g, hg, -, hm⟩
    exact ⟨g, hg, List.contains_iff_mem.mpr hm⟩

theorem mem_join {flag : String} {id m : StreamId} {g : Group} :
    m ∈ (g.join flag id).members ↔ m ∈ g.members ∨ (g.flag = flag ∧ m = id) := by
  rw [Group.join]
  by_cases h : g.flag = flag <;> simp [h]

theorem mem_leave {flag : String} {id m : StreamId} {g : Group} :
    m ∈ (g.leave flag id).members ↔ m ∈ g.members ∧ ¬ (g.flag = flag ∧ m = id) := by
  rw [Group.leave]
  by_cases h : g.flag = flag <;> simp [h]

/-- A new stream is a member of the group of its flag, and nothing else changes. -/
theorem member_subscribe {r : Registry} {ls : ListenerSet (Role κ)} {flag f : String}
    {m : StreamId} :
    (r.subscribe ls flag).1.Member f m ↔ r.Member f m ∨ (f = flag ∧ m = r.next) := by
  rw [subscribe]
  cases hg : r.group? flag with
  | none =>
    show (∃ g ∈ r.groups ++ [⟨flag, ls.next, [r.next]⟩], g.flag = f ∧ m ∈ g.members) ↔ _
    rw [Member]
    constructor
    · rintro ⟨g, hg, hf, hm⟩
      rcases List.mem_append.mp hg with hg | hg
      · exact .inl ⟨g, hg, hf, hm⟩
      · cases List.mem_singleton.mp hg
        exact .inr ⟨hf.symm, List.mem_singleton.mp hm⟩
    · rintro (⟨g, hg, hf, hm⟩ | ⟨rfl, rfl⟩)
      · exact ⟨g, List.mem_append_left _ hg, hf, hm⟩
      · exact ⟨_, List.mem_append_right _ (List.mem_singleton_self _), rfl,
          List.mem_singleton_self _⟩
  | some k =>
    obtain ⟨hk, hkf⟩ := mem_of_group? hg
    show (∃ g ∈ r.groups.map (Group.join flag r.next), g.flag = f ∧ m ∈ g.members) ↔ _
    rw [Member]
    constructor
    · rintro ⟨g, hg, hf, hm⟩
      obtain ⟨j, hj, rfl⟩ := List.mem_map.mp hg
      rw [flag_join] at hf
      rcases mem_join.mp hm with hm | ⟨hjf, rfl⟩
      · exact .inl ⟨j, hj, hf, hm⟩
      · exact .inr ⟨hf.symm.trans hjf, rfl⟩
    · rintro (⟨g, hg, hf, hm⟩ | ⟨rfl, rfl⟩)
      · exact ⟨_, List.mem_map_of_mem hg, (flag_join _ _ g).trans hf, mem_join.mpr (.inl hm)⟩
      · exact ⟨_, List.mem_map_of_mem hk, (flag_join _ _ k).trans hkf,
          mem_join.mpr (.inr ⟨hkf, rfl⟩)⟩

/-- A stream that is detached leaves its group, and nothing else changes: a group that goes with it
had no other member. -/
theorem Wired.member_detach {r : Registry} {ls : ListenerSet (Role κ)} (h : Wired r ls)
    {flag f : String} {id m : StreamId} :
    (r.detach ls flag id).1.Member f m ↔ r.Member f m ∧ ¬ (f = flag ∧ m = id) := by
  rw [Registry.detach]
  cases hg : r.group? flag with
  | none =>
    refine ⟨fun hm => ⟨hm, ?_⟩, And.left⟩
    rintro ⟨rfl, rfl⟩
    obtain ⟨g, hg', hf, -⟩ := hm
    exact not_mem_flags_of_group? hg (hf ▸ List.mem_map_of_mem hg')
  | some k =>
    obtain ⟨hk, rfl⟩ := mem_of_group? hg
    show Member (if _ then _ else _ : Registry × ListenerSet (Role κ)).1 f m ↔ _
    split
    next he =>
      show (∃ g ∈ r.groups.filter (fun g => g.flag ≠ k.flag), g.flag = f ∧ m ∈ g.members) ↔ _
      constructor
      · rintro ⟨g, hg, hf, hm⟩
        obtain ⟨hg, hne⟩ := List.mem_filter.mp hg
        exact ⟨⟨g, hg, hf, hm⟩, fun e => of_decide_eq_true hne (hf.trans e.1)⟩
      · rintro ⟨⟨g, hg, hf, hm⟩, hne⟩
        refine ⟨g, List.mem_filter.mpr ⟨hg, decide_eq_true fun hgk => ?_⟩, hf, hm⟩
        cases List.inj_on_of_nodup_map h.flags_nodup hg hk hgk
        have : m ∈ (k.leave k.flag id).members :=
          mem_leave.mpr ⟨hm, fun e => hne ⟨hf.symm, e.2⟩⟩
        rw [List.isEmpty_iff.mp he] at this
        cases this
    next =>
      show (∃ g ∈ r.groups.map (Group.leave k.flag id), g.flag = f ∧ m ∈ g.members) ↔ _
      constructor
      · rintro ⟨g, hg, hf, hm⟩
        obtain ⟨j, hj, rfl⟩ := List.mem_map.mp hg
        rw [flag_leave] at hf
        obtain ⟨hm, hne⟩ := mem_leave.mp hm
        exact ⟨⟨j, hj, hf, hm⟩, fun e => hne ⟨hf.trans e.1, e.2⟩⟩
      · rintro ⟨⟨g, hg, hf, hm⟩, hne⟩
        exact ⟨_, List.mem_map_of_mem hg, (flag_leave _ _ g).trans hf,
          mem_leave.mpr ⟨hm, fun e => hne ⟨hf.symm.trans e.1, e.2⟩⟩⟩

/-- A stream that is dropped leaves its group, and nothing else changes. -/
theorem Wired.member_unsubscribe {r : Registry} {ls : ListenerSet (Role κ)} (h : Wired r ls)
    {f : String} {i m : StreamId} :
    (r.unsubscribe ls i).1.Member f m ↔
      r.Member f m ∧ ∀ s, r.stream? i = some s → ¬ (f = s.flag ∧ m = i) := by
  rw [Registry.unsubscribe]
  cases hs : r.stream? i with
  | none => exact ⟨fun hm => ⟨hm, fun s hs => absurd hs.symm (Option.some_ne_none s)⟩, And.left⟩
  | some s =>
    have hw : Wired { r with streams := r.streams.filter (fun s => s.id ≠ i) } ls :=
      h.of_groups_eq rfl
    refine hw.member_detach.trans (and_congr Iff.rfl ?_)
    exact ⟨fun hn t ht => Option.some.inj ht ▸ hn, fun hn => hn s rfl⟩

/-- Membership depends on the groups only. -/
theorem member_congr {r q : Registry} (h : q.groups = r.groups) (f : String) (m : StreamId) :
    q.Member f m ↔ r.Member f m := by
  rw [Member, h]
  rfl

theorem attached_congr {r q : Registry} {m : StreamId}
    (h : ∀ f, q.Member f m ↔ r.Member f m) : q.attached m = r.attached m := by
  rw [Bool.eq_iff_iff, attached_iff, attached_iff]
  exact exists_congr h

/-! ## one stream -/

/-- the values of a flag among changes -/
def news (flag : String) (changes : List Change) : List Json :=
  (changes.filter (fun c => c.name = flag)).map valueOf

theorem news_nil (flag : String) : news flag [] = [] := rfl
theorem news_cons (flag : String) (c : Change) (cs : List Change) :
    news flag (c :: cs) = (if c.name = flag then [valueOf c] else []) ++ news flag cs := by
  rw [news, List.filter_cons]
  by_cases h : c.name = flag <;> simp [h, news]

/-- the stream, with more values -/
def Stream.push (s : Stream) (values : List Json) : Stream :=
  { s with delivered := s.delivered ++ values }

theorem id_push (s : Stream) (values : List Json) : (s.push values).id = s.id := rfl
theorem flag_push (s : Stream) (values : List Json) : (s.push values).flag = s.flag := rfl
theorem push_nil (s : Stream) : s.push [] = s := by
  rw [Stream.push, List.append_nil]
theorem push_push (s : Stream) (us vs : List Json) : (s.push us).push vs = s.push (us ++ vs) := by
  rw [Stream.push, Stream.push, Stream.push, List.append_assoc]

/-- A stream in the hands of its reader: it goes by its number, and no group but that of its flag
has it. -/
structure Tracks (r : Registry) (s : Stream) : Prop where
  stream?_eq : r.stream? s.id = some s
  id_lt : s.id < r.next
  taken_le : s.taken ≤ s.delivered.length
  flag_eq : ∀ f, r.Member f s.id → f = s.flag

namespace Tracks

variable {r : Registry} {ls : ListenerSet (Role κ)} {s : Stream}

theorem waiting_push (h : Tracks r s) (values : List Json) :
    (s.push values).waiting = s.waiting ++ values := List.drop_append_of_le_length h.taken_le

theorem attached_iff_member (h : Tracks r s) : r.attached s.id = true ↔ r.Member s.flag s.id := by
  rw [attached_iff]
  refine ⟨fun ⟨f, hf⟩ => ?_, fun hf => ⟨_, hf⟩⟩
  exact h.flag_eq f hf ▸ hf

theorem of_member (h : Tracks r s) {q : Registry} (hs : q.stream? s.id = r.stream? s.id)
    (hn : r.next ≤ q.next) (hm : ∀ f, q.Member f s.id ↔ r.Member f s.id) : Tracks q s :=
  ⟨hs.trans h.stream?_eq, Nat.lt_of_lt_of_le h.id_lt hn, h.taken_le,
    fun f hf => h.flag_eq f ((hm f).mp hf)⟩

/-- Another stream does not touch it. -/
theorem member_of_subscribe (h : Tracks r s) (flag f : String) :
    (r.subscribe ls flag).1.Member f s.id ↔ r.Member f s.id := by
  rw [member_subscribe]
  exact ⟨fun e => e.resolve_right fun e => Nat.ne_of_lt h.id_lt e.2, .inl⟩

theorem subscribe (h : Tracks r s) (flag : String) : Tracks (r.subscribe ls flag).1 s :=
  h.of_member (stream?_subscribe r ls flag h.id_lt)
    (Nat.le_of_succ_le (Nat.le_of_eq (next_subscribe r ls flag).symm))
    (h.member_of_subscribe flag)

theorem member_of_unsubscribe (hw : Wired r ls) {i : StreamId} (hi : s.id ≠ i) (f : String) :
    (r.unsubscribe ls i).1.Member f s.id ↔ r.Member f s.id := by
  rw [hw.member_unsubscribe]
  exact and_iff_left fun _ _ e => hi e.2

theorem unsubscribe (h : Tracks r s) (hw : Wired r ls) {i : StreamId} (hi : s.id ≠ i) :
    Tracks (r.unsubscribe ls i).1 s := by
  refine h.of_member ?_ (Nat.le_of_eq (next_unsubscribe r ls i).symm)
    (member_of_unsubscribe hw hi)
  rw [stream?_unsubscribe, if_neg (Ne.symm hi)]

theorem clear (h : Tracks r s) : Tracks (r.clear ls).1 s :=
  ⟨h.stream?_eq, h.id_lt, h.taken_le, fun _ ⟨_, hg, _⟩ => nomatch hg⟩

theorem take_other (h : Tracks r s) {i : StreamId} (hi : i ≠ s.id) : Tracks (r.take i).1 s := by
  refine h.of_member ?_ (Nat.le_of_eq (next_take r i).symm)
    (fun f => member_congr (groups_take r i) f s.id)
  rw [stream?_take, if_neg hi]

theorem take_output (h : Tracks r s) : (r.take s.id).2 = s.waiting := by
  rw [take, h.stream?_eq]

theorem take_self (h : Tracks r s) : Tracks (r.take s.id).1 (s.takeAll s.id) := by
  have ht : s.takeAll s.id = { s with taken := s.delivered.length } := if_pos rfl
  have hid : (s.takeAll s.id).id = s.id := id_takeAll _ s
  refine ⟨?_, ?_, ?_, fun f hf => ?_⟩
  · rw [hid, stream?_take, if_pos rfl, h.stream?_eq]
    rfl
  · rw [hid, next_take]
    exact h.id_lt
  · exact ht ▸ Nat.le_refl _
  · rw [hid, member_congr (groups_take r s.id)] at hf
    exact ht ▸ h.flag_eq f hf

/-- A call on its flag gives it the values if the registry is enabled and it is still in its group;
a call on another flag gives it nothing. -/
theorem stream?_dispatch (h : Tracks r s) (hn : (r.groups.map Group.flag).Nodup) (flag : String)
    (changes : List Change) :
    (r.dispatch flag changes).stream? s.id = some (s.push
      (if r.enabled ∧ r.attached s.id ∧ flag = s.flag then changes.map valueOf else [])) := by
  by_cases he : r.enabled = true
  · cases hg : r.group? flag with
    | none =>
      rw [dispatch_of_no_group hg, h.stream?_eq, if_neg, push_nil]
      rintro ⟨-, ha, rfl⟩
      obtain ⟨k, hk, hkf, -⟩ := h.attached_iff_member.mp ha
      exact not_mem_flags_of_group? hg (hkf ▸ List.mem_map_of_mem hk)
    | some g =>
      obtain ⟨hm, rfl⟩ := mem_of_group? hg
      have hstream : (r.dispatch g.flag changes).stream? s.id =
          some (s.give g.members (changes.map valueOf)) := by
        rw [dispatch, if_pos he, hg]
        show (r.streams.map _).find? _ = _
        rw [find?_map_id (id_give _ _), show r.streams.find? _ = _ from h.stream?_eq]
        rfl
      have hiff : s.id ∈ g.members ↔ r.enabled ∧ r.attached s.id ∧ g.flag = s.flag := by
        constructor
        · intro hs
          have hmem : r.Member g.flag s.id := ⟨g, hm, rfl, hs⟩
          exact ⟨he, attached_iff.mpr ⟨_, hmem⟩, h.flag_eq _ hmem⟩
        · rintro ⟨-, ha, hf⟩
          obtain ⟨k, hk, hkf, hs⟩ := h.attached_iff_member.mp ha
          cases List.inj_on_of_nodup_map hn hm hk (hf.trans hkf.symm)
          exact hs
      rw [hstream, Stream.give]
      by_cases hs : s.id ∈ g.members
      · rw [if_pos (List.contains_iff_mem.mpr hs), if_pos (hiff.mp hs)]
        rfl
      · rw [if_neg (fun e => hs (List.contains_iff_mem.mp e)), if_neg (fun e => hs (hiff.mpr e)),
          push_nil]
  · rw [dispatch_of_disabled (Bool.eq_false_iff.mpr he), h.stream?_eq, if_neg (fun e => he e.1),
      push_nil]

theorem dispatch (h : Tracks r s) (hn : (r.groups.map Group.flag).Nodup) (flag : String)
    (changes : List Change) :
    Tracks (r.dispatch flag changes) (s.push
      (if r.enabled ∧ r.attached s.id ∧ flag = s.flag then changes.map valueOf else [])) := by
  refine ⟨h.stream?_dispatch hn flag changes, ?_, ?_, fun f hf => ?_⟩
  · rw [next_dispatch]
    exact h.id_lt
  · rw [Stream.push, List.length_append]
    exact Nat.le_add_right_of_le h.taken_le
  · exact h.flag_eq f ((member_congr (groups_dispatch r flag changes) f s.id).mp hf)

/-- An emission gives it the values of its flag, one after the other. -/
theorem announce (h : Tracks r s) (hn : (r.groups.map Group.flag).Nodup) (changes : List Change) :
    Tracks (r.announce changes)
      (s.push (if r.enabled ∧ r.attached s.id then news s.flag changes else [])) := by
  induction changes generalizing r s with
  | nil =>
    rw [news_nil, ite_self, push_nil]
    exact h
  | cons c cs ih =>
    have hg := groups_dispatch r c.name [c]
    have hd := ih (h.dispatch hn c.name [c]) (hg.symm ▸ hn)
    rw [id_push, flag_push, enabled_dispatch, attached_congr fun f => member_congr hg f s.id,
      push_push] at hd
    rw [announce_cons, news_cons]
    refine cast (congrArg (fun values => Tracks _ (s.push values)) ?_) hd
    by_cases he : r.enabled ∧ r.attached s.id
    · rw [if_pos he, if_pos he]
      by_cases hf : c.name = s.flag
      · rw [if_pos hf, if_pos ⟨he.1, he.2, hf⟩]
        rfl
      · rw [if_neg hf, if_neg fun e => hf e.2.2]
    · rw [if_neg he, if_neg he, if_neg fun e => he ⟨e.1, e.2.1⟩]
      rfl

end Tracks

/-! ## dropped streams -/

/-- The number of a stream that is dropped, and so never given out again. -/
structure Dropped (r : Registry) (id : StreamId) : Prop where
  stream?_eq : r.stream? id = none
  id_lt : id < r.next

namespace Dropped

variable {r : Registry} {id : StreamId}

theorem of_unsubscribe (h : id < r.next) (ls : ListenerSet (Role κ)) :
    Dropped (r.unsubscribe ls id).1 id :=
  ⟨by rw [stream?_unsubscribe, if_pos rfl], (next_unsubscribe r ls id).symm ▸ h⟩

theorem subscribe (h : Dropped r id) (ls : ListenerSet (Role κ)) (flag : String) :
    Dropped (r.subscribe ls flag).1 id := by
  refine ⟨(stream?_subscribe r ls flag h.id_lt).trans h.stream?_eq, ?_⟩
  exact (next_subscribe r ls flag).symm ▸ Nat.lt_succ_of_lt h.id_lt

theorem unsubscribe (h : Dropped r id) (ls : ListenerSet (Role κ)) (i : StreamId) :
    Dropped (r.unsubscribe ls i).1 id := by
  refine ⟨?_, (next_unsubscribe r ls i).symm ▸ h.id_lt⟩
  rw [stream?_unsubscribe, h.stream?_eq, ite_self]

theorem take (h : Dropped r id) (i : StreamId) : Dropped (r.take i).1 id := by
  refine ⟨?_, (next_take r i).symm ▸ h.id_lt⟩
  rw [stream?_take, h.stream?_eq, Option.map_none, ite_self]

theorem take_output (h : Dropped r id) : (r.take id).2 = [] := by
  rw [Registry.take, h.stream?_eq]

theorem dispatch (h : Dropped r id) (flag : String) (changes : List Change) :
    Dropped (r.dispatch flag changes) id := by
  refine ⟨?_, (next_dispatch r flag changes).symm ▸ h.id_lt⟩
  rw [Registry.dispatch]
  by_cases he : r.enabled = true
  · rw [if_pos he]
    cases r.group? flag with
    | none => exact h.stream?_eq
    | some g =>
      show (r.streams.map _).find? _ = none
      rw [find?_map_id (id_give _ _), show r.streams.find? _ = _ from h.stream?_eq]
      rfl
  · rw [if_neg he]
    exact h.stream?_eq

theorem announce (h : Dropped r id) (changes : List Change) : Dropped (r.announce changes) id := by
  induction changes generalizing r with
  | nil => exact h
  | cons c cs ih => exact ih (h.dispatch c.name [c])

end Dropped

/-! ## new streams -/

/-- The number of the next stream was never given out. -/
structure Fresh (r : Registry) : Prop where
  stream_lt : ∀ s ∈ r.streams, s.id < r.next
  member_lt : ∀ f m, r.Member f m → m < r.next

theorem fresh_empty : Fresh empty :=
  ⟨nofun, fun _ _ ⟨_, h, _⟩ => nomatch h⟩

theorem Fresh.of_subset {r q : Registry} (h : Fresh r) (hn : q.next = r.next)
    (hs : ∀ s ∈ q.streams, ∃ t ∈ r.streams, t.id = s.id)
    (hm : ∀ f m, q.Member f m → r.Member f m) : Fresh q := by
  refine ⟨fun s hq => ?_, fun f m hq => hn ▸ h.member_lt f m (hm f m hq)⟩
  obtain ⟨t, ht, hid⟩ := hs s hq
  exact hn ▸ hid ▸ h.stream_lt t ht

theorem Fresh.map_streams {r q : Registry} (h : Fresh r) (hn : q.next = r.next)
    (hg : q.groups = r.groups) {f : Stream → Stream} (hf : ∀ s, (f s).id = s.id)
    (hs : q.streams = r.streams.map f) : Fresh q := by
  refine h.of_subset hn (fun s hq => ?_) (fun f m => (member_congr hg f m).mp)
  rw [hs] at hq
  obtain ⟨t, ht, rfl⟩ := List.mem_map.mp hq
  exact ⟨t, ht, (hf t).symm⟩

theorem Fresh.subscribe {r : Registry} (h : Fresh r) (ls : ListenerSet (Role κ)) (flag : String) :
    Fresh (r.subscribe ls flag).1 := by
  constructor
  · intro s hs
    rw [streams_subscribe] at hs
    rw [next_subscribe]
    rcases List.mem_append.mp hs with hs | hs
    · exact Nat.lt_succ_of_lt (h.stream_lt s hs)
    · rw [List.mem_singleton.mp hs]
      exact Nat.lt_succ_self _
  · intro f m hm
    rw [next_subscribe]
    rcases member_subscribe.mp hm with hm | ⟨-, rfl⟩
    · exact Nat.lt_succ_of_lt (h.member_lt f m hm)
    · exact Nat.lt_succ_self _

theorem Fresh.dispatch {r : Registry} (h : Fresh r) (flag : String) (changes : List Change) :
    Fresh (r.dispatch flag changes) := by
  rw [Registry.dispatch]
  split
  · cases r.group? flag with
    | none => exact h
    | some g => exact h.map_streams rfl rfl (id_give g.members (changes.map valueOf)) rfl
  · exact h

theorem Fresh.announce {r : Registry} (h : Fresh r) (changes : List Change) :
    Fresh (r.announce changes) := by
  induction changes generalizing r with
  | nil => exact h
  | cons c cs ih => exact ih (h.dispatch c.name [c])

theorem Fresh.hear {r : Registry} (h : Fresh r) (calls : List (Call (Role κ))) :
    Fresh (r.hear calls) := by
  induction calls generalizing r with
  | nil => exact h
  | cons call calls ih =>
    rw [hear_cons]
    obtain ⟨role, changes⟩ := call
    cases role with
    | subscribers flag => exact ih (h.dispatch flag changes)
    | other k => exact ih h

theorem Fresh.take {r : Registry} (h : Fresh r) (i : StreamId) : Fresh (r.take i).1 := by
  rw [Registry.take]
  cases r.stream? i with
  | none => exact h
  | some s => exact h.map_streams rfl rfl (id_takeAll i) rfl

theorem Fresh.unsubscribe {r : Registry} (h : Fresh r) {ls : ListenerSet (Role κ)}
    (hw : Wired r ls) (i : StreamId) : Fresh (r.unsubscribe ls i).1 := by
  refine h.of_subset (next_unsubscribe r ls i) (fun s hs => ?_) (fun f m hm => ?_)
  · rw [streams_unsubscribe] at hs
    exact ⟨s, (List.mem_filter.mp hs).1, rfl⟩
  · exact (hw.member_unsubscribe.mp hm).1

/-- A new stream has nothing to hand out, and is in the group of its flag. -/
theorem Fresh.tracks_subscribe {r : Registry} (h : Fresh r) (ls : ListenerSet (Role κ))
    (flag : String) :
    Tracks (r.subscribe ls flag).1 ⟨r.next, flag, [], 0⟩ ∧
      (r.subscribe ls flag).1.attached r.next = true := by
  refine ⟨⟨?_, ?_, Nat.le_refl _, fun f hf => ?_⟩, ?_⟩
  · rw [stream?, streams_subscribe, List.find?_append, List.find?_eq_none.mpr, Option.none_or,
      List.find?_cons_of_pos (by exact decide_eq_true rfl)]
    intro s hs he
    exact Nat.ne_of_lt (h.stream_lt s hs) (of_decide_eq_true he)
  · rw [next_subscribe]
    exact Nat.lt_succ_self _
  · rcases member_subscribe.mp hf with hf | ⟨rfl, -⟩
    · exact absurd (h.member_lt f r.next hf) (Nat.lt_irrefl _)
    · rfl
  · exact attached_iff.mpr ⟨flag, member_subscribe.mpr (.inr ⟨rfl, rfl⟩)⟩

/-! ## registries that are not enabled -/

/-- Before it is enabled a registry has given nothing to anybody. -/
structure Silent (r : Registry) : Prop where
  disabled : r.enabled = false
  delivered_eq : ∀ s ∈ r.streams, s.delivered = []

namespace Silent

variable {r : Registry}

theorem of_empty : Silent empty := ⟨rfl, nofun⟩

theorem subscribe (h : Silent r) (ls : ListenerSet (Role κ)) (flag : String) :
    Silent (r.subscribe ls flag).1 := by
  refine ⟨(enabled_subscribe r ls flag).trans h.disabled, fun s hs => ?_⟩
  rw [streams_subscribe] at hs
  rcases List.mem_append.mp hs with hs | hs
  · exact h.delivered_eq s hs
  · rw [List.mem_singleton.mp hs]

theorem unsubscribe (h : Silent r) (ls : ListenerSet (Role κ)) (id : StreamId) :
    Silent (r.unsubscribe ls id).1 := by
  refine ⟨(enabled_unsubscribe r ls id).trans h.disabled, fun s hs => ?_⟩
  rw [streams_unsubscribe] at hs
  exact h.delivered_eq s (List.mem_filter.mp hs).1

theorem take (h : Silent r) (id : StreamId) : Silent (r.take id).1 := by
  refine ⟨(enabled_take r id).trans h.disabled, ?_⟩
  rw [Registry.take]
  cases r.stream? id with
  | none => exact h.delivered_eq
  | some t =>
    intro s hs
    obtain ⟨u, hu, rfl⟩ := List.mem_map.mp hs
    rw [Stream.takeAll]
    split <;> exact h.delivered_eq u hu

/-- There is nothing to take. -/
theorem take_output (h : Silent r) (id : StreamId) : (r.take id).2 = [] := by
  rw [Registry.take]
  cases hs : r.stream? id with
  | none => rfl
  | some s =>
    show s.waiting = []
    rw [Stream.waiting, h.delivered_eq s (List.mem_of_find?_eq_some hs), List.drop_nil]

theorem clear (h : Silent r) (ls : ListenerSet (Role κ)) : Silent (r.clear ls).1 :=
  ⟨h.disabled, h.delivered_eq⟩

theorem abandon (h : Silent r) : Silent r.abandon := ⟨rfl, h.delivered_eq⟩

/-- Calls of its listeners go unheard. -/
theorem hear (h : Silent r) (calls : List (Call (Role κ))) : r.hear calls = r := by
  induction calls with
  | nil => rfl
  | cons call calls ih =>
    obtain ⟨role, changes⟩ := call
    cases role with
    | subscribers flag =>
      show (r.dispatch flag changes).hear calls = r
      rw [dispatch_of_disabled h.disabled, ih]
    | other k => exact ih

end Silent

/-! ## streams that are over -/

/-- The streams that `q` ever handed out are attached no more in `r`, and got nothing since. -/
structure Over (q r : Registry) : Prop where
  next_le : q.next ≤ r.next
  member_ge : ∀ f m, r.Member f m → q.next ≤ m
  delivered_eq : ∀ id s, id < q.next → r.stream? id = some s →
    ∃ t, q.stream? id = some t ∧ s.delivered = t.delivered

/-- No stream becomes a member by leaving, wired or not. -/
theorem member_of_detach {r : Registry} {ls : ListenerSet (Role κ)} {flag f : String}
    {id m : StreamId} (h : (r.detach ls flag id).1.Member f m) : r.Member f m := by
  rw [detach] at h
  cases hg : r.group? flag with
  | none =>
    rw [hg] at h
    exact h
  | some k =>
    rw [hg] at h
    obtain ⟨g, hg, hf, hm⟩ := h
    by_cases he : (k.leave flag id).members.isEmpty = true
    · simp only [he, if_true] at hg
      exact ⟨g, (List.mem_filter.mp hg).1, hf, hm⟩
    · simp only [he] at hg
      obtain ⟨j, hj, rfl⟩ := List.mem_map.mp hg
      rw [flag_leave] at hf
      exact ⟨j, hj, hf, (mem_leave.mp hm).1⟩

theorem member_of_unsubscribe {r : Registry} {ls : ListenerSet (Role κ)} {f : String}
    {i m : StreamId} (h : (r.unsubscribe ls i).1.Member f m) : r.Member f m := by
  rw [unsubscribe] at h
  cases hs : r.stream? i with
  | none =>
    rw [hs] at h
    exact h
  | some s =>
    rw [hs] at h
    have hr : Member { r with streams := r.streams.filter (fun s => s.id ≠ i) } f m :=
      member_of_detach h
    exact hr

/-- A call gives nothing to streams that are attached no more. -/
theorem stream?_dispatch_of_not_attached {r : Registry} {id : StreamId}
    (h : r.attached id = false) (flag : String) (changes : List Change) :
    (r.dispatch flag changes).stream? id = r.stream? id := by
  rw [dispatch]
  split
  · cases hg : r.group? flag with
    | none => rfl
    | some g =>
      show (r.streams.map _).find? _ = _
      rw [find?_map_id (id_give _ _), stream?]
      cases hs : r.streams.find? (fun s => s.id = id) with
      | none => rfl
      | some s =>
        have hid : s.id = id := by simpa using List.find?_some hs
        have hn : ¬ g.members.contains s.id = true := by
          intro hm
          have hmem : r.Member g.flag id :=
            ⟨g, (mem_of_group? hg).1, rfl, hid ▸ List.contains_iff_mem.mp hm⟩
          rw [attached_iff.mpr ⟨_, hmem⟩] at h
          cases h
        rw [Option.map_some, Stream.give, if_neg hn]
  · rfl

namespace Over

variable {q r : Registry}

theorem not_attached (h : Over q r) {id : StreamId} (hid : id < q.next) :
    r.attached id = false := by
  rw [Bool.eq_false_iff, Ne, attached_iff]
  rintro ⟨f, hm⟩
  exact Nat.not_lt_of_le (h.member_ge f id hm) hid

theorem of_no_groups (hg : r.groups = []) (hs : r.streams = q.streams) (hn : r.next = q.next) :
    Over q r := by
  refine ⟨Nat.le_of_eq hn.symm, fun f m ⟨g, hm, _⟩ => ?_, fun id s _ h => ?_⟩
  · rw [hg] at hm
    cases hm
  · rw [stream?, hs] at h
    exact ⟨s, h, rfl⟩

/-- Groups that go, and streams that stay, leave all as it is. -/
theorem of_groups_subset (h : Over q r) {p : Registry} (hn : p.next = r.next)
    (hm : ∀ f m, p.Member f m → r.Member f m)
    (hs : ∀ id s, id < q.next → p.stream? id = some s →
      ∃ t, r.stream? id = some t ∧ s.delivered = t.delivered) : Over q p := by
  refine ⟨hn ▸ h.next_le, fun f m hp => h.member_ge f m (hm f m hp), fun id s hid hp => ?_⟩
  obtain ⟨t, ht, hst⟩ := hs id s hid hp
  obtain ⟨u, hu, htu⟩ := h.delivered_eq id t hid ht
  exact ⟨u, hu, hst.trans htu⟩

theorem subscribe (h : Over q r) (ls : ListenerSet (Role κ)) (flag : String) :
    Over q (r.subscribe ls flag).1 := by
  refine ⟨?_, fun f m hm => ?_, fun id s hid hs => ?_⟩
  · rw [next_subscribe]
    exact Nat.le_succ_of_le h.next_le
  · rcases member_subscribe.mp hm with hm | ⟨-, rfl⟩
    · exact h.member_ge f m hm
    · exact h.next_le
  · rw [stream?_subscribe r ls flag (Nat.lt_of_lt_of_le hid h.next_le)] at hs
    exact h.delivered_eq id s hid hs

theorem unsubscribe (h : Over q r) (ls : ListenerSet (Role κ)) (i : StreamId) :
    Over q (r.unsubscribe ls i).1 := by
  refine h.of_groups_subset (next_unsubscribe r ls i) (fun f m => member_of_unsubscribe)
    fun id s _ hs => ?_
  rw [stream?_unsubscribe] at hs
  split at hs
  · cases hs
  · exact ⟨s, hs, rfl⟩

theorem take (h : Over q r) (i : StreamId) : Over q (r.take i).1 := by
  refine h.of_groups_subset (next_take r i) (fun f m => (member_congr (groups_take r i) f m).mp)
    fun id s _ hs => ?_
  rw [stream?_take] at hs
  split at hs
  · obtain ⟨t, ht, rfl⟩ := Option.map_eq_some_iff.mp hs
    refine ⟨t, ht, ?_⟩
    rw [Stream.takeAll]
    split <;> rfl
  · exact ⟨s, hs, rfl⟩

theorem dispatch (h : Over q r) (flag : String) (changes : List Change) :
    Over q (r.dispatch flag changes) := by
  refine h.of_groups_subset (next_dispatch r flag changes)
    (fun f m => (member_congr (groups_dispatch r flag changes) f m).mp) fun id s hid hs => ?_
  rw [stream?_dispatch_of_not_attached (h.not_attached hid)] at hs
  exact ⟨s, hs, rfl⟩

theorem hear (h : Over q r) (calls : List (Call (Role κ))) : Over q (r.hear calls) := by
  induction calls generalizing r with
  | nil => exact h
  | cons call calls ih =>
    rw [hear_cons]
    obtain ⟨role, changes⟩ := call
    cases role with
    | subscribers flag => exact ih (h.dispatch flag changes)
    | other k => exact ih h

/-- Streams stay over when the groups go. -/
theorem without_groups (h : Over q r) {p : Registry} (hg : p.groups = [])
    (hs : p.streams = r.streams) (hn : p.next = r.next) : Over q p := by
  refine h.of_groups_subset hn (fun f m ⟨g, hm, _⟩ => ?_) fun id s _ hp => ?_
  · rw [hg] at hm
    cases hm
  · rw [stream?, hs] at hp
    exact ⟨s, hp, rfl⟩

end Over

end FeatureFlags.Registry
