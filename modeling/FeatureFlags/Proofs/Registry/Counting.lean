import FeatureFlags.Proofs.Registry.Delivery

/-!
# How many streams are open

A registry is the only one to listen to single flags on its connection.  Whatever is done to it, and
wherever between two calls of an emission, it has one group for every flag that has open streams,
and one listener for every group.

* `Deed`              an operation, or one of the calls of an emission;
* `Ledger`            the streams that are open, read off the deeds alone;
* `Registry.crew?`    the streams in the group of a flag, with one lemma for each operation;
* `Registry.flagOf?`  the flag of a stream, likewise;
* `Board.Counted`     registry, listeners and ledger agree;
* `Board.count_undergoAll`   so the streams are counted, and the listeners follow the count.
-/

namespace FeatureFlags.Registry

variable {κ : Type}

/-! ## deeds -/

/-- An operation, or one of the calls of an emission: those who are called may operate on the
registry before the next call is made. -/
inductive Deed (κ : Type) where
  | op (o : Op κ)
  | call (c : Call (Role κ))

namespace Board

def undergo (b : Board κ) : Deed κ → Board κ
  | .op o => b.step o
  | .call c => ⟨b.registry.receive c, b.listeners⟩

def undergoAll (b : Board κ) (ds : List (Deed κ)) : Board κ := ds.foldl undergo b

end Board

/-! ## the ledger -/

/-- The streams that are open, with their flags, and the number of the next one. -/
structure Ledger where
  streams : List (StreamId × String)
  next : StreamId

namespace Ledger

def empty : Ledger := ⟨[], 0⟩

def enter (l : Ledger) : Deed κ → Ledger
  | .op (.subscribe flag) => ⟨l.streams ++ [(l.next, flag)], l.next + 1⟩
  | .op (.drop id) => ⟨l.streams.filter (fun e => e.1 ≠ id), l.next⟩
  | .op .clear => ⟨[], l.next⟩
  | _ => l

/-- the streams that were opened since the registry was cleared last, without those dropped -/
def ofDeeds (ds : List (Deed κ)) : Ledger := ds.foldl enter empty

/-- the open streams on a flag -/
def on (l : Ledger) (flag : String) : List StreamId :=
  (l.streams.filter (fun e => e.2 = flag)).map Prod.fst

theorem mem_on {l : Ledger} {flag : String} {id : StreamId} :
    id ∈ l.on flag ↔ (id, flag) ∈ l.streams := by
  rw [on, List.mem_map]
  constructor
  · rintro ⟨⟨i, f⟩, he, rfl⟩
    obtain ⟨hm, hf⟩ := List.mem_filter.mp he
    exact of_decide_eq_true hf ▸ hm
  · intro h
    exact ⟨(id, flag), List.mem_filter.mpr ⟨h, decide_eq_true rfl⟩, rfl⟩

theorem on_subscribe (l : Ledger) (flag f : String) :
    (l.enter (.op (.subscribe flag : Op κ))).on f =
      l.on f ++ if flag = f then [l.next] else [] := by
  show ((l.streams ++ [(l.next, flag)]).filter _).map _ = _
  rw [List.filter_append, List.map_append, on]
  by_cases h : flag = f <;> simp [h]

theorem on_drop (l : Ledger) (id : StreamId) (f : String) :
    (l.enter (.op (.drop id : Op κ))).on f = (l.on f).filter (fun m => m ≠ id) := by
  show ((l.streams.filter _).filter _).map _ = _
  rw [on, List.filter_map, List.filter_filter, List.filter_filter]
  exact congrArg (List.map Prod.fst) (List.filter_congr fun e _ => Bool.and_comm _ _)

/-- No stream below a number is open. -/
structure From (n : StreamId) (l : Ledger) : Prop where
  le_next : n ≤ l.next
  le_stream : ∀ e ∈ l.streams, n ≤ e.1

theorem From.enter {n : StreamId} {l : Ledger} (h : From n l) (d : Deed κ) :
    From n (l.enter d) := by
  cases d with
  | call c => exact h
  | op o =>
    cases o with
    | subscribe flag =>
      refine ⟨Nat.le_succ_of_le h.le_next, fun e he => ?_⟩
      rcases List.mem_append.mp he with he | he
      · exact h.le_stream e he
      · rw [List.mem_singleton.mp he]
        exact h.le_next
    | drop id => exact ⟨h.le_next, fun e he => h.le_stream e (List.mem_filter.mp he).1⟩
    | clear => exact ⟨h.le_next, nofun⟩
    | _ => exact h

theorem From.foldl {n : StreamId} {l : Ledger} (h : From n l) (ds : List (Deed κ)) :
    From n (ds.foldl Ledger.enter l) := by
  induction ds generalizing l with
  | nil => exact h
  | cons d ds ih => exact ih (h.enter d)

/-- After the registry was cleared only later streams are open. -/
theorem from_ofDeeds_clear (before after : List (Deed κ)) :
    From (ofDeeds before).next (ofDeeds (before ++ .op .clear :: after)) := by
  have hc : From (ofDeeds before).next ((ofDeeds before).enter (.op .clear : Deed κ)) :=
    ⟨Nat.le_refl _, nofun⟩
  show From _ ((before ++ .op .clear :: after).foldl enter empty)
  rw [List.foldl_append, List.foldl_cons]
  exact hc.foldl after

end Ledger

/-! ## the streams in a group -/

/-- the streams in the group of a flag, if there is one -/
def crew? (r : Registry) (flag : String) : Option (List StreamId) :=
  (r.group? flag).map Group.members

/-- Nothing in place of an empty list: a group has streams. -/
def manned (ids : List StreamId) : Option (List StreamId) :=
  if ids.isEmpty then none else some ids

theorem manned_of_ne_nil {ids : List StreamId} (h : ids ≠ []) : manned ids = some ids := by
  rw [manned, if_neg (by simpa using h)]

theorem length_toList_manned (ids : List StreamId) :
    (manned ids).toList.length = if 0 < ids.length then 1 else 0 := by
  cases ids <;> rfl

theorem count_eq_length (r : Registry) (flag : String) :
    r.count flag = ((r.crew? flag).getD []).length := by
  rw [count, crew?]
  cases r.group? flag <;> rfl

theorem crew?_congr {q r : Registry} (h : q.groups = r.groups) (flag : String) :
    q.crew? flag = r.crew? flag := by
  rw [crew?, crew?, group?, group?, h]

/-- Groups that are changed, but not for another flag, are found as before. -/
theorem crew?_map {q r : Registry} {f : Group → Group} (hf : ∀ g, (f g).flag = g.flag)
    (hq : q.groups = r.groups.map f) (flag : String) :
    q.crew? flag = (r.group? flag).map (fun g => (f g).members) := by
  rw [crew?, group?, hq, List.find?_map, Option.map_map, group?]
  congr 2
  funext g
  rw [Function.comp_apply, hf]

theorem crew?_join {q r : Registry} {flag : String} {id : StreamId}
    (hq : q.groups = r.groups.map (Group.join flag id)) (f : String) :
    q.crew? f = (r.crew? f).map (fun ids => if flag = f then ids ++ [id] else ids) := by
  rw [crew?_map (flag_join flag id) hq, crew?, Option.map_map]
  cases hg : r.group? f with
  | none => rfl
  | some g =>
    have hgf : g.flag = f := (mem_of_group? hg).2
    by_cases h : flag = f <;> simp [Group.join, hgf, h, Ne.symm]

theorem crew?_leave {q r : Registry} {flag : String} {id : StreamId}
    (hq : q.groups = r.groups.map (Group.leave flag id)) (f : String) :
    q.crew? f =
      (r.crew? f).map (fun ids => if flag = f then ids.filter (fun m => m ≠ id) else ids) := by
  rw [crew?_map (flag_leave flag id) hq, crew?, Option.map_map]
  cases hg : r.group? f with
  | none => rfl
  | some g =>
    have hgf : g.flag = f := (mem_of_group? hg).2
    by_cases h : flag = f <;> simp [Group.leave, hgf, h, Ne.symm]

/-- Without the group of a flag the others are found as before. -/
theorem crew?_without {q r : Registry} {flag : String}
    (hq : q.groups = r.groups.filter (fun g => g.flag ≠ flag)) (f : String) :
    q.crew? f = if flag = f then none else r.crew? f := by
  rw [crew?, group?, hq, List.find?_filter, crew?, group?]
  by_cases h : flag = f
  · subst h
    rw [if_pos rfl, Option.map_eq_none_iff, List.find?_eq_none]
    simp
  · rw [if_neg h]
    congr 2
    funext g
    by_cases hg : g.flag = f
    · simp [hg, Ne.symm h]
    · simp [hg]

/-- A new group is found unless there was one on its flag. -/
theorem crew?_append {q r : Registry} {g : Group} (hq : q.groups = r.groups ++ [g]) (f : String) :
    q.crew? f = (r.crew? f).or (if g.flag = f then some g.members else none) := by
  rw [crew?, group?, hq, List.find?_append, Option.map_or, List.find?_singleton]
  by_cases h : g.flag = f <;> simp [crew?, group?, h]

/-- A new stream joins the others on its flag. -/
theorem crew?_subscribe (r : Registry) (ls : ListenerSet (Role κ)) (flag f : String) :
    (r.subscribe ls flag).1.crew? f =
      if flag = f then some ((r.crew? f).getD [] ++ [r.next]) else r.crew? f := by
  rw [subscribe]
  cases hg : r.group? flag with
  | none =>
    refine (crew?_append rfl f).trans ?_
    by_cases h : flag = f
    · subst h
      simp [crew?, hg]
    · simp [h]
  | some g =>
    refine (crew?_join rfl f).trans ?_
    by_cases h : flag = f
    · subst h
      simp [crew?, hg]
    · simp [h]

/-- A stream that is detached leaves the others on its flag; the last one leaves no group. -/
theorem crew?_detach (r : Registry) (ls : ListenerSet (Role κ)) (flag f : String)
    (id : StreamId) :
    (r.detach ls flag id).1.crew? f =
      if flag = f then (r.crew? f).bind (fun ids => manned (ids.filter (fun m => m ≠ id)))
      else r.crew? f := by
  rw [detach]
  cases hg : r.group? flag with
  | none =>
    by_cases h : flag = f
    · subst h
      simp [crew?, hg]
    · rw [if_neg h]
  | some g =>
    have hm : (g.leave flag id).members = g.members.filter (fun m => m ≠ id) := by
      rw [Group.leave, if_pos (mem_of_group? hg).2]
    show crew? (if _ then _ else _ : Registry × ListenerSet (Role κ)).1 f = _
    split
    next he =>
      refine (crew?_without rfl f).trans ?_
      by_cases h : flag = f
      · subst h
        rw [hm] at he
        rw [if_pos rfl, if_pos rfl, crew?, hg, Option.map_some, Option.bind_some, manned, if_pos he]
      · rw [if_neg h, if_neg h]
    next he =>
      refine (crew?_leave rfl f).trans ?_
      by_cases h : flag = f
      · subst h
        rw [hm] at he
        rw [if_pos rfl, crew?, hg, Option.map_some, Option.map_some, Option.bind_some, if_pos rfl,
          manned, if_neg he]
      · simp [h]

/-! ## the flag of a stream -/

/-- the flag of a stream that is not dropped -/
def flagOf? (r : Registry) (id : StreamId) : Option String := (r.stream? id).map Stream.flag

theorem Fresh.lt_of_flagOf? {r : Registry} (h : Fresh r) {id : StreamId} {flag : String}
    (hf : r.flagOf? id = some flag) : id < r.next := by
  obtain ⟨s, hs, -⟩ := Option.map_eq_some_iff.mp hf
  have hid : s.id = id := by simpa using List.find?_some hs
  exact hid ▸ h.stream_lt s (List.mem_of_find?_eq_some hs)

theorem flagOf?_subscribe (r : Registry) (ls : ListenerSet (Role κ)) (flag : String)
    {id : StreamId} (h : id < r.next) : (r.subscribe ls flag).1.flagOf? id = r.flagOf? id := by
  rw [flagOf?, stream?_subscribe r ls flag h, flagOf?]

theorem Fresh.flagOf?_subscribe_next {r : Registry} (h : Fresh r) (ls : ListenerSet (Role κ))
    (flag : String) : (r.subscribe ls flag).1.flagOf? r.next = some flag := by
  rw [flagOf?, (h.tracks_subscribe ls flag).1.stream?_eq]
  rfl

theorem flagOf?_unsubscribe (r : Registry) (ls : ListenerSet (Role κ)) (i id : StreamId) :
    (r.unsubscribe ls i).1.flagOf? id = if i = id then none else r.flagOf? id := by
  rw [flagOf?, stream?_unsubscribe]
  by_cases h : i = id
  · rw [if_pos h, if_pos h]
    rfl
  · rw [if_neg h, if_neg h, flagOf?]

theorem flagOf?_take (r : Registry) (i id : StreamId) :
    (r.take i).1.flagOf? id = r.flagOf? id := by
  have hf : Stream.flag ∘ Stream.takeAll id = Stream.flag := by
    funext s
    rw [Function.comp_apply, Stream.takeAll]
    split <;> rfl
  rw [flagOf?, stream?_take]
  by_cases h : i = id
  · rw [if_pos h, Option.map_map, hf, flagOf?]
  · rw [if_neg h, flagOf?]

theorem flagOf?_dispatch (r : Registry) (flag : String) (changes : List Change) (id : StreamId) :
    (r.dispatch flag changes).flagOf? id = r.flagOf? id := by
  rw [dispatch]
  split
  · cases r.group? flag with
    | none => rfl
    | some g =>
      show ((r.streams.map (Stream.give g.members _)).find? _).map _ = _
      rw [find?_map_id (id_give g.members _), Option.map_map, flagOf?, stream?]
      congr 1
      funext s
      rw [Function.comp_apply, Stream.give]
      split <;> rfl
  · rfl

/-- A stream that is dropped leaves the others on its flag. -/
theorem crew?_unsubscribe (r : Registry) (ls : ListenerSet (Role κ)) (id : StreamId)
    (f : String) :
    (r.unsubscribe ls id).1.crew? f =
      if r.flagOf? id = some f then
        (r.crew? f).bind (fun ids => manned (ids.filter (fun m => m ≠ id)))
      else r.crew? f := by
  rw [unsubscribe, flagOf?]
  cases hs : r.stream? id with
  | none => rfl
  | some s =>
    refine (crew?_detach _ ls s.flag f id).trans ?_
    by_cases h : s.flag = f <;> simp [h, crew?, group?]

/-! ## streams that are in no group -/

theorem filter_ne_of_not_mem {ids : List StreamId} {id : StreamId} (h : id ∉ ids) :
    ids.filter (fun m => m ≠ id) = ids :=
  List.filter_eq_self.mpr fun _ hm => decide_eq_true fun e => h (e ▸ hm)

theorem Wired.crew?_of_mem {r : Registry} {ls : ListenerSet (Role κ)} (h : Wired r ls) {g : Group}
    (hg : g ∈ r.groups) : r.crew? g.flag = some g.members := by
  have hm : g ∈ (r.group? g.flag).toList := by
    rw [group?, ← filter_eq_find?_of_nodup h.flags_nodup]
    exact List.mem_filter.mpr ⟨hg, decide_eq_true rfl⟩
  rw [crew?, Option.mem_toList.mp hm, Option.map_some]

/-- A stream that is not in the group of its flag is detached from nothing. -/
theorem Wired.detach_of_not_mem {r : Registry} {ls : ListenerSet (Role κ)} (h : Wired r ls)
    {flag : String} {id : StreamId} (hne : r.crew? flag ≠ some [])
    (hid : ∀ ids, r.crew? flag = some ids → id ∉ ids) :
    (r.detach ls flag id).1.groups = r.groups ∧ (r.detach ls flag id).2 = ls := by
  have hl : ∀ g ∈ r.groups, g.leave flag id = g := by
    intro g hg
    rw [Group.leave]
    split
    next hf =>
      have hn : id ∉ g.members := hid _ (hf ▸ h.crew?_of_mem hg)
      rw [filter_ne_of_not_mem hn]
    next => rfl
  rw [Registry.detach]
  cases hg : r.group? flag with
  | none => exact ⟨rfl, rfl⟩
  | some g =>
    obtain ⟨hm, rfl⟩ := mem_of_group? hg
    have he : ¬ (g.leave g.flag id).members.isEmpty = true := by
      rw [hl g hm, List.isEmpty_iff]
      exact fun e => hne (e ▸ h.crew?_of_mem hm)
    show (if _ then _ else _ : Registry × ListenerSet (Role κ)).1.groups = _ ∧
      (if _ then _ else _ : Registry × ListenerSet (Role κ)).2 = _
    rw [if_neg he]
    exact ⟨(List.map_congr_left hl).trans (List.map_id _), rfl⟩

/-! ## listeners on a topic -/

theorem length_eq_own_add_foreign (roles : List (Role κ)) :
    roles.length =
      (roles.filterMap Role.flag?).length + (roles.filterMap Role.foreign?).length := by
  induction roles with
  | nil => rfl
  | cons role roles ih =>
    cases role with
    | subscribers flag => exact (congrArg (· + 1) ih).trans (Nat.add_right_comm _ _ 1)
    | other k => exact (congrArg (· + 1) ih).trans (Nat.add_assoc _ _ 1)

/-- Where the others listen to any change, there is one listener on a flag if it has a group. -/
theorem Wired.count_flag {r : Registry} {ls : ListenerSet (Role κ)} (h : Wired r ls)
    (hf : ∀ w ∈ foreign ls, w.2.1 = .anyChange) (flag : String) :
    ls.count (.flag flag) = (r.crew? flag).toList.length := by
  have hn : (foreign ls).filter (fun w => w.2.1 = .flag flag) = [] := by
    refine List.filter_eq_nil_iff.mpr fun w hw ht => ?_
    rw [hf w hw] at ht
    cases of_decide_eq_true ht
  have hl : ls.count (.flag flag) = (ls.onTopic (.flag flag)).length := by
    rw [ListenerSet.count, ListenerSet.onTopic, List.length_map, List.countP_eq_length_filter]
  rw [hl, length_eq_own_add_foreign, h.flags_onTopic_flag, foreign_onTopic, hn, crew?]
  cases r.group? flag <;> rfl

/-! ## registry, listeners and ledger -/

namespace Board

/-- The groups of the registry are the open streams of the ledger, flag by flag, and the others on
the connection listen to any change. -/
structure Counted (b : Board κ) (l : Ledger) : Prop where
  wired : Wired b.registry b.listeners
  fresh : Fresh b.registry
  next_eq : b.registry.next = l.next
  crew_eq : ∀ flag, b.registry.crew? flag = manned (l.on flag)
  flag_eq : ∀ id flag, (id, flag) ∈ l.streams → b.registry.flagOf? id = some flag
  others : ∀ w ∈ foreign b.listeners, w.2.1 = .anyChange

theorem counted_start : Counted (start : Board κ) .empty :=
  ⟨wired_empty, fresh_empty, rfl, fun _ => rfl, nofun, nofun⟩

namespace Counted

variable {b : Board κ} {l : Ledger}

/-- What only moves values keeps the count. -/
theorem of_groups_eq (h : Counted b l) {r : Registry} (hg : r.groups = b.registry.groups)
    (hn : r.next = b.registry.next) (hf : Fresh r)
    (hs : ∀ id, r.flagOf? id = b.registry.flagOf? id) : Counted ⟨r, b.listeners⟩ l :=
  { wired := h.wired.of_groups_eq hg
    fresh := hf
    next_eq := hn.trans h.next_eq
    crew_eq := fun flag => (crew?_congr hg flag).trans (h.crew_eq flag)
    flag_eq := fun id flag he => (hs id).trans (h.flag_eq id flag he)
    others := h.others }

theorem lt_next (h : Counted b l) {id : StreamId} {flag : String} (he : (id, flag) ∈ l.streams) :
    id < b.registry.next := h.fresh.lt_of_flagOf? (h.flag_eq id flag he)

theorem subscribe (h : Counted b l) (flag : String) :
    Counted (b.step (.subscribe flag)) (l.enter (.op (.subscribe flag : Op κ))) where
  wired := wired_step h.wired _
  fresh := fresh_step h.wired h.fresh _
  next_eq := (next_subscribe b.registry b.listeners flag).trans (congrArg (· + 1) h.next_eq)
  crew_eq := by
    intro f
    refine (crew?_subscribe b.registry b.listeners flag f).trans ?_
    rw [h.crew_eq, Ledger.on_subscribe, h.next_eq]
    by_cases hf : flag = f
    · have hd : (manned (l.on f)).getD [] = l.on f := by
        cases l.on f <;> rfl
      rw [if_pos hf, if_pos hf, hd, manned_of_ne_nil (by simp)]
    · rw [if_neg hf, if_neg hf, List.append_nil]
  flag_eq := by
    intro id f he
    rcases List.mem_append.mp he with he | he
    · exact (flagOf?_subscribe _ _ flag (h.lt_next he)).trans (h.flag_eq id f he)
    · cases List.mem_singleton.mp he
      rw [← h.next_eq]
      exact h.fresh.flagOf?_subscribe_next b.listeners flag
  others := by
    intro w hw
    exact h.others w (foreign_subscribe b.registry b.listeners flag ▸ hw)

theorem drop (h : Counted b l) (id : StreamId) :
    Counted (b.step (.drop id)) (l.enter (.op (.drop id : Op κ))) where
  wired := wired_step h.wired _
  fresh := fresh_step h.wired h.fresh _
  next_eq := (next_unsubscribe b.registry b.listeners id).trans h.next_eq
  crew_eq := by
    intro f
    refine (crew?_unsubscribe b.registry b.listeners id f).trans ?_
    rw [h.crew_eq, Ledger.on_drop]
    by_cases hf : b.registry.flagOf? id = some f
    · rw [if_pos hf]
      cases l.on f <;> rfl
    -- a stream that is gone, or on another flag, is not among the open ones on this flag
    · have hn : id ∉ l.on f := fun hm => hf (h.flag_eq id f (Ledger.mem_on.mp hm))
      rw [if_neg hf, filter_ne_of_not_mem hn]
  flag_eq := by
    intro i f he
    obtain ⟨he, hi⟩ := List.mem_filter.mp he
    refine (flagOf?_unsubscribe b.registry b.listeners id i).trans ?_
    rw [if_neg (Ne.symm (of_decide_eq_true hi)), h.flag_eq i f he]
  others := fun w hw => h.others w ((foreign_unsubscribe_sublist _ _ id).subset hw)

theorem clear (h : Counted b l) :
    Counted (b.step .clear) (l.enter (.op (.clear : Op κ))) where
  wired := wired_step h.wired _
  fresh := fresh_step h.wired h.fresh _
  next_eq := h.next_eq
  crew_eq := fun _ => rfl
  flag_eq := nofun
  others := fun w hw => h.others w ((foreign_clear_sublist _ _).subset hw)

theorem listen (h : Counted b l) (role : κ) : Counted (b.step (.listen .anyChange role)) l where
  wired := wired_step h.wired _
  fresh := h.fresh
  next_eq := h.next_eq
  crew_eq := h.crew_eq
  flag_eq := h.flag_eq
  others := by
    intro w hw
    rw [step, foreign_add] at hw
    rcases List.mem_append.mp hw with hw | hw
    · exact h.others w hw
    · rw [List.mem_singleton.mp hw]

theorem receive (h : Counted b l) (c : Call (Role κ)) :
    Counted ⟨b.registry.receive c, b.listeners⟩ l := by
  obtain ⟨role, changes⟩ := c
  cases role with
  | subscribers flag =>
    exact h.of_groups_eq (groups_dispatch _ flag changes) (next_dispatch _ flag changes)
      (h.fresh.dispatch flag changes) (flagOf?_dispatch _ flag changes)
  | other k => exact h

theorem hear (h : Counted b l) (calls : List (Call (Role κ))) :
    Counted ⟨b.registry.hear calls, b.listeners⟩ l := by
  induction calls generalizing b with
  | nil => exact h
  | cons c cs ih => exact ih (h.receive c)

/-- Every deed keeps the count, if those who begin to listen listen to any change. -/
theorem undergo (h : Counted b l) {d : Deed κ}
    (hd : ∀ topic role, d = .op (.listen topic role) → topic = .anyChange) :
    Counted (b.undergo d) (l.enter d) := by
  cases d with
  | call c => exact h.receive c
  | op o =>
    cases o with
    | subscribe flag => exact h.subscribe flag
    | drop id => exact h.drop id
    | take id =>
      exact h.of_groups_eq (groups_take _ id) (next_take _ id) (h.fresh.take id) (flagOf?_take _ id)
    | enable =>
      exact h.of_groups_eq rfl rfl ⟨h.fresh.stream_lt, h.fresh.member_lt⟩ (fun _ => rfl)
    | clear => exact h.clear
    | emit changes => exact h.hear _
    | listen topic role =>
      cases hd topic role rfl
      exact h.listen role

theorem undergoAll (h : Counted b l) {ds : List (Deed κ)}
    (hd : ∀ topic role, .op (.listen topic role) ∈ ds → topic = .anyChange) :
    Counted (b.undergoAll ds) (ds.foldl Ledger.enter l) := by
  induction ds generalizing b l with
  | nil => exact h
  | cons d ds ih =>
    refine ih (h.undergo fun topic role e => hd topic role ?_)
      fun topic role hm => hd topic role (List.mem_cons_of_mem d hm)
    exact e ▸ List.mem_cons_self

/-- A stream that is not open can be dropped without a trace. -/
theorem drop_of_not_open (h : Counted b l) {id : StreamId} (hid : ∀ flag, (id, flag) ∉ l.streams) :
    (b.step (.drop id)).registry.groups = b.registry.groups ∧
      (b.step (.drop id)).listeners = b.listeners := by
  have hne : ∀ flag, b.registry.crew? flag ≠ some [] := by
    intro flag
    rw [h.crew_eq]
    cases l.on flag <;> exact nofun
  have hnot : ∀ flag ids, b.registry.crew? flag = some ids → id ∉ ids := by
    intro flag ids hc hm
    rw [h.crew_eq, manned] at hc
    split at hc
    · cases hc
    · cases hc
      exact hid flag (Ledger.mem_on.mp hm)
  show (b.registry.unsubscribe b.listeners id).1.groups = _ ∧
    (b.registry.unsubscribe b.listeners id).2 = _
  rw [unsubscribe]
  cases b.registry.stream? id with
  | none => exact ⟨rfl, rfl⟩
  | some s =>
    have hw : Wired { b.registry with
        streams := b.registry.streams.filter (fun s => s.id ≠ id) } b.listeners :=
      h.wired.of_groups_eq rfl
    exact hw.detach_of_not_mem (hne s.flag) (hnot s.flag)

end Counted

/-- **Whatever is done to a registry, as many streams on a flag get values as were opened since the
registry was cleared last and not dropped, and its connection has one listener for the flag if there
are such streams and none otherwise.  A stream from before a clear can be dropped without a trace.**
The ledger gives streams the numbers that the registry gives them. -/
theorem count_undergoAll (ds : List (Deed κ))
    (hd : ∀ topic role, .op (.listen topic role) ∈ ds → topic = .anyChange) :
    let b := (start : Board κ).undergoAll ds
    let l := Ledger.ofDeeds ds
    (∀ flag, (b.registry.subscribe b.listeners flag).2.2 = l.next) ∧
      (∀ flag, b.registry.count flag = (l.on flag).length ∧
        b.listeners.count (.flag flag) = if 0 < (l.on flag).length then 1 else 0) ∧
      ∀ before after id, ds = before ++ .op .clear :: after →
        id < (Ledger.ofDeeds before).next →
          (b.step (.drop id)).registry.groups = b.registry.groups ∧
            (b.step (.drop id)).listeners = b.listeners := by
  intro b l
  have h : Counted b l := counted_start.undergoAll hd
  refine ⟨fun flag => (id_subscribe _ _ flag).trans h.next_eq, fun flag => ⟨?_, ?_⟩, ?_⟩
  · rw [count_eq_length, h.crew_eq]
    cases l.on flag <;> rfl
  · rw [h.wired.count_flag h.others, h.crew_eq, length_toList_manned]
  · rintro before after id rfl hid
    refine h.drop_of_not_open fun flag hm => ?_
    exact Nat.not_lt_of_le ((Ledger.from_ofDeeds_clear before after).le_stream _ hm) hid

/-- A flag that has streams again after the registry was cleared keeps them, and its listener, when
a stream from before goes; it does so between two calls of an emission, too. -/
theorem count_reopened :
    let before : List (Deed Unit) := [.op (.listen .anyChange ()), .op (.subscribe "f"),
      .op (.subscribe "g"), .op .enable, .call ⟨.subscribers "f", [⟨"f", none, some .null⟩]⟩]
    let after : List (Deed Unit) := [.op (.subscribe "f"), .op (.subscribe "f"), .op (.drop 2),
      .call ⟨.other (), [⟨"f", none, some .null⟩]⟩]
    let b := (start : Board Unit).undergoAll (before ++ .op .clear :: after)
    (∀ topic role, .op (.listen topic role) ∈ before ++ .op .clear :: after → topic = .anyChange) ∧
      (b.registry.count "f" = 1 ∧ b.listeners.count (.flag "f") = 1) ∧
      (b.registry.count "g" = 0 ∧ b.listeners.count (.flag "g") = 0) ∧
      ((b.step (.drop 0)).registry.groups = b.registry.groups ∧
        (b.step (.drop 0)).listeners = b.listeners) := by
  intro before after b
  have hd : ∀ topic role, .op (.listen topic role) ∈ before ++ .op .clear :: after →
      topic = .anyChange := by
    intro topic role hm
    simpa [before, after] using hm
  obtain ⟨-, hcount, hdrop⟩ := count_undergoAll (before ++ .op .clear :: after) hd
  exact ⟨hd, hcount "f", hcount "g", hdrop before after 0 rfl (by decide)⟩

end Board

end FeatureFlags.Registry
