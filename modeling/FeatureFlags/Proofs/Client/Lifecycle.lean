import FeatureFlags.Proofs.Client.Frame
import FeatureFlags.Proofs.Registry.Streams

/-!
# The life of a client

What becomes of a client while its application, its tasks and its connection do what they like, in
any order.

* `Client.decision?`   how the wait for the first flags ended;
* `Client.Raced`       it alone decides what the client becomes and whether a timeout is reported;
* `Client.Quiet`       a client that nobody heard of;
* `Client.lifecycle_safe`   a client settles once, and nobody hears of it unless it is initialized.
-/

namespace FeatureFlags.Client

open Registry (foreign others Silent)

/-! ## the wait for the first flags -/

/-- how an occurrence would end the wait -/
def Occurrence.outcome? : Occurrence → Option Outcome
  | .event (.settle o) => some o
  | _ => none

/-- how the wait ended: the first outcome counts -/
def decision? (os : List Occurrence) : Option Outcome := os.findSome? Occurrence.outcome?

/-- what becomes of a client -/
def verdict : Option Outcome → Lifecycle
  | some .ready => .initialized
  | some .refused => .failed
  | some .timeout => .failed
  | some .cancelled => .initializing
  | none => .initializing

def isLoadTimeout : Notice → Bool
  | .loadTimeout => true
  | _ => false

/-- how often it was reported that the first flags did not arrive in time -/
def timeouts (c : Client) : Nat := c.notices.countP isLoadTimeout

theorem countP_ofFlags (flags : FlagSet) : (Notice.ofFlags flags).countP isLoadTimeout = 0 := rfl

theorem countP_flatMap_ofFlags {α : Type} (as : List α) (flags : FlagSet) :
    (as.flatMap (fun _ => Notice.ofFlags flags)).countP isLoadTimeout = 0 := by
  induction as with
  | nil => rfl
  | cons a as ih => rw [List.flatMap_cons, List.countP_append, ih, countP_ofFlags]

theorem timeouts_publish (c : Client) : c.publish.timeouts = c.timeouts := by
  show (c.notices ++ Notice.ofFlags c.flags).countP isLoadTimeout = _
  rw [List.countP_append, countP_ofFlags]
  rfl

theorem timeouts_ring (c : Client) (flags : FlagSet) (calls : List (Call Role)) :
    (c.ring flags calls).timeouts = c.timeouts := by
  by_cases h : c.gone = true
  · rw [ring_of_gone h]
    rfl
  · rw [ring_of_not_gone (Bool.eq_false_iff.mpr h), timeouts, List.countP_append,
      countP_flatMap_ofFlags]
    rfl

/-- Nothing of what the wait decides is different. -/
structure Unmoved (c d : Client) : Prop where
  lifecycle_eq : d.lifecycle = c.lifecycle
  waiting_eq : d.waiting = c.waiting
  timeouts_eq : d.timeouts = c.timeouts

namespace Unmoved

theorem refl (c : Client) : Unmoved c c := ⟨rfl, rfl, rfl⟩

theorem trans {b c d : Client} (h : Unmoved b c) (k : Unmoved c d) : Unmoved b d :=
  ⟨k.lifecycle_eq.trans h.lifecycle_eq, k.waiting_eq.trans h.waiting_eq,
    k.timeouts_eq.trans h.timeouts_eq⟩

theorem ring (c : Client) (flags : FlagSet) (calls : List (Call Role)) :
    Unmoved c (c.ring flags calls) := by
  refine ⟨?_, ?_, timeouts_ring c flags calls⟩
  · obtain ⟨_, _, _, h⟩ := ring_frame c flags calls
    rw [h]
  · obtain ⟨_, _, _, h⟩ := ring_frame c flags calls
    rw [h]

theorem arrive (c : Client) (flags : FlagSet) : Unmoved c (c.arrive flags) := ring c flags _

theorem publish (c : Client) : Unmoved c c.publish := ⟨rfl, rfl, timeouts_publish c⟩

theorem answered (c : Client) (answer : Except BackendError FlagSet) :
    Unmoved c (c.answered answer) := by
  by_cases hw : c.worker = .busy
  · cases answer with
    | error e =>
      rw [answered_error hw]
      exact ⟨rfl, rfl, rfl⟩
    | ok flags =>
      have hi : Unmoved c { c with worker := .idle } := ⟨rfl, rfl, rfl⟩
      have ha := hi.trans (arrive { c with worker := .idle } flags)
      have hf : Unmoved c { Client.arrive { c with worker := .idle } flags with flags } :=
        ⟨ha.lifecycle_eq, ha.waiting_eq, ha.timeouts_eq⟩
      rw [answered_ok hw]
      split
      · exact hf.trans (publish _)
      · exact hf
  · rw [answered_of_not_busy hw]
    exact refl c

theorem shutdown (c : Client) : Unmoved c c.shutdown := by
  rw [Client.shutdown]
  split <;> exact ⟨rfl, rfl, rfl⟩

theorem retire (c : Client) : Unmoved c c.retire := by
  rw [Client.retire]
  split <;> exact ⟨rfl, rfl, rfl⟩

/-- Only the end of the wait decides anything. -/
theorem act (c : Client) {e : Event} (he : ∀ o, e ≠ .settle o) : Unmoved c (c.act e) := by
  by_cases hi : e.inward = true
  · obtain ⟨_, _, _, _, _, _, _, _, h⟩ := act_inward c hi
    rw [h]
    exact ⟨rfl, rfl, rfl⟩
  · cases e with
    | subscribe flag => exact ⟨rfl, rfl, rfl⟩
    | unsubscribe id => exact ⟨rfl, rfl, rfl⟩
    | take id => exact ⟨rfl, rfl, rfl⟩
    | shutdown => exact shutdown c
    | arrive flags => exact arrive c flags
    | answered answer => exact answered c answer
    | settle o => exact absurd rfl (he o)
    | _ => exact absurd rfl hi

end Unmoved

/-- The client is what the end of its wait made it; `d` says how the wait ended. -/
structure Raced (c : Client) (d : Option Outcome) : Prop where
  waiting_eq : c.waiting = d.isNone
  lifecycle_eq : c.lifecycle = verdict d
  timeouts_eq : c.timeouts = if d = some .timeout then 1 else 0

namespace Raced

theorem start (options : Options) (identity : Identity) (connection : Feed Role)
    (forgetful : Bool) : Raced (Client.start options identity connection forgetful) none :=
  ⟨rfl, rfl, rfl⟩

theorem of_unmoved {c e : Client} {d : Option Outcome} (h : Raced c d) (hu : Unmoved c e) :
    Raced e d :=
  ⟨hu.waiting_eq.trans h.waiting_eq, hu.lifecycle_eq.trans h.lifecycle_eq,
    hu.timeouts_eq.trans h.timeouts_eq⟩

/-- What still waits is not settled. -/
theorem initializing_of_waiting {c : Client} {d : Option Outcome} (h : Raced c d)
    (hw : c.waiting = true) : c.lifecycle = .initializing := by
  have hd : d = none := Option.isNone_iff_eq_none.mp (h.waiting_eq.symm.trans hw)
  rw [h.lifecycle_eq, hd]
  rfl

theorem not_waiting {c : Client} {d : Option Outcome} (h : Raced c d)
    (hl : c.lifecycle ≠ .initializing) : c.waiting = false := by
  rw [Bool.eq_false_iff]
  exact fun hw => hl (h.initializing_of_waiting hw)

/-- The first outcome decides, a later one does not. -/
theorem settle {c : Client} {d : Option Outcome} (h : Raced c d) (o : Outcome) :
    Raced (c.settle o) (d.or (some o)) := by
  cases d with
  | some p =>
    rw [settle_of_not_waiting h.waiting_eq]
    exact h
  | none =>
    have hw : c.waiting = true := h.waiting_eq
    have ht : c.timeouts = 0 := h.timeouts_eq
    rw [Client.settle, if_pos hw]
    cases o with
    | ready => exact ⟨rfl, rfl, (timeouts_publish _).trans ht⟩
    | refused => exact ⟨rfl, rfl, ht⟩
    | timeout =>
      refine ⟨rfl, rfl, ?_⟩
      show (c.notices ++ [Notice.loadTimeout]).countP isLoadTimeout = 1
      rw [List.countP_append, show c.notices.countP isLoadTimeout = 0 from ht]
      rfl
    | cancelled => exact ⟨rfl, h.lifecycle_eq, ht⟩

theorem undergo {c : Client} {d : Option Outcome} (h : Raced c d) (o : Occurrence) :
    Raced (c.undergo o) (d.or o.outcome?) := by
  have hd : d.or none = d := Option.or_none
  cases o with
  | stir flags calls =>
    show Raced _ (d.or none)
    rw [hd]
    exact h.of_unmoved (.ring c flags _)
  | event e =>
    refine Raced.of_unmoved ?_ (.retire (c.act e))
    cases e with
    | settle o => exact h.settle o
    | _ =>
      show Raced _ (d.or none)
      rw [hd]
      exact h.of_unmoved (.act c nofun)

theorem live {c : Client} {d : Option Outcome} (h : Raced c d) (os : List Occurrence) :
    Raced (c.live os) (d.or (decision? os)) := by
  induction os generalizing c d with
  | nil =>
    rw [decision?, List.findSome?_nil, Option.or_none]
    exact h
  | cons o os ih =>
    have ho : decision? (o :: os) = o.outcome?.or (decision? os) := by
      rw [decision?, List.findSome?_cons]
      cases o.outcome? <;> rfl
    rw [ho, ← Option.or_assoc]
    exact ih (h.undergo o)

end Raced

/-! ## nobody hears of a client -/

theorem others_reached {ls : ListenerSet Role} (h : foreign ls = [])
    (calls : List (ListenerId × List Change)) : others (reached ls calls) = [] := by
  rw [others, List.filterMap_eq_nil_iff]
  intro call hc
  obtain ⟨p, -, hp⟩ := List.mem_filterMap.mp hc
  obtain ⟨l, hl, rfl⟩ := Option.map_eq_some_iff.mp hp
  have hf := List.filterMap_eq_nil_iff.mp h l (List.mem_of_find?_eq_some hl)
  exact Option.map_eq_none_iff.mp hf

/-- Where nobody else listens, closing the connection adds nobody. -/
theorem foreign_close {c : Client} (h : foreign c.connection.listeners = []) :
    foreign c.close.connection.listeners = [] := by
  show foreign (if _ then _ else _ : Feed Role).listeners = []
  split
  · rfl
  · exact h

theorem foreign_shutdown {c : Client} (h : foreign c.connection.listeners = []) :
    foreign c.shutdown.connection.listeners = [] := by
  rw [shutdown]
  split
  · exact h
  · refine foreign_close ?_
    have hr : ∀ id, foreign (c.connection.listeners.remove id) = [] := by
      intro id
      rw [Registry.foreign_remove, h, List.filter_nil]
    refine List.sublist_nil.mp ((Registry.foreign_clear_sublist c.registry _).trans ?_)
    cases c.listener with
    | none => rw [h]
    | some id => rw [hr id]

/-- A client that nobody heard of, but for load timeouts. -/
structure Quiet (c : Client) : Prop where
  silent : Silent c.registry
  /-- it does not listen to its connection itself -/
  foreign_eq : foreign c.connection.listeners = []
  notices_eq : ∀ n ∈ c.notices, n = .loadTimeout

namespace Quiet

variable {c : Client}

theorem start (options : Options) (identity : Identity) (flags : FlagSet) (forgetful : Bool) :
    Quiet (Client.start options identity ⟨flags, .empty⟩ forgetful) :=
  ⟨.of_empty, rfl, nofun⟩

theorem ring (h : Quiet c) (flags : FlagSet) {calls : List (Call Role)} (ho : others calls = []) :
    Quiet (c.ring flags calls) := by
  by_cases hg : c.gone = true
  · rw [ring_of_gone hg]
    exact ⟨h.silent, h.foreign_eq, h.notices_eq⟩
  · rw [ring_of_not_gone (Bool.eq_false_iff.mpr hg), ho, h.silent.hear, List.flatMap_nil,
      List.append_nil]
    exact ⟨h.silent, h.foreign_eq, h.notices_eq⟩

theorem arrive (h : Quiet c) (flags : FlagSet) : Quiet (c.arrive flags) :=
  h.ring flags (Registry.others_calls_of_foreign_nil h.foreign_eq _)

theorem subscribe (h : Quiet c) (flag : String) : Quiet (c.subscribe flag).1 :=
  ⟨h.silent.subscribe c.connection.listeners flag,
    (Registry.foreign_subscribe c.registry c.connection.listeners flag).trans h.foreign_eq,
    h.notices_eq⟩

theorem unsubscribe (h : Quiet c) (id : StreamId) : Quiet (c.unsubscribe id) := by
  refine ⟨h.silent.unsubscribe c.connection.listeners id, ?_, h.notices_eq⟩
  have hs := Registry.foreign_unsubscribe_sublist c.registry c.connection.listeners id
  rw [h.foreign_eq] at hs
  exact List.sublist_nil.mp hs

/-- As long as the client is not initialized an answer is put aside. -/
theorem answered (h : Quiet c) (hl : c.lifecycle ≠ .initialized)
    (answer : Except BackendError FlagSet) : Quiet (c.answered answer) := by
  by_cases hw : c.worker = .busy
  · cases answer with
    | error e =>
      rw [answered_error hw]
      exact ⟨h.silent, h.foreign_eq, h.notices_eq⟩
    | ok flags =>
      have hc : Quiet { c with worker := .idle } := ⟨h.silent, h.foreign_eq, h.notices_eq⟩
      have ha := hc.arrive flags
      have hu := Unmoved.arrive { c with worker := .idle } flags
      rw [answered_ok hw, if_neg fun e => hl (hu.lifecycle_eq.symm.trans e)]
      exact ⟨ha.silent, ha.foreign_eq, ha.notices_eq⟩
  · rw [answered_of_not_busy hw]
    exact h

theorem close (h : Quiet c) : Quiet c.close :=
  ⟨h.silent, foreign_close h.foreign_eq, h.notices_eq⟩

theorem shutdown (h : Quiet c) : Quiet c.shutdown := by
  have hf := foreign_shutdown h.foreign_eq
  rw [Client.shutdown] at hf ⊢
  split at hf
  next hc =>
    rw [if_pos hc]
    exact h
  next hc =>
    rw [if_neg hc]
    exact ⟨h.silent.clear c.connection.listeners, hf, h.notices_eq⟩

theorem retire (h : Quiet c) : Quiet c.retire := by
  rw [Client.retire]
  split
  · exact h
  · exact close ⟨h.silent.abandon, h.foreign_eq, h.notices_eq⟩

theorem settle (h : Quiet c) {o : Outcome} (hl : (c.settle o).lifecycle ≠ .initialized) :
    Quiet (c.settle o) := by
  rw [Client.settle] at hl ⊢
  by_cases hw : c.waiting = true
  · rw [if_pos hw] at hl ⊢
    cases o with
    | ready => exact absurd rfl hl
    | refused => exact ⟨h.silent, h.foreign_eq, h.notices_eq⟩
    | timeout =>
      refine ⟨h.silent, h.foreign_eq, fun n hn => ?_⟩
      rcases List.mem_append.mp hn with hn | hn
      · exact h.notices_eq n hn
      · exact List.mem_singleton.mp hn
    | cancelled => exact ⟨h.silent, h.foreign_eq, h.notices_eq⟩
  · rw [if_neg hw]
    exact h

theorem act (h : Quiet c) (hl : c.lifecycle ≠ .initialized) {e : Event}
    (he : (c.act e).lifecycle ≠ .initialized) : Quiet (c.act e) := by
  by_cases hi : e.inward = true
  · obtain ⟨_, _, _, _, _, _, _, _, ha⟩ := act_inward c hi
    rw [ha]
    exact ⟨h.silent, h.foreign_eq, h.notices_eq⟩
  · cases e with
    | subscribe flag => exact h.subscribe flag
    | unsubscribe id => exact h.unsubscribe id
    | take id => exact ⟨h.silent.take id, h.foreign_eq, h.notices_eq⟩
    | shutdown => exact h.shutdown
    | arrive flags => exact h.arrive flags
    | answered answer => exact h.answered hl answer
    | settle o => exact h.settle he
    | _ => exact absurd rfl hi

end Quiet

theorem flagsInUse_of_not_initialized {c : Client} (h : c.lifecycle ≠ .initialized) :
    c.flagsInUse = {} := by
  cases hl : c.lifecycle with
  | initialized => exact absurd hl h
  | initializing => exact flagsInUse_of_initializing hl
  | failed => exact flagsInUse_of_failed hl

/-! ## whole lives -/

/-- What is decided stays decided. -/
theorem verdict_or {d : Option Outcome} (h : verdict d ≠ .initializing) (e : Option Outcome) :
    verdict (d.or e) = verdict d := by
  cases d with
  | none => exact absurd rfl h
  | some o => rfl

theorem Raced.lifecycle_undergo {c : Client} {d : Option Outcome} (h : Raced c d)
    (hl : c.lifecycle ≠ .initializing) (o : Occurrence) :
    (c.undergo o).lifecycle = c.lifecycle := by
  rw [(h.undergo o).lifecycle_eq, h.lifecycle_eq, verdict_or (h.lifecycle_eq ▸ hl)]

theorem Raced.lifecycle_live {c : Client} {d : Option Outcome} (h : Raced c d)
    (hl : c.lifecycle ≠ .initializing) (os : List Occurrence) :
    (c.live os).lifecycle = c.lifecycle := by
  rw [(h.live os).lifecycle_eq, h.lifecycle_eq, verdict_or (h.lifecycle_eq ▸ hl)]

/-- One occurrence keeps a client quiet that is not initialized by it. -/
theorem Quiet.undergo {c : Client} {d : Option Outcome} (hr : Raced c d)
    (h : c.lifecycle ≠ .initialized → Quiet c) (o : Occurrence)
    (ho : (c.undergo o).lifecycle ≠ .initialized) : Quiet (c.undergo o) := by
  have hl : c.lifecycle ≠ .initialized := by
    intro hl
    exact ho ((hr.lifecycle_undergo (by rw [hl]; nofun) o).trans hl)
  cases o with
  | stir flags calls => exact (h hl).ring flags (others_reached (h hl).foreign_eq calls)
  | event e =>
    refine ((h hl).act hl fun he => ho ?_).retire
    exact (Unmoved.retire (c.act e)).lifecycle_eq.trans he

theorem Quiet.live {c : Client} {d : Option Outcome} (hr : Raced c d)
    (h : c.lifecycle ≠ .initialized → Quiet c) (os : List Occurrence)
    (ho : (c.live os).lifecycle ≠ .initialized) : Quiet (c.live os) := by
  induction os generalizing c d with
  | nil => exact h ho
  | cons o os ih => exact ih (hr.undergo o) (Quiet.undergo hr h o) ho

/-- A client that failed identifies no more. -/
theorem identified_undergo_of_failed {c : Client} (h : c.lifecycle = .failed) (o : Occurrence) :
    (c.undergo o).identified = c.identified := by
  cases o with
  | stir flags calls =>
    obtain ⟨_, _, _, hr⟩ := ring_frame c flags (reached c.connection.listeners calls)
    rw [undergo, hr]
    rfl
  | event e =>
    rw [undergo, step, (untold_retire _).identified_eq]
    by_cases he : e = .work
    · rw [he, act, work]
      split
      · split <;> rfl
      · rfl
    · exact (untold_act c he).identified_eq

theorem identified_live_of_failed {c : Client} {d : Option Outcome} (hr : Raced c d)
    (h : c.lifecycle = .failed) (os : List Occurrence) :
    (c.live os).identified = c.identified := by
  induction os generalizing c d with
  | nil => rfl
  | cons o os ih =>
    have ho : (c.undergo o).lifecycle = .failed :=
      (hr.lifecycle_undergo (by rw [h]; nofun) o).trans h
    rw [live_cons, ih (hr.undergo o) ho, identified_undergo_of_failed h]

/-- **A client begins without flags, and settles at most once.  Unless it is initialized every read
gives its default, nothing is published but that the first flags did not arrive in time, and no
stream has anything to hand out; once it failed nothing is identified.  The load timeout is reported
once if it ended the wait, and else never.** -/
theorem lifecycle_safe (options : Options) (identity : Identity) (flags : FlagSet)
    (forgetful : Bool) (before after : List Occurrence) :
    let begun := start options identity ⟨flags, .empty⟩ forgetful
    let c := begun.live before
    let d := c.live after
    begun.lifecycle = .initializing ∧
      (c.lifecycle ≠ .initializing → d.lifecycle = c.lifecycle) ∧
      (c.lifecycle ≠ .initialized →
        (∀ shape flag default, (c.experiment shape flag).getD default = default) ∧
          c.flagsInUse = {} ∧ (∀ n ∈ c.notices, n = .loadTimeout) ∧
          ∀ id, (c.take id).2 = []) ∧
      (c.lifecycle = .failed → d.identified = c.identified) ∧
      c.timeouts = if decision? before = some .timeout then 1 else 0 := by
  intro begun c d
  have hb : Raced begun none := .start options identity ⟨flags, .empty⟩ forgetful
  have hc : Raced c (decision? before) := by simpa using hb.live before
  -- the first part is about the outcome alone, the second about what a quiet client never did
  refine ⟨rfl, fun hl => hc.lifecycle_live hl after, fun hl => ?_, fun hl => ?_, hc.timeouts_eq⟩
  · have hq : Quiet c := Quiet.live hb (fun _ => .start options identity flags forgetful) before hl
    have hf : c.flagsInUse = {} := flagsInUse_of_not_initialized hl
    refine ⟨fun shape flag default => ?_, hf, hq.notices_eq, fun id => hq.silent.take_output id⟩
    rw [experiment, hf]
    rfl
  · exact identified_live_of_failed hc hl after

end FeatureFlags.Client
