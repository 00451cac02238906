import FeatureFlags.Proofs.Session.Deadline
import Mathlib.Data.List.Count

/-!
# The clock of a session

The clock of a session goes on when all work is done that can be done, and it stops wherever the
wait for the first flags may end.  So on a scripted connection a session does not need to be told to
be on time.

* `Session.Works`            what is left alone by work that takes no time;
* `Session.OnTime`           a session that another one becomes in a run on time;
* `Session.onTime_advance`, `Session.onTime_awaitFlags`   time passes in runs on time;
* `Session.lifecycle_of_advance`   what has become of a client after some time.
-/

namespace FeatureFlags.Session

/-! ## work that takes no time -/

/-- Time stands still, the other side is the same, and who waits waited before. -/
structure Works (s t : Session) : Prop where
  clock : SameClock s t
  side_eq : t.side = s.side
  of_waiting : t.client.waiting = true →
    s.client.waiting = true ∧ t.client.cancelled = s.client.cancelled

namespace Works

variable {s t u : Session}

theorem refl (s : Session) : Works s s := ⟨.refl s, rfl, fun h => ⟨h, rfl⟩⟩

theorem trans (h : Works s t) (k : Works t u) : Works s u := by
  refine ⟨h.clock.trans k.clock, k.side_eq.trans h.side_eq, fun hu => ?_⟩
  obtain ⟨ht, hcu⟩ := k.of_waiting hu
  obtain ⟨hs, hct⟩ := h.of_waiting ht
  exact ⟨hs, hcu.trans hct⟩

theorem of_task {script : Scripted} (hs : s.side = .scripted script) (t : Task) :
    Works s (s.meet (.turn (.task t))) := by
  have hside : (s.meet (.turn (.task t))).side = .scripted script := side_meet hs nofun
  refine ⟨.turn s (.task t), hside.trans hs.symm, fun hw => ?_⟩
  rw [client_meet] at hw ⊢
  refine ⟨Client.waiting_of_run hw, Client.cancelled_run (fun hm => ?_) hw⟩
  cases operated_task hm

/-- A wait that cannot end cannot end after work that takes no time. -/
theorem race?_eq_none (h : Works s t) (hr : s.race? = none) : t.race? = none := by
  rw [race?]
  split
  next hw =>
    obtain ⟨hs, hc⟩ := h.of_waiting hw
    have ho := outcome?_of_race? hr hs
    have hsame : t.outcome? = s.outcome? := by
      rw [outcome?, outcome?, hc, h.side_eq, h.clock.now_eq, h.clock.began_eq, h.clock.patience_eq]
    rw [hsame, ho]
    rfl
  next => rfl

/-- A wait can at most have ended. -/
theorem timers_sublist (h : Works s t) : t.timers.Sublist s.timers := by
  rw [timers, timers, h.side_eq, h.clock.now_eq, h.clock.began_eq, h.clock.patience_eq]
  by_cases hw : t.client.waiting = true
  · rw [if_pos hw, if_pos (h.of_waiting hw).1]
  · rw [if_neg hw]
    split
    · exact List.sublist_cons_self _ _
    · exact List.Sublist.refl _

end Works

theorem task_of_task? {s t : Session} (h : s.task? = some t) :
    ∃ task, t = s.meet (.turn (.task task)) := by
  obtain ⟨task, -, ht⟩ := List.exists_of_findSome?_eq_some h
  refine ⟨task, ?_⟩
  show t = (s.proceed? task).getD s
  rw [ht]
  rfl

section Scripted

variable {s : Session} {script : Scripted}

theorem works_settleIn (hs : s.side = .scripted script) (steps : Nat) :
    Works s (s.settleIn steps) := by
  induction steps generalizing s with
  | zero => exact .refl s
  | succ steps ih =>
    rw [settleIn]
    cases h : s.task? with
    | none => exact .refl s
    | some t =>
      obtain ⟨task, rfl⟩ := task_of_task? h
      have hw := Works.of_task hs task
      exact hw.trans (ih (hw.side_eq.trans hs))

/-- The first piece of work ends a wait that can end. -/
theorem race?_settleIn (hs : s.side = .scripted script) (steps : Nat) :
    (s.settleIn (steps + 1)).race? = none := by
  rw [settleIn]
  cases h : s.task? with
  | none => exact (task?_eq_none_iff s).mp h .race
  | some t =>
    have ht : t.side = .scripted script ∧ t.race? = none := by
      cases hr : s.race? with
      | none =>
        obtain ⟨task, rfl⟩ := task_of_task? h
        have hw := Works.of_task hs task
        exact ⟨hw.side_eq.trans hs, hw.race?_eq_none hr⟩
      | some u =>
        -- nothing comes before the end of the wait
        have hfirst : s.task? = some u := by
          have hfetch : s.proceed? .fetch = none := by
            show s.fetch? = none
            rw [fetch?, hs]
            rfl
          have hrace : s.proceed? .race = some u := hr
          rw [task?, order, List.findSome?_cons, hfetch]
          dsimp only
          rw [List.findSome?_cons, hrace]
        obtain rfl : t = u := Option.some.inj (h.symm.trans hfirst)
        rw [race?] at hr
        split at hr
        next hw =>
          obtain ⟨o, -, rfl⟩ := Option.map_eq_some_iff.mp hr
          refine ⟨side_apply hs _, ?_⟩
          rw [race?, if_neg]
          exact Bool.eq_false_iff.mp (Client.waiting_step_settle s.client o)
        next => cases hr
    exact (works_settleIn ht.1 steps).race?_eq_none ht.2

theorem workload_pos (s : Session) : ∃ steps, s.workload = steps + 1 :=
  Nat.exists_eq_succ_of_ne_zero (by unfold workload; omega)

theorem race?_settle (hs : s.side = .scripted script) : s.settle.race? = none := by
  let t : Session := { s with began := some (s.began.getD s.now) }
  obtain ⟨steps, hsteps⟩ := workload_pos t
  show (t.settleIn t.workload).race? = none
  rw [hsteps]
  exact race?_settleIn (s := t) hs steps

theorem works_settle (hs : s.side = .scripted script) :
    Works (s.meet .wait) s.settle := works_settleIn (s := s.meet .wait) hs _

theorem clock_settle (hs : s.side = .scripted script) :
    s.settle.now = s.now ∧ s.settle.began = some (s.began.getD s.now) ∧
      s.settle.side = .scripted script :=
  have h := works_settle hs
  ⟨h.clock.now_eq, h.clock.began_eq, h.side_eq.trans hs⟩

end Scripted

/-! ## runs on time -/

theorem timely_append {deadline : Nat} {s : Session} {is js : List Incident}
    (hi : s.Timely deadline is) (hj : (s.meetAll is).Timely deadline js) :
    s.Timely deadline (is ++ js) := by
  induction is generalizing s with
  | nil => exact hj
  | cons i is ih => exact ⟨hi.1, ih hi.2 hj⟩

/-- What is done in between is on time, and no shutdown. -/
def OnTime (s t : Session) : Prop :=
  ∃ is, t = s.meetAll is ∧ ∀ deadline, s.Timely deadline is

namespace OnTime

variable {s t u : Session}

theorem refl (s : Session) : OnTime s s := ⟨[], rfl, fun _ => trivial⟩

theorem trans (h : OnTime s t) (k : OnTime t u) : OnTime s u := by
  obtain ⟨is, rfl, his⟩ := h
  obtain ⟨js, rfl, hjs⟩ := k
  exact ⟨is ++ js, (meetAll_append s is js).symm,
    fun deadline => timely_append (his deadline) (hjs deadline)⟩

theorem of_meet {i : Incident} (h : ∀ deadline, i.Timely deadline s) : OnTime s (s.meet i) :=
  ⟨[i], rfl, fun deadline => ⟨h deadline, trivial⟩⟩

theorem settleIn (steps : Nat) (s : Session) : OnTime s (s.settleIn steps) := by
  induction steps generalizing s with
  | zero => exact refl s
  | succ steps ih =>
    rw [Session.settleIn]
    cases h : s.task? with
    | none => exact refl s
    | some t =>
      obtain ⟨task, rfl⟩ := task_of_task? h
      exact (of_meet (i := .turn (.task task)) fun _ => trivial).trans (ih _)

theorem settle (s : Session) : OnTime s s.settle := by
  have hwait : OnTime s (s.meet .wait) := of_meet fun _ => trivial
  exact hwait.trans (settleIn _ _)

/-- The clock goes on to a time that is not after any at which the wait may end. -/
theorem go (hr : s.race? = none) {time : Nat} (hle : s.now ≤ time)
    (hstop : ∀ t ∈ s.timers, s.now < t → time ≤ t) : OnTime s { s with now := time } := by
  have hnow : s.now + (time - s.now) = time := Nat.add_sub_of_le hle
  have hpass : s.meet (.pass (time - s.now)) = { s with now := time } := by
    show { s with now := s.now + (time - s.now) } = _
    rw [hnow]
  rw [← hpass]
  refine of_meet fun deadline _ _ => ⟨hr, fun t ht hlt => ?_⟩
  rw [hnow]
  exact hstop t ht hlt

end OnTime

/-! ## time passes -/

section Scripted

variable {s : Session} {script : Scripted}

theorem nextTimer?_eq_none (h : s.nextTimer? = none) : ∀ t ∈ s.timers, ¬ s.now < t := by
  intro t ht hlt
  have hnil := List.min?_eq_none_iff.mp h
  have hmem : t ∈ s.timers.filter (fun t => s.now < t) :=
    List.mem_filter.mpr ⟨ht, decide_eq_true hlt⟩
  rw [hnil] at hmem
  cases hmem

theorem nextTimer?_eq_some {t : Nat} (h : s.nextTimer? = some t) :
    t ∈ s.timers ∧ s.now < t ∧ ∀ u ∈ s.timers, s.now < u → t ≤ u := by
  obtain ⟨hmem, hmin⟩ := List.min?_eq_some_iff.mp h
  obtain ⟨ht, hlt⟩ := List.mem_filter.mp hmem
  refine ⟨ht, of_decide_eq_true hlt, fun u hu hnow => ?_⟩
  exact hmin u (List.mem_filter.mpr ⟨hu, decide_eq_true hnow⟩)

/-- The clock goes on to the next time at which the wait may end, and stops there. -/
theorem onTime_next (hr : s.race? = none) {t : Nat} (h : s.nextTimer? = some t) :
    OnTime s { s with now := t }.settle := by
  obtain ⟨-, hlt, hmin⟩ := nextTimer?_eq_some h
  exact (OnTime.go hr (Nat.le_of_lt hlt) hmin).trans (.settle _)

/-- how many times are to come at which the wait may end -/
def pending (s : Session) : Nat := s.timers.countP (fun t => s.now < t)

/-- At each stop one of them is left behind. -/
theorem pending_next (hs : s.side = .scripted script) (hb : s.began ≠ none) {t : Nat}
    (h : s.nextTimer? = some t) : ({ s with now := t }.settle).pending < s.pending := by
  obtain ⟨ht, hlt, -⟩ := nextTimer?_eq_some h
  obtain ⟨began, hbegan⟩ := Option.ne_none_iff_exists'.mp hb
  have hwait : ({ s with now := t } : Session).meet .wait = { s with now := t } := by
    show ({ s with now := t, began := some (s.began.getD t) } : Session) = _
    rw [hbegan]
    rfl
  have hworks := works_settle (s := { s with now := t }) hs
  rw [hwait] at hworks
  have htimers : ({ s with now := t } : Session).timers = s.timers := by
    unfold timers
    rw [hbegan]
    rfl
  have hsub := hworks.timers_sublist
  rw [htimers] at hsub
  have hnow : ({ s with now := t }.settle).now = t := hworks.clock.now_eq
  rw [pending, pending, hnow]
  refine Nat.lt_of_le_of_lt hsub.countP_le ?_
  -- those that are to come after the stop were to come before it, and the stop itself was too
  have hcount : s.timers.countP (fun u => t < u) =
      (s.timers.filter (fun u => s.now < u)).countP (fun u => t < u) := by
    rw [List.countP_filter]
    refine List.countP_congr fun u _ => ?_
    rw [Bool.and_eq_true, decide_eq_true_eq, decide_eq_true_eq]
    exact ⟨fun hu => ⟨hu, Nat.lt_trans hlt hu⟩, And.left⟩
  rw [hcount, List.countP_eq_length_filter (p := fun u => decide (s.now < u))]
  refine List.countP_lt_length_iff.mpr ⟨t, ?_, decide_eq_false (Nat.lt_irrefl t)⟩
  exact List.mem_filter.mpr ⟨ht, decide_eq_true hlt⟩

/-- A clock with as many stops as there are times to come passes none of them. -/
theorem onTime_walkIn (stops : Nat) (hs : s.side = .scripted script) (hb : s.began ≠ none)
    (hr : s.race? = none) {time : Nat} (hle : s.now ≤ time) (hp : s.pending ≤ stops) :
    OnTime s (walkIn stops time s) := by
  induction stops generalizing s with
  | zero =>
    refine .go hr hle fun t ht hlt => ?_
    have hnone := List.countP_eq_zero.mp (Nat.le_zero.mp hp) t ht
    exact absurd (decide_eq_true hlt) hnone
  | succ stops ih =>
    rw [walkIn]
    cases hn : s.nextTimer? with
    | none => exact .go hr hle fun t ht hlt => absurd hlt (nextTimer?_eq_none hn t ht)
    | some t =>
      dsimp only
      obtain ⟨-, hlt, hmin⟩ := nextTimer?_eq_some hn
      split
      next hstop =>
        have hpending := pending_next hs hb hn
        obtain ⟨hnow, hbegan, hside⟩ := clock_settle (s := { s with now := t }) hs
        refine (onTime_next hr hn).trans (ih hside ?_ ?_ ?_ ?_)
        · rw [hbegan]
          exact nofun
        · exact race?_settle (s := { s with now := t }) hs
        · rw [hnow]
          exact hstop
        · omega
      next hstop =>
        exact .go hr hle fun u hu hnow =>
          Nat.le_trans (Nat.le_of_lt (Nat.lt_of_not_le hstop)) (hmin u hu hnow)

theorem advance_eq (hs : s.side = .scripted script) (ms : Nat) :
    s.advance ms = (walkIn s.settle.timers.length (s.settle.now + ms) s.settle).settle := by
  rw [advance, hs]

/-- **Whatever time passes for a session on a scripted connection, it passes on time.** -/
theorem onTime_advance (hs : s.side = .scripted script) (ms : Nat) : OnTime s (s.advance ms) := by
  obtain ⟨-, hbegan, hside⟩ := clock_settle hs
  have hwalk : OnTime s.settle (walkIn s.settle.timers.length (s.settle.now + ms) s.settle) := by
    refine onTime_walkIn _ hside ?_ (race?_settle hs) (Nat.le_add_right _ _) List.countP_le_length
    rw [hbegan]
    exact nofun
  rw [advance_eq hs]
  exact ((OnTime.settle s).trans hwalk).trans (.settle _)

theorem onTime_awaitFlagsIn (jumps : Nat) (hs : s.side = .scripted script)
    (hr : s.race? = none) : OnTime s (awaitFlagsIn jumps s) := by
  induction jumps generalizing s with
  | zero => exact .refl s
  | succ jumps ih =>
    rw [awaitFlagsIn]
    split
    next t hl hn =>
      obtain ⟨-, -, hside⟩ := clock_settle (s := { s with now := t }) hs
      exact (onTime_next hr hn).trans (ih hside (race?_settle (s := { s with now := t }) hs))
    next => exact .refl s

theorem onTime_awaitFlags (hs : s.side = .scripted script) : OnTime s s.awaitFlags :=
  (OnTime.settle s).trans
    (onTime_awaitFlagsIn _ (clock_settle hs).2.2 (race?_settle hs))

/-- However often it stops, the clock arrives at the time it was told. -/
theorem clock_walkIn (stops : Nat) (hs : s.side = .scripted script) {began : Nat}
    (hb : s.began = some began) (time : Nat) :
    (walkIn stops time s).now = time ∧ (walkIn stops time s).began = some began ∧
      (walkIn stops time s).side = .scripted script := by
  induction stops generalizing s with
  | zero => exact ⟨rfl, hb, hs⟩
  | succ stops ih =>
    rw [walkIn]
    cases hn : s.nextTimer? with
    | none => exact ⟨rfl, hb, hs⟩
    | some t =>
      dsimp only
      split
      · obtain ⟨-, hbegan, hside⟩ := clock_settle (s := { s with now := t }) hs
        have hstart : s.began.getD t = began := by
          rw [hb]
          rfl
        exact ih hside (hbegan.trans (congrArg some hstart))
      · exact ⟨rfl, hb, hs⟩

/-- After time has passed no wait is left that can end, and it went on for just that time. -/
theorem clock_advance (hs : s.side = .scripted script) (hle : s.began.getD s.now ≤ s.now)
    (ms : Nat) : (s.advance ms).race? = none ∧ (s.advance ms).waited = s.waited + ms := by
  obtain ⟨hnow, hbegan, hside⟩ := clock_settle hs
  obtain ⟨htime, hsame, hlast⟩ := clock_walkIn s.settle.timers.length hside hbegan
    (s.settle.now + ms)
  obtain ⟨hend, hstart, -⟩ := clock_settle hlast
  rw [advance_eq hs]
  refine ⟨race?_settle hlast, ?_⟩
  rw [waited, hend, hstart, htime, hsame, hnow, waited]
  exact Nat.sub_add_comm hle

end Scripted

/-- **Whatever the connection does, when the clock has gone on for some time the client is what the
earlier of initialization and patience made it, and until then it is initializing.** -/
theorem lifecycle_of_advance (start : Scripted.Start) (flags : FlagSet) (options : Client.Options)
    (patience : Nat) (identity : Identity)
    (hne : ∀ d ok, start.ending? = some (d, ok) → d ≠ patience) (ms : Nat) :
    ((Session.start (.scripted start flags) options patience identity).advance
        ms).client.lifecycle =
      if ms < start.deadline patience then .initializing
      else Client.verdict (some (start.outcome patience)) := by
  have hbegin := OnCourse.begin start flags options patience identity
  obtain ⟨script, hside, -⟩ := hbegin.scripted
  obtain ⟨hrace, hwaited⟩ := clock_advance hside hbegin.clocked.began_le ms
  obtain ⟨is, heq, htimely⟩ := onTime_advance hside ms
  obtain ⟨d, h⟩ := hbegin.meetAll hne (htimely (start.deadline patience))
  rw [← heq] at h
  have hms : (Session.start (.scripted start flags) options patience identity).waited + ms = ms :=
    Nat.zero_add ms
  rw [hms] at hwaited
  rw [h.raced.lifecycle_eq]
  split
  next hlt =>
    rw [h.undecided_of_lt (by rw [hwaited]; exact hlt)]
    rfl
  next hlt =>
    rw [h.decided_of_due (.inr ⟨by rw [hwaited]; exact Nat.not_lt.mp hlt, hrace⟩)]

end FeatureFlags.Session
