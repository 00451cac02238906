import FeatureFlags.Identity
import FeatureFlags.Proofs.Connection.Remote.Runs

/-!
# The flags of a remote connection

Flags are those of the last success, failures leave no trace, and who listens can follow.

* `Seat.Manned`               the polling task has one fetch to wait for, or none;
* `Seat.Polls`                the polling task waits for the next poll, or for a fetch that it asked
                              for;
* `Connection.Replayed`       what a connection is, given what was seen of it;
* `Connection.follows_run`    a listener on any change can follow the flags;
* `Connection.flags_replayed`   what holds of every connection after any run.
-/

namespace FeatureFlags.Remote

/-! ## the polling task -/

/-- the fetch that the polling task waits for -/
def Polling.caller? : Polling → Option Caller
  | starting => some .first
  | refreshing _ => some .poll
  | _ => none

theorem Polling.eq_starting {p : Polling} (h : p.caller? = some .first) : p = starting := by
  cases p <;> first | rfl | cases h

theorem Polling.eq_refreshing {p : Polling} (h : p.caller? = some .poll) :
    ∃ next, p = refreshing next := by
  cases p with
  | refreshing next => exact ⟨next, rfl⟩
  | _ => cases h

/-- whether a fetch is one of the polling task -/
def Caller.isTask : Caller → Bool
  | identify _ => false
  | _ => true

namespace Seat

/-- The polling task has asked for the fetch that it waits for, and for no other. -/
def Manned (s : Seat) : Prop := s.callers.filter Caller.isTask = s.polling.caller?.toList

/-- The polling task waits for its next turn to poll, which it will ask for when it is time, or has
asked for it. -/
def Polls (s : Seat) : Prop :=
  (∃ due, s.polling = .waiting due ∧ ∀ now, due ≤ now → .poll ∈ (s.tick now).callers) ∨
    ∃ next, s.polling = .refreshing next ∧ .poll ∈ s.callers

/-- The polling task has its first flags and goes on. -/
def Active (s : Seat) : Prop :=
  (∃ due, s.polling = .waiting due) ∨ ∃ next, s.polling = .refreshing next

theorem manned_new (key : String) (context : Context) (interval : Nat) :
    (new key context interval).Manned := rfl

theorem polling_join (s : Seat) (who : Caller) : (s.join who).polling = s.polling := by
  rw [join]
  split <;> rfl

theorem polling_resume (s : Seat) : s.resume.polling = s.polling := by
  rw [resume]
  split <;> rfl

theorem polling_release (s : Seat) : s.release.polling = s.polling := by
  rw [release]
  split <;> rfl

theorem closed_release (s : Seat) : s.release.closed = s.closed := by
  rw [release]
  split <;> rfl

theorem interval_release (s : Seat) : s.release.interval = s.interval := by
  rw [release]
  split <;> rfl

theorem finish_first {s : Seat} {context : Context} (h : s.underWay = some (.first, context))
    (now : Nat) (answer : Except BackendError Unit) :
    s.finish now answer = s.release.settleFirst now answer := by
  rw [finish, turn_of_underWay h]

theorem finish_poll {s : Seat} {context : Context} (h : s.underWay = some (.poll, context))
    (now : Nat) (answer : Except BackendError Unit) :
    s.finish now answer = s.release.settlePoll := by
  rw [finish, turn_of_underWay h]

theorem finish_identify {s : Seat} {ticket : Nat} {context : Context}
    (h : s.underWay = some (.identify ticket, context)) (now : Nat)
    (answer : Except BackendError Unit) : s.finish now answer = s.release := by
  rw [finish, turn_of_underWay h]

namespace Manned

variable {s : Seat}

/-- A fetch of the polling task, when it has none. -/
theorem join_task {who : Caller} (h : s.callers.filter Caller.isTask = [])
    (hp : s.polling.caller? = some who) (hw : who.isTask = true) : (s.join who).Manned := by
  rw [Manned, polling_join, hp]
  refine List.perm_singleton.mp ?_
  have hj := (callers_join s who).filter Caller.isTask
  rwa [List.filter_cons, if_pos hw, h] at hj

theorem join_identify (h : s.Manned) (ticket : Nat) : (s.join (.identify ticket)).Manned := by
  have hj := (callers_join s (.identify ticket)).filter Caller.isTask
  rw [List.filter_cons, if_neg (show ¬Caller.isTask (.identify ticket) = true from nofun),
    show _ = _ from h] at hj
  rw [Manned, polling_join]
  -- at most one fetch, so the order does not matter
  cases hp : s.polling.caller? with
  | none =>
    rw [hp] at hj
    exact List.perm_nil.mp hj
  | some who =>
    rw [hp] at hj
    exact List.perm_singleton.mp hj

theorem start (h : s.Manned) : s.start.Manned := by
  rw [Seat.start]
  split
  next hp =>
    have hn : s.callers.filter Caller.isTask = [] := by
      rw [show _ = _ from h, hp]
      rfl
    split
    · exact hn
    · exact join_task hn rfl rfl
  next => exact h

theorem tick (h : s.Manned) (now : Nat) : (s.tick now).Manned := by
  rw [Seat.tick]
  split
  next due hp =>
    have hn : s.callers.filter Caller.isTask = [] := by
      rw [show _ = _ from h, hp]
      rfl
    split
    · exact hn
    · split
      · exact join_task hn rfl rfl
      · exact h
  next => exact h

theorem resume (h : s.Manned) : s.resume.Manned := by
  rw [Manned, callers_resume, polling_resume]
  exact h

/-- An answer to the polling task finds it waiting for it, and for nothing else. -/
theorem of_task (h : s.Manned) {who : Caller} {context : Context}
    (hu : s.underWay = some (who, context)) (hw : who.isTask = true) :
    s.polling.caller? = some who ∧ s.release.callers.filter Caller.isTask = [] := by
  have hc : s.callers.filter Caller.isTask = _ := h
  rw [callers_of_underWay hu, List.filter_cons, if_pos hw] at hc
  cases hp : s.polling.caller? with
  | none =>
    rw [hp] at hc
    cases hc
  | some other =>
    rw [hp] at hc
    obtain ⟨rfl, hr⟩ := List.cons.inj hc
    exact ⟨rfl, hr⟩

theorem finish (h : s.Manned) {who : Caller} {context : Context}
    (hu : s.underWay = some (who, context)) (now : Nat) (answer : Except BackendError Unit) :
    (s.finish now answer).Manned := by
  cases who with
  | first =>
    rw [finish_first hu, Manned, callers_settleFirst, (h.of_task hu rfl).2]
    cases answer with
    | error e => rfl
    | ok _ =>
      rw [settleFirst]
      split <;> rfl
  | poll =>
    obtain ⟨next, hp⟩ := Polling.eq_refreshing (h.of_task hu rfl).1
    rw [finish_poll hu, Manned, callers_settlePoll, (h.of_task hu rfl).2, settlePoll,
      polling_release, hp]
    show [] = (if s.release.closed then Polling.over else .waiting next).caller?.toList
    split <;> rfl
  | identify ticket =>
    have hc : s.callers.filter Caller.isTask = _ := h
    rw [callers_of_underWay hu] at hc
    rw [finish_identify hu, Manned, polling_release]
    exact hc

/-- An active polling task polls. -/
theorem polls (h : s.Manned) (ha : s.Active) (hc : s.closed = false) : s.Polls := by
  rcases ha with ⟨due, hp⟩ | ⟨next, hp⟩
  · refine .inl ⟨due, hp, fun now hn => ?_⟩
    rw [Seat.tick, hp]
    simp only [hc, Bool.false_eq_true, if_false, if_pos hn]
    exact (callers_join _ _).mem_iff.mpr List.mem_cons_self
  · refine .inr ⟨next, hp, ?_⟩
    have hm : .poll ∈ s.callers.filter Caller.isTask := by
      rw [show _ = _ from h, hp]
      exact List.mem_singleton_self _
    exact (List.mem_filter.mp hm).1

end Manned

namespace Active

variable {s t : Seat}

theorem of_polling_eq (h : s.Active) (hp : t.polling = s.polling) : t.Active := by
  rw [Active, hp]
  exact h

theorem start (h : s.Active) : s.start.Active := by
  rw [Seat.start]
  split
  next hp =>
    rcases h with ⟨_, h⟩ | ⟨_, h⟩
    · cases hp.symm.trans h
    · cases hp.symm.trans h
  next => exact h

theorem tick (h : s.Active) (hc : s.closed = false) (now : Nat) : (s.tick now).Active := by
  rw [Seat.tick]
  split
  · split
    next hc' => exact absurd hc' (ne_true_of_eq_false hc)
    · split
      · exact .inr ⟨_, polling_join _ _⟩
      · exact h
  · exact h

/-- Whatever is answered, an active polling task goes on. -/
theorem finish (h : s.Active) (hm : s.Manned) (hc : s.closed = false) {who : Caller}
    {context : Context} (hu : s.underWay = some (who, context)) (now : Nat)
    (answer : Except BackendError Unit) : (s.finish now answer).Active := by
  cases who with
  | first =>
    have hp := Polling.eq_starting (hm.of_task hu rfl).1
    rcases h with ⟨_, h⟩ | ⟨_, h⟩
    · cases hp.symm.trans h
    · cases hp.symm.trans h
  | poll =>
    obtain ⟨next, hp⟩ := Polling.eq_refreshing (hm.of_task hu rfl).1
    rw [finish_poll hu, settlePoll, polling_release, hp]
    refine .inl ⟨next, ?_⟩
    show (if s.release.closed then Polling.over else .waiting next) = _
    rw [closed_release, hc]
    rfl
  | identify ticket =>
    rw [finish_identify hu]
    exact h.of_polling_eq (polling_release s)

end Active

/-- After a first success the polling task is active. -/
theorem active_of_first {s : Seat} (hi : 0 < s.interval) {context : Context}
    (hu : s.underWay = some (.first, context)) (now : Nat) : (s.finish now (.ok ())).Active := by
  rw [finish_first hu]
  refine .inl ⟨now + s.release.interval, if_neg ?_⟩
  rw [interval_release]
  exact Nat.ne_of_gt hi

end Seat

/-! ## what was seen -/

/-- the flags of the last success, none before the first one -/
def latestFlags (ms : List Mark) : FlagSet := (ms.filterMap Mark.flags?).getLast?.getD {}

/-- what a listener on any change was handed -/
def batches (id : ListenerId) (ms : List Mark) : List (List Change) :=
  Call.batches id (ms.filterMap Mark.call?)

theorem latestFlags_append_of_nil {ms ns : List Mark} (h : ns.filterMap Mark.flags? = []) :
    latestFlags (ms ++ ns) = latestFlags ms := by
  rw [latestFlags, List.filterMap_append, h, List.append_nil]
  rfl

theorem latestFlags_append_of_singleton {ms ns : List Mark} {flags : FlagSet}
    (h : ns.filterMap Mark.flags? = [flags]) : latestFlags (ms ++ ns) = flags := by
  rw [latestFlags, List.filterMap_append, h, List.getLast?_concat]
  rfl

theorem batches_append (id : ListenerId) (ms ns : List Mark) :
    batches id (ms ++ ns) = batches id ms ++ batches id ns := by
  rw [batches, List.filterMap_append, Call.batches_append]
  rfl

theorem filterMap_flags?_called (calls : List (Call ListenerId)) :
    (calls.map Mark.called).filterMap Mark.flags? = [] := by
  rw [List.filterMap_map]
  exact List.filterMap_eq_nil_iff.mpr fun _ _ => rfl

theorem filterMap_call?_called (calls : List (Call ListenerId)) :
    (calls.map Mark.called).filterMap Mark.call? = calls := by
  rw [List.filterMap_map, show Mark.call? ∘ Mark.called = some from rfl, List.filterMap_some]

namespace Connection

/-- What a connection is, given what was seen of it. -/
structure Replayed (c : Connection ListenerId) (ms : List Mark) : Prop where
  flags_eq : c.feed.flags = latestFlags ms
  closed_eq : c.seat.closed = false
  interval_pos : 0 < c.seat.interval
  manned : c.seat.Manned
  active : ∀ context flags, .answered .first context (.ok flags) ∈ ms → c.seat.Active
  tagged : c.feed.listeners.Tagged id

theorem replayed_fresh (key : String) (context : Context) {interval : Nat} (hi : 0 < interval) :
    (fresh key context interval).Replayed [] :=
  ⟨rfl, rfl, hi, Seat.manned_new key context interval, fun _ _ h => absurd h List.not_mem_nil,
    ListenerSet.tagged_empty id⟩

namespace Replayed

variable {c : Connection ListenerId} {ms : List Mark}

/-- A step of a task that keeps the polling task as it ought to be. -/
theorem move (h : c.Replayed ms) {seat : Seat} (hg : c.seat.Goes seat) (hm : seat.Manned)
    (ha : c.seat.Active → seat.Active) : (c.move seat).1.Replayed (ms ++ (c.move seat).2) := by
  have hb : (c.seat.begun seat).filterMap Mark.flags? = [] ∧
      ∀ context flags, .answered .first context (.ok flags) ∉ c.seat.begun seat := by
    rcases hg.begun_cases with ⟨hb, -⟩ | ⟨-, who, -, hb⟩
    · rw [hb]
      exact ⟨rfl, fun _ _ => List.not_mem_nil⟩
    · rw [hb]
      exact ⟨rfl, fun _ _ hm => nomatch List.mem_singleton.mp hm⟩
  refine ⟨?_, hg.closed_eq.trans h.closed_eq, hg.interval_eq ▸ h.interval_pos, hm, ?_, h.tagged⟩
  · exact h.flags_eq.trans (latestFlags_append_of_nil hb.1).symm
  · intro context flags hf
    rcases List.mem_append.mp hf with hf | hf
    · exact ha (h.active context flags hf)
    · exact absurd hf (hb.2 context flags)

theorem answer (h : c.Replayed ms) {who : Caller} {context : Context}
    (hu : c.seat.underWay = some (who, context)) (now : Nat) (response : Response) :
    (c.step (.answer now response)).1.Replayed (ms ++ (c.step (.answer now response)).2) := by
  obtain ⟨-, hi, hc, -⟩ := c.seat.finish_frame now (response.answer.map (fun _ => ()))
  rw [step_answer hu]
  refine ⟨?_, ?_, ?_, ?_, ?_, ?_⟩
  · cases response.answer with
    | ok flags =>
      refine (latestFlags_append_of_singleton ?_).symm
      exact congrArg (flags :: ·) (filterMap_flags?_called _)
    | error e => exact h.flags_eq.trans (latestFlags_append_of_nil rfl).symm
  · rw [seat_finish, hc]
    exact h.closed_eq
  · rw [seat_finish, hi]
    exact h.interval_pos
  · rw [seat_finish]
    exact h.manned.finish hu now _
  · intro y flags hf
    rw [seat_finish]
    rcases List.mem_append.mp hf with hf | hf
    · exact (h.active y flags hf).finish h.manned h.closed_eq hu now _
    · rcases List.mem_cons.mp hf with hf | hf
      · injection hf with hw _ ha
        rw [← ha]
        exact Seat.active_of_first h.interval_pos (hw ▸ hu) now
      · obtain ⟨_, _, hf⟩ := List.mem_map.mp hf
        cases hf
  · cases response.answer with
    | ok flags => exact h.tagged
    | error e => exact h.tagged

theorem step (h : c.Replayed ms) (e : Event) : (c.step e).1.Replayed (ms ++ (c.step e).2) := by
  cases e with
  | start => exact h.move (.start _) h.manned.start (·.start)
  | tick now => exact h.move (.tick _ now) (h.manned.tick now) (·.tick h.closed_eq now)
  | join ticket =>
    exact h.move (.join _ _) (h.manned.join_identify ticket)
      (·.of_polling_eq (Seat.polling_join _ _))
  | resume =>
    exact h.move (.resume _) h.manned.resume (·.of_polling_eq (Seat.polling_resume _))
  | answer now response =>
    cases hu : c.seat.underWay with
    | none =>
      rw [step_answer_of_none hu, List.append_nil]
      exact h
    | some u => exact h.answer hu now response
  | set context =>
    refine ⟨h.flags_eq.trans (latestFlags_append_of_nil rfl).symm, h.closed_eq, h.interval_pos,
      h.manned, fun y flags hf => ?_, h.tagged⟩
    rcases List.mem_append.mp hf with hf | hf
    · exact h.active y flags hf
    · cases List.mem_singleton.mp hf
  | listen topic =>
    rw [show (c.step (.listen topic)).2 = [] from rfl, List.append_nil]
    exact ⟨h.flags_eq, h.closed_eq, h.interval_pos, h.manned, h.active, h.tagged.add topic⟩
  | ignore id =>
    rw [show (c.step (.ignore id)).2 = [] from rfl, List.append_nil]
    exact ⟨h.flags_eq, h.closed_eq, h.interval_pos, h.manned, h.active, h.tagged.remove id⟩

theorem run (h : c.Replayed ms) (es : List Event) : (c.run es).Replayed (ms ++ c.trace es) := by
  induction es generalizing c ms with
  | nil =>
    rw [trace_nil, List.append_nil]
    exact h
  | cons e es ih =>
    rw [trace_cons, ← List.append_assoc]
    exact ih (h.step e)

end Replayed

/-! ## listeners on any change -/

/-- **An event hands a listener on any change the batch that leads to the new flags.** -/
theorem batches_step {c : Connection ListenerId} {l : ListenerId} (h : c.feed.listeners.Sole l l)
    (e : Event) : batches l (c.step e).2 = c.feed.flags.batchTo (c.step e).1.feed.flags := by
  have hself : [] = c.feed.flags.batchTo c.feed.flags :=
    (FlagSet.batchTo_of_same (FlagSet.same_refl _)).symm
  rcases c.step_cases e with ⟨seat, hg, hs⟩ | ⟨context, rfl⟩ |
    ⟨now, response, who, context, hu, rfl⟩ | ⟨feed, hf, hs⟩
  · rw [hs]
    rcases hg.begun_cases with ⟨hb, -⟩ | ⟨-, who, -, hb⟩
    · exact (congrArg (batches l) hb).trans hself
    · exact (congrArg (batches l) hb).trans hself
  · exact hself
  · rw [step_answer hu]
    show Call.batches l ((_ :: List.map Mark.called _).filterMap Mark.call?) = _
    rw [List.filterMap_cons_none rfl, filterMap_call?_called]
    cases response.answer with
    | ok flags => exact Feed.batches_replace h flags
    | error e => exact hself
  · rw [hs]
    show [] = c.feed.flags.batchTo feed.flags
    rw [hf]
    exact hself

theorem sole_step {c : Connection ListenerId} {l : ListenerId} (h : c.feed.listeners.Sole l l)
    {e : Event} (he : e ≠ .ignore l) : (c.step e).1.feed.listeners.Sole l l := by
  cases e with
  | listen topic => exact h.add topic (Nat.ne_of_gt h.lt_next)
  | ignore id => exact h.remove (fun hid => he (congrArg Event.ignore hid))
  | answer now response =>
    cases hu : c.seat.underWay with
    | none =>
      rw [step_answer_of_none hu]
      exact h
    | some u =>
      rw [step_answer hu]
      cases response.answer <;> exact h
  | _ => exact h

/-- A listener on any change, as long as it stays, can follow the flags. -/
theorem follows_run {c : Connection ListenerId} {l : ListenerId} (h : c.feed.listeners.Sole l l)
    {old : FlagSet} {bs : List (List Change)} (hf : old.Follows bs c.feed.flags) {es : List Event}
    (he : .ignore l ∉ es) : old.Follows (bs ++ batches l (c.trace es)) (c.run es).feed.flags := by
  induction es generalizing c bs with
  | nil =>
    rw [trace_nil]
    exact (List.append_nil bs).symm ▸ hf
  | cons e es ih =>
    rw [List.mem_cons, not_or] at he
    rw [run_cons, trace_cons, batches_append, batches_step h, ← List.append_assoc]
    exact ih (sole_step h (Ne.symm he.1)) (hf.next _) he.2

/-! ## what holds after any run -/

/-- A failure changes no flag and calls nobody. -/
theorem step_failure (c : Connection ListenerId) (now : Nat) {response : Response}
    {e : BackendError} (h : response.answer = .error e) :
    (c.step (.answer now response)).1.feed = c.feed ∧
      ∀ call, .called call ∉ (c.step (.answer now response)).2 := by
  cases hu : c.seat.underWay with
  | none =>
    rw [step_answer_of_none hu]
    exact ⟨rfl, fun _ => List.not_mem_nil⟩
  | some u =>
    rw [step_answer hu, h]
    exact ⟨rfl, fun _ hm => nomatch List.mem_singleton.mp hm⟩

/-- **After any run the requests did not overlap, the flags are those of the last success, a failure
changes no flag and calls nobody, the polling task polls if its first fetch was a success, and a
listener on any change that is registered now, as long as it stays, can follow the flags.** -/
theorem flags_replayed (key : String) (context : Context) (interval : Nat) (hi : 0 < interval)
    (es : List Event) :
    let c := (fresh key context interval).run es
    let ms := (fresh key context interval).trace es
    Alternates none ms c.seat.underWay ∧
    c.feed.flags = latestFlags ms ∧
    (∀ now response e, response.answer = .error e →
      (c.step (.answer now response)).1.feed = c.feed ∧
        ∀ call, .called call ∉ (c.step (.answer now response)).2) ∧
    (∀ opening flags, .answered .first opening (.ok flags) ∈ ms → c.seat.Polls) ∧
    ∀ later, .ignore c.feed.listeners.next ∉ later →
      let d := (c.step (.listen .anyChange)).1
      c.feed.flags.Follows (batches c.feed.listeners.next (d.trace later))
        (d.run later).feed.flags := by
  intro c ms
  have h : c.Replayed ms := (replayed_fresh key context hi).run es
  have hl : (c.step (.listen .anyChange)).1.feed.listeners.Sole _ _ :=
    h.tagged.sole (fun _ _ heq => heq)
  exact ⟨alternates_run (fresh key context interval) es, h.flags_eq,
    fun now _ _ hr => step_failure c now hr,
    fun opening flags hm => h.manned.polls (h.active opening flags hm) h.closed_eq,
    fun later hi => follows_run hl (.refl c.feed.flags) hi⟩

def successAnswer : Response := .reply 200 "\x7b\"flags\":\x7b\"alpha\":true\x7d\x7d"

/-- a first fetch that is a success, and a poll that is none -/
def failedPoll : List Event :=
  [.start, .answer 0 successAnswer, .tick 1000, .answer 1000 (.reply 500 "")]

theorem replayed_of_failedPoll :
    let c := (fresh "key" (Identity.anonymous "en").context 1000).run failedPoll
    let ms := (fresh "key" (Identity.anonymous "en").context 1000).trace failedPoll
    0 < 1000 ∧ c.feed.flags = latestFlags ms ∧ c.feed.flags.text = "\x7b\"alpha\":true\x7d" ∧
      c.seat.Polls := by
  obtain ⟨-, hf, -, hp, -⟩ :=
    flags_replayed "key" (Identity.anonymous "en").context 1000 (by decide) failedPoll
  have htext : ((fresh "key" (Identity.anonymous "en").context 1000).run
      failedPoll).feed.flags.text = "\x7b\"alpha\":true\x7d" := by decide +kernel
  have hok : successAnswer.answer.isOk = true := by decide +kernel
  cases ha : successAnswer.answer with
  | error e =>
    rw [ha] at hok
    cases hok
  | ok flags =>
    refine ⟨by decide, hf, htext, hp (Identity.anonymous "en").context flags ?_⟩
    rw [failedPoll, trace_cons, trace_cons, step_answer rfl, ha]
    exact List.mem_append_right _ (List.mem_append_left _ List.mem_cons_self)

end Connection

end FeatureFlags.Remote
