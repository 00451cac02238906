import FeatureFlags.Connection.Remote.Service
import FeatureFlags.Proofs.Connection.Remote.Replay

/-!
# The polling tasks of a service

Connections to one service are opened, used, closed and left alone, in any order.  A timer cannot be
started for an interval of nothing, so with such an interval the first success ends the polling
task; with any other the task goes on.

* `Seat.Tended`               what is known of the polling task of an open connection;
* `Seat.Tended.next`, `Seat.Tended.finish`   the steps of a seat keep it;
* `Service.Use`, `Service.useAll`   what a service is used for;
* `Service.tended_useAll`     every line stays tended;
* `Service.polling_over_iff`   after its first flags a connection polls, unless the interval is
                              nothing.
-/

namespace FeatureFlags.Remote

variable {ρ : Type}

/-! ## seats -/

namespace Seat

/-- What is known of the polling task of an open connection that somebody holds, or nobody. -/
structure Tended (s : Seat) (held : Bool) : Prop where
  manned : s.Manned
  active : 0 < s.interval → s.readiness = .ready → held = true → s.Active
  ended : s.interval = 0 → s.readiness = .ready → s.polling = .over

variable {s t : Seat} {held : Bool}

theorem readiness_join (s : Seat) (who : Caller) : (s.join who).readiness = s.readiness := by
  rw [join]
  split <;> rfl

theorem readiness_release (s : Seat) : s.release.readiness = s.readiness := by
  rw [release]
  split <;> rfl

theorem readiness_resume (s : Seat) : s.resume.readiness = s.readiness := by
  rw [resume]
  split <;> rfl

theorem readiness_start (s : Seat) : s.start.readiness = s.readiness := by
  rw [start]
  split
  · split
    · rfl
    · exact readiness_join _ _
  · rfl

theorem readiness_tick (s : Seat) (now : Nat) : (s.tick now).readiness = s.readiness := by
  rw [tick]
  split
  · split
    · rfl
    · split
      · exact readiness_join _ _
      · rfl
  · rfl

theorem start_of_over (h : s.polling = .over) : s.start = s := by
  rw [start, h]

theorem tick_of_over (h : s.polling = .over) (now : Nat) : s.tick now = s := by
  rw [tick, h]

theorem finish_of_none (h : s.underWay = none) (now : Nat) (answer : Except BackendError Unit) :
    s.finish now answer = s := by
  rw [finish]
  split
  next heq =>
    rw [underWay, heq] at h
    cases h
  next => rfl

/-- By itself a connection goes on with a turn, or its polling task begins, polls or, if nobody
holds the connection, ends without a fetch. -/
theorem next?_cases_of_held {now : Nat} (h : s.next? held now = some t) :
    t = s.resume ∨ t = s.start ∨ t = s.tick now ∨
      held = false ∧ s.polling.caller? = none ∧ t = s.stopPolling := by
  rw [next?] at h
  split at h
  next => exact .inl (Option.some.inj h).symm
  next hp _ =>
    cases held with
    | true => exact .inr (.inl (Option.some.inj h).symm)
    | false => exact .inr (.inr (.inr ⟨rfl, by rw [hp]; rfl, (Option.some.inj h).symm⟩))
  next due hp _ =>
    split at h
    next =>
      by_cases hb : (held || s.busy) = true
      · rw [if_pos hb] at h
        exact .inr (.inr (.inl (Option.some.inj h).symm))
      · rw [if_neg hb] at h
        have hf : held = false := by
          cases held with
          | true => exact absurd rfl hb
          | false => rfl
        exact .inr (.inr (.inr ⟨hf, by rw [hp]; rfl, (Option.some.inj h).symm⟩))
    next => cases h
  next => cases h

/-- What a seat does by itself leaves alone what is set. -/
theorem next?_frame {now : Nat} (h : s.next? held now = some t) :
    t.interval = s.interval ∧ t.closed = s.closed := by
  rcases next?_cases_of_held h with rfl | rfl | rfl | ⟨-, -, rfl⟩
  · exact ⟨(Goes.resume s).interval_eq, (Goes.resume s).closed_eq⟩
  · exact ⟨(Goes.start s).interval_eq, (Goes.start s).closed_eq⟩
  · exact ⟨(Goes.tick s now).interval_eq, (Goes.tick s now).closed_eq⟩
  · exact ⟨rfl, rfl⟩

namespace Tended

theorem new (key : String) (context : Context) (interval : Nat) (held : Bool) :
    (Seat.new key context interval).Tended held :=
  ⟨manned_new key context interval, nofun, nofun⟩

/-- A step of a task. -/
theorem of_goes (h : s.Tended held) (hg : s.Goes t) (hm : t.Manned)
    (hr : t.readiness = s.readiness) (ha : s.Active → t.Active)
    (ho : s.polling = .over → t.polling = .over) : t.Tended held := by
  refine ⟨hm, fun hi hready hheld => ha ?_, fun hi hready => ho ?_⟩
  · exact h.active (hg.interval_eq ▸ hi) (hr ▸ hready) hheld
  · exact h.ended (hg.interval_eq ▸ hi) (hr ▸ hready)

/-- What a seat does by itself keeps the polling task as it ought to be. -/
theorem next (h : s.Tended held) (hc : s.closed = false) {now : Nat}
    (ht : s.next? held now = some t) : t.Tended held := by
  rcases next?_cases_of_held ht with rfl | rfl | rfl | ⟨rfl, hp, rfl⟩
  · refine h.of_goes (.resume s) h.manned.resume (readiness_resume s)
      (·.of_polling_eq (polling_resume s)) fun ho => ?_
    rw [polling_resume, ho]
  · refine h.of_goes (.start s) h.manned.start (readiness_start s) (·.start) fun ho => ?_
    rw [start_of_over ho, ho]
  · refine h.of_goes (.tick s now) (h.manned.tick now) (readiness_tick s now)
      (·.tick hc now) fun ho => ?_
    rw [tick_of_over ho, ho]
  · refine ⟨?_, fun _ _ hf => (nomatch hf), fun _ _ => rfl⟩
    have hm : s.callers.filter Caller.isTask = _ := h.manned
    rw [hp] at hm
    exact hm

theorem identify (h : s.Tended held) (context : Context) (ticket : Nat) :
    ((s.turnTo context).join (.identify ticket)).Tended held := by
  have ht : (s.turnTo context).Tended held := ⟨h.manned, h.active, h.ended⟩
  refine ht.of_goes (.join _ _) (ht.manned.join_identify ticket) (readiness_join _ _)
    (·.of_polling_eq (polling_join _ _)) fun ho => ?_
  rw [polling_join, ho]

theorem finish_first (h : s.Tended held) {context : Context}
    (hu : s.underWay = some (.first, context)) (now : Nat)
    (answer : Except BackendError Unit) : (s.finish now answer).Tended held := by
  have hi : (s.finish now answer).interval = s.interval := (s.finish_frame now answer).2.1
  refine ⟨h.manned.finish hu now answer, fun hpos hr _ => ?_, fun hzero hr => ?_⟩
  · cases answer with
    | ok _ => exact active_of_first (hi ▸ hpos) hu now
    | error e =>
      rw [Seat.finish_first hu] at hr
      cases hr
  · rw [hi] at hzero
    rw [Seat.finish_first hu] at hr ⊢
    cases answer with
    | ok _ => exact if_pos ((interval_release s).trans hzero)
    | error e => cases hr

theorem finish_later (h : s.Tended held) (hc : s.closed = false) {who : Caller}
    {context : Context} (hu : s.underWay = some (who, context)) (hw : who ≠ .first) (now : Nat)
    (answer : Except BackendError Unit) : (s.finish now answer).Tended held := by
  have hi : (s.finish now answer).interval = s.interval := (s.finish_frame now answer).2.1
  have hr : (s.finish now answer).readiness = s.readiness ∧
      (s.polling = .over → (s.finish now answer).polling = .over) := by
    cases who with
    | first => exact absurd rfl hw
    | poll =>
      obtain ⟨next, hp⟩ := Polling.eq_refreshing (h.manned.of_task hu rfl).1
      refine ⟨?_, fun ho => nomatch hp.symm.trans ho⟩
      rw [finish_poll hu, settlePoll, polling_release, hp]
      exact readiness_release s
    | identify ticket =>
      rw [finish_identify hu]
      exact ⟨readiness_release s, fun ho => (polling_release s).trans ho⟩
  refine ⟨h.manned.finish hu now answer, fun hpos hready hheld => ?_, fun hzero hready => ?_⟩
  · exact (h.active (hi ▸ hpos) (hr.1 ▸ hready) hheld).finish h.manned hc hu now answer
  · exact hr.2 (h.ended (hi ▸ hzero) (hr.1 ▸ hready))

/-- An answer keeps the polling task as it ought to be, whatever it is. -/
theorem finish (h : s.Tended held) (hc : s.closed = false) (now : Nat)
    (answer : Except BackendError Unit) : (s.finish now answer).Tended held := by
  cases hu : s.underWay with
  | none =>
    rw [finish_of_none hu]
    exact h
  | some u =>
    obtain ⟨who, context⟩ := u
    by_cases hw : who = .first
    · exact h.finish_first (hw ▸ hu) now answer
    · exact h.finish_later hc hu hw now answer

end Tended

end Seat

/-! ## lines -/

/-- A line with the interval of the service; its polling task is as it ought to be as long as the
connection is open. -/
structure Line.Tended (interval : Nat) (l : Line ρ) : Prop where
  interval_eq : l.seat.interval = interval
  seat : l.seat.closed = false → l.seat.Tended l.held

namespace Line.Tended

variable {interval : Nat} {l m : Line ρ}

/-- Only the seat counts. -/
theorem of_seat (h : l.Tended interval) (hi : m.seat.interval = l.seat.interval)
    (hc : m.seat.closed = l.seat.closed) (ht : l.seat.closed = false → m.seat.Tended m.held) :
    m.Tended interval :=
  ⟨hi.trans h.interval_eq, fun ho => ht (hc ▸ ho)⟩

theorem finish (h : l.Tended interval) (now : Nat) (answer : Except BackendError FlagSet) :
    Line.Tended interval { l with connection := (l.connection.finish now answer).1 } := by
  obtain ⟨-, hi, hc, -⟩ := l.seat.finish_frame now (answer.map (fun _ => ()))
  have hseat := l.connection.seat_finish now answer
  refine h.of_seat ?_ ?_ fun ho => ?_
  · exact (congrArg Seat.interval hseat).trans hi
  · exact (congrArg Seat.closed hseat).trans hc
  · show Seat.Tended (l.connection.finish now answer).1.seat l.held
    rw [hseat]
    exact (h.seat ho).finish ho now _

/-- A closed connection owes nothing. -/
theorem close (h : l.Tended interval) :
    Line.Tended interval { l with connection := l.connection.close } := by
  refine ⟨?_, nofun⟩
  show l.seat.close.interval = _
  rw [← h.interval_eq, Seat.close]
  show l.seat.abandonFirst.interval = _
  rw [Seat.abandonFirst]
  split
  · exact Seat.interval_release _
  · exact Seat.interval_release _
  · rfl

theorem forget (h : l.Tended interval) : Line.Tended interval { l with held := false } :=
  ⟨h.interval_eq, fun ho => ⟨(h.seat ho).manned, nofun, (h.seat ho).ended⟩⟩

end Line.Tended

/-! ## services -/

namespace Service

/-- What a service is used for.  Work that can be done may be left undone for a while. -/
inductive Use (ρ : Type) where
  | connect (key : String) (context : Context)
  | identify (id : Nat) (context : Context)
  | listen (id : Nat) (topic : Topic) (role : ρ)
  | ignore (id : Nat) (listener : ListenerId)
  | close (id : Nat)
  | forget (id : Nat)
  | settle
  | advance (ms : Nat)

/-- Does something to the feed of a line. -/
def feedBy (s : Service ρ) (id : Nat) (f : Feed ρ → Feed ρ) : Service ρ :=
  match s.line? id with
  | none => s
  | some l => s.update id { l with connection := { l.connection with feed := f l.connection.feed } }

def use (s : Service ρ) : Use ρ → Service ρ
  | .connect key context => s.connect key context
  | .identify id context => (s.identify id context).1
  | .listen id topic role => s.feedBy id (fun f => (f.listen topic role).1)
  | .ignore id listener => s.feedBy id (fun f => f.ignore listener)
  | .close id => s.close id
  | .forget id => s.forget id
  | .settle => s.settle.1
  | .advance ms => (s.advance ms).1

def useAll (s : Service ρ) (us : List (Use ρ)) : Service ρ := us.foldl use s

theorem useAll_nil (s : Service ρ) : s.useAll [] = s := rfl
theorem useAll_cons (s : Service ρ) (u : Use ρ) (us : List (Use ρ)) :
    s.useAll (u :: us) = (s.use u).useAll us := rfl

/-- All lines are as they ought to be. -/
def Tended (interval : Nat) (s : Service ρ) : Prop :=
  s.interval = interval ∧ ∀ e ∈ s.lines, e.2.Tended interval

theorem mem_lines_of_line? {s : Service ρ} {id : Nat} {l : Line ρ} (h : s.line? id = some l) :
    ∃ e ∈ s.lines, e.2 = l := by
  obtain ⟨e, he, rfl⟩ := Option.map_eq_some_iff.mp h
  exact ⟨e, List.mem_of_find?_eq_some he, rfl⟩

namespace Tended

variable {interval : Nat} {s : Service ρ}

theorem start (network : Network) (interval : Nat) :
    (Service.start network interval : Service ρ).Tended interval :=
  ⟨rfl, fun _ he => nomatch he⟩

theorem line (h : s.Tended interval) {id : Nat} {l : Line ρ} (hl : s.line? id = some l) :
    l.Tended interval := by
  obtain ⟨e, he, rfl⟩ := mem_lines_of_line? hl
  exact h.2 e he

/-- What is not a line does not count. -/
theorem of_lines_eq {t : Service ρ} (h : s.Tended interval) (hi : t.interval = s.interval)
    (hl : t.lines = s.lines) : t.Tended interval :=
  ⟨hi.trans h.1, hl ▸ h.2⟩

theorem update (h : s.Tended interval) (id : Nat) {l : Line ρ} (hl : l.Tended interval) :
    (s.update id l).Tended interval := by
  refine ⟨h.1, fun e he => ?_⟩
  obtain ⟨d, hd, rfl⟩ := List.mem_map.mp he
  split
  next => exact hl
  next => exact h.2 d hd

theorem moveSeat (h : s.Tended interval) (id : Nat) {l : Line ρ} {seat : Seat}
    (hl : (l.setSeat seat).Tended interval) : (s.moveSeat id l seat).Tended interval :=
  (h.update id hl).of_lines_eq rfl rfl

theorem feedBy (h : s.Tended interval) (id : Nat) (f : Feed ρ → Feed ρ) :
    (s.feedBy id f).Tended interval := by
  rw [Service.feedBy]
  split
  next => exact h
  next l hl => exact h.update id ⟨(h.line hl).interval_eq, (h.line hl).seat⟩

theorem connect (h : s.Tended interval) (key : String) (context : Context) :
    (s.connect key context).Tended interval := by
  refine ⟨h.1, fun e he => ?_⟩
  rcases List.mem_append.mp he with he | he
  · exact h.2 e he
  · rw [List.mem_singleton.mp he]
    exact ⟨h.1, fun _ => .new key context s.interval true⟩

theorem identify (h : s.Tended interval) (id : Nat) (context : Context) :
    (s.identify id context).1.Tended interval := by
  rw [Service.identify]
  split
  next => exact h
  next l hl =>
    cases hc : l.seat.closed with
    | true =>
      rw [Seat.identify, if_pos hc]
      exact h
    | false =>
      rw [Seat.identify_eq hc]
      have hg := Seat.Goes.join (l.seat.turnTo context) (.identify s.nextTicket)
      refine (h.moveSeat id ?_).of_lines_eq rfl rfl
      exact (h.line hl).of_seat hg.interval_eq hg.closed_eq
        fun ho => ((h.line hl).seat ho).identify context s.nextTicket

theorem close (h : s.Tended interval) (id : Nat) : (s.close id).Tended interval := by
  rw [Service.close]
  split
  next => exact h
  next l hl => exact (h.update id (h.line hl).close).of_lines_eq rfl rfl

theorem forget (h : s.Tended interval) (id : Nat) : (s.forget id).Tended interval := by
  rw [Service.forget]
  split
  next => exact h
  next l hl => exact h.update id (h.line hl).forget

theorem runTask (h : s.Tended interval) {t : Service ρ} (ht : s.runTask? = some t) :
    t.Tended interval := by
  obtain ⟨e, he, hs⟩ := List.exists_of_findSome?_eq_some ht
  obtain ⟨seat, hn, rfl⟩ := Option.map_eq_some_iff.mp hs
  have hf := Seat.next?_frame hn
  exact h.moveSeat e.1 ((h.2 e he).of_seat hf.1 hf.2 fun ho => ((h.2 e he).seat ho).next ho hn)

theorem deliver (h : s.Tended interval) (f : Flight) : (s.deliver f).1.Tended interval := by
  rw [Service.deliver]
  split
  next => exact h
  next l hl =>
    have hu := h.update f.connection ((h.line hl).finish s.now f.answer)
    -- an identify leaves its result besides
    dsimp only
    split
    · exact hu.of_lines_eq rfl rfl
    · exact hu

theorem land (h : s.Tended interval) {r : Service ρ × List (Call ρ)} (hr : s.land? = some r) :
    r.1.Tended interval := by
  obtain ⟨x, -, rfl⟩ := Option.map_eq_some_iff.mp hr
  have hx : Service.Tended interval { s with network := x.2 } := h.of_lines_eq rfl rfl
  exact hx.deliver x.1

/-- Work is done in steps of tasks and answers. -/
theorem settleIn (h : s.Tended interval) (steps : Nat) : (settleIn steps s).1.Tended interval := by
  induction steps generalizing s with
  | zero => exact h
  | succ steps ih =>
    rw [Service.settleIn]
    split
    next t ht => exact ih (h.runTask ht)
    next =>
      split
      next r hr => exact ih (h.land hr)
      next => exact h

theorem use (h : s.Tended interval) (u : Use ρ) : (s.use u).Tended interval := by
  cases u with
  | connect key context => exact h.connect key context
  | identify id context => exact h.identify id context
  | listen id topic role => exact h.feedBy id _
  | ignore id listener => exact h.feedBy id _
  | close id => exact h.close id
  | forget id => exact h.forget id
  | settle => exact h.settleIn _
  | advance ms =>
    have hlater : Service.Tended interval { s with now := s.now + ms } := h.of_lines_eq rfl rfl
    exact hlater.settleIn _

/-- **Whatever a service is used for, its lines stay as they ought to be.** -/
theorem useAll (h : s.Tended interval) (us : List (Use ρ)) : (s.useAll us).Tended interval := by
  induction us generalizing s with
  | nil =>
    rw [useAll_nil]
    exact h
  | cons u us ih =>
    rw [useAll_cons]
    exact ih (h.use u)

end Tended

/-- **Whatever a service is used for, the polling task of an open connection that has its first
flags is over only if the interval is nothing, and polls otherwise.** -/
theorem polling_over_iff (network : Network) (interval : Nat) (us : List (Use ρ)) {id : Nat}
    {l : Line ρ} (hl : ((start network interval).useAll us).line? id = some l)
    (hheld : l.held = true) (hopen : l.seat.closed = false) (hready : l.seat.readiness = .ready) :
    (l.seat.polling = .over ↔ interval = 0) ∧ (0 < interval → l.seat.Polls) := by
  have ht : l.Tended interval := ((Tended.start network interval).useAll us).line hl
  have hs : l.seat.Tended l.held := ht.seat hopen
  have hactive : 0 < interval → l.seat.Active := fun hi =>
    hs.active (ht.interval_eq ▸ hi) hready hheld
  refine ⟨⟨fun ho => ?_, fun hi => hs.ended (ht.interval_eq.trans hi) hready⟩, fun hi => ?_⟩
  · by_contra hne
    rcases hactive (Nat.pos_of_ne_zero hne) with ⟨due, hp⟩ | ⟨next, hp⟩
    · cases hp.symm.trans ho
    · cases hp.symm.trans ho
  · exact hs.manned.polls (hactive hi) hopen

end Service

end FeatureFlags.Remote
