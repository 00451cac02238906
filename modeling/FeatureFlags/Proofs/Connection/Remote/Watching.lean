import FeatureFlags.Connection.Remote.Service
import FeatureFlags.Proofs.Connection.Remote.Runs

/-!
# A connection that only polls

One connection of a service, after its first flags, of which nobody wants anything: it rests until
it is time to poll, and it polls.

* `responseAt`, `flagsAfter`   the answers of a service one by one, and the flags they lead to;
* `Watch.resting`, `Watch.fetching`, `Watch.stopped`   the states of such a service;
* `Service.Watches`           what is known of it after some requests, when all work is done;
* `Service.watches_settleIn`  polls that are due are made, however many there are;
* `Service.Watches.advance`, `Service.Watches.advance_once`   after any time the flags are those of
                              the answers so far, and after enough time there is one more answer;
* `Service.flags_without_interval`, `Service.flags_by_polling`, `Service.success_by_polling`   what
                              the flags are.
-/

namespace FeatureFlags.Remote

variable {ρ : Type}

/-! ## scripts -/

/-- the response to the request after `k` others; the last one serves all further requests -/
def responseAt (rs : List Response) (k : Nat) : Response := (rs[k]?.or rs.getLast?).getD .drop

/-- the flags after `k` answers: those of the last success -/
def flagsAfter (rs : List Response) : Nat → FlagSet
  | 0 => {}
  | k + 1 =>
    match (responseAt rs k).answer with
    | .ok flags => flags
    | .error _ => flagsAfter rs k

theorem flagsAfter_of_ok {rs : List Response} {k : Nat} {flags : FlagSet}
    (h : (responseAt rs k).answer = .ok flags) : flagsAfter rs (k + 1) = flags := by
  rw [flagsAfter, h]

theorem flagsAfter_of_error {rs : List Response} {k : Nat} {e : BackendError}
    (h : (responseAt rs k).answer = .error e) : flagsAfter rs (k + 1) = flagsAfter rs k := by
  rw [flagsAfter, h]

namespace Network

theorem nextResponse_fst (rs : List Response) : (nextResponse rs).1 = responseAt rs 0 := by
  cases rs with
  | nil => rfl
  | cons r rs => cases rs <;> rfl

theorem responseAt_nextResponse (rs : List Response) (k : Nat) :
    responseAt (nextResponse rs).2 k = responseAt rs (k + 1) := by
  cases rs with
  | nil => rfl
  | cons r rs =>
    cases rs with
    | nil => cases k <;> rfl
    | cons r' rs =>
      show (((r' :: rs)[k]?).or (r' :: rs).getLast?).getD .drop = _
      rw [responseAt, List.getElem?_cons_succ, List.getLast?_cons_cons]

/-- what is left of a script after `k` requests -/
def Left (rs : List Response) (k : Nat) (left : List Response) : Prop :=
  ∀ j, responseAt left j = responseAt rs (k + j)

theorem left_zero (rs : List Response) : Left rs 0 rs := fun j => by rw [Nat.zero_add]

theorem Left.fst {rs left : List Response} {k : Nat} (h : Left rs k left) :
    (nextResponse left).1 = responseAt rs k := (nextResponse_fst left).trans (h 0)

theorem Left.snd {rs left : List Response} {k : Nat} (h : Left rs k left) :
    Left rs (k + 1) (nextResponse left).2 := fun j => by
  rw [responseAt_nextResponse, h]
  congr 1
  omega

theorem send_of_target {n : Network} {key target : String} (h : n.target? key = some target)
    (connection now : Nat) (context : Context) :
    n.send connection now key context =
      { n with
        responses := (nextResponse n.responses).2
        flights := n.flights ++ [⟨connection, now + flightTime (nextResponse n.responses).1,
          (nextResponse n.responses).1.answer⟩]
        arrived := n.arrived ++
          [⟨target, key, (requestDocument n.environment context).print⟩] } := by
  rw [send, h]

end Network

/-! ## states -/

/-- A connection that only polls, the network without flights, and the time. -/
structure Watch (ρ : Type) where
  network : Network
  target : String
  key : String
  context : Context
  interval : Nat
  feed : Feed ρ
  now : Nat

namespace Watch

def seat (w : Watch ρ) (turn : Turn) (polling : Polling) : Seat :=
  { key := w.key, context := w.context, interval := w.interval, turn, queue := []
    readiness := .ready, polling, closed := false }

def service (w : Watch ρ) (flights : List Flight) (turn : Turn) (polling : Polling) : Service ρ :=
  { network := { w.network with flights }
    lines := [(0, ⟨⟨w.seat turn polling, w.feed⟩, true⟩)]
    next := 1, interval := w.interval, now := w.now, results := [], nextTicket := 0 }

/-- It waits until it is time to poll. -/
def resting (w : Watch ρ) (due : Nat) : Service ρ := w.service [] .free (.waiting due)

/-- It waits for an answer. -/
def fetching (w : Watch ρ) (next ends : Nat) (answer : Except BackendError FlagSet) : Service ρ :=
  w.service [⟨0, ends, answer⟩] (.fetching .poll w.context) (.refreshing next)

/-- It does not poll any more. -/
def stopped (w : Watch ρ) : Service ρ := w.service [] .free .over

/-- A request left. -/
def sent (w : Watch ρ) : Watch ρ :=
  { w with network :=
    { w.network with
      responses := (Network.nextResponse w.network.responses).2
      arrived := w.network.arrived ++
        [⟨w.target, w.key, (requestDocument w.network.environment w.context).print⟩] } }

def told (w : Watch ρ) (answer : Except BackendError FlagSet) : Watch ρ :=
  match answer with
  | .ok flags => { w with feed := (w.feed.replace flags).1 }
  | .error _ => w

def later (w : Watch ρ) (ms : Nat) : Watch ρ := { w with now := w.now + ms }

/-- when to poll again after a poll that was due -/
def nextDue (w : Watch ρ) (due : Nat) : Nat :=
  if due + Seat.tolerance < w.now then w.now + w.interval else due + w.interval

variable {w : Watch ρ} {due next ends : Nat} {answer : Except BackendError FlagSet}

/-! ## steps -/

theorem line?_service (flights : List Flight) (turn : Turn) (polling : Polling) :
    (w.service flights turn polling).line? 0 = some ⟨⟨w.seat turn polling, w.feed⟩, true⟩ := rfl

theorem runTask?_service (flights : List Flight) (turn : Turn) (polling : Polling) :
    (w.service flights turn polling).runTask? =
      ((w.seat turn polling).next? true w.now).map
        ((w.service flights turn polling).moveSeat 0 ⟨⟨w.seat turn polling, w.feed⟩, true⟩) :=
  List.findSome?_singleton

/-- When it is time the polling task fetches. -/
theorem next?_of_due (hdue : due ≤ w.now) :
    (w.seat .free (.waiting due)).next? true w.now =
      some (w.seat (.fetching .poll w.context) (.refreshing (w.nextDue due))) := by
  have ht : (w.seat .free (.waiting due)).tick w.now =
      w.seat (.fetching .poll w.context) (.refreshing (w.nextDue due)) := by
    show (if due ≤ w.now then _ else _) = _
    rw [if_pos hdue]
    rfl
  rw [← ht]
  exact if_pos hdue

theorem runTask?_resting (h : w.network.target? w.key = some w.target) (hdue : due ≤ w.now) :
    (w.resting due).runTask? =
      let r := (Network.nextResponse w.network.responses).1
      some (w.sent.fetching (w.nextDue due) (w.now + Network.flightTime r) r.answer) := by
  have ht : Network.target? { w.network with flights := [] } w.key = some w.target := h
  rw [resting, runTask?_service, next?_of_due hdue, Option.map_some]
  refine congrArg some ?_
  show Service.mk (Network.send { w.network with flights := [] } 0 w.now w.key w.context)
    _ _ _ _ _ _ = _
  rw [Network.send_of_target ht]
  rfl

theorem runTask?_resting_of_lt (hdue : w.now < due) : (w.resting due).runTask? = none := by
  rw [resting, runTask?_service]
  show Option.map _ (if due ≤ w.now then _ else none) = _
  rw [if_neg (Nat.not_le.mpr hdue)]
  rfl

theorem land?_resting : (w.resting due).land? = none := rfl

theorem runTask?_fetching : (w.fetching next ends answer).runTask? = none := rfl

/-- An answer is there, and the polling task rests again. -/
theorem land?_fetching (h : ends ≤ w.now) :
    ((w.fetching next ends answer).land?).map Prod.fst = some ((w.told answer).resting next) := by
  have hs : Network.split w.now [⟨0, ends, answer⟩] = some (⟨0, ends, answer⟩, []) := if_pos h
  show (Option.map _ (Option.map _ (Network.split w.now [⟨0, ends, answer⟩]))).map Prod.fst = _
  rw [hs]
  cases answer <;> rfl

theorem land?_fetching_of_lt (h : w.now < ends) : (w.fetching next ends answer).land? = none := by
  have hs : Network.split w.now [⟨0, ends, answer⟩] = none := if_neg (Nat.not_le.mpr h)
  show Option.map _ (Option.map _ (Network.split w.now [⟨0, ends, answer⟩])) = _
  rw [hs]
  rfl

theorem runTask?_stopped : w.stopped.runTask? = none := rfl
theorem land?_stopped : w.stopped.land? = none := rfl

/-! ## what is read -/

/-- What is known of a watch after `k` requests, all answered: the script is read up to there, and
the flags are those of the answers so far. -/
structure Reads (w : Watch ρ) (rs : List Response) (interval k : Nat) : Prop where
  target_eq : w.network.target? w.key = some w.target
  interval_eq : w.interval = interval
  left : Network.Left rs k w.network.responses
  length_eq : w.network.arrived.length = k
  flags_eq : w.feed.flags = flagsAfter rs k

variable {rs : List Response} {interval k : Nat}

theorem now_told (w : Watch ρ) (answer : Except BackendError FlagSet) :
    (w.told answer).now = w.now := by
  cases answer <;> rfl

theorem Reads.later (h : w.Reads rs interval k) (ms : Nat) : (w.later ms).Reads rs interval k :=
  ⟨h.target_eq, h.interval_eq, h.left, h.length_eq, h.flags_eq⟩

/-- A request is answered by the next response. -/
theorem Reads.told_sent (h : w.Reads rs interval k) :
    (w.sent.told (responseAt rs k).answer).Reads rs interval (k + 1) := by
  have hlength : w.sent.network.arrived.length = k + 1 := by
    rw [← h.length_eq]
    exact List.length_append
  cases ha : (responseAt rs k).answer with
  | ok flags =>
    exact ⟨h.target_eq, h.interval_eq, h.left.snd, hlength, (flagsAfter_of_ok ha).symm⟩
  | error e =>
    exact ⟨h.target_eq, h.interval_eq, h.left.snd, hlength,
      h.flags_eq.trans (flagsAfter_of_error ha).symm⟩

end Watch

/-- An answer is there at once, or there is none at all. -/
theorem Network.flightTime_cases (r : Response) :
    Network.flightTime r = 0 ∨
      Network.flightTime r = Network.patience ∧ r.answer = .error .http := by
  cases r with
  | hang => exact .inr ⟨rfl, rfl⟩
  | _ => exact .inl rfl

/-! ## work -/

namespace Service

theorem settleIn_of_task {s t : Service ρ} (h : s.runTask? = some t) (steps : Nat) :
    (settleIn (steps + 1) s).1 = (settleIn steps t).1 := by
  rw [settleIn, h]

theorem settleIn_of_land {s t : Service ρ} (hr : s.runTask? = none)
    (hl : s.land?.map Prod.fst = some t) (steps : Nat) :
    (settleIn (steps + 1) s).1 = (settleIn steps t).1 := by
  obtain ⟨r, hr', rfl⟩ := Option.map_eq_some_iff.mp hl
  rw [settleIn, hr, hr']

theorem settleIn_of_none {s : Service ρ} (hr : s.runTask? = none) (hl : s.land? = none)
    (steps : Nat) : (settleIn steps s).1 = s := by
  cases steps with
  | zero => rfl
  | succ steps => rw [settleIn, hr, hl]

/-- What is known of a connection that only polls, after `k` requests and when all work is done: it
rests, or waits for an answer that will not come. -/
inductive Watches (rs : List Response) (interval k : Nat) : Service ρ → Prop
  | resting {w : Watch ρ} {due : Nat} : w.Reads rs interval k → w.now < due →
      due ≤ w.now + interval → Watches rs interval k (w.resting due)
  | fetching {w : Watch ρ} {next ends : Nat} {e : BackendError} : w.Reads rs interval k →
      w.now < ends → ends ≤ w.now + Network.patience → next ≤ w.now + interval →
      Watches rs interval k (w.fetching next ends (.error e))

variable {rs : List Response} {interval k : Nat} {w : Watch ρ} {due : Nat} {s : Service ρ}

/-- One poll, and its answer if there is one. -/
theorem settleIn_poll (h : w.Reads rs interval k) (hdue : due ≤ w.now) (steps : Nat) :
    ∃ w' : Watch ρ, w'.Reads rs interval (k + 1) ∧ w'.now = w.now ∧
      ((settleIn (steps + 2) (w.resting due)).1 =
          (settleIn steps (w'.resting (w.nextDue due))).1 ∨
        ∃ e, (settleIn (steps + 2) (w.resting due)).1 =
          w'.fetching (w.nextDue due) (w'.now + Network.patience) (.error e)) := by
  have htask := Watch.runTask?_resting h.target_eq hdue
  rw [h.left.fst] at htask
  refine ⟨_, h.told_sent, Watch.now_told _ _, ?_⟩
  rcases Network.flightTime_cases (responseAt rs k) with ht | ⟨ht, ha⟩
  · left
    rw [settleIn_of_task htask,
      settleIn_of_land Watch.runTask?_fetching (Watch.land?_fetching (Nat.le_of_eq ?_))]
    exact congrArg (w.now + ·) ht
  · right
    refine ⟨.http, ?_⟩
    rw [settleIn_of_task htask, ha, ht]
    refine settleIn_of_none Watch.runTask?_fetching (Watch.land?_fetching_of_lt ?_) _
    exact Nat.lt_add_of_pos_right (by decide)

theorem watches_of_lt (h : w.Reads rs interval k) (hlt : w.now < due)
    (hle : due ≤ w.now + interval) (steps : Nat) :
    Watches rs interval k (settleIn steps (w.resting due)).1 := by
  rw [settleIn_of_none (Watch.runTask?_resting_of_lt hlt) Watch.land?_resting]
  exact .resting h hlt hle

theorem nextDue_le (h : w.Reads rs interval k) (hdue : due ≤ w.now) :
    w.nextDue due ≤ w.now + interval := by
  rw [Watch.nextDue, h.interval_eq]
  split <;> omega

/-- One poll is made if only one is due. -/
theorem watches_once (h : w.Reads rs interval k) (hdue : due ≤ w.now)
    (hlt : w.now < w.nextDue due) (steps : Nat) :
    Watches rs interval (k + 1) (settleIn (steps + 2) (w.resting due)).1 := by
  have hle := nextDue_le h hdue
  obtain ⟨w', h', hnow, heq | ⟨e, heq⟩⟩ := settleIn_poll h hdue steps
  · rw [heq]
    exact watches_of_lt h' (hnow ▸ hlt) (hnow ▸ hle) steps
  · rw [heq]
    exact .fetching h' (Nat.lt_add_of_pos_right (by decide)) (Nat.le_refl _) (hnow ▸ hle)

/-- an upper bound of the polls that are due -/
def lag (due now : Nat) : Nat :=
  if now < due then 0 else if due + Seat.tolerance < now then 1 else now - due + 1

theorem lag_le (due now : Nat) : lag due now ≤ 6 := by
  unfold lag Seat.tolerance
  split
  · omega
  · split <;> omega

theorem lag_pos (h : due ≤ w.now) : 0 < lag due w.now := by
  unfold lag
  rw [if_neg (Nat.not_lt.mpr h)]
  split <;> omega

/-- A poll that is late is the last one for now, and others are due one after the other. -/
theorem lag_nextDue (hpos : 0 < w.interval) (hdue : due ≤ w.now) :
    lag (w.nextDue due) w.now < lag due w.now := by
  by_cases hlate : due + Seat.tolerance < w.now
  · have hnext : w.nextDue due = w.now + w.interval := if_pos hlate
    have hzero : lag (w.nextDue due) w.now = 0 := if_pos (by omega)
    rw [hzero]
    exact lag_pos hdue
  · have hnext : w.nextDue due = due + w.interval := if_neg hlate
    rw [hnext]
    unfold lag
    rw [if_neg (Nat.not_lt.mpr hdue), if_neg hlate]
    split
    · omega
    · rw [if_neg (by omega)]
      omega

/-- **All polls that are due are made, if there are steps for them.** -/
theorem watches_settleIn (hpos : 0 < interval) {steps : Nat} (h : w.Reads rs interval k)
    (hle : due ≤ w.now + interval) (hsteps : 2 * lag due w.now ≤ steps) :
    ∃ j, k ≤ j ∧ Watches rs interval j (settleIn steps (w.resting due)).1 := by
  -- a poll takes two steps and lowers the bound
  induction steps using Nat.strongRecOn generalizing w due k with
  | ind steps ih =>
    by_cases hdue : due ≤ w.now
    · have hlag := lag_nextDue (h.interval_eq ▸ hpos) hdue
      obtain ⟨m, rfl⟩ : ∃ m, steps = m + 2 := ⟨steps - 2, by omega⟩
      have hnext := nextDue_le h hdue
      obtain ⟨w', h', hnow, heq | ⟨e, heq⟩⟩ := settleIn_poll h hdue m
      · rw [heq]
        obtain ⟨j, hj, hw⟩ := ih m (by omega) h' (hnow ▸ hnext) (by rw [hnow]; omega)
        exact ⟨j, by omega, hw⟩
      · rw [heq]
        exact ⟨k + 1, by omega, .fetching h' (Nat.lt_add_of_pos_right (by decide))
          (Nat.le_refl _) (hnow ▸ hnext)⟩
    · exact ⟨k, Nat.le_refl k, watches_of_lt h (Nat.not_le.mp hdue) hle steps⟩

/-! ## time -/

/-- Time passes, in pieces. -/
def elapse (s : Service ρ) (later : List Nat) : Service ρ :=
  later.foldl (fun s ms => (s.advance ms).1) s

theorem elapse_nil (s : Service ρ) : s.elapse [] = s := rfl
theorem elapse_cons (s : Service ρ) (ms : Nat) (later : List Nat) :
    s.elapse (ms :: later) = (s.advance ms).1.elapse later := rfl

theorem advance_resting (w : Watch ρ) (due ms : Nat) :
    ((w.resting due).advance ms).1 = (settleIn 40 ((w.later ms).resting due)).1 := rfl

theorem advance_fetching (w : Watch ρ) (next ends ms : Nat)
    (answer : Except BackendError FlagSet) :
    ((w.fetching next ends answer).advance ms).1 =
      (settleIn 41 ((w.later ms).fetching next ends answer)).1 := rfl

namespace Watches

/-- After any time polls were made, or none, and all work is done again. -/
theorem advance (h : Watches rs interval k s) (hpos : 0 < interval) (ms : Nat) :
    ∃ j, k ≤ j ∧ Watches rs interval j (s.advance ms).1 := by
  cases h with
  | @resting w due h hlt hle =>
    have hdue : due ≤ (w.later ms).now + interval := by
      show due ≤ w.now + ms + interval
      omega
    have hsteps : 2 * lag due (w.later ms).now ≤ 40 := by
      have := lag_le due (w.later ms).now
      omega
    rw [advance_resting]
    exact watches_settleIn hpos (h.later ms) hdue hsteps
  | @fetching w next ends e h hlt hle hnext =>
    have hnext' : next ≤ (w.later ms).now + interval := by
      show next ≤ w.now + ms + interval
      omega
    have hsteps : 2 * lag next (w.later ms).now ≤ 40 := by
      have := lag_le next (w.later ms).now
      omega
    rw [advance_fetching]
    -- the answer is given up, and polls may be due since it was asked for
    by_cases hends : ends ≤ (w.later ms).now
    · rw [settleIn_of_land Watch.runTask?_fetching (Watch.land?_fetching hends)]
      exact watches_settleIn hpos (h.later ms) hnext' hsteps
    · have hends := Nat.not_le.mp hends
      rw [settleIn_of_none Watch.runTask?_fetching (Watch.land?_fetching_of_lt hends)]
      refine ⟨k, Nat.le_refl k, .fetching (h.later ms) hends ?_ hnext'⟩
      show ends ≤ w.now + ms + Network.patience
      omega

/-- A poll that is waited for so long is the only one that is due. -/
theorem lt_nextDue {before ms : Nat} (hpos : 0 < w.interval) (hnow : w.now = before + ms)
    (hdue : due ≤ before + w.interval) (hi : w.interval ≤ ms) (hp : Network.patience ≤ ms) :
    w.now < w.nextDue due := by
  unfold Watch.nextDue Seat.tolerance
  unfold Network.patience at hp
  split <;> omega

/-- **After the interval, and the time that an answer is waited for, there is one more request.** -/
theorem advance_once (h : Watches rs interval k s) (hpos : 0 < interval) {ms : Nat}
    (hi : interval ≤ ms) (hp : Network.patience ≤ ms) :
    Watches rs interval (k + 1) (s.advance ms).1 := by
  have once : ∀ {w : Watch ρ} {due steps : Nat}, w.Reads rs interval k → due ≤ w.now + interval →
      Watches rs interval (k + 1) (settleIn (steps + 2) ((w.later ms).resting due)).1 := by
    intro w due steps h hle
    have hdue : due ≤ (w.later ms).now := by
      show due ≤ w.now + ms
      omega
    refine watches_once (h.later ms) hdue (lt_nextDue ?_ rfl ?_ ?_ hp) steps
    · exact (h.later ms).interval_eq ▸ hpos
    · exact (h.later ms).interval_eq ▸ hle
    · exact (h.later ms).interval_eq ▸ hi
  cases h with
  | resting h hlt hle => exact once h hle
  | @fetching w next ends e h hlt hle hnext =>
    have hends : ends ≤ (w.later ms).now := by
      show ends ≤ w.now + ms
      omega
    rw [advance_fetching,
      settleIn_of_land Watch.runTask?_fetching (Watch.land?_fetching hends)]
    exact once h hnext

theorem elapse (h : Watches rs interval k s) (hpos : 0 < interval) (later : List Nat) :
    ∃ j, k ≤ j ∧ Watches rs interval j (s.elapse later) := by
  induction later generalizing k s with
  | nil =>
    rw [elapse_nil]
    exact ⟨k, Nat.le_refl k, h⟩
  | cons ms later ih =>
    rw [elapse_cons]
    obtain ⟨i, hi, hs⟩ := h.advance hpos ms
    obtain ⟨j, hj, hs⟩ := ih hs
    exact ⟨j, Nat.le_trans hi hj, hs⟩

theorem elapse_replicate (h : Watches rs interval k s) (hpos : 0 < interval) {ms : Nat}
    (hi : interval ≤ ms) (hp : Network.patience ≤ ms) (n : Nat) :
    Watches rs interval (k + n) (s.elapse (List.replicate n ms)) := by
  induction n generalizing k s with
  | zero => exact h
  | succ n ih =>
    rw [List.replicate_succ, elapse_cons, Nat.add_comm n 1, ← Nat.add_assoc]
    exact ih (h.advance_once hpos hi hp)

/-- The flags are those of the requests so far, and the polling task is not over. -/
theorem line (h : Watches rs interval k s) : s.network.arrived.length = k ∧
    ∃ l, s.line? 0 = some l ∧ l.seat.polling ≠ .over ∧
      l.connection.feed.flags = flagsAfter rs k := by
  cases h with
  | resting h => exact ⟨h.length_eq, _, Watch.line?_service _ _ _, nofun, h.flags_eq⟩
  | fetching h => exact ⟨h.length_eq, _, Watch.line?_service _ _ _, nofun, h.flags_eq⟩

end Watches

/-! ## the beginning and the end -/

/-- Nothing was asked of a service yet, and its first answer to a key is a success. -/
structure Welcomes (n : Network) (key target : String) (first : FlagSet) : Prop where
  flights_eq : n.flights = []
  arrived_eq : n.arrived = []
  target_eq : n.target? key = some target
  first_eq : (responseAt n.responses 0).answer = .ok first

/-- A connection that is the only one of a service, when its first flags were asked for. -/
def opened (n : Network) (interval : Nat) (key : String) (context : Context) : Service ρ :=
  ((start n interval).connect key context).settle.1

/-- the watch that begins with the first flags -/
def firstWatch (n : Network) (interval : Nat) (key target : String) (context : Context)
    (first : FlagSet) : Watch ρ :=
  Watch.told (Watch.sent ⟨n, target, key, context, interval, .empty, 0⟩) (.ok first)

variable {n : Network} {key target : String} {context : Context} {first : FlagSet}

/-- A success is there at once, and the polling task starts its timer if it can. -/
theorem opened_eq (h : Welcomes n key target first) :
    (opened n interval key context : Service ρ) =
      (settleIn 38 ((firstWatch n interval key target context first).service [] .free
        (if interval = 0 then .over else .waiting (0 + interval)))).1 := by
  have ha : (Network.nextResponse n.responses).1.answer = .ok first := by
    rw [Network.nextResponse_fst, h.first_eq]
  have ht : Network.flightTime (Network.nextResponse n.responses).1 = 0 := by
    rcases Network.flightTime_cases (Network.nextResponse n.responses).1 with ht | ⟨-, he⟩
    · exact ht
    · cases ha.symm.trans he
  have htask : ((start n interval).connect key context : Service ρ).runTask? =
      some ⟨n.send 0 0 key context, [(0, ⟨⟨(Seat.new key context interval).start, .empty⟩, true⟩)],
        1, interval, 0, [], 0⟩ := rfl
  rw [Network.send_of_target h.target_eq, h.flights_eq, ha, ht] at htask
  have hwork : ((start n interval).connect key context : Service ρ).work = 40 := by
    show 8 + n.flights.length + 32 + 4 * 0 = 40
    rw [h.flights_eq]
    rfl
  rw [opened, settle, hwork, settleIn_of_task htask, settleIn_of_land rfl rfl]
  rfl

theorem reads_firstWatch (h : Welcomes n key target first) :
    (firstWatch n interval key target context first : Watch ρ).Reads n.responses interval 1 := by
  have hzero : Watch.Reads (⟨n, target, key, context, interval, .empty, 0⟩ : Watch ρ) n.responses
      interval 0 := by
    refine ⟨h.target_eq, rfl, Network.left_zero _, ?_, rfl⟩
    show n.arrived.length = 0
    rw [h.arrived_eq]
    rfl
  have hone := hzero.told_sent
  rw [h.first_eq] at hone
  exact hone

theorem watches_opened (h : Welcomes n key target first) (hpos : 0 < interval) :
    Watches n.responses interval 1 (opened n interval key context : Service ρ) := by
  have hlt : 0 < 0 + interval := by omega
  have hle : 0 + interval ≤ 0 + interval := Nat.le_refl _
  rw [opened_eq h, if_neg (Nat.ne_of_gt hpos)]
  exact watches_of_lt (reads_firstWatch h) hlt hle 38

/-- A connection whose polling task is over stays as it is. -/
theorem elapse_stopped (w : Watch ρ) (later : List Nat) :
    ∃ now, w.stopped.elapse later = Watch.stopped { w with now } := by
  induction later generalizing w with
  | nil => exact ⟨w.now, rfl⟩
  | cons ms later ih =>
    have hs : (w.stopped.advance ms).1 = (w.later ms).stopped := by
      show (settleIn 40 (w.later ms).stopped).1 = _
      exact settleIn_of_none Watch.runTask?_stopped Watch.land?_stopped _
    obtain ⟨now, h⟩ := ih (w.later ms)
    refine ⟨now, ?_⟩
    rw [elapse_cons, hs, h]
    rfl

variable (ρ) (context)

/-- **Without an interval the flags stay those of the first answer, whatever the service would
answer, and it is not asked any more.** -/
theorem flags_without_interval (h : Welcomes n key target first) (later : List Nat) :
    let s := (opened n 0 key context : Service ρ).elapse later
    s.network.arrived.length = 1 ∧
      ∃ l, s.line? 0 = some l ∧ l.seat.closed = false ∧ l.seat.polling = .over ∧
        l.connection.feed.flags = first := by
  intro s
  have hopened : (opened n 0 key context : Service ρ) =
      (firstWatch n 0 key target context first).stopped := by
    rw [opened_eq h]
    exact settleIn_of_none Watch.runTask?_stopped Watch.land?_stopped _
  have hread : (firstWatch n 0 key target context first : Watch ρ).Reads n.responses 0 1 :=
    reads_firstWatch h
  obtain ⟨now, hs⟩ := elapse_stopped (firstWatch n 0 key target context first : Watch ρ) later
  rw [← hopened] at hs
  rw [show s = _ from hs]
  exact ⟨hread.length_eq, _, Watch.line?_service _ _ _, rfl, rfl, rfl⟩

/-- **With an interval the flags are always those of the last success so far, the polling task is
not over, and enough time brings one more answer.** -/
theorem flags_by_polling (h : Welcomes n key target first) (hpos : 0 < interval)
    (later : List Nat) :
    let s := (opened n interval key context : Service ρ).elapse later
    (∃ l, s.line? 0 = some l ∧ l.seat.polling ≠ .over ∧
      l.connection.feed.flags = flagsAfter n.responses s.network.arrived.length) ∧
    ∀ ms, interval ≤ ms → Network.patience ≤ ms →
      (s.advance ms).1.network.arrived.length = s.network.arrived.length + 1 := by
  intro s
  have hopened : Watches n.responses interval 1 (opened n interval key context : Service ρ) :=
    watches_opened h hpos
  obtain ⟨j, -, hs⟩ := hopened.elapse hpos later
  obtain ⟨hlength, hline⟩ := hs.line
  rw [hlength]
  exact ⟨hline, fun ms hi hp => (hs.advance_once hpos hi hp).line.1⟩

/-- **Every success comes to be the flags by polling alone, whatever was answered before it.** -/
theorem success_by_polling (h : Welcomes n key target first) (hpos : 0 < interval) {ms : Nat}
    (hi : interval ≤ ms) (hp : Network.patience ≤ ms) {k : Nat} {flags : FlagSet}
    (hk : (responseAt n.responses k).answer = .ok flags) :
    ∃ l, ((opened n interval key context : Service ρ).elapse (List.replicate k ms)).line? 0 =
      some l ∧ l.connection.feed.flags = flags := by
  have hopened : Watches n.responses interval 1 (opened n interval key context : Service ρ) :=
    watches_opened h hpos
  obtain ⟨-, l, hl, -, hf⟩ := (hopened.elapse_replicate hpos hi hp k).line
  refine ⟨l, hl, hf.trans ?_⟩
  rw [Nat.add_comm]
  exact flagsAfter_of_ok hk

end Service

end FeatureFlags.Remote
