import FeatureFlags.Connection.Remote.Network
import FeatureFlags.Proofs.Differences

/-!
# Remote connections, event by event

What can happen to a remote connection as long as it is open, in any order: the polling task begins,
time passes, contexts are set, turns are asked for and begin, answers come, listeners come and go.

* `Event`, `Mark`             what happens, and what is seen of it;
* `Seat.callers`              who fetches or waits for a turn;
* `Seat.Goes`                 what the steps of tasks have in common: at most one request begins;
* `Connection.step`, `Connection.run`, `Connection.trace`   runs;
* `Seat.identify_eq`           an identify sets its context and asks for a turn;
* `Seat.next?_cases`          what a seat does by itself;
* `Alternates`                requests that do not overlap;
* `Connection.alternates_run`   those of a connection do not.
-/

namespace FeatureFlags.Remote

/-- What can happen to a connection that stays open. -/
inductive Event where
  /-- the polling task begins -/
  | start
  | tick (now : Nat)
  /-- an identify sets its context -/
  | set (context : Context)
  /-- an identify that has set its context asks for its turn -/
  | join (ticket : Nat)
  | resume
  /-- an answer to the request that is under way -/
  | answer (now : Nat) (response : Response)
  | listen (topic : Topic)
  | ignore (id : ListenerId)

/-- What is seen of a connection from outside; its listeners are known by their numbers. -/
inductive Mark where
  | set (context : Context)
  /-- a request leaves -/
  | sent (who : Caller) (context : Context)
  | answered (who : Caller) (context : Context) (answer : Except BackendError FlagSet)
  | called (call : Call ListenerId)

namespace Mark

def request? : Mark → Option Context
  | sent _ context => some context
  | _ => none

/-- the flags that an answer brings -/
def flags? : Mark → Option FlagSet
  | answered _ _ (.ok flags) => some flags
  | _ => none

def call? : Mark → Option (Call ListenerId)
  | called call => some call
  | _ => none

end Mark

/-! ## seats -/

namespace Seat

/-- the request that is under way, with the one who asked for it -/
def underWay (s : Seat) : Option (Caller × Context) :=
  match s.turn with
  | .fetching who context => some (who, context)
  | _ => none

/-- whose turn it is, under way or not -/
def holder? (s : Seat) : Option Caller :=
  match s.turn with
  | .free => none
  | .granted who => some who
  | .fetching who _ => some who

/-- who fetches, then who waits for a turn -/
def callers (s : Seat) : List Caller := s.holder?.toList ++ s.queue

/-- Sets the context of the requests to come. -/
def turnTo (s : Seat) (context : Context) : Seat := { s with context }

/-- the request that began from one seat to the next, if one did -/
def begun (before after : Seat) : List Mark :=
  match before.underWay, after.underWay with
  | none, some (who, context) => [.sent who context]
  | _, _ => []

theorem turn_of_underWay {s : Seat} {who : Caller} {context : Context}
    (h : s.underWay = some (who, context)) : s.turn = .fetching who context := by
  rw [underWay] at h
  split at h
  next heq =>
    obtain ⟨rfl, rfl⟩ := Prod.mk.inj (Option.some.inj h)
    exact heq
  next => cases h

theorem callers_fetch_of_granted {s : Seat} {who : Caller} (h : s.turn = .granted who) :
    (s.fetch who).callers = s.callers := by
  rw [callers, callers, holder?, holder?, h]
  rfl

/-- Who has the turn is one of the callers, and the others are left when the turn ends. -/
theorem callers_of_holder? {s : Seat} {who : Caller} (h : s.holder? = some who) :
    s.callers = who :: s.release.callers := by
  have hr : s.release.callers = s.queue := by
    rw [release]
    split
    next hq =>
      rw [hq]
      rfl
    next hq => exact hq.symm
  rw [callers, h, hr]
  rfl

theorem callers_of_underWay {s : Seat} {who : Caller} {context : Context}
    (h : s.underWay = some (who, context)) : s.callers = who :: s.release.callers :=
  callers_of_holder? (by rw [holder?, turn_of_underWay h])

theorem underWay_release (s : Seat) : s.release.underWay = none := by
  rw [release]
  split <;> rfl

/-- Who asks for a turn is one more caller. -/
theorem callers_join (s : Seat) (who : Caller) : (s.join who).callers.Perm (who :: s.callers) := by
  rw [join]
  split
  next hf =>
    rw [callers, callers, show s.holder? = none by rw [holder?, hf]]
    exact List.Perm.refl _
  next hf =>
    show (s.holder?.toList ++ (s.queue ++ [who])).Perm _
    rw [← List.append_assoc]
    exact List.perm_append_singleton _ _

theorem callers_resume (s : Seat) : s.resume.callers = s.callers := by
  rw [resume]
  split
  next who hg => exact callers_fetch_of_granted hg
  next => rfl

/-! ## steps of tasks -/

/-- What the steps of tasks have in common: at most one request begins, if none is under way, and it
carries the context as it is then. -/
structure Goes (s t : Seat) : Prop where
  context_eq : t.context = s.context
  interval_eq : t.interval = s.interval
  closed_eq : t.closed = s.closed
  underWay_cases : t.underWay = s.underWay ∨
    s.underWay = none ∧ ∃ who, t.underWay = some (who, s.context)

namespace Goes

variable {s t : Seat}

theorem refl (s : Seat) : Goes s s := ⟨rfl, rfl, rfl, .inl rfl⟩

theorem fetch {s : Seat} (h : s.underWay = none) (who : Caller) : Goes s (s.fetch who) :=
  ⟨rfl, rfl, rfl, .inr ⟨h, who, rfl⟩⟩

theorem join (s : Seat) (who : Caller) : Goes s (s.join who) := by
  rw [Seat.join]
  split
  next hf => exact fetch (by rw [underWay, hf]) who
  next => exact ⟨rfl, rfl, rfl, .inl rfl⟩

theorem resume (s : Seat) : Goes s s.resume := by
  rw [Seat.resume]
  split
  next who hg => exact fetch (by rw [underWay, hg]) who
  next => exact refl s

theorem start (s : Seat) : Goes s s.start := by
  have hj := join { s with polling := .starting } .first
  rw [Seat.start]
  split
  · split
    · exact ⟨rfl, rfl, rfl, .inl rfl⟩
    · exact ⟨hj.context_eq, hj.interval_eq, hj.closed_eq, hj.underWay_cases⟩
  · exact refl s

theorem tick (s : Seat) (now : Nat) : Goes s (s.tick now) := by
  rw [Seat.tick]
  split
  next due _ =>
    have hj := join { s with polling := .refreshing (s.nextDue due now) } .poll
    split
    · exact ⟨rfl, rfl, rfl, .inl rfl⟩
    · split
      · exact ⟨hj.context_eq, hj.interval_eq, hj.closed_eq, hj.underWay_cases⟩
      · exact refl s
  next => exact refl s

/-- What begins is one request, or none. -/
theorem begun_cases (h : Goes s t) :
    s.begun t = [] ∧ t.underWay = s.underWay ∨
      s.underWay = none ∧ ∃ who, t.underWay = some (who, s.context) ∧
        s.begun t = [.sent who s.context] := by
  rcases h.underWay_cases with heq | ⟨hn, who, ht⟩
  · refine .inl ⟨?_, heq⟩
    rw [begun, heq]
    cases s.underWay <;> rfl
  · refine .inr ⟨hn, who, ht, ?_⟩
    rw [begun, hn, ht]

end Goes

/-! ## answers -/

/-- An answer leaves alone what is set, and ends the turn. -/
theorem finish_frame (s : Seat) (now : Nat) (answer : Except BackendError Unit) :
    (s.finish now answer).context = s.context ∧ (s.finish now answer).interval = s.interval ∧
      (s.finish now answer).closed = s.closed ∧ (s.finish now answer).underWay = none := by
  have hr : s.release.context = s.context ∧ s.release.interval = s.interval ∧
      s.release.closed = s.closed := by
    rw [release]
    split <;> exact ⟨rfl, rfl, rfl⟩
  have hu := underWay_release s
  rw [finish]
  split
  next who _ _ =>
    cases who with
    | first =>
      cases answer with
      | ok _ => exact ⟨hr.1, hr.2.1, hr.2.2, hu⟩
      | error e => exact ⟨hr.1, hr.2.1, hr.2.2, hu⟩
    | poll =>
      show s.release.settlePoll.context = _ ∧ s.release.settlePoll.interval = _ ∧
        s.release.settlePoll.closed = _ ∧ s.release.settlePoll.underWay = none
      rw [settlePoll]
      split <;> exact ⟨hr.1, hr.2.1, hr.2.2, hu⟩
    | identify ticket => exact ⟨hr.1, hr.2.1, hr.2.2, hu⟩
  next hn =>
    refine ⟨rfl, rfl, rfl, ?_⟩
    rw [underWay]
    split
    next heq => exact absurd heq (hn _ _)
    next => rfl

theorem callers_settleFirst (s : Seat) (now : Nat) (answer : Except BackendError Unit) :
    (s.settleFirst now answer).callers = s.callers := by
  cases answer <;> rfl

theorem callers_settlePoll (s : Seat) : s.settlePoll.callers = s.callers := by
  rw [settlePoll]
  split <;> rfl

/-- An answer takes the one who fetches out of the callers. -/
theorem callers_finish {s : Seat} {who : Caller} {context : Context}
    (h : s.underWay = some (who, context)) (now : Nat) (answer : Except BackendError Unit) :
    s.callers = who :: (s.finish now answer).callers := by
  rw [callers_of_underWay h, finish, turn_of_underWay h]
  cases who with
  | first => exact congrArg _ (callers_settleFirst _ _ _).symm
  | poll => exact congrArg _ (callers_settlePoll _).symm
  | identify ticket => rfl

/-! ## what the running seat does -/

theorem identify_eq {s : Seat} (h : s.closed = false) (context : Context) (ticket : Nat) :
    s.identify context ticket = .ok ((s.turnTo context).join (.identify ticket)) := by
  rw [identify, if_neg (ne_true_of_eq_false h)]
  rfl

theorem request?_eq (s : Seat) : s.request? = s.underWay.map Prod.snd := by
  rw [request?, underWay]
  cases s.turn <;> rfl

theorem request?_eq_none_iff {s : Seat} : s.request? = none ↔ s.underWay = none := by
  rw [request?_eq, Option.map_eq_none_iff]

/-- By itself a held connection goes on with a turn, or its polling task begins or polls. -/
theorem next?_cases {s t : Seat} {now : Nat} (h : s.next? true now = some t) :
    t = s.resume ∨ t = s.start ∨ t = s.tick now := by
  rw [next?] at h
  split at h
  · exact .inl (Option.some.inj h).symm
  · exact .inr (.inl (Option.some.inj h).symm)
  · split at h
    · exact .inr (.inr (Option.some.inj h).symm)
    · cases h
  · cases h

end Seat

/-- The network sends what begins. -/
theorem Network.follow_eq (n : Network) (connection now : Nat) (s t : Seat) :
    n.follow connection now s t =
      ((s.begun t).filterMap Mark.request?).foldl (fun n x => n.send connection now t.key x) n := by
  rw [Network.follow, Seat.begun, s.request?_eq, t.request?_eq]
  cases s.underWay <;> cases t.underWay <;> rfl

/-! ## runs -/

namespace Connection

/-- A connection as it is opened. -/
def fresh (key : String) (context : Context) (interval : Nat) : Connection ListenerId :=
  ⟨.new key context interval, .empty⟩

/-- A step of a task, and the request that begins with it. -/
def move (c : Connection ListenerId) (seat : Seat) : Connection ListenerId × List Mark :=
  ({ c with seat }, c.seat.begun seat)

def step (c : Connection ListenerId) : Event → Connection ListenerId × List Mark
  | .start => c.move c.seat.start
  | .tick now => c.move (c.seat.tick now)
  | .set context => ({ c with seat := c.seat.turnTo context }, [.set context])
  | .join ticket => c.move (c.seat.join (.identify ticket))
  | .resume => c.move c.seat.resume
  | .answer now response =>
    match c.seat.underWay with
    | some (who, context) =>
      let r := c.finish now response.answer
      (r.1, .answered who context response.answer :: r.2.map .called)
    | none => (c, [])
  | .listen topic => ({ c with feed := (c.feed.listen topic c.feed.listeners.next).1 }, [])
  | .ignore id => ({ c with feed := c.feed.ignore id }, [])

def run (c : Connection ListenerId) (es : List Event) : Connection ListenerId :=
  es.foldl (fun c e => (c.step e).1) c

def trace (c : Connection ListenerId) : List Event → List Mark
  | [] => []
  | e :: es => (c.step e).2 ++ trace (c.step e).1 es

theorem run_cons (c : Connection ListenerId) (e : Event) (es : List Event) :
    c.run (e :: es) = (c.step e).1.run es := rfl

theorem trace_nil (c : Connection ListenerId) : c.trace [] = [] := rfl
theorem trace_cons (c : Connection ListenerId) (e : Event) (es : List Event) :
    c.trace (e :: es) = (c.step e).2 ++ (c.step e).1.trace es := rfl

theorem seat_finish {ρ : Type} (c : Connection ρ) (now : Nat)
    (answer : Except BackendError FlagSet) :
    (c.finish now answer).1.seat = c.seat.finish now (answer.map (fun _ => ())) := by
  cases answer <;> rfl

theorem step_answer {c : Connection ListenerId} {who : Caller} {context : Context}
    (h : c.seat.underWay = some (who, context)) (now : Nat) (response : Response) :
    c.step (.answer now response) =
      ((c.finish now response.answer).1,
        .answered who context response.answer :: (c.finish now response.answer).2.map .called) := by
  rw [step, h]

theorem step_answer_of_none {c : Connection ListenerId} (h : c.seat.underWay = none) (now : Nat)
    (response : Response) : c.step (.answer now response) = (c, []) := by
  rw [step, h]

/-- An event is a step of a task, sets a context, brings an answer or concerns listeners alone. -/
theorem step_cases (c : Connection ListenerId) (e : Event) :
    (∃ seat, c.seat.Goes seat ∧ c.step e = c.move seat) ∨
      (∃ context, e = .set context) ∨
      (∃ now response who context, c.seat.underWay = some (who, context) ∧
        e = .answer now response) ∨
      ∃ feed, feed.flags = c.feed.flags ∧ c.step e = ({ c with feed }, []) := by
  cases e with
  | start => exact .inl ⟨_, .start _, rfl⟩
  | tick now => exact .inl ⟨_, .tick _ now, rfl⟩
  | set context => exact .inr (.inl ⟨context, rfl⟩)
  | join ticket => exact .inl ⟨_, .join _ _, rfl⟩
  | resume => exact .inl ⟨_, .resume _, rfl⟩
  | answer now response =>
    cases hu : c.seat.underWay with
    | none => exact .inr (.inr (.inr ⟨c.feed, rfl, step_answer_of_none hu now response⟩))
    | some u => exact .inr (.inr (.inl ⟨now, response, u.1, u.2, rfl, rfl⟩))
  | listen topic => exact .inr (.inr (.inr ⟨(c.step (.listen topic)).1.feed, rfl, rfl⟩))
  | ignore id => exact .inr (.inr (.inr ⟨(c.step (.ignore id)).1.feed, rfl, rfl⟩))

end Connection

/-! ## one request at a time -/

/-- Requests and answers take turns, and listeners are called between an answer and the next
request: `Alternates u ms v` if `u` is under way before, and `v` after. -/
inductive Alternates : Option (Caller × Context) → List Mark → Option (Caller × Context) → Prop
  | nil (u) : Alternates u [] u
  | set {u v ms} (context) : Alternates u ms v → Alternates u (.set context :: ms) v
  | sent {v ms} (who context) : Alternates (some (who, context)) ms v →
      Alternates none (.sent who context :: ms) v
  | answered {v ms} (who context answer) : Alternates none ms v →
      Alternates (some (who, context)) (.answered who context answer :: ms) v
  | called {v ms} (call) : Alternates none ms v → Alternates none (.called call :: ms) v

theorem Alternates.append {u v w : Option (Caller × Context)} {ms ns : List Mark}
    (h : Alternates u ms v) (k : Alternates v ns w) : Alternates u (ms ++ ns) w := by
  induction h with
  | nil u => exact k
  | set context _ ih => exact (ih k).set context
  | sent who context _ ih => exact (ih k).sent who context
  | answered who context answer _ ih => exact (ih k).answered who context answer
  | called call _ ih => exact (ih k).called call

theorem Alternates.calls (calls : List (Call ListenerId)) :
    Alternates none (calls.map .called) none := by
  induction calls with
  | nil => exact .nil none
  | cons call calls ih => exact ih.called call

theorem Seat.Goes.alternates {s t : Seat} (h : Goes s t) :
    Alternates s.underWay (s.begun t) t.underWay := by
  rcases h.begun_cases with ⟨hb, hu⟩ | ⟨hn, who, ht, hb⟩
  · rw [hb, hu]
    exact .nil _
  · rw [hb, hn, ht]
    exact .sent who _ (.nil _)

namespace Connection

theorem alternates_step (c : Connection ListenerId) (e : Event) :
    Alternates c.seat.underWay (c.step e).2 (c.step e).1.seat.underWay := by
  rcases c.step_cases e with ⟨seat, hg, h⟩ | ⟨context, rfl⟩ | ⟨now, response, who, context, hu, rfl⟩
    | ⟨feed, -, h⟩
  · rw [h]
    exact hg.alternates
  · exact .set context (.nil _)
  · rw [step_answer hu, hu, seat_finish, (Seat.finish_frame _ _ _).2.2.2]
    exact .answered who context _ (.calls _)
  · rw [h]
    exact .nil _

/-- **The requests of a connection do not overlap, and listeners are called between them.** -/
theorem alternates_run (c : Connection ListenerId) (es : List Event) :
    Alternates c.seat.underWay (c.trace es) (c.run es).seat.underWay := by
  induction es generalizing c with
  | nil => exact .nil _
  | cons e es ih => exact (alternates_step c e).append (ih _)

end Connection

end FeatureFlags.Remote
