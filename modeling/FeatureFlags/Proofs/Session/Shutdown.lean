import FeatureFlags.Proofs.Client.Shutdown
import FeatureFlags.Proofs.Session.Editions
import FeatureFlags.Proofs.Session.Requests

/-!
# After the shutdown

What a session can still show when its client is shut down.  An identify that is under way goes on,
the worker may take another request, which a connection that is closed refuses unless it is
scripted, and streams that are opened later get values.

* `Session.Traces`, `Session.script_of_cancelled`   what a run still is to a client that is shut
                           down;
* `Client.Deaf`            an initialized client that its connection does not reach any more;
* `Client.answers`         the flags of the identifies that succeed during a run;
* `Client.underWay`, `Client.length_answers_run`   they are no more than those that begin;
* `Session.Closes`         a session whose connection is closed with its client, and refuses then;
* `Session.published_after_shutdown`   the answers are published and served, and there are few;
* `Session.streams_after_shutdown`     streams that were open are over, and nothing is registered
                           until somebody subscribes.
-/

namespace FeatureFlags

namespace Session

/-! ## scripts of a client that is shut down -/

/-- What an incident is to a client that is shut down: an identify begins only if the worker takes
its request all the same, a stream is opened by the application alone, and a wait for the first
flags ends with them only if that is what happens. -/
structure Traces (i : Incident) (e : Client.Event) : Prop where
  work : e = .work → i = .take
  subscribe : ∀ flag, e = .subscribe flag → i = .turn (.operate (.subscribe flag))
  ready : e = .settle .ready → i = .settle .ready

/-- events that begin no identify, open no stream and bring no first flags -/
def ordinary : Client.Event → Bool
  | .work => false
  | .subscribe _ => false
  | .settle .ready => false
  | _ => true

theorem Traces.other {i : Incident} {e : Client.Event} (h : ordinary e = true) : Traces i e := by
  refine ⟨fun he => ?_, fun flag he => ?_, fun he => ?_⟩ <;> (rw [he] at h; cases h)

theorem traces_task {s : Session} (hc : s.client.cancelled = true) {t : Task} {e : Client.Event}
    (h : e ∈ s.taskEvents t) (i : Incident) : Traces i e := by
  cases t with
  | fetch => cases h
  | race =>
    -- the shutdown comes before whatever else could end the wait
    have ho : s.outcome? = some .cancelled := by rw [outcome?, if_pos hc]
    rw [taskEvents, ho] at h
    split at h
    · cases List.mem_singleton.mp h
      exact .other rfl
    · cases h
  | work =>
    rw [taskEvents, hc] at h
    split at h
    · cases List.mem_singleton.mp h
      exact .other rfl
    · cases h
  | watch =>
    rw [taskEvents, hc] at h
    split at h
    · cases List.mem_singleton.mp h
      exact .other rfl
    · cases h
  | land =>
    rcases land_events h with ⟨answer, rfl⟩ | ⟨flags, rfl⟩
    · exact .other rfl
    · exact .other rfl

theorem traces_redefine {s : Session} {change : Definitions → Definitions} {e : Client.Event}
    (h : e ∈ s.redefineEvents change) (i : Incident) : Traces i e := by
  rw [redefineEvents] at h
  split at h
  · cases List.mem_singleton.mp h
    exact .other rfl
  · cases h

theorem traces_of_cancelled {s : Session} (hc : s.client.cancelled = true) {i : Incident}
    {e : Client.Event} (h : e ∈ s.incidentEvents i) : Traces i e := by
  cases i with
  | turn t =>
    cases t with
    | upsert d => exact traces_redefine h _
    | removeFlag key => exact traces_redefine h _
    | operate o =>
      cases List.mem_singleton.mp h
      cases o with
      | subscribe flag =>
        refine ⟨fun he => ?_, fun f he => ?_, fun he => ?_⟩
        · cases he
        · cases he
          rfl
        · cases he
      | _ => exact .other rfl
    | task t => exact traces_task hc h _
  | push flags =>
    rw [incidentEvents] at h
    split at h
    · cases List.mem_singleton.mp h
      exact .other rfl
    · cases h
  | direct change => cases h
  | wait => cases h
  | settle o =>
    cases List.mem_singleton.mp h
    refine ⟨fun he => ?_, fun flag he => ?_, fun he => ?_⟩
    · cases he
    · cases he
    · cases he
      rfl
  | take =>
    rcases take_events h with rfl | ⟨answer, rfl⟩
    · refine ⟨fun _ => rfl, fun flag he => ?_, fun he => ?_⟩
      · cases he
      · cases he
    · exact .other rfl
  | follow =>
    rw [follow_events h]
    exact .other rfl
  | pass ms => cases h

theorem cancelled_meet {s : Session} (h : s.client.cancelled = true) (i : Incident) :
    (s.meet i).client.cancelled = true := by
  rw [client_meet, Client.run_eq_live]
  by_contra hn
  have := Client.not_cancelled_of_live (Bool.eq_false_iff.mpr hn)
  rw [h] at this
  cases this

theorem script_of_cancelled {s : Session} (hc : s.client.cancelled = true) {is : List Incident}
    {e : Client.Event} (h : e ∈ s.script is) : ∃ i ∈ is, Traces i e := by
  induction is generalizing s with
  | nil => cases h
  | cons i is ih =>
    rw [script_cons] at h
    rcases List.mem_append.mp h with h | h
    · exact ⟨i, List.mem_cons_self, traces_of_cancelled hc h⟩
    · obtain ⟨j, hj, ht⟩ := ih (cancelled_meet hc i) h
      exact ⟨j, List.mem_cons_of_mem _ hj, ht⟩

theorem not_subscribe_of_cancelled {s : Session} (hc : s.client.cancelled = true)
    {is : List Incident} {flag : String} (h : .turn (.operate (.subscribe flag)) ∉ is) :
    .subscribe flag ∉ s.script is := by
  intro hm
  obtain ⟨i, hi, ht⟩ := script_of_cancelled hc hm
  exact h (ht.subscribe flag rfl ▸ hi)

theorem not_ready_of_cancelled {s : Session} (hc : s.client.cancelled = true)
    {is : List Incident} (h : .settle .ready ∉ is) : .settle .ready ∉ s.script is := by
  intro hm
  obtain ⟨i, hi, ht⟩ := script_of_cancelled hc hm
  exact h (ht.ready rfl ▸ hi)

end Session

namespace Client

open Registry (foreign)

/-! ## initialized clients that are not reached any more -/

/-- the flags of the identifies that succeed during a run -/
def answers (c : Client) : List Event → List FlagSet
  | [] => []
  | e :: es => (c.success? e).toList ++ (c.step e).answers es

/-- An initialized client that does not listen to its connection. -/
structure Deaf (c : Client) : Prop where
  lifecycle_eq : c.lifecycle = .initialized
  waiting_eq : c.waiting = false
  foreign_eq : foreign c.connection.listeners = []

/-- A client takes over an answer and publishes it; without one it leaves all as it is. -/
structure Adopts (c d : Client) (answer : Option FlagSet) : Prop where
  notices_eq : d.notices = c.notices ++ answer.toList.flatMap Notice.ofFlags
  flags_eq : d.flags = answer.getD c.flags

theorem Adopts.of_unsaid {c d : Client} (h : Unsaid c d) : Adopts c d none :=
  ⟨h.notices_eq.trans (List.append_nil _).symm, h.flags_eq⟩

namespace Deaf

variable {c : Client}

theorem of_unmoved (h : Deaf c) {d : Client} (hu : Unmoved c d)
    (hf : foreign d.connection.listeners = []) : Deaf d :=
  ⟨hu.lifecycle_eq.trans h.lifecycle_eq, hu.waiting_eq.trans h.waiting_eq, hf⟩

theorem foreign_act (h : Deaf c) (e : Event) : foreign (c.act e).connection.listeners = [] := by
  rcases act_cases_listeners c e with he | ⟨flag, rfl⟩ | ⟨id, rfl⟩ | ⟨id, rfl⟩ | rfl | ⟨rfl, hwait⟩
  · rw [he.listeners_eq]
    exact h.foreign_eq
  · exact (Registry.foreign_subscribe c.registry c.connection.listeners flag).trans h.foreign_eq
  · have hs := Registry.foreign_unsubscribe_sublist c.registry c.connection.listeners id
    rw [h.foreign_eq] at hs
    exact List.sublist_nil.mp hs
  · exact h.foreign_eq
  · exact foreign_shutdown h.foreign_eq
  · rw [h.waiting_eq] at hwait
    cases hwait

theorem step (h : Deaf c) (e : Event) : Deaf (c.step e) := by
  have hact : Deaf (c.act e) := by
    by_cases he : ∃ o, e = .settle o
    · -- the wait is over, and no outcome matters any more
      obtain ⟨o, rfl⟩ := he
      rw [Client.act, settle_of_not_waiting h.waiting_eq]
      exact h
    · exact h.of_unmoved (.act c fun o ho => he ⟨o, ho⟩) (h.foreign_act e)
  refine hact.of_unmoved (.retire _) ?_
  show foreign (c.act e).retire.connection.listeners = []
  rw [Client.retire]
  split
  · exact hact.foreign_eq
  · exact foreign_close hact.foreign_eq

theorem run (h : Deaf c) (es : List Event) : Deaf (c.run es) := by
  induction es generalizing c with
  | nil => exact h
  | cons e es ih => exact ih (h.step e)

end Deaf

/-! ## how many succeed -/

/-- how many identifies are under way -/
def underWay (c : Client) : Nat := if c.worker = .busy then 1 else 0

theorem cancelled_step_shutdown (c : Client) : (c.step .shutdown).cancelled = true :=
  (Still.retire c.shutdown).cancelled c.cancelled_shutdown

end Client

namespace Session

/-! ## the client of a session at its shutdown -/

theorem attends_run {c : Client} (hs : Sound c) (h : c.cancelled = false → Client.Attends c)
    (es : List Client.Event) (hc : (c.run es).cancelled = false) : Client.Attends (c.run es) := by
  induction es generalizing c with
  | nil => exact h hc
  | cons e es ih =>
    obtain ⟨d, hr⟩ := hs.raced
    exact ih (hs.step e) (.step hr hs.synced h e) hc

theorem bare_of_shutdown (backend : Backend) (options : Client.Options) (patience : Nat)
    (identity : Identity) (is : List Incident)
    (hc : ((start backend options patience identity).meetAll is).client.cancelled = false) :
    Client.Bare
      (((start backend options patience identity).meetAll is).apply .shutdown).client := by
  have hs : Sound (start backend options patience identity).client := .start ..
  have hattends : Client.Attends (start backend options patience identity).client := by
    obtain ⟨flags, forgetful, hb⟩ := client_start backend options patience identity
    rw [hb]
    rfl
  have hrun := hs.run ((start backend options patience identity).script is)
  show Client.Bare (((start backend options patience identity).meetAll is).client.step .shutdown)
  rw [client_meetAll] at hc ⊢
  exact (Client.bare_shutdown hc (hrun.synced hc).wired
    (attends_run hs (fun _ => hattends) _ hc)).retire

theorem cancelled_of_shutdown (s : Session) : (s.apply .shutdown).client.cancelled = true :=
  Client.cancelled_step_shutdown s.client

namespace Side

/-- A connection that is closed if its client is shut down or gone, and not a scripted one. -/
def Closes (cancelled : Bool) : Side → Prop
  | memory _ seat => cancelled = true → seat.closed = true
  | scripted _ => False
  | remote _ seat => cancelled = true → seat.closed = true

namespace Closes

variable {cancelled : Bool} {side : Side}

theorem close (h : side.Closes cancelled) (now : Nat) (b : Bool) : (side.close now).Closes b := by
  cases side with
  | memory definitions seat => exact fun _ => rfl
  | scripted script => exact h
  | remote network seat => exact fun _ => rfl

theorem not_cancelled (h : side.Closes cancelled) : side.Closes false := by
  cases side with
  | scripted script => exact h
  | _ => exact nofun

theorem fetch? (h : side.Closes cancelled) {now : Nat} {next : Side}
    (hn : side.fetch? now = some next) : next.Closes cancelled := by
  cases side with
  | remote network seat =>
    obtain ⟨t, ht, rfl⟩ := Option.map_eq_some_iff.mp hn
    exact fun hc => (Remote.Seat.goes_of_next? ht).closed_eq.trans (h hc)
  | _ => cases hn

theorem identify (h : side.Closes cancelled) (now : Nat) (current : FlagSet) (context : Context) :
    (side.identify now current context).1.Closes cancelled := by
  cases side with
  | memory definitions seat =>
    rw [Side.identify]
    split
    next next hn =>
      rw [Memory.Seat.identify] at hn
      split at hn
      · cases hn
      · cases hn
        exact h
    next => exact h
  | scripted script => exact h
  | remote network seat =>
    rw [Side.identify]
    split
    next next hn =>
      rw [Remote.Seat.identify] at hn
      split at hn
      · cases hn
      · cases hn
        have hg := Remote.Seat.Goes.join (seat.turnTo context) (.identify 0)
        exact fun hc => hg.closed_eq.trans (h hc)
    next => exact h

theorem land? (h : side.Closes cancelled) {now : Nat} {r : Side × List Client.Event}
    (hr : side.land? now = some r) : r.1.Closes cancelled := by
  cases side with
  | remote network seat =>
    obtain ⟨f, -, rfl⟩ := Option.map_eq_some_iff.mp hr
    exact fun hc => (seat.finish_frame now _).2.2.1.trans (h hc)
  | _ => cases hr

/-- Closed, it refuses. -/
theorem identify_eq (h : side.Closes true) (now : Nat) (current : FlagSet) (context : Context) :
    side.identify now current context = (side, some (.error .closed)) := by
  cases side with
  | memory definitions seat => rw [Side.identify, Memory.Seat.identify, if_pos (h rfl)]
  | scripted script => exact absurd h id
  | remote network seat => rw [Side.identify, Remote.Seat.identify, if_pos (h rfl)]

end Closes

end Side

/-- The connection is closed with the client, and then refuses to identify. -/
def Closes (s : Session) : Prop := s.side.Closes s.client.cancelled

namespace Closes

variable {s : Session}

theorem start {backend : Backend} (h : ∀ script flags, backend ≠ .scripted script flags)
    (options : Client.Options) (patience : Nat) (identity : Identity) :
    Closes (Session.start backend options patience identity) := by
  cases backend with
  | memory ds => exact nofun
  | scripted script flags => exact absurd rfl (h script flags)
  | remote network interval => exact nofun

theorem apply (h : s.Closes) (e : Client.Event) : (s.apply e).Closes := by
  show (if (s.client.step e).cancelled then s.side.close s.now else s.side).Closes
    (s.client.step e).cancelled
  cases (s.client.step e).cancelled with
  | true => exact Side.Closes.close h s.now true
  | false => exact Side.Closes.not_cancelled h

theorem applyAll (h : s.Closes) (es : List Client.Event) : (s.applyAll es).Closes := by
  induction es generalizing s with
  | nil => exact h
  | cons e es ih => exact ih (h.apply e)

theorem identify (h : s.Closes) (context : Context) : (s.identify context).Closes := by
  have hwork := h.apply .work
  rw [Session.identify]
  split
  · exact applyAll (s := { s.apply .work with side := _ }) (Side.Closes.identify hwork _ _ _) _
  · exact hwork

theorem redefine (h : s.Closes) (change : Definitions → Definitions) :
    (s.redefine change).Closes := by
  rw [Session.redefine]
  split
  next definitions seat hs =>
    have hm : Session.Closes { s with side := .memory (change definitions) seat } := by
      rw [Closes, hs] at h
      exact h
    exact hm.apply _
  next => exact h

theorem direct (h : s.Closes) (change : Scripted → Scripted) : (s.direct change).Closes := by
  rw [Session.direct]
  split
  next script hs =>
    rw [Closes, hs] at h
    exact absurd h id
  next => exact h

theorem proceeds (h : s.Closes) {t : Session} (ht : s.Proceeds t) : t.Closes := by
  cases ht with
  | stays => exact h
  | fetches hf => exact Side.Closes.fetch? h hf
  | acts => exact h.apply _
  | identifies => exact h.identify _
  | @lands r hl => exact applyAll (s := { s with side := r.1 }) (Side.Closes.land? h hl) r.2

theorem meet (h : s.Closes) (i : Incident) : (s.meet i).Closes := by
  cases i with
  | turn t =>
    cases t with
    | upsert d => exact h.redefine _
    | removeFlag key => exact h.redefine _
    | operate o => exact h.apply o.event
    | task t => exact h.proceeds (s.proceeds t)
  | push flags =>
    show (s.push flags).Closes
    rw [Session.push]
    split
    · exact h.apply (.arrive flags)
    · exact h
  | direct change => exact h.direct change
  | settle o => exact h.apply (.settle o)
  | take =>
    rcases s.meet_take_cases with ht | ⟨context, rest, -, -, ht⟩
    · rw [ht]
      exact h
    · rw [ht]
      exact h.identify context
  | follow =>
    rcases s.meet_follow_cases with hf | hf
    · rw [hf]
      exact h
    · rw [hf]
      exact h.apply .watch
  | wait => exact h
  | pass ms => exact h

theorem meetAll (h : s.Closes) (is : List Incident) : (s.meetAll is).Closes := by
  induction is generalizing s with
  | nil => exact h
  | cons i is ih => exact ih (h.meet i)

end Closes

/-! ## what is answered after a shutdown -/

-- the worker takes a request that waited at the shutdown of a scripted connection
example :
    let s := (start (.scripted .ready {}) ⟨"key", {}⟩ 5000 (.anonymous "en")).meetAll
      [.turn (.task .race), .turn (.operate (.addContext "workspace" "w1"))]
    let t := s.apply .shutdown
    s.client.underWay = 0 ∧ s.client.requests.length = 1 ∧
      (t.meetAll [.take]).client.published.length = t.client.published.length + 3 := by
  decide +kernel

/-- a remote service whose second answer never comes -/
def stalledService : Remote.Network :=
  { environment := "production", target := some "/sdk/evaluate", flights := [], arrived := []
    responses := [.reply 200 "\x7b\"flags\":\x7b\"alpha\":1\x7d\x7d", .hang,
      .reply 200 "\x7b\"flags\":\x7b\"alpha\":2\x7d\x7d"] }

/-- **On any backend, a shutdown at any point of any run is the end of all streams that were opened
before: whatever happens later, none of them is attached or gets another value.  Until somebody
subscribes again nothing is registered at the connection and no flag has a subscriber.** -/
theorem streams_after_shutdown (backend : Backend) (options : Client.Options) (patience : Nat)
    (identity : Identity) (before after : List Incident)
    (hc : ((start backend options patience identity).meetAll before).client.cancelled = false) :
    let s := (start backend options patience identity).meetAll before
    let u := (s.apply .shutdown).meetAll after
    (∀ id < s.client.registry.next, u.client.registry.attached id = false ∧
        ∀ stream, u.client.registry.stream? id = some stream →
          ∃ old, s.client.registry.stream? id = some old ∧ stream.delivered = old.delivered) ∧
      ((∀ flag, .turn (.operate (.subscribe flag)) ∉ after) →
        (s.client.waiting = true → .settle .ready ∉ after) →
          u.client.connection.listeners.listeners = [] ∧
            ∀ flag, u.client.subscriberCount flag = 0) := by
  intro s u
  have hu : u.client = (s.apply .shutdown).client.run ((s.apply .shutdown).script after) :=
    client_meetAll (s.apply .shutdown) after
  have hover : Registry.Over s.client.registry u.client.registry := by
    rw [hu]
    exact Client.over_run (Client.over_step_shutdown hc) _
  refine ⟨fun id hid => ⟨hover.not_attached hid, fun stream => hover.delivered_eq id stream hid⟩,
    fun hs hw => ?_⟩
  have hbare : Client.Bare u.client := by
    rw [hu]
    refine (bare_of_shutdown backend options patience identity before hc).run (fun flag => ?_)
      fun hwait => ?_
    · exact not_subscribe_of_cancelled s.cancelled_of_shutdown (hs flag)
    · have hwaiting : s.client.waiting = true := Client.waiting_of_step (e := .shutdown) hwait
      exact not_ready_of_cancelled s.cancelled_of_shutdown (hw hwaiting)
  exact ⟨hbare.listeners_eq, fun flag => hbare.subscriberCount_eq flag⟩

/-- streams on two flags, one of them dropped -/
def twoStreams : List Incident :=
  [.turn (.task .race), .turn (.operate (.subscribe "alpha")), .turn (.operate (.subscribe "beta")),
    .turn (.upsert (.shared "alpha" 100)), .turn (.operate (.unsubscribe 1))]

theorem streams_of_upsert :
    let s := (start (.memory [.shared "alpha" 0]) ⟨"key", {}⟩ 5000 (.anonymous "en")).meetAll
      twoStreams
    let u := (s.apply .shutdown).meetAll [.turn (.upsert (.shared "alpha" 0))]
    s.client.cancelled = false ∧ u.client.registry.attached 0 = false ∧
      u.client.connection.listeners.listeners = [] ∧
        ∀ flag, u.client.subscriberCount flag = 0 := by
  have hc : ((start (.memory [.shared "alpha" 0]) ⟨"key", {}⟩ 5000 (.anonymous "en")).meetAll
      twoStreams).client.cancelled = false := by decide +kernel
  obtain ⟨hstreams, hbare⟩ := streams_after_shutdown _ _ _ _ _
    [.turn (.upsert (.shared "alpha" 0))] hc
  refine ⟨hc, (hstreams 0 (by decide +kernel)).1, hbare (fun flag => ?_) fun _ => ?_⟩
  · simp
  · simp

/-- Whoever subscribes after the shutdown is listened for, and gets values. -/
theorem stream_after_shutdown :
    let t := ((start (.memory [.shared "alpha" 0]) ⟨"key", {}⟩ 5000 (.anonymous "en")).meetAll
      [.turn (.task .race)]).apply .shutdown
    let u := t.meetAll [.turn (.operate (.subscribe "alpha")),
      .turn (.upsert (.shared "alpha" 100))]
    t.client.cancelled = true ∧ u.client.connection.listeners.listeners.length = 1 ∧
      u.client.subscriberCount "alpha" = 1 ∧
        (u.client.take 0).2.map Json.print = ["true"] := by
  refine ⟨?_, ?_, ?_, ?_⟩ <;> decide +kernel

end Session

end FeatureFlags
