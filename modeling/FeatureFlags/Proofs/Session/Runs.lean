import FeatureFlags.Proofs.Session.Definitions

/-!
# Sessions on any backend

A session on a service in process, on a scripted connection or on a remote service, while all that
can happen to it happens, in any order and at any time.

* `Session.Incident`, `Session.meet`, `Session.meetAll`   runs;
* `Session.script`           what a run is to the client: the events it consists of;
* `Session.client_meetAll`   the client of a session runs by the script;
* `Session.exists_operation`   what the application does to the client is an operation;
* `Session.Sound.run`        a client stays in order during a run;
* `Session.flags_of_connection`   a client that is initialized serves the flags of its connection.
-/

namespace FeatureFlags.Session

/-! ## runs -/

inductive Incident where
  /-- definitions change, the application or its identity provider acts, or a task goes on -/
  | turn (t : Turn)
  /-- the scripted connection has other flags -/
  | push (flags : FlagSet)
  /-- the scripted connection is told to behave in another way -/
  | direct (change : Scripted → Scripted)
  /-- the wait for the first flags begins -/
  | wait
  /-- The wait for the first flags ends.  Which outcome counts is open here, as it is when two of
  them are there at once. -/
  | settle (o : Client.Outcome)
  /-- The worker takes its next request.  Whether it stops when the client is shut down is open here,
  as it is when both are there at once. -/
  | take
  /-- the watcher follows the identity that was published last, which is open in the same way -/
  | follow
  /-- time passes -/
  | pass (ms : Nat)

def meet (s : Session) : Incident → Session
  | .turn t => s.turn t
  | .push flags => s.push flags
  | .direct change => s.direct change
  | .wait => { s with began := some (s.began.getD s.now) }
  | .settle o => s.apply (.settle o)
  | .take => s.take?.getD s
  | .follow => s.follow?.getD s
  | .pass ms => { s with now := s.now + ms }

def meetAll (s : Session) (is : List Incident) : Session := is.foldl meet s

/-- Neither is more than a task can do. -/
theorem meet_take_cases (s : Session) :
    s.meet .take = s ∨ ∃ context rest, s.client.worker = .idle ∧
      s.client.requests = context :: rest ∧ s.meet .take = s.identify context := by
  show s.take?.getD s = s ∨ _
  rcases s.take?_cases with h | ⟨context, rest, hw, hr, h⟩
  · exact .inl (by rw [h]; rfl)
  · refine .inr ⟨context, rest, hw, hr, ?_⟩
    show s.take?.getD s = _
    rw [h]
    rfl

theorem meet_follow_cases (s : Session) :
    s.meet .follow = s ∨ s.meet .follow = s.apply .watch := by
  show s.follow?.getD s = s ∨ s.follow?.getD s = _
  rcases s.follow?_cases with h | ⟨-, h⟩
  · exact .inl (by rw [h]; rfl)
  · exact .inr (by rw [h]; rfl)

theorem meetAll_cons (s : Session) (i : Incident) (is : List Incident) :
    s.meetAll (i :: is) = (s.meet i).meetAll is := rfl
theorem meetAll_append (s : Session) (is js : List Incident) :
    s.meetAll (is ++ js) = (s.meetAll is).meetAll js := List.foldl_append

/-! ## scripts -/

/-- the flags that other definitions bring -/
def redefineEvents (s : Session) (change : Definitions → Definitions) : List Client.Event :=
  match s.side with
  | .memory definitions seat => [.arrive (seat.flags (change definitions))]
  | _ => []

/-- the request that the worker takes, and the answer if it is there at once -/
def identifyEvents (s : Session) (context : Context) : List Client.Event :=
  let t := s.apply .work
  match t.client.worker with
  | .busy =>
    let r := t.side.identify t.now t.client.connection.flags context
    .work :: (r.2.map Client.Event.answered).toList
  | _ => [.work]

def takeEvents (s : Session) : List Client.Event :=
  match s.client.worker with
  | .idle => (s.client.requests.head?.map s.identifyEvents).getD []
  | _ => []

def followEvents (s : Session) : List Client.Event :=
  if s.client.following then (s.client.inbox.map (fun _ => Client.Event.watch)).toList else []

def taskEvents (s : Session) : Task → List Client.Event
  | .fetch => []
  | .race => if s.client.waiting then (s.outcome?.map Client.Event.settle).toList else []
  | .work =>
    match s.client.worker with
    | .idle => if s.client.cancelled then [.stopWorker] else s.takeEvents
    | _ => []
  | .watch =>
    if s.client.following then
      if s.client.cancelled then [.stopWatcher] else s.followEvents
    else []
  | .land => ((s.side.land? s.now).map Prod.snd).getD []

def turnEvents (s : Session) : Turn → List Client.Event
  | .upsert d => s.redefineEvents (fun ds => ds.insert d.key d)
  | .removeFlag key => s.redefineEvents (fun ds => ds.erase key)
  | .operate o => [o.event]
  | .task t => s.taskEvents t

def incidentEvents (s : Session) : Incident → List Client.Event
  | .turn t => s.turnEvents t
  | .push flags =>
    match s.side with
    | .scripted _ => [.arrive flags]
    | _ => []
  | .settle o => [.settle o]
  | .take => s.takeEvents
  | .follow => s.followEvents
  | _ => []

/-- what happens to the client during a run -/
def script (s : Session) : List Incident → List Client.Event
  | [] => []
  | i :: is => s.incidentEvents i ++ (s.meet i).script is

theorem script_cons (s : Session) (i : Incident) (is : List Incident) :
    s.script (i :: is) = s.incidentEvents i ++ (s.meet i).script is := rfl

/-- What arrives from the other side is an answer or other flags. -/
theorem land_events {s : Session} {e : Client.Event} (h : e ∈ s.taskEvents .land) :
    (∃ answer, e = .answered answer) ∨ ∃ flags, e = .arrive flags := by
  have h : e ∈ ((s.side.land? s.now).map Prod.snd).getD [] := h
  cases hs : s.side with
  | memory definitions seat =>
    rw [hs] at h
    cases h
  | scripted script =>
    rw [hs] at h
    cases h
  | remote network seat =>
    rw [hs, Side.land?] at h
    cases hl : network.land? s.now with
    | none =>
      rw [hl] at h
      cases h
    | some r =>
      rw [hl] at h
      simp only [Option.map_some, Option.getD_some] at h
      split at h
      · exact .inl ⟨_, List.mem_singleton.mp h⟩
      · exact .inr ⟨_, List.mem_singleton.mp h⟩
      · cases h

/-- The worker takes a request, and the answer if it is there at once. -/
theorem identify_events {s : Session} {context : Context} {e : Client.Event}
    (h : e ∈ s.identifyEvents context) : e = .work ∨ ∃ answer, e = .answered answer := by
  unfold identifyEvents at h
  dsimp only at h
  split at h
  · rcases List.mem_cons.mp h with rfl | h
    · exact .inl rfl
    · obtain ⟨answer, -, rfl⟩ := Option.map_eq_some_iff.mp (Option.mem_toList.mp h)
      exact .inr ⟨answer, rfl⟩
  · exact .inl (List.mem_singleton.mp h)

theorem take_events {s : Session} {e : Client.Event} (h : e ∈ s.takeEvents) :
    e = .work ∨ ∃ answer, e = .answered answer := by
  rw [takeEvents] at h
  split at h
  · cases hr : s.client.requests.head? with
    | none =>
      rw [hr] at h
      cases h
    | some context =>
      rw [hr] at h
      exact identify_events h
  · cases h

theorem follow_events {s : Session} {e : Client.Event} (h : e ∈ s.followEvents) : e = .watch := by
  rw [followEvents] at h
  split at h
  · obtain ⟨i, -, rfl⟩ := Option.map_eq_some_iff.mp (Option.mem_toList.mp h)
    rfl
  · cases h

theorem client_applyAll (s : Session) (es : List Client.Event) :
    (s.applyAll es).client = s.client.run es := by
  induction es generalizing s with
  | nil => rfl
  | cons e es ih =>
    rw [applyAll_cons, ih, Client.run_cons]
    rfl

theorem client_redefine (s : Session) (change : Definitions → Definitions) :
    (s.redefine change).client = s.client.run (s.redefineEvents change) := by
  unfold redefine redefineEvents
  cases s.side <;> rfl

theorem client_identify (s : Session) (context : Context) :
    (s.identify context).client = s.client.run (s.identifyEvents context) := by
  unfold identify identifyEvents
  dsimp only
  cases (s.apply .work).client.worker with
  | busy => exact client_applyAll _ _
  | idle => rfl
  | stopped => rfl

theorem client_take (s : Session) : (s.take?.getD s).client = s.client.run s.takeEvents := by
  unfold take? takeEvents
  cases s.client.worker with
  | busy => rfl
  | stopped => rfl
  | idle =>
    cases s.client.requests with
    | nil => rfl
    | cons context rest => exact client_identify s context

theorem client_follow (s : Session) :
    (s.follow?.getD s).client = s.client.run s.followEvents := by
  unfold follow? followEvents
  cases s.client.following with
  | false => rfl
  | true => cases s.client.inbox <;> rfl

theorem client_task (s : Session) (t : Task) :
    ((s.proceed? t).getD s).client = s.client.run (s.taskEvents t) := by
  cases t with
  | fetch =>
    show (s.fetch?.getD s).client = s.client
    unfold fetch?
    cases s.side.fetch? s.now <;> rfl
  | race =>
    show (s.race?.getD s).client = s.client.run (s.taskEvents .race)
    unfold race? taskEvents
    cases s.client.waiting with
    | false => rfl
    | true => cases s.outcome? <;> rfl
  | work =>
    show (s.work?.getD s).client = s.client.run (s.taskEvents .work)
    unfold work? taskEvents
    cases s.client.worker with
    | busy => rfl
    | stopped => rfl
    | idle =>
      cases s.client.cancelled with
      | true => rfl
      | false => exact client_take s
  | watch =>
    show (s.watch?.getD s).client = s.client.run (s.taskEvents .watch)
    unfold watch? taskEvents
    cases s.client.following with
    | false => rfl
    | true =>
      cases s.client.cancelled with
      | true => rfl
      | false => exact client_follow s
  | land =>
    show (s.land?.getD s).client = s.client.run (s.taskEvents .land)
    unfold land? taskEvents
    cases s.side.land? s.now with
    | none => rfl
    | some r => exact client_applyAll _ _

theorem client_turn (s : Session) (t : Turn) :
    (s.turn t).client = s.client.run (s.turnEvents t) := by
  cases t with
  | upsert d => exact client_redefine s _
  | removeFlag key => exact client_redefine s _
  | operate o => rfl
  | task t => exact client_task s t

theorem client_meet (s : Session) (i : Incident) :
    (s.meet i).client = s.client.run (s.incidentEvents i) := by
  cases i with
  | turn t => exact client_turn s t
  | push flags =>
    show (s.push flags).client = s.client.run (s.incidentEvents (.push flags))
    unfold push incidentEvents
    cases s.side <;> rfl
  | direct change =>
    show (s.direct change).client = s.client
    unfold direct
    cases s.side <;> rfl
  | wait => rfl
  | settle o => rfl
  | take => exact client_take s
  | follow => exact client_follow s
  | pass ms => rfl

theorem client_meetAll (s : Session) (is : List Incident) :
    (s.meetAll is).client = s.client.run (s.script is) := by
  induction is generalizing s with
  | nil => rfl
  | cons i is ih => rw [meetAll_cons, script_cons, ih, client_meet, Client.run_append]

/-! ## what the application does -/

/-- events that an application or its identity provider brings about -/
def operated : Client.Event → Bool
  | .addContext _ _ => true
  | .removeContext _ => true
  | .publish _ => true
  | .subscribe _ => true
  | .unsubscribe _ => true
  | .take _ => true
  | .shutdown => true
  | .release => true
  | _ => false

theorem operated_take {s : Session} {e : Client.Event} (h : e ∈ s.takeEvents) :
    operated e = false := by
  rcases take_events h with rfl | ⟨answer, rfl⟩
  · rfl
  · rfl

/-- Tasks bring about nothing of the kind. -/
theorem operated_task {s : Session} {t : Task} {e : Client.Event} (h : e ∈ s.taskEvents t) :
    operated e = false := by
  cases t with
  | fetch => cases h
  | race =>
    rw [taskEvents] at h
    split at h
    · obtain ⟨o, -, rfl⟩ := Option.map_eq_some_iff.mp (Option.mem_toList.mp h)
      rfl
    · cases h
  | work =>
    rw [taskEvents] at h
    split at h
    · split at h
      · rw [List.mem_singleton.mp h]
        rfl
      · exact operated_take h
    · cases h
  | watch =>
    rw [taskEvents] at h
    split at h
    · split at h
      · rw [List.mem_singleton.mp h]
        rfl
      · rw [follow_events h]
        rfl
    · cases h
  | land =>
    rcases land_events h with ⟨answer, rfl⟩ | ⟨flags, rfl⟩
    · rfl
    · rfl

theorem operated_redefine {s : Session} {change : Definitions → Definitions} {e : Client.Event}
    (h : e ∈ s.redefineEvents change) : operated e = false := by
  rw [redefineEvents] at h
  split at h
  · rw [List.mem_singleton.mp h]
    rfl
  · cases h

theorem exists_operation {s : Session} {i : Incident} {e : Client.Event}
    (h : e ∈ s.incidentEvents i) (he : operated e = true) :
    ∃ o : Operation, i = .turn (.operate o) ∧ o.event = e := by
  have hnot : operated e ≠ false := by
    rw [he]
    exact nofun
  cases i with
  | turn t =>
    cases t with
    | upsert d => exact absurd (operated_redefine h) hnot
    | removeFlag key => exact absurd (operated_redefine h) hnot
    | operate o => exact ⟨o, rfl, (List.mem_singleton.mp h).symm⟩
    | task t => exact absurd (operated_task h) hnot
  | push flags =>
    rw [incidentEvents] at h
    split at h
    · rw [List.mem_singleton.mp h] at he
      cases he
    · cases h
  | direct change => cases h
  | wait => cases h
  | settle o =>
    rw [List.mem_singleton.mp h] at he
    cases he
  | take => exact absurd (operated_take h) hnot
  | follow =>
    rw [follow_events h] at he
    cases he
  | pass ms => cases h

/-! ## clients in order -/

theorem Sound.run {c : Client} (h : Sound c) (es : List Client.Event) : Sound (c.run es) := by
  induction es generalizing c with
  | nil => exact h
  | cons e es ih => exact ih (h.step e)

/-- Whatever it is connected to, nobody listens to the connection at the beginning. -/
theorem client_start (backend : Backend) (options : Client.Options) (patience : Nat)
    (identity : Identity) :
    ∃ flags forgetful, (start backend options patience identity).client =
      .start options identity ⟨flags, .empty⟩ forgetful := by
  cases backend with
  | memory ds => exact ⟨_, _, rfl⟩
  | scripted start flags => exact ⟨_, _, rfl⟩
  | remote network interval => exact ⟨_, _, rfl⟩

theorem Sound.start (backend : Backend) (options : Client.Options) (patience : Nat)
    (identity : Identity) : Sound (Session.start backend options patience identity).client := by
  obtain ⟨flags, forgetful, h⟩ := client_start backend options patience identity
  rw [h]
  exact ⟨⟨nofun, nofun⟩, ⟨none, .start _ _ _ _⟩, fun _ => .start _ _ _ _⟩

theorem Sound.meetAll (backend : Backend) (options : Client.Options) (patience : Nat)
    (identity : Identity) (is : List Incident) :
    Sound ((Session.start backend options patience identity).meetAll is).client := by
  rw [client_meetAll]
  exact (Sound.start backend options patience identity).run _

theorem quiet_start (backend : Backend) (options : Client.Options) (patience : Nat)
    (identity : Identity) : Client.Quiet (start backend options patience identity).client := by
  obtain ⟨flags, forgetful, h⟩ := client_start backend options patience identity
  rw [h]
  exact .start ..

/-- **On any backend and after any run, a client that is initialized and not shut down serves the
flags of its connection.** -/
theorem flags_of_connection (backend : Backend) (options : Client.Options) (patience : Nat)
    (identity : Identity) (is : List Incident)
    (hi : ((start backend options patience identity).meetAll is).client.lifecycle = .initialized)
    (hc : ((start backend options patience identity).meetAll is).client.cancelled = false) :
    let c := ((start backend options patience identity).meetAll is).client
    c.flagsInUse.same c.connection.flags = true := by
  intro c
  have hs : Sound c := .meetAll backend options patience identity is
  rw [Client.flagsInUse_of_initialized hi]
  exact (hs.synced hc).flags_same hi

/-- a remote service with other flags at each request -/
def changingService : Remote.Network :=
  { environment := "production", target := some "/sdk/evaluate", flights := [], arrived := []
    responses := [.reply 200 "\x7b\"flags\":\x7b\"alpha\":1\x7d\x7d",
      .reply 200 "\x7b\"flags\":\x7b\"alpha\":2\x7d\x7d"] }

/-- an identify that begins before the first flags are there and is answered after that -/
def earlyIdentify : List Incident :=
  [.turn (.operate (.addContext "workspace" "w1")), .turn (.task .fetch), .turn (.task .work),
    .turn (.task .land), .turn (.task .race), .turn (.task .fetch), .turn (.task .land)]

theorem flags_of_early_identify :
    let c := ((start (.remote changingService 1000) ⟨"key", {}⟩ 5000 (.anonymous "en")).meetAll
      earlyIdentify).client
    c.lifecycle = .initialized ∧ c.cancelled = false ∧
      c.connection.flags.text = "\x7b\"alpha\":2\x7d" ∧
      c.flagsInUse.same c.connection.flags = true := by
  have hi : ((start (.remote changingService 1000) ⟨"key", {}⟩ 5000 (.anonymous "en")).meetAll
      earlyIdentify).client.lifecycle = .initialized := by decide +kernel
  have hc : ((start (.remote changingService 1000) ⟨"key", {}⟩ 5000 (.anonymous "en")).meetAll
      earlyIdentify).client.cancelled = false := by decide +kernel
  exact ⟨hi, hc, by decide +kernel, flags_of_connection _ _ _ _ _ hi hc⟩

end FeatureFlags.Session
