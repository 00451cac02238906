import FeatureFlags.Proofs.Session.Runs

/-!
# Sessions in another guise

Two sessions may differ in something of which no run takes notice: the client holds something that
none of its steps reads, or the script of the connection says something that no answer depends on.
They stay apart by just that.

* `Session.disguised`        a session with its client and its script changed;
* `Session.Unseen`           no step of the client and no answer takes notice of the change;
* `Session.disguised_meet`   then whatever happens to both sessions keeps them alike.
-/

namespace FeatureFlags.Session

namespace Side

/-- Where a connection is scripted, it has another script. -/
def reworded (k : Scripted → Scripted) : Side → Side
  | .scripted script => .scripted (k script)
  | side => side

variable {k : Scripted → Scripted}

theorem reworded_id (side : Side) : side.reworded id = side := by
  cases side <;> rfl

theorem reworded_close (side : Side) (now : Nat) :
    (side.close now).reworded k = (side.reworded k).close now := by
  cases side <;> rfl

theorem fetch?_reworded (side : Side) (now : Nat) :
    (side.reworded k).fetch? now = (side.fetch? now).map (reworded k) := by
  cases side with
  | remote network seat =>
    show (seat.next? true now).map _ = ((seat.next? true now).map _).map _
    rw [Option.map_map]
    rfl
  | _ => rfl

theorem land?_reworded (side : Side) (now : Nat) :
    (side.reworded k).land? now = (side.land? now).map fun r => (r.1.reworded k, r.2) := by
  cases side with
  | remote network seat =>
    show (network.land? now).map _ = ((network.land? now).map _).map _
    rw [Option.map_map]
    rfl
  | _ => rfl

theorem identify_reworded
    (hk : ∀ script current, (k script).identify current = script.identify current) (side : Side)
    (now : Nat) (current : FlagSet) (context : Context) :
    (side.reworded k).identify now current context =
      ((side.identify now current context).1.reworded k,
        (side.identify now current context).2) := by
  cases side with
  | memory definitions seat =>
    show identify now current context (memory definitions seat) = _
    rw [identify]
    split <;> rfl
  | scripted script =>
    show (scripted (k script), some ((k script).identify current)) = _
    rw [hk]
    rfl
  | remote network seat =>
    show identify now current context (remote network seat) = _
    rw [identify]
    split <;> rfl

end Side

/-- the session with another client, and another script if its connection is scripted -/
def disguised (g : Client → Client) (k : Scripted → Scripted) (s : Session) : Session :=
  { s with client := g s.client, side := s.side.reworded k }

/-- No step of the client takes notice of the change of the client, nothing that its tasks read is
different, and no answer depends on the change of the script. -/
structure Unseen (g : Client → Client) (k : Scripted → Scripted) : Prop where
  step_eq : ∀ c e, g (c.step e) = (g c).step e
  cancelled_eq : ∀ c, (g c).cancelled = c.cancelled
  waiting_eq : ∀ c, (g c).waiting = c.waiting
  worker_eq : ∀ c, (g c).worker = c.worker
  requests_eq : ∀ c, (g c).requests = c.requests
  following_eq : ∀ c, (g c).following = c.following
  inbox_eq : ∀ c, (g c).inbox = c.inbox
  flags_eq : ∀ c, (g c).connection.flags = c.connection.flags
  identify_eq : ∀ script current, (k script).identify current = script.identify current

section

variable {g : Client → Client} {k : Scripted → Scripted} (h : Unseen g k)
include h

theorem disguised_apply (s : Session) (e : Client.Event) :
    (s.apply e).disguised g k = (s.disguised g k).apply e := by
  have hside : (if (s.client.step e).cancelled then s.side.close s.now else s.side).reworded k =
      if ((g s.client).step e).cancelled then (s.side.reworded k).close s.now
      else s.side.reworded k := by
    rw [← h.step_eq, h.cancelled_eq]
    split
    · exact s.side.reworded_close s.now
    · rfl
  show { s with client := g (s.client.step e), side := _ } = _
  rw [apply, hside, h.step_eq]
  rfl

theorem disguised_applyAll (s : Session) (es : List Client.Event) :
    (s.applyAll es).disguised g k = (s.disguised g k).applyAll es := by
  induction es generalizing s with
  | nil => rfl
  | cons e es ih => rw [applyAll_cons, applyAll_cons, ih, disguised_apply h]

theorem disguised_identify (s : Session) (context : Context) :
    (s.identify context).disguised g k = (s.disguised g k).identify context := by
  unfold identify
  rw [← disguised_apply h]
  generalize s.apply .work = t
  have hside := t.side.identify_reworded h.identify_eq t.now t.client.connection.flags context
  have hworker := h.worker_eq t.client
  have hflags := h.flags_eq t.client
  obtain ⟨client, side, now, patience, began⟩ := t
  dsimp only [disguised] at hside hworker hflags ⊢
  rw [hworker, hflags, hside]
  cases client.worker with
  | busy => exact disguised_applyAll h _ _
  | _ => rfl

theorem disguised_redefine (s : Session) (change : Definitions → Definitions) :
    (s.redefine change).disguised g k = (s.disguised g k).redefine change := by
  obtain ⟨client, side, now, patience, began⟩ := s
  cases side with
  | memory definitions seat => exact disguised_apply h _ _
  | _ => rfl

theorem disguised_push (s : Session) (flags : FlagSet) :
    (s.push flags).disguised g k = (s.disguised g k).push flags := by
  obtain ⟨client, side, now, patience, began⟩ := s
  cases side with
  | scripted script => exact disguised_apply h _ _
  | _ => rfl

omit h in
theorem disguised_direct (s : Session) {change : Scripted → Scripted}
    (hc : ∀ script, k (change script) = change (k script)) :
    (s.direct change).disguised g k = (s.disguised g k).direct change := by
  obtain ⟨client, side, now, patience, began⟩ := s
  cases side with
  | scripted script =>
    show ({ client := g client, side := .scripted (k (change script)), now, patience, began } :
      Session) = _
    rw [hc]
    rfl
  | _ => rfl

/-- The wait ends alike where the connection is initialized alike. -/
theorem outcome?_disguised {s : Session}
    (hr : (s.side.reworded k).readiness? (s.began.getD s.now) s.now =
      s.side.readiness? (s.began.getD s.now) s.now) :
    (s.disguised g k).outcome? = s.outcome? := by
  have hc : (s.disguised g k).client.cancelled = s.client.cancelled := h.cancelled_eq s.client
  have hr : (s.disguised g k).side.readiness?
      ((s.disguised g k).began.getD (s.disguised g k).now) (s.disguised g k).now =
        s.side.readiness? (s.began.getD s.now) s.now := hr
  rw [outcome?, outcome?, hc]
  dsimp only
  rw [hr]
  rfl

theorem take?_disguised (s : Session) :
    (s.disguised g k).take? = s.take?.map (disguised g k) := by
  have hworker : (s.disguised g k).client.worker = s.client.worker := h.worker_eq s.client
  have hrequests : (s.disguised g k).client.requests = s.client.requests :=
    h.requests_eq s.client
  rw [take?, take?, hworker, hrequests]
  cases s.client.worker with
  | idle =>
    dsimp only
    rw [Option.map_map]
    refine congrArg (Option.map · _) (funext fun context => ?_)
    exact (disguised_identify h s context).symm
  | _ => rfl

theorem follow?_disguised (s : Session) :
    (s.disguised g k).follow? = s.follow?.map (disguised g k) := by
  show (if (g s.client).following then
      (g s.client).inbox.map (fun _ => (s.disguised g k).apply .watch) else none) = _
  rw [follow?, h.following_eq, h.inbox_eq, ← disguised_apply h]
  split
  · rw [Option.map_map]
    rfl
  · rfl

/-- The task that waits for the first flags asks more of the connection than the others. -/
theorem proceed?_disguised (s : Session) {t : Task}
    (ht : t = .race → s.client.waiting = true → (s.disguised g k).outcome? = s.outcome?) :
    (s.disguised g k).proceed? t = (s.proceed? t).map (disguised g k) := by
  cases t with
  | fetch =>
    show ((s.side.reworded k).fetch? s.now).map _ = ((s.side.fetch? s.now).map _).map _
    rw [s.side.fetch?_reworded, Option.map_map, Option.map_map]
    rfl
  | race =>
    show (if (g s.client).waiting then (s.disguised g k).outcome?.map _ else none) =
      (if s.client.waiting then s.outcome?.map _ else none).map (disguised g k)
    rw [h.waiting_eq]
    split
    next hw =>
      rw [ht rfl hw, Option.map_map]
      exact congrArg (s.outcome?.map ·) (funext fun o => (disguised_apply h s (.settle o)).symm)
    next => rfl
  | work =>
    have hworker : (s.disguised g k).client.worker = s.client.worker := h.worker_eq s.client
    have hcancelled : (s.disguised g k).client.cancelled = s.client.cancelled :=
      h.cancelled_eq s.client
    show (s.disguised g k).work? = s.work?.map (disguised g k)
    rw [work?, work?, hworker, hcancelled, take?_disguised h]
    cases s.client.worker with
    | idle =>
      dsimp only
      split
      · rw [← disguised_apply h]
        rfl
      · rfl
    | _ => rfl
  | watch =>
    show (if (g s.client).following then
        if (g s.client).cancelled then some ((s.disguised g k).apply .stopWatcher)
        else (s.disguised g k).follow?
      else none) = s.watch?.map (disguised g k)
    rw [watch?, h.following_eq, h.cancelled_eq, follow?_disguised h, ← disguised_apply h]
    split
    · split
      · rfl
      · rfl
    · rfl
  | land =>
    show ((s.side.reworded k).land? s.now).map _ = ((s.side.land? s.now).map _).map _
    rw [s.side.land?_reworded, Option.map_map, Option.map_map]
    refine congrArg (Option.map · _) (funext fun r => ?_)
    exact (disguised_applyAll h { s with side := r.1 } r.2).symm

/-- **Two sessions that only differ in what no run takes notice of go through the same.** -/
theorem disguised_meet (s : Session) {i : Incident}
    (ho : i = .turn (.task .race) → s.client.waiting = true →
      (s.disguised g k).outcome? = s.outcome?)
    (hd : ∀ change, i = .direct change → ∀ script, k (change script) = change (k script)) :
    (s.meet i).disguised g k = (s.disguised g k).meet i := by
  cases i with
  | turn t =>
    cases t with
    | upsert d => exact disguised_redefine h s _
    | removeFlag key => exact disguised_redefine h s _
    | operate o => exact disguised_apply h s _
    | task t =>
      show ((s.proceed? t).getD s).disguised g k =
        ((s.disguised g k).proceed? t).getD (s.disguised g k)
      rw [proceed?_disguised h s fun ht => ho (ht ▸ rfl)]
      cases s.proceed? t <;> rfl
  | push flags => exact disguised_push h s flags
  | direct change => exact disguised_direct s (hd change rfl)
  | wait => rfl
  | settle o => exact disguised_apply h s _
  | take =>
    show (s.take?.getD s).disguised g k = (s.disguised g k).take?.getD (s.disguised g k)
    rw [take?_disguised h]
    cases s.take? <;> rfl
  | follow =>
    show (s.follow?.getD s).disguised g k = (s.disguised g k).follow?.getD (s.disguised g k)
    rw [follow?_disguised h]
    cases s.follow? <;> rfl
  | pass ms => rfl

end

end FeatureFlags.Session
