import FeatureFlags.Client

/-!
# Overwrites

Overwrites are laid over the flags where all of them are listed.  No step of a client reads them, so
that two clients that only differ in their overwrites go through everything alike.

* `Table.find?_union`        what is found in a union;
* `Client.overlaid`          a client with other overwrites;
* `Client.overlaid_step`     its steps are those of the client;
* `Client.Alike`             two clients that show and do the same, but for the listing;
* `Client.find?_snapshot`    the listing is the flags with the overwrites laid over them.
-/

namespace FeatureFlags

/-! ## unions -/

theorem Table.find?_union {α : Type} (t u : Table α) (name : String) :
    (t.union u).find? name = (u.find? name).or (t.find? name) := by
  suffices ∀ es : List (Entry α), Entries.Sorted es → ∀ acc : Table α,
      (es.foldl (fun acc e => acc.insert e.1 e.2) acc).find? name =
        (Entries.find? name es).or (acc.find? name) from this u.entries u.sorted t
  intro es hes
  induction es with
  | nil => exact fun _ => rfl
  | cons e es ih =>
    intro acc
    have he := List.pairwise_cons.mp hes
    rw [List.foldl_cons, ih he.2, Table.find?_insert, Entries.find?_cons]
    by_cases hn : e.1 = name
    · -- the names that follow are all greater
      rw [if_pos hn, if_pos hn, Entries.find?_eq_none_of_lt (hn ▸ he.1)]
      rfl
    · rw [if_neg hn, if_neg hn]

namespace Client

/-! ## steps -/

/-- the client with other overwrites -/
def overlaid (o : FlagSet) (c : Client) : Client := { c with overwrites := o }

section

variable (o : FlagSet)

theorem overlaid_receive (c : Client) (call : Call Role) :
    (c.receive call).overlaid o = (c.overlaid o).receive call := by
  rw [receive, receive]
  cases call.role <;> exact apply_ite (overlaid o) _ _ _

theorem overlaid_arrive (c : Client) (flags : FlagSet) :
    (c.arrive flags).overlaid o = (c.overlaid o).arrive flags := by
  suffices ∀ (calls : List (Call Role)) (d : Client),
      (calls.foldl receive d).overlaid o = calls.foldl receive (d.overlaid o) from this _ _
  intro calls
  induction calls with
  | nil => exact fun _ => rfl
  | cons call calls ih =>
    intro d
    rw [List.foldl_cons, List.foldl_cons, ih, overlaid_receive]

theorem overlaid_settle (c : Client) (outcome : Outcome) :
    (c.settle outcome).overlaid o = (c.overlaid o).settle outcome := by
  rw [settle, settle]
  cases outcome <;> exact apply_ite (overlaid o) _ _ _

theorem schedule_overlaid (c : Client) :
    (c.overlaid o).schedule = (c.schedule.1.overlaid o, c.schedule.2) := by
  rw [schedule, schedule]
  show (if c.lifecycle = .failed then _ else if c.worker = .stopped then _ else _) = _
  split
  · rfl
  · split <;> rfl

theorem addContext_overlaid (c : Client) (kind key : String) :
    (c.overlaid o).addContext kind key =
      ((c.addContext kind key).1.overlaid o, (c.addContext kind key).2) := by
  rw [addContext, addContext]
  show (if c.context.key? kind = some key then _ else _) = _
  split
  · rfl
  · exact schedule_overlaid o { c with context := c.context.insert (.keyed kind key) }

theorem removeContext_overlaid (c : Client) (kind : String) :
    (c.overlaid o).removeContext kind =
      ((c.removeContext kind).1.overlaid o, (c.removeContext kind).2) := by
  rw [removeContext, removeContext, show (c.overlaid o).context = c.context from rfl]
  cases c.context.get? kind with
  | none => rfl
  | some s =>
    cases c.context.erase? kind with
    | none => rfl
    | some context => exact schedule_overlaid o { c with context }

theorem overlaid_follow (c : Client) (next : Identity) :
    (c.follow next).overlaid o = (c.overlaid o).follow next := by
  rw [follow, follow]
  dsimp only
  show _ = if updated c.context c.followed next == c.context then _ else _
  split
  · rfl
  · exact (congrArg Prod.fst (schedule_overlaid o _)).symm

theorem overlaid_watch (c : Client) : c.watch.overlaid o = (c.overlaid o).watch := by
  rw [watch, watch, show (c.overlaid o).inbox = c.inbox from rfl]
  cases c.inbox with
  | none => rfl
  | some next =>
    dsimp only
    show _ = if c.following ∧ ¬ c.gone then _ else _
    split
    · exact overlaid_follow o _ next
    · rfl

theorem overlaid_work (c : Client) : c.work.overlaid o = (c.overlaid o).work := by
  rw [work, work, show (c.overlaid o).worker = c.worker from rfl,
    show (c.overlaid o).requests = c.requests from rfl]
  cases c.worker with
  | idle =>
    cases c.requests with
    | nil => rfl
    | cons context rest =>
      dsimp only
      show _ = if c.gone then _ else if c.lifecycle = .failed then _ else _
      split
      · rfl
      · split <;> rfl
  | _ => rfl

theorem overlaid_stopWorker (c : Client) : c.stopWorker.overlaid o = (c.overlaid o).stopWorker := by
  rw [stopWorker, stopWorker]
  exact apply_ite (overlaid o) _ _ _

theorem overlaid_answered (c : Client) (answer : Except BackendError FlagSet) :
    (c.answered answer).overlaid o = (c.overlaid o).answered answer := by
  rw [answered, answered, show (c.overlaid o).worker = c.worker from rfl]
  cases c.worker with
  | busy =>
    cases answer with
    | error e => rfl
    | ok flags =>
      dsimp only
      have harrive := overlaid_arrive o { c with worker := .idle } flags
      show _ = if (arrive (overlaid o { c with worker := .idle }) flags).lifecycle = .initialized
        then publish { arrive (overlaid o { c with worker := .idle }) flags with flags }
        else { arrive (overlaid o { c with worker := .idle }) flags with flags }
      rw [← harrive]
      exact apply_ite (overlaid o) _ _ _
  | _ => rfl

theorem overlaid_shutdown (c : Client) : c.shutdown.overlaid o = (c.overlaid o).shutdown := by
  rw [shutdown, shutdown]
  exact apply_ite (overlaid o) _ _ _

theorem overlaid_retire (c : Client) : c.retire.overlaid o = (c.overlaid o).retire := by
  rw [retire, retire]
  exact apply_ite (overlaid o) _ _ _

theorem overlaid_act (c : Client) (e : Event) : (c.act e).overlaid o = (c.overlaid o).act e := by
  cases e with
  | addContext kind key => exact (congrArg Prod.fst (addContext_overlaid o c kind key)).symm
  | removeContext kind => exact (congrArg Prod.fst (removeContext_overlaid o c kind)).symm
  | shutdown => exact overlaid_shutdown o c
  | arrive flags => exact overlaid_arrive o c flags
  | answered answer => exact overlaid_answered o c answer
  | settle outcome => exact overlaid_settle o c outcome
  | work => exact overlaid_work o c
  | stopWorker => exact overlaid_stopWorker o c
  | watch => exact overlaid_watch o c
  | _ => rfl

/-- **No step of a client reads the overwrites.** -/
theorem overlaid_step (c : Client) (e : Event) :
    (c.step e).overlaid o = (c.overlaid o).step e := by
  rw [step, step, overlaid_retire, overlaid_act]

end

/-! ## what is seen of a client -/

/-- Two clients show and do the same, but for the listing. -/
structure Alike (c d : Client) : Prop where
  lifecycle_eq : d.lifecycle = c.lifecycle
  context_eq : d.context = c.context
  flagsInUse_eq : d.flagsInUse = c.flagsInUse
  experiment_eq : ∀ shape flag, d.experiment shape flag = c.experiment shape flag
  /-- what waits in the streams -/
  take_eq : ∀ id, (d.take id).2 = (c.take id).2
  /-- what was published -/
  notices_eq : d.notices = c.notices
  /-- what was done with the connection -/
  moves_eq : d.moves = c.moves

theorem alike_overlaid (o : FlagSet) (c : Client) : Alike (c.overlaid o) c :=
  ⟨rfl, rfl, rfl, fun _ _ => rfl, fun _ => rfl, rfl, rfl⟩

/-- The listing is the flags with the overwrites laid over them. -/
theorem find?_snapshot (c : Client) (name : String) :
    c.snapshot.find? name = (c.overwrites.find? name).or (c.flagsInUse.find? name) :=
  Table.find?_union c.flagsInUse c.overwrites name

end Client

end FeatureFlags
