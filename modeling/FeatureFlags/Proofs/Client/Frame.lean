import FeatureFlags.Client
import FeatureFlags.Proofs.Contexts
import FeatureFlags.Proofs.Registry.Wiring

/-!
# What the parts of a client do

One equation for each part of a client that others are made of, so that what is proved of clients
need not open them.

* `Client.foldl_receive`   what the calls of its listeners do to a client;
* `Client.Occurrence`, `Client.live`   runs of a client on any connection, even one that changes
                           its flags without a word, or calls its listeners with changes that
                           never were;
* `Client.turnTo`          all changes of the context are this one: a context that is the same
                           changes nothing, another one is put in place and asked for;
* `Client.addContext_eq`, `Client.removeContext_eq`, `Client.follow_eq`   the ways it is reached;
* `Client.act_inward`      events that reach nobody outside;
* `Client.identified`      what was handed to the connection to identify.
-/

namespace FeatureFlags.Client

open Registry (others)

/-! ## calls of listeners -/

theorem receive_of_gone {c : Client} (h : c.gone = true) (call : Call Role) :
    c.receive call = c := by
  rw [receive, h, if_pos rfl]

theorem foldl_receive_of_gone {c : Client} (h : c.gone = true) (calls : List (Call Role)) :
    calls.foldl receive c = c := by
  induction calls with
  | nil => rfl
  | cons call calls ih => rw [List.foldl_cons, receive_of_gone h, ih]

/-- The registry hears the calls for the streams; for each of the others the flags of the connection
are taken over and published. -/
theorem foldl_receive {c : Client} (h : c.gone = false) (calls : List (Call Role)) :
    calls.foldl receive c =
      { c with
        flags := if (others calls).isEmpty then c.flags else c.connection.flags
        registry := c.registry.hear calls
        notices := c.notices ++
          (others calls).flatMap (fun _ => Notice.ofFlags c.connection.flags) } := by
  induction calls generalizing c with
  | nil =>
    show c = { c with notices := c.notices ++ [] }
    rw [List.append_nil]
  | cons call calls ih =>
    obtain ⟨role, changes⟩ := call
    cases role with
    | subscribers flag =>
      have hr : c.receive ⟨.subscribers flag, changes⟩ =
          { c with registry := c.registry.dispatch flag changes } := by
        rw [receive, h, if_neg Bool.false_ne_true]
      rw [List.foldl_cons, hr]
      exact ih (c := { c with registry := c.registry.dispatch flag changes }) h
    | other k =>
      have hr : c.receive ⟨.other k, changes⟩ = c.refresh := by
        rw [receive, h, if_neg Bool.false_ne_true]
      -- calls leave the connection alone, so each of them takes over the same flags
      rw [List.foldl_cons, hr, ih (c := c.refresh) h]
      show { c with
        flags := if (others calls).isEmpty then c.connection.flags else c.connection.flags
        registry := c.registry.hear calls
        notices := (c.notices ++ Notice.ofFlags c.connection.flags) ++
          (others calls).flatMap (fun _ => Notice.ofFlags c.connection.flags) } = _
      rw [ite_self, List.append_assoc]
      rfl

/-- The connection has other flags, and calls listeners. -/
def ring (c : Client) (flags : FlagSet) (calls : List (Call Role)) : Client :=
  calls.foldl receive { c with connection := { c.connection with flags } }

theorem arrive_eq_ring (c : Client) (flags : FlagSet) :
    c.arrive flags =
      c.ring flags (c.connection.listeners.calls (c.connection.flags.changesTo flags)) := rfl

theorem ring_of_gone {c : Client} (h : c.gone = true) (flags : FlagSet) (calls : List (Call Role)) :
    c.ring flags calls = { c with connection := { c.connection with flags } } :=
  foldl_receive_of_gone (c := { c with connection := { c.connection with flags } }) h calls

theorem ring_of_not_gone {c : Client} (h : c.gone = false) (flags : FlagSet)
    (calls : List (Call Role)) :
    c.ring flags calls =
      { c with
        connection := { c.connection with flags }
        flags := if (others calls).isEmpty then c.flags else flags
        registry := c.registry.hear calls
        notices := c.notices ++ (others calls).flatMap (fun _ => Notice.ofFlags flags) } :=
  foldl_receive (c := { c with connection := { c.connection with flags } }) h calls

/-- Its listeners make a client change its flags, its registry and what it published, no more. -/
theorem ring_frame (c : Client) (flags : FlagSet) (calls : List (Call Role)) :
    ∃ flags' registry notices, c.ring flags calls =
      { c with connection := { c.connection with flags }, flags := flags', registry, notices } := by
  by_cases h : c.gone = true
  · exact ⟨_, _, _, ring_of_gone h flags calls⟩
  · exact ⟨_, _, _, ring_of_not_gone (Bool.eq_false_iff.mpr h) flags calls⟩

/-! ## any connection -/

inductive Occurrence where
  | event (e : Event)
  /-- the connection has other flags, and calls listeners of its choice with any changes -/
  | stir (flags : FlagSet) (calls : List (ListenerId × List Change))

/-- the calls whose listeners there are -/
def reached (ls : ListenerSet Role) (calls : List (ListenerId × List Change)) : List (Call Role) :=
  calls.filterMap (fun p =>
    (ls.listeners.find? (fun l => l.id = p.1)).map (fun l => ⟨l.role, p.2⟩))

def undergo (c : Client) : Occurrence → Client
  | .event e => c.step e
  | .stir flags calls => c.ring flags (reached c.connection.listeners calls)

def live (c : Client) (os : List Occurrence) : Client := os.foldl undergo c

theorem live_nil (c : Client) : c.live [] = c := rfl
theorem live_cons (c : Client) (o : Occurrence) (os : List Occurrence) :
    c.live (o :: os) = (c.undergo o).live os := rfl

theorem run_eq_live (c : Client) (es : List Event) : c.run es = c.live (es.map .event) := by
  rw [live, List.foldl_map]
  rfl

/-! ## changes of the context -/

theorem schedule_fst (c : Client) :
    c.schedule.1 =
      { c with
        requests :=
          if c.lifecycle = .failed ∨ c.worker = .stopped then c.requests
          else c.requests ++ [c.context] } := by
  rw [schedule]
  by_cases hf : c.lifecycle = .failed
  · rw [if_pos hf, if_pos (.inl hf)]
  · rw [if_neg hf]
    by_cases hw : c.worker = .stopped
    · rw [if_pos hw, if_pos (.inr hw)]
    · rw [if_neg hw, if_neg fun h => h.elim hf hw]

theorem schedule_snd (c : Client) :
    c.schedule.2 = !decide (c.lifecycle = .failed ∨ c.worker = .stopped) := by
  rw [schedule]
  by_cases hf : c.lifecycle = .failed
  · rw [if_pos hf, decide_eq_true (.inl hf)]
    rfl
  · rw [if_neg hf]
    by_cases hw : c.worker = .stopped
    · rw [if_pos hw, decide_eq_true (.inr hw)]
      rfl
    · rw [if_neg hw, decide_eq_false fun h => h.elim hf hw]
      rfl

/-- Puts a context in place and asks for it, unless it is the same. -/
def turnTo (c : Client) (context : Context) : Client × Bool :=
  if context == c.context then (c, false) else schedule { c with context }

theorem turnTo_of_same {c : Client} {context : Context} (h : (context == c.context) = true) :
    c.turnTo context = (c, false) := by
  rw [turnTo, if_pos h]

theorem turnTo_of_other {c : Client} {context : Context} (h : (context == c.context) = false) :
    c.turnTo context = schedule { c with context } := by
  rw [turnTo, h, if_neg Bool.false_ne_true]

/-- Only context and requests change. -/
theorem turnTo_fst (c : Client) (context : Context) :
    ∃ context' requests, (c.turnTo context).1 = { c with context := context', requests } := by
  by_cases h : (context == c.context) = true
  · rw [turnTo_of_same h]
    exact ⟨_, _, rfl⟩
  · rw [turnTo_of_other (Bool.eq_false_iff.mpr h), schedule_fst]
    exact ⟨_, _, rfl⟩

/-- the context that an application asks for with a sub-context more -/
def extended (context : Context) (kind key : String) : Context :=
  if context.key? kind = some key then context else context.insert (.keyed kind key)

/-- the context that an application asks for with a sub-context less -/
def reduced (context : Context) (kind : String) : Context :=
  match context.get? kind with
  | none => context
  | some _ => (context.erase? kind).getD context

theorem addContext_eq (c : Client) (kind key : String) :
    c.addContext kind key = c.turnTo (extended c.context kind key) := by
  rw [addContext, extended]
  by_cases h : c.context.key? kind = some key
  · rw [if_pos h, if_pos h, turnTo_of_same (Context.same_refl _)]
  · rw [if_neg h, if_neg h, turnTo_of_other (Context.insert_keyed_not_same h)]

theorem removeContext_eq (c : Client) (kind : String) :
    c.removeContext kind = c.turnTo (reduced c.context kind) := by
  rw [removeContext, reduced]
  cases hg : c.context.get? kind with
  | none => exact (turnTo_of_same (Context.same_refl _)).symm
  | some s =>
    cases he : c.context.erase? kind with
    | none => exact (turnTo_of_same (Context.same_refl _)).symm
    | some context =>
      have hn : c.context.get? kind ≠ none := hg ▸ Option.some_ne_none s
      exact (turnTo_of_other (Context.erase?_not_same he hn)).symm

theorem follow_eq (c : Client) (next : Identity) :
    c.follow next =
      (turnTo { c with followed := next } (updated c.context c.followed next)).1 := by
  rw [follow, turnTo]
  split <;> rfl

/-- An identity that was published changes the context at most. -/
theorem watch_frame (c : Client) :
    ∃ context requests followed inbox,
      c.watch = { c with context, requests, followed, inbox } := by
  rw [watch]
  cases c.inbox with
  | none => exact ⟨_, _, _, _, rfl⟩
  | some next =>
    show ∃ _ _ _ _, (if c.following ∧ ¬ c.gone then _ else _) = _
    split
    · rw [follow_eq]
      obtain ⟨_, _, h⟩ := turnTo_fst { c with inbox := none, followed := next }
        (updated c.context c.followed next)
      exact ⟨_, _, _, _, h⟩
    · exact ⟨_, _, _, _, rfl⟩

/-- The worker takes a request at most, and hands it to the connection. -/
theorem work_frame (c : Client) :
    ∃ requests worker moves, c.work = { c with requests, worker, moves } := by
  rw [work]
  split
  · split
    · exact ⟨_, _, _, rfl⟩
    · split <;> exact ⟨_, _, _, rfl⟩
  · exact ⟨_, _, _, rfl⟩

/-! ## events that reach nobody -/

/-- events that change neither what a client shows nor what it knows of its connection -/
def Event.inward : Event → Bool
  | .addContext _ _ => true
  | .removeContext _ => true
  | .release => true
  | .publish _ => true
  | .work => true
  | .stopWorker => true
  | .watch => true
  | .stopWatcher => true
  | _ => false

theorem act_inward (c : Client) {e : Event} (he : e.inward = true) :
    ∃ context requests followed inbox following held worker moves, c.act e =
      { c with context, requests, followed, inbox, following, held, worker, moves } := by
  cases e with
  | addContext kind key =>
    obtain ⟨_, _, h⟩ := turnTo_fst c (extended c.context kind key)
    rw [act, addContext_eq, h]
    exact ⟨_, _, _, _, _, _, _, _, rfl⟩
  | removeContext kind =>
    obtain ⟨_, _, h⟩ := turnTo_fst c (reduced c.context kind)
    rw [act, removeContext_eq, h]
    exact ⟨_, _, _, _, _, _, _, _, rfl⟩
  | release => exact ⟨_, _, _, _, _, _, _, _, rfl⟩
  | publish identity => exact ⟨_, _, _, _, _, _, _, _, rfl⟩
  | work =>
    obtain ⟨_, _, _, h⟩ := work_frame c
    rw [act, h]
    exact ⟨_, _, _, _, _, _, _, _, rfl⟩
  | stopWorker =>
    rw [act, stopWorker]
    split <;> exact ⟨_, _, _, _, _, _, _, _, rfl⟩
  | watch =>
    obtain ⟨_, _, _, _, h⟩ := watch_frame c
    rw [act, h]
    exact ⟨_, _, _, _, _, _, _, _, rfl⟩
  | stopWatcher => exact ⟨_, _, _, _, _, _, _, _, rfl⟩
  | _ => cases he

/-! ## answers -/

theorem answered_of_not_busy {c : Client} (h : c.worker ≠ .busy)
    (answer : Except BackendError FlagSet) : c.answered answer = c := by
  rw [answered]
  cases hw : c.worker with
  | busy => exact absurd hw h
  | idle => rfl
  | stopped => rfl

/-- A success leaves the flags of the answer, whatever the listeners made of it. -/
theorem answered_ok {c : Client} (h : c.worker = .busy) (flags : FlagSet) :
    c.answered (.ok flags) =
      if (arrive { c with worker := .idle } flags).lifecycle = .initialized then
        publish { arrive { c with worker := .idle } flags with flags }
      else { arrive { c with worker := .idle } flags with flags } := by
  rw [answered, h]

/-- An answer frees the worker, and leaves context, requests and moves alone. -/
theorem answered_frame {c : Client} (h : c.worker = .busy)
    (answer : Except BackendError FlagSet) :
    ∃ connection flags registry notices, c.answered answer =
      { c with worker := .idle, connection, flags, registry, notices } := by
  cases answer with
  | error e => exact ⟨_, _, _, _, answered_error h e⟩
  | ok flags =>
    obtain ⟨_, _, _, hr⟩ := ring_frame { c with worker := .idle } flags
      (c.connection.listeners.calls (c.connection.flags.changesTo flags))
    have ha : arrive { c with worker := .idle } flags = _ := hr
    rw [answered_ok h, ha]
    split <;> exact ⟨_, _, _, _, rfl⟩

/-! ## the end -/

theorem cancelled_shutdown (c : Client) : c.shutdown.cancelled = true := by
  rw [shutdown]
  split
  next hc => exact hc
  next => rfl

/-- By what it does no event makes a client go, and only the shutdown shuts it down. -/
theorem ends_act (c : Client) (e : Event) :
    (c.act e).gone = c.gone ∧ (e ≠ .shutdown → (c.act e).cancelled = c.cancelled) := by
  by_cases hi : e.inward = true
  · obtain ⟨_, _, _, _, _, _, _, _, h⟩ := act_inward c hi
    rw [h]
    exact ⟨rfl, fun _ => rfl⟩
  · cases e with
    | subscribe flag => exact ⟨rfl, fun _ => rfl⟩
    | unsubscribe id => exact ⟨rfl, fun _ => rfl⟩
    | take id => exact ⟨rfl, fun _ => rfl⟩
    | shutdown =>
      refine ⟨?_, fun he => absurd rfl he⟩
      rw [act, shutdown]
      split <;> rfl
    | arrive flags =>
      obtain ⟨_, _, _, h⟩ := ring_frame c flags
        (c.connection.listeners.calls (c.connection.flags.changesTo flags))
      rw [act, arrive_eq_ring, h]
      exact ⟨rfl, fun _ => rfl⟩
    | answered answer =>
      rw [act]
      by_cases hw : c.worker = .busy
      · obtain ⟨_, _, _, _, h⟩ := answered_frame hw answer
        rw [h]
        exact ⟨rfl, fun _ => rfl⟩
      · rw [answered_of_not_busy hw]
        exact ⟨rfl, fun _ => rfl⟩
    | settle o =>
      rw [act, settle]
      split
      · cases o <;> exact ⟨rfl, fun _ => rfl⟩
      · exact ⟨rfl, fun _ => rfl⟩
    | _ => exact absurd rfl hi

/-- A client that is gone stays so. -/
theorem gone_step {c : Client} (h : c.gone = true) (e : Event) : (c.step e).gone = true := by
  rw [step, retire, (ends_act c e).1, h, Bool.or_true, if_pos rfl]
  exact (ends_act c e).1.trans h

/-! ## what is handed to the connection -/

/-- The worker leaves the requests of a client that is gone alone. -/
theorem work_of_gone {c : Client} (h : c.gone = true) : c.work = c := by
  rw [work]
  split
  · rw [if_pos h]
  · rfl

/-- The worker drops a request if the client failed. -/
theorem work_of_failed {c : Client} (hf : c.lifecycle = .failed) (hw : c.worker = .idle)
    (hg : c.gone = false) {context : Context} {rest : List Context}
    (hr : c.requests = context :: rest) : c.work = { c with requests := rest } := by
  rw [work, hw, hr]
  show (if c.gone then _ else _) = _
  rw [hg, if_neg Bool.false_ne_true, if_pos hf]

/-- As long as it is busy the worker refers to the client, which so does not go. -/
theorem step_work_of_not_failed {c : Client} (hf : c.lifecycle ≠ .failed) (hw : c.worker = .idle)
    (hg : c.gone = false) {context : Context} {rest : List Context}
    (hr : c.requests = context :: rest) :
    c.step .work =
      { c with requests := rest, worker := .busy, moves := c.moves ++ [.identified context] } := by
  have hwork : c.work = { c with
      requests := rest, worker := .busy, moves := c.moves ++ [.identified context] } := by
    rw [work, hw, hr]
    show (if c.gone then _ else _) = _
    rw [hg, if_neg Bool.false_ne_true, if_neg hf]
  show c.work.retire = _
  rw [hwork, retire_of_alive]
  rw [alive, decide_eq_true rfl, Bool.or_true]

def Move.identified? : Move → Option Context
  | .identified context => some context
  | _ => none

/-- the contexts that were handed to the connection to identify, the first one first -/
def identified (c : Client) : List Context := c.moves.filterMap Move.identified?

/-- all contexts that were handed to the connection -/
def given (c : Client) : List Context := c.moves.filterMap Move.context?

/-- Nothing is done with the connection, unless it is closed. -/
def Untold (c d : Client) : Prop := d.moves = c.moves ∨ d.moves = c.moves ++ [.closed]

theorem Untold.identified_eq {c d : Client} (h : Untold c d) : d.identified = c.identified := by
  rcases h with h | h
  · rw [identified, h]
    rfl
  · rw [identified, h, List.filterMap_append]
    exact List.append_nil _

theorem Untold.given_eq {c d : Client} (h : Untold c d) : d.given = c.given := by
  rcases h with h | h
  · rw [given, h]
    rfl
  · rw [given, h, List.filterMap_append]
    exact List.append_nil _

/-- Only the worker identifies. -/
theorem untold_act (c : Client) {e : Event} (he : e ≠ .work) : Untold c (c.act e) := by
  cases e with
  | addContext kind key =>
    obtain ⟨_, _, h⟩ := turnTo_fst c (extended c.context kind key)
    rw [act, addContext_eq, h]
    exact .inl rfl
  | removeContext kind =>
    obtain ⟨_, _, h⟩ := turnTo_fst c (reduced c.context kind)
    rw [act, removeContext_eq, h]
    exact .inl rfl
  | shutdown =>
    rw [act, shutdown]
    split
    · exact .inl rfl
    · exact .inr rfl
  | arrive flags =>
    obtain ⟨_, _, _, h⟩ := ring_frame c flags
      (c.connection.listeners.calls (c.connection.flags.changesTo flags))
    rw [act, arrive_eq_ring, h]
    exact .inl rfl
  | answered answer =>
    rw [act]
    by_cases hw : c.worker = .busy
    · obtain ⟨_, _, _, _, h⟩ := answered_frame hw answer
      rw [h]
      exact .inl rfl
    · rw [answered_of_not_busy hw]
      exact .inl rfl
  | settle o =>
    rw [act, settle]
    split
    · cases o <;> exact .inl rfl
    · exact .inl rfl
  | work => exact absurd rfl he
  | stopWorker =>
    rw [act, stopWorker]
    split <;> exact .inl rfl
  | watch =>
    obtain ⟨_, _, _, _, h⟩ := watch_frame c
    rw [act, h]
    exact .inl rfl
  | _ => exact .inl rfl

theorem untold_retire (c : Client) : Untold c c.retire := by
  rw [retire]
  split
  · exact .inl rfl
  · exact .inr rfl

end FeatureFlags.Client
