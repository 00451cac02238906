import FeatureFlags.Proofs.Client.Mirror
import FeatureFlags.Session

/-!
# Sessions in process

A session on a service in process, while definitions are added, replaced and removed, its
application and its identity provider do what they like, and its tasks go on, in any order.

* `Session.Turn`, `Session.play`   runs;
* `Session.Proceeds`      what a task can do to a session;
* `Session.defined`       the definitions after a run, read off the turns alone;
* `Session.Faithful`      definitions, seat, feed and client of a session agree;
* `Session.flags_follow_definitions`   a client that is up to date serves every definition,
                          evaluated for its own context.
-/

namespace FeatureFlags

/-! ## definitions -/

namespace Definitions

/-- Every definition is kept under its own key. -/
def Keyed (ds : Definitions) : Prop := ∀ key d, ds.find? key = some d → d.key = key

theorem Keyed.insert {ds : Definitions} (h : Keyed ds) (d : Definition) :
    Keyed (ds.insert d.key d) := by
  intro key e he
  rw [Table.find?_insert] at he
  split at he
  next hk =>
    cases he
    exact hk
  next => exact h key e he

theorem Keyed.erase {ds : Definitions} (h : Keyed ds) (key : String) : Keyed (ds.erase key) := by
  intro k e he
  rw [Table.find?_erase] at he
  split at he
  next => cases he
  next => exact h k e he

theorem keyed_ofList (ds : List Definition) : Keyed (ofList ds) := by
  suffices ∀ acc : Definitions, Keyed acc →
      ∀ key d, Entries.find? key
        ((ds.map (fun d => (d.key, d))).foldl (fun acc e => Entries.put e.1 e.2 acc) acc.entries) =
          some d → d.key = key from this {} nofun
  induction ds with
  | nil => exact fun acc h => h
  | cons d ds ih => exact fun acc h => ih (acc.insert d.key d) (h.insert d)

end Definitions

namespace Session

/-! ## runs -/

/-- What the application and its identity provider do. -/
inductive Operation where
  | addContext (kind key : String)
  | removeContext (kind : String)
  | publish (identity : Identity)
  | subscribe (flag : String)
  | unsubscribe (id : StreamId)
  | take (id : StreamId)
  | shutdown
  | release

def Operation.event : Operation → Client.Event
  | addContext kind key => .addContext kind key
  | removeContext kind => .removeContext kind
  | publish identity => .publish identity
  | subscribe flag => .subscribe flag
  | unsubscribe id => .unsubscribe id
  | take id => .take id
  | shutdown => .shutdown
  | release => .release

inductive Turn where
  | upsert (d : Definition)
  | removeFlag (key : String)
  | operate (o : Operation)
  /-- a task goes on, if it can -/
  | task (t : Task)

def turn (s : Session) : Turn → Session
  | .upsert d => s.redefine (fun ds => ds.insert d.key d)
  | .removeFlag key => s.redefine (fun ds => ds.erase key)
  | .operate o => s.apply o.event
  | .task t => (s.proceed? t).getD s

/-- The worker takes the first request that waits if it has nothing under way. -/
theorem take?_cases (s : Session) :
    s.take? = none ∨ ∃ context rest, s.client.worker = .idle ∧
      s.client.requests = context :: rest ∧ s.take? = some (s.identify context) := by
  rw [take?]
  cases s.client.worker with
  | idle =>
    cases s.client.requests with
    | nil => exact .inl rfl
    | cons context rest => exact .inr ⟨context, rest, rfl, rfl, rfl⟩
  | busy => exact .inl rfl
  | stopped => exact .inl rfl

theorem follow?_cases (s : Session) :
    s.follow? = none ∨ s.client.following = true ∧ s.follow? = some (s.apply .watch) := by
  rw [follow?]
  split
  next hf =>
    cases s.client.inbox with
    | none => exact .inl rfl
    | some next => exact .inr ⟨hf, rfl⟩
  next => exact .inl rfl

/-- What becomes of a session when a task goes on, or cannot. -/
inductive Proceeds (s : Session) : Session → Prop
  | stays : Proceeds s s
  | fetches {side : Side} (h : s.side.fetch? s.now = some side) : Proceeds s { s with side }
  | acts {e : Client.Event} (harr : ∀ flags, e ≠ .arrive flags)
      (hans : ∀ answer, e ≠ .answered answer) (hwork : e ≠ .work) : Proceeds s (s.apply e)
  | identifies {context : Context} {rest : List Context} (hw : s.client.worker = .idle)
      (hr : s.client.requests = context :: rest) (hc : s.client.cancelled = false) :
      Proceeds s (s.identify context)
  | lands {r : Side × List Client.Event} (h : s.side.land? s.now = some r) :
      Proceeds s ({ s with side := r.1 }.applyAll r.2)

theorem proceeds (s : Session) (t : Task) : s.Proceeds ((s.proceed? t).getD s) := by
  cases t with
  | fetch =>
    show s.Proceeds (s.fetch?.getD s)
    rw [fetch?]
    cases hf : s.side.fetch? s.now with
    | none => exact .stays
    | some side => exact .fetches hf
  | race =>
    show s.Proceeds (s.race?.getD s)
    rw [race?]
    split
    · cases s.outcome? with
      | none => exact .stays
      | some o => exact .acts nofun nofun nofun
    · exact .stays
  | work =>
    show s.Proceeds (s.work?.getD s)
    rw [work?]
    split
    next hw =>
      by_cases hc : s.client.cancelled = true
      · rw [if_pos hc]
        exact .acts nofun nofun nofun
      · rw [if_neg hc]
        rcases s.take?_cases with ht | ⟨context, rest, -, hr, ht⟩
        · rw [ht]
          exact .stays
        · rw [ht]
          exact .identifies hw hr (Bool.eq_false_iff.mpr hc)
    next => exact .stays
  | watch =>
    show s.Proceeds (s.watch?.getD s)
    rw [watch?]
    split
    · split
      · exact .acts nofun nofun nofun
      · rcases s.follow?_cases with hf | ⟨-, hf⟩
        · rw [hf]
          exact .stays
        · rw [hf]
          exact .acts nofun nofun nofun
    · exact .stays
  | land =>
    show s.Proceeds (s.land?.getD s)
    rw [land?]
    cases hl : s.side.land? s.now with
    | none => exact .stays
    | some r => exact .lands hl

def play (s : Session) (turns : List Turn) : Session := turns.foldl turn s

/-- what a turn makes of the definitions -/
def Turn.define (ds : Definitions) : Turn → Definitions
  | .upsert d => ds.insert d.key d
  | .removeFlag key => ds.erase key
  | _ => ds

/-- the definitions after some turns -/
def defined (ds : Definitions) (turns : List Turn) : Definitions := turns.foldl Turn.define ds

theorem play_nil (s : Session) : s.play [] = s := rfl
theorem play_cons (s : Session) (t : Turn) (ts : List Turn) :
    s.play (t :: ts) = (s.turn t).play ts := rfl
theorem defined_nil (ds : Definitions) : defined ds [] = ds := rfl
theorem defined_cons (ds : Definitions) (t : Turn) (ts : List Turn) :
    defined ds (t :: ts) = defined (t.define ds) ts := rfl

theorem keyed_defined {ds : Definitions} (h : ds.Keyed) (turns : List Turn) :
    (defined ds turns).Keyed := by
  induction turns generalizing ds with
  | nil => exact h
  | cons t ts ih =>
    refine ih ?_
    cases t with
    | upsert d => exact h.insert d
    | removeFlag key => exact h.erase key
    | operate o => exact h
    | task t => exact h

/-! ## the invariant -/

/-- The client of a session is in order: its worker stays as long as it does, the end of its wait
made it what it is, and its flags are those of its connection. -/
structure Sound (c : Client) : Prop where
  manned : Client.Manned c
  raced : ∃ d, Client.Raced c d
  synced : c.cancelled = false → Client.Synced c

theorem Sound.step {c : Client} (h : Sound c) (e : Client.Event) : Sound (c.step e) := by
  obtain ⟨d, hr⟩ := h.raced
  exact ⟨h.manned.undergo (.event e), ⟨_, hr.undergo (.event e)⟩,
    .step h.manned hr h.synced e⟩

/-- Of the context of the seat and those that wait, the last is that of the client. -/
def Asked (seat : Memory.Seat) (c : Client) : Prop :=
  c.cancelled = false → c.lifecycle ≠ .failed →
    (seat.context :: c.requests).getLast? = some c.context

/-- Definitions, seat, feed and client of a session agree. -/
structure Faithful (ds : Definitions) (s : Session) (seat : Memory.Seat) : Prop where
  side_eq : s.side = .memory ds seat
  flags_eq : s.client.connection.flags = seat.flags ds
  closed : s.client.cancelled = false → seat.closed = false
  asked : Asked seat s.client
  sound : Sound s.client
  idle : s.client.worker ≠ .busy

/-- An event leaves a session in order if the connection has the flags of its seat after it. -/
theorem Faithful.of_apply {ds : Definitions} {s : Session} {seat : Memory.Seat} {e : Client.Event}
    (hside : s.side = .memory ds seat) (hclosed : s.client.cancelled = false → seat.closed = false)
    (hsound : Sound s.client) (hflags : (s.client.act e).connection.flags = seat.flags ds)
    (hasked : Asked seat (s.client.step e)) (hidle : (s.client.step e).worker ≠ .busy) :
    ∃ t, Faithful ds (s.apply e) t := by
  have hfeed : (s.client.step e).connection.flags = seat.flags ds :=
    (Client.flags_connection_retire _).trans hflags
  -- a connection that is closed keeps its context, and so its flags stay those of its seat
  by_cases hc : (s.client.step e).cancelled = true
  · have hs : s.side.close s.now = .memory ds seat.close := by rw [hside]; rfl
    refine ⟨seat.close, ?_, hfeed, ?_, hasked, hsound.step e, hidle⟩
    · show (if _ then _ else _ : Side) = _
      rw [if_pos hc, hs]
    · intro hn
      have := hc.symm.trans hn
      cases this
  · refine ⟨seat, ?_, hfeed, fun _ => ?_, hasked, hsound.step e, hidle⟩
    · show (if _ then _ else _ : Side) = _
      rw [if_neg hc, hside]
    · have hk := Client.kept_undergo s.client (.event e)
      exact hclosed (hk.not_cancelled (Bool.eq_false_iff.mpr hc))

/-- What is asked for stays in line with the context, whoever changes it. -/
theorem Asked.step {seat : Memory.Seat} {c : Client} (h : Asked seat c) (hs : Sound c)
    {e : Client.Event} (he : e ≠ .work) : Asked seat (c.step e) := by
  intro hc hf
  obtain ⟨d, hr⟩ := hs.raced
  have hc' : c.cancelled = false := (Client.kept_undergo c (.event e)).not_cancelled hc
  have hf' : c.lifecycle ≠ .failed := by
    intro hn
    exact hf ((hr.lifecycle_undergo (by rw [hn]; nofun) (.event e)).trans hn)
  have hi : (c.step e).identified = c.identified :=
    (Client.untold_retire _).identified_eq.trans (Client.untold_act c he).identified_eq
  have ht : Client.Turned c (c.step e) := Client.turned_undergo hs.manned hf' (.event e) hc
  rw [Client.Turned, Client.line, Client.line, hi] at ht
  rcases ht with ⟨hctx, hl⟩ | ⟨-, hl⟩
  · rw [List.append_cancel_left hl, hctx]
    exact h hc' hf'
  · rw [List.append_assoc] at hl
    rw [List.append_cancel_left hl, ← List.cons_append, List.getLast?_concat]

namespace Faithful

variable {ds : Definitions} {s : Session} {seat : Memory.Seat}

/-- What does not come from the connection leaves its flags alone. -/
theorem apply (h : Faithful ds s seat) {e : Client.Event} (harr : ∀ flags, e ≠ .arrive flags)
    (hans : ∀ answer, e ≠ .answered answer) (hwork : e ≠ .work) :
    ∃ t, Faithful ds (s.apply e) t :=
  of_apply h.side_eq h.closed h.sound ((Client.flags_connection_act _ harr hans).trans h.flags_eq)
    (h.asked.step h.sound hwork) (fun hb => h.idle (Client.busy_step hwork hb))

theorem operate (h : Faithful ds s seat) (o : Operation) :
    ∃ t, Faithful ds (s.apply o.event) t := by
  cases o <;> exact h.apply nofun nofun nofun

/-- Other definitions reach the connection at once. -/
theorem redefine (h : Faithful ds s seat) (change : Definitions → Definitions) :
    ∃ t, Faithful (change ds) (s.redefine change) t := by
  rw [Session.redefine, h.side_eq]
  refine of_apply rfl h.closed h.sound (Client.flags_connection_arrive _ _)
    (h.asked.step h.sound nofun) (fun hb => h.idle ?_)
  exact Client.busy_step (c := s.client) (e := .arrive _) nofun hb

/-- An answer that is there at once is taken at once. -/
theorem answer (hside : s.side = .memory ds seat) (hs : Sound s.client)
    (ha : Asked seat s.client) (hb : s.client.worker = .busy) (hclosed : seat.closed = false) :
    ∃ t, Faithful ds (s.apply (.answered (.ok (seat.flags ds)))) t := by
  have hidle := s.client.idle_of_answered (.ok (seat.flags ds))
  exact of_apply hside (fun _ => hclosed) hs (Client.flags_connection_answered hb _)
    (ha.step hs nofun) hidle

/-- If the client failed the worker drops the request. -/
theorem identify_of_failed (h : Faithful ds s seat) (hf : s.client.lifecycle = .failed)
    {context : Context} {rest : List Context} (hw : s.client.worker = .idle)
    (hr : s.client.requests = context :: rest) (hc : s.client.cancelled = false) :
    ∃ t, Faithful ds (s.identify context) t := by
  have hwork := Client.work_of_failed hf hw (h.sound.manned.not_gone hc) hr
  have hidle : (s.client.step .work).worker ≠ .busy := by
    intro hb
    have hb : s.client.work.worker = .busy := (Client.Still.retire _).busy hb
    rw [hwork] at hb
    exact h.idle hb
  have hi : s.identify context = s.apply .work := by
    rw [Session.identify]
    split
    next hb => exact absurd hb hidle
    next => rfl
  have hflags := Client.flags_connection_act s.client (e := .work) nofun nofun
  rw [hi]
  refine of_apply h.side_eq h.closed h.sound (hflags.trans h.flags_eq) (fun _ hn => ?_) hidle
  obtain ⟨d, hr⟩ := h.sound.raced
  exact absurd ((hr.lifecycle_undergo (by rw [hf]; nofun) (.event .work)).trans hf) hn

/-- Otherwise the seat takes the context, and answers with its flags. -/
theorem identify_eq (h : Faithful ds s seat) (hf : s.client.lifecycle ≠ .failed)
    {context : Context} {rest : List Context} (hw : s.client.worker = .idle)
    (hr : s.client.requests = context :: rest) (hc : s.client.cancelled = false) :
    s.identify context =
      { s with client := s.client.step .work, side := .memory ds { seat with context } }.apply
        (.answered (.ok (({ seat with context }).flags ds))) := by
  have hwork := Client.step_work_of_not_failed hf hw (h.sound.manned.not_gone hc) hr
  have happly : s.apply .work = { s with client := s.client.step .work } := by
    show { s with client := s.client.step .work, side := _ } = _
    rw [hwork, hc]
    rfl
  have hseat : seat.identify context = .ok { seat with context } := by
    rw [Memory.Seat.identify, h.closed hc]
    rfl
  have hside : s.side.identify s.now s.client.connection.flags context =
      (.memory ds { seat with context }, some (.ok (({ seat with context }).flags ds))) := by
    rw [h.side_eq, Side.identify, hseat]
  rw [Session.identify, happly, hwork]
  show Session.applyAll { s with client := _, side := (s.side.identify _ _ _).1 } _ = _
  rw [hside]
  rfl

theorem identify (h : Faithful ds s seat) {context : Context} {rest : List Context}
    (hw : s.client.worker = .idle) (hr : s.client.requests = context :: rest)
    (hc : s.client.cancelled = false) : ∃ t, Faithful ds (s.identify context) t := by
  by_cases hf : s.client.lifecycle = .failed
  · exact h.identify_of_failed hf hw hr hc
  · have hwork := Client.step_work_of_not_failed hf hw (h.sound.manned.not_gone hc) hr
    have hasked : Asked { seat with context } (s.client.step .work) := by
      rw [hwork]
      intro _ _
      have := h.asked hc hf
      rw [hr, List.getLast?_cons_cons] at this
      exact this
    rw [h.identify_eq hf hw hr hc]
    exact answer rfl (h.sound.step .work) hasked (by rw [hwork]) (h.closed hc)

/-- A service in process has nothing to fetch, and its answers do not travel. -/
theorem proceeds (h : Faithful ds s seat) {t : Session} (ht : s.Proceeds t) :
    ∃ u, Faithful ds t u := by
  cases ht with
  | stays => exact ⟨seat, h⟩
  | fetches hf =>
    rw [h.side_eq] at hf
    cases hf
  | acts harr hans hwork => exact h.apply harr hans hwork
  | identifies hw hr hc => exact h.identify hw hr hc
  | lands hl =>
    rw [h.side_eq] at hl
    cases hl

theorem turn (h : Faithful ds s seat) (t : Turn) : ∃ u, Faithful (t.define ds) (s.turn t) u := by
  cases t with
  | upsert d => exact h.redefine (fun ds => ds.insert d.key d)
  | removeFlag key => exact h.redefine (fun ds => ds.erase key)
  | operate o => exact h.operate o
  | task t => exact h.proceeds (s.proceeds t)

theorem play (h : Faithful ds s seat) (turns : List Turn) :
    ∃ u, Faithful (defined ds turns) (s.play turns) u := by
  induction turns generalizing ds s seat with
  | nil =>
    rw [defined_nil, play_nil]
    exact ⟨seat, h⟩
  | cons t ts ih =>
    obtain ⟨u, hu⟩ := h.turn t
    rw [defined_cons, play_cons]
    exact ih hu

theorem start (ds : List Definition) (options : Client.Options) (patience : Nat)
    (identity : Identity) :
    Faithful (.ofList ds) (Session.start (.memory ds) options patience identity)
      (.new options.key identity.context) :=
  ⟨rfl, rfl, fun _ => rfl, fun _ _ => rfl,
    ⟨⟨nofun, nofun⟩, ⟨none, .start _ _ _ _⟩, fun _ => .start _ _ _ _⟩, nofun⟩

/-- A client that is up to date has the values of its own context. -/
theorem flags_same (h : Faithful ds s seat) (hi : s.client.lifecycle = .initialized)
    (hc : s.client.cancelled = false) (hr : s.client.requests = []) :
    s.client.flagsInUse.same (ds.flagSet s.client.context) = true := by
  have hf : s.client.lifecycle ≠ .failed := by
    rw [hi]
    nofun
  have hctx : seat.context = s.client.context := by
    have := h.asked hc hf
    rw [hr, List.getLast?_singleton] at this
    exact Option.some.inj this
  have hs := (h.sound.synced hc).flags_same hi
  rw [h.flags_eq] at hs
  rw [Client.flagsInUse_of_initialized hi, ← hctx]
  exact hs

end Faithful

/-! ## the flags that are served -/

/-- **In process, a client that is initialized, not shut down and has nothing left to identify
serves one value for each definition that there is: the one that the definition has in the context
of the client.** -/
theorem flags_follow_definitions (ds : List Definition) (options : Client.Options) (patience : Nat)
    (identity : Identity) (turns : List Turn)
    (hi : ((start (.memory ds) options patience identity).play turns).client.lifecycle =
      .initialized)
    (hc : ((start (.memory ds) options patience identity).play turns).client.cancelled = false)
    (hr : ((start (.memory ds) options patience identity).play turns).client.requests = []) :
    let s := (start (.memory ds) options patience identity).play turns
    let current := defined (.ofList ds) turns
    s.client.flagsInUse.names = current.names ∧
      ∀ key d, current.find? key = some d → d.key = key ∧
        ∃ v, s.client.flagsInUse.find? key = some v ∧
          (v == (d.evaluate s.client.context).value) = true := by
  intro s current
  obtain ⟨seat, h⟩ := (Faithful.start ds options patience identity).play turns
  have hs := h.flags_same hi hc hr
  have hk : current.Keyed := keyed_defined (Definitions.keyed_ofList ds) turns
  refine ⟨?_, fun key d hd => ⟨hk key d hd, ?_⟩⟩
  · rw [FlagSet.names_eq_of_same hs]
    exact Table.names_map _ current
  · have hu := (FlagSet.same_iff_unchanged _ _).mp hs key
    rw [Definitions.flagSet, Table.find?_map, show (defined _ turns).find? key = _ from hd] at hu
    exact FlagSet.unchanged_some_iff.mp hu

/-- a workspace that is selected, and a flag that is added before the worker follows it -/
def workspaceTurns : List Turn :=
  [.task .race, .operate (.addContext "workspace" "w1"), .upsert (.shared "beta" 50), .task .work]

theorem flags_of_workspace :
    let begun := start (.memory [.shared "alpha" 100]) ⟨"key", {}⟩ 1000 (.anonymous "en")
    let s := begun.play workspaceTurns
    s.client.lifecycle = .initialized ∧ s.client.cancelled = false ∧ s.client.requests = [] ∧
      s.client.flagsInUse.names =
        (defined (.ofList [.shared "alpha" 100]) workspaceTurns).names := by
  have hi : ((start (.memory [.shared "alpha" 100]) ⟨"key", {}⟩ 1000 (.anonymous "en")).play
      workspaceTurns).client.lifecycle = .initialized := by decide +kernel
  have hc : ((start (.memory [.shared "alpha" 100]) ⟨"key", {}⟩ 1000 (.anonymous "en")).play
      workspaceTurns).client.cancelled = false := by decide +kernel
  have hr : ((start (.memory [.shared "alpha" 100]) ⟨"key", {}⟩ 1000 (.anonymous "en")).play
      workspaceTurns).client.requests = [] := List.isEmpty_iff.mp (by decide +kernel)
  exact ⟨hi, hc, hr, (flags_follow_definitions _ _ _ _ _ hi hc hr).1⟩

end Session

end FeatureFlags
