import FeatureFlags.Proofs.Session.Progress
import FeatureFlags.Proofs.Session.Shutdown

/-!
# Identifies that fail

An identify that fails leaves no trace: not when it begins, though its connection turns to another
context then, and not when it ends.  What waits behind it takes its turn as if it had succeeded.

* `Client.Event.fruitless`   what happens to a client by an identify that brings no flags;
* `Client.reports`           the changes that a connection reports during a run;
* `Client.Undisturbed`       nothing that can be read, published or streamed is different;
* `Client.undisturbed_run`   fruitless events disturb nothing, whatever the client is like;
* `Client.line_run_of_fruitless`   the requests stay in their line;
* `Session.failed_identify`  so last known flags are kept and no request behind is lost.
-/

namespace FeatureFlags

namespace Client

/-! ## one event -/

/-- An identify begins, or fails. -/
def Event.fruitless : Event → Bool
  | work => true
  | answered (.error _) => true
  | _ => false

theorem Event.eq_of_fruitless {e : Event} (h : e.fruitless = true) :
    e = .work ∨ ∃ error, e = .answered (.error error) := by
  cases e with
  | work => exact .inl rfl
  | answered answer =>
    cases answer with
    | error error => exact .inr ⟨error, rfl⟩
    | ok flags => cases h
  | _ => cases h

/-- Nothing that can be read, published or streamed is different, here or at the connection. -/
structure Undisturbed (c d : Client) : Prop where
  lifecycle_eq : d.lifecycle = c.lifecycle
  context_eq : d.context = c.context
  flags_eq : d.flags = c.flags
  feed_eq : d.connection.flags = c.connection.flags
  streams_eq : d.registry.streams = c.registry.streams
  notices_eq : d.notices = c.notices

namespace Undisturbed

theorem refl (c : Client) : Undisturbed c c := ⟨rfl, rfl, rfl, rfl, rfl, rfl⟩

theorem trans {b c d : Client} (h : Undisturbed b c) (k : Undisturbed c d) : Undisturbed b d :=
  ⟨k.lifecycle_eq.trans h.lifecycle_eq, k.context_eq.trans h.context_eq,
    k.flags_eq.trans h.flags_eq, k.feed_eq.trans h.feed_eq, k.streams_eq.trans h.streams_eq,
    k.notices_eq.trans h.notices_eq⟩

theorem work (c : Client) : Undisturbed c c.work := by
  obtain ⟨_, _, _, h⟩ := work_frame c
  rw [h]
  exact ⟨rfl, rfl, rfl, rfl, rfl, rfl⟩

theorem failure (c : Client) (error : BackendError) :
    Undisturbed c (c.answered (.error error)) := by
  by_cases hw : c.worker = .busy
  · rw [answered_error hw]
    exact ⟨rfl, rfl, rfl, rfl, rfl, rfl⟩
  · rw [answered_of_not_busy hw]
    exact refl c

/-- Streams end with a client that goes, and keep what they have. -/
theorem retire (c : Client) : Undisturbed c c.retire := by
  have hfeed := flags_connection_retire c
  unfold Client.retire at hfeed ⊢
  split at hfeed
  next h =>
    rw [if_pos h]
    exact refl c
  next h =>
    rw [if_neg h]
    exact ⟨rfl, rfl, rfl, hfeed, rfl, rfl⟩

theorem step (c : Client) {e : Event} (h : e.fruitless = true) : Undisturbed c (c.step e) := by
  have hact : Undisturbed c (c.act e) := by
    rcases Event.eq_of_fruitless h with rfl | ⟨error, rfl⟩
    · exact work c
    · exact failure c error
  exact hact.trans (retire (c.act e))

end Undisturbed

theorem batch_of_fruitless (c : Client) {e : Event} (h : e.fruitless = true) : c.batch e = [] := by
  rcases Event.eq_of_fruitless h with rfl | ⟨error, rfl⟩ <;> rfl

/-- The worker moves a request along the line, or leaves it. -/
theorem line_work {c : Client} (hf : c.lifecycle ≠ .failed) : c.work.line = c.line := by
  by_cases hg : c.gone = true
  · rw [work_of_gone hg]
  · rcases Turned.work hf (Bool.eq_false_iff.mpr hg) with ⟨-, hline⟩ | ⟨hother, -⟩
    · exact hline
    · rw [(Undisturbed.work c).context_eq, Context.same_refl] at hother
      cases hother

theorem line_step_of_fruitless {c : Client} (hf : c.lifecycle ≠ .failed) {e : Event}
    (h : e.fruitless = true) : (c.step e).line = c.line := by
  have hact : (c.act e).line = c.line := by
    rcases Event.eq_of_fruitless h with rfl | ⟨error, rfl⟩
    · exact line_work hf
    · exact (Still.answered c (.error error)).line_eq
  exact (Still.retire (c.act e)).line_eq.trans hact

/-! ## runs -/

/-- all changes that the connection reports during a run -/
def reports (c : Client) : List Event → List Change
  | [] => []
  | e :: es => c.batch e ++ (c.step e).reports es

theorem reports_cons (c : Client) (e : Event) (es : List Event) :
    c.reports (e :: es) = c.batch e ++ (c.step e).reports es := rfl

/-- **However many identifies begin and fail, and with whatever errors, nothing is disturbed and no
change is reported.** -/
theorem undisturbed_run (c : Client) {es : List Event} (h : ∀ e ∈ es, e.fruitless = true) :
    Undisturbed c (c.run es) ∧ c.reports es = [] := by
  induction es generalizing c with
  | nil => exact ⟨.refl c, rfl⟩
  | cons e es ih =>
    have he : e.fruitless = true := h e List.mem_cons_self
    obtain ⟨hrun, hreports⟩ := ih (c.step e) fun f hf => h f (List.mem_cons_of_mem e hf)
    refine ⟨(Undisturbed.step c he).trans hrun, ?_⟩
    rw [reports_cons, batch_of_fruitless c he, hreports, List.append_nil]

theorem line_run_of_fruitless {c : Client} (hf : c.lifecycle ≠ .failed) {es : List Event}
    (h : ∀ e ∈ es, e.fruitless = true) : (c.run es).line = c.line := by
  induction es generalizing c with
  | nil => rfl
  | cons e es ih =>
    have he : e.fruitless = true := h e List.mem_cons_self
    have hstep : (c.step e).lifecycle ≠ .failed := by
      rw [(Undisturbed.step c he).lifecycle_eq]
      exact hf
    have hrest := ih hstep fun f hf => h f (List.mem_cons_of_mem e hf)
    exact hrest.trans (line_step_of_fruitless hf he)

/-- A client that is gone hands over nothing any more. -/
theorem identified_run_of_gone {c : Client} (h : c.gone = true) (es : List Event) :
    (c.run es).identified = c.identified := by
  induction es generalizing c with
  | nil => rfl
  | cons e es ih =>
    refine (ih (gone_step h e)).trans ?_
    by_cases he : e = .work
    · rw [he, step, act, work_of_gone h]
      exact (untold_retire c).identified_eq
    · exact identified_step he

/-- The connection was given the context in place last, or will be when the requests that wait are
handed over. -/
theorem last_given_of_live (options : Options) (identity : Identity) (connection : Feed Role)
    (forgetful : Bool) (os : List Occurrence)
    (hf : ((start options identity connection forgetful).live os).lifecycle ≠ .failed)
    (hc : ((start options identity connection forgetful).live os).cancelled = false) :
    let c := (start options identity connection forgetful).live os
    (c.given ++ c.requests).getLast? = some c.context := by
  intro c
  have hr : Raced (start options identity connection forgetful) none := .start ..
  have hgiven : c.given = identity.context :: c.identified := given_live rfl os
  obtain ⟨hline, hlast⟩ := line_live hr ⟨nofun, nofun⟩ os hf hc
  have hturns : c.identified ++ c.requests =
      (start options identity connection forgetful).turns os := hline
  rw [hgiven, List.cons_append, hturns]
  exact hlast

end Client

namespace Session

/-! ## the requests behind -/

/-- As long as it is not shut down the line of an initialized client only grows. -/
theorem prefix_line_meetAll {s : Session} (hs : Sound s.client) (is : List Incident)
    (hl : s.client.lifecycle = .initialized) (hc : (s.meetAll is).client.cancelled = false) :
    s.client.line <+: (s.meetAll is).client.line := by
  obtain ⟨d, hr⟩ := hs.raced
  rw [client_meetAll, Client.run_eq_live] at hc ⊢
  have hlife := (hr.lifecycle_live (by rw [hl]; decide) ((s.script is).map .event)).trans hl
  obtain ⟨hline, -⟩ := Client.line_live hr hs.manned _ (by rw [hlife]; decide) hc
  exact ⟨_, hline.symm⟩

theorem last_given (backend : Backend) (options : Client.Options) (patience : Nat)
    (identity : Identity) (is : List Incident)
    (hf : ((start backend options patience identity).meetAll is).client.lifecycle ≠ .failed)
    (hc : ((start backend options patience identity).meetAll is).client.cancelled = false) :
    let c := ((start backend options patience identity).meetAll is).client
    (c.given ++ c.requests).getLast? = some c.context := by
  obtain ⟨flags, forgetful, hstart⟩ := client_start backend options patience identity
  rw [client_meetAll, hstart, Client.run_eq_live] at hf hc ⊢
  exact Client.last_given_of_live options identity _ forgetful _ hf hc

/-- **On any backend and at any point of any run, identifies that begin or fail leave an initialized
client as it is: its lifecycle, the flags that it serves and those of its connection, what it
published, what its streams got, and its context; no change is reported and no request leaves the
line.  Unless the client is shut down or dropped, its context is the last one that was handed over
or will be, the requests behind keep their order, and whenever nothing can be done without time
passing they are all handed over or an answer is on its way.** -/
theorem failed_identify (backend : Backend) (options : Client.Options) (patience : Nat)
    (identity : Identity) (before failing after : List Incident)
    (hl : ((start backend options patience identity).meetAll before).client.lifecycle =
      .initialized)
    (hf : ∀ e ∈ ((start backend options patience identity).meetAll before).script failing,
      e.fruitless = true) :
    let s := (start backend options patience identity).meetAll before
    let t := s.meetAll failing
    let u := t.meetAll after
    (t.client.lifecycle = .initialized ∧ t.client.flagsInUse = s.client.flagsInUse ∧
      t.client.connection.flags = s.client.connection.flags ∧
      t.client.notices = s.client.notices ∧
      t.client.registry.streams = s.client.registry.streams ∧
      s.client.reports (s.script failing) = [] ∧ t.client.context = s.client.context ∧
      t.client.identified ++ t.client.requests = s.client.identified ++ s.client.requests) ∧
    (u.client.cancelled = false →
      (t.client.given ++ t.client.requests).getLast? = some t.client.context ∧
      (t.client.identified ++ t.client.requests) <+: (u.client.identified ++ u.client.requests) ∧
      (u.Idle → (t.client.identified ++ t.client.requests) <+: u.client.identified ∨
        u.side.Awaits u.now)) := by
  intro s t u
  have ht : t.client = s.client.run (s.script failing) := client_meetAll s failing
  obtain ⟨hsame, hreports⟩ := s.client.undisturbed_run hf
  rw [← ht] at hsame
  have hlife : t.client.lifecycle = .initialized := hsame.lifecycle_eq.trans hl
  have hline : t.client.line = s.client.line := by
    rw [ht]
    exact Client.line_run_of_fruitless (by rw [hl]; decide) hf
  have hinuse : t.client.flagsInUse = s.client.flagsInUse := by
    rw [Client.flagsInUse_of_initialized hlife, Client.flagsInUse_of_initialized hl,
      hsame.flags_eq]
  refine ⟨⟨hlife, hinuse, hsame.feed_eq, hsame.notices_eq, hsame.streams_eq, hreports,
    hsame.context_eq, hline⟩, fun hc => ?_⟩
  have htall : t = (start backend options patience identity).meetAll (before ++ failing) :=
    (meetAll_append _ before failing).symm
  have huall : u = (start backend options patience identity).meetAll
      (before ++ failing ++ after) := by
    rw [meetAll_append, ← htall]
  have hst : Sound t.client := by
    rw [htall]
    exact .meetAll backend options patience identity _
  have hct : t.client.cancelled = false := by
    have hu : u.client = t.client.run (t.script after) := client_meetAll t after
    rw [hu, Client.run_eq_live] at hc
    exact Client.not_cancelled_of_live hc
  have hprefix : t.client.line <+: u.client.line := prefix_line_meetAll hst after hlife hc
  refine ⟨?_, hprefix, fun hi => ?_⟩
  · have hlast := last_given backend options patience identity (before ++ failing)
    rw [← htall] at hlast
    exact hlast (by rw [hlife]; decide) hct
  · have hattended : Attended u := by
      rw [huall]
      exact (Attended.start backend options patience identity).meetAll _
    have hmanned : Client.Manned u.client := by
      rw [huall]
      exact (Sound.meetAll backend options patience identity _).manned
    refine (requests_of_idle hattended hmanned hc hi).imp (fun hn => ?_) id
    have hu : u.client.line = u.client.identified := by
      rw [Client.line, hn, List.append_nil]
    exact hu ▸ hprefix

/-- a remote service that refuses its second request -/
def refusingService : Remote.Network :=
  { environment := "production", target := some "/sdk/evaluate", flights := [], arrived := []
    responses := [.reply 200 "\x7b\"flags\":\x7b\"alpha\":1\x7d\x7d", .reply 500 "",
      .reply 200 "\x7b\"flags\":\x7b\"alpha\":2\x7d\x7d"] }

/-- the first flags, an identify, and a request behind it -/
def queuedBehind : List Incident :=
  [.turn (.task .fetch), .turn (.task .land), .turn (.task .race),
    .turn (.operate (.addContext "workspace" "w1")), .turn (.task .work),
    .turn (.operate (.addContext "team" "t1"))]

/-- the request behind is taken and answered -/
def nextRequest : List Incident := [.turn (.task .work), .turn (.task .land)]

theorem failed_identify_of_status :
    let s := (start (.remote refusingService 1000) ⟨"key", {}⟩ 5000 (.anonymous "en")).meetAll
      queuedBehind
    let t := s.meetAll [.turn (.task .land)]
    let u := t.meetAll nextRequest
    s.client.lifecycle = .initialized ∧
      (∀ e ∈ s.script [.turn (.task .land)], e.fruitless = true) ∧ u.client.cancelled = false ∧
      u.Idle ∧ s.client.worker = .busy ∧ t.client.worker = .idle ∧ t.client.requests.length = 1 ∧
      t.client.flagsInUse = s.client.flagsInUse ∧
      ((t.client.identified ++ t.client.requests) <+: u.client.identified ∨
        u.side.Awaits u.now) := by
  have hl : ((start (.remote refusingService 1000) ⟨"key", {}⟩ 5000 (.anonymous "en")).meetAll
      queuedBehind).client.lifecycle = .initialized := by decide +kernel
  have hf : ∀ e ∈ ((start (.remote refusingService 1000) ⟨"key", {}⟩ 5000
      (.anonymous "en")).meetAll queuedBehind).script [.turn (.task .land)],
        e.fruitless = true := by
    refine List.all_eq_true.mp ?_
    decide +kernel
  have hc : ((((start (.remote refusingService 1000) ⟨"key", {}⟩ 5000 (.anonymous "en")).meetAll
      queuedBehind).meetAll [.turn (.task .land)]).meetAll nextRequest).client.cancelled =
        false := by decide +kernel
  have hi : ((((start (.remote refusingService 1000) ⟨"key", {}⟩ 5000 (.anonymous "en")).meetAll
      queuedBehind).meetAll [.turn (.task .land)]).meetAll nextRequest).Idle := by
    rw [← task?_eq_none_iff, ← Option.isNone_iff_eq_none]
    decide +kernel
  obtain ⟨hkept, hqueue⟩ := failed_identify _ _ _ _ queuedBehind [.turn (.task .land)] nextRequest
    hl hf
  exact ⟨hl, hf, hc, hi, by decide +kernel, by decide +kernel, by decide +kernel, hkept.2.1,
    (hqueue hc).2.2 hi⟩

/-- an identify that is not answered, a request behind it, and nobody who holds the client -/
def droppedBehind : List Incident :=
  queuedBehind ++ [.turn (.operate .release), .pass 10000]

/-- A client that nobody holds goes with the identify that is under way, and whatever happens later
the request behind it is not handed over. -/
theorem request_lost_with_client :
    let s := (start (.remote stalledService 60000) ⟨"key", {}⟩ 5000 (.anonymous "en")).meetAll
      droppedBehind
    let t := s.meetAll [.turn (.task .land)]
    s.client.lifecycle = .initialized ∧ s.client.cancelled = false ∧ s.client.worker = .busy ∧
      (∀ e ∈ s.script [.turn (.task .land)], e.fruitless = true) ∧
      s.client.requests.length = 1 ∧ s.client.identified.length = 1 ∧
      ∀ after, (t.meetAll after).client.identified.length = 1 := by
  have hf : ∀ e ∈ ((start (.remote stalledService 60000) ⟨"key", {}⟩ 5000
      (.anonymous "en")).meetAll droppedBehind).script [.turn (.task .land)],
        e.fruitless = true := by
    refine List.all_eq_true.mp ?_
    decide +kernel
  have hg : (((start (.remote stalledService 60000) ⟨"key", {}⟩ 5000 (.anonymous "en")).meetAll
      droppedBehind).meetAll [.turn (.task .land)]).client.gone = true := by decide +kernel
  have hn : (((start (.remote stalledService 60000) ⟨"key", {}⟩ 5000 (.anonymous "en")).meetAll
      droppedBehind).meetAll [.turn (.task .land)]).client.identified.length = 1 := by
    decide +kernel
  refine ⟨by decide +kernel, by decide +kernel, by decide +kernel, hf, by decide +kernel,
    by decide +kernel, fun after => ?_⟩
  rw [client_meetAll, Client.identified_run_of_gone hg]
  exact hn

end Session

end FeatureFlags
