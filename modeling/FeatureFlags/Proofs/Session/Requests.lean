import FeatureFlags.Proofs.Connection.Remote.Runs
import FeatureFlags.Proofs.Session.Runs

/-!
# What a remote service gets to see

Of the contexts of a client a remote service sees those that the client hands to its connection, and
no others, whatever happens and in whatever order.

* `Remote.Network.Carries`   the requests that arrive carry contexts with a property;
* `Client.given_subset_step`, `Client.mem_given_of_busy`   what is handed over stays so, and the
                             worker hands over what it asks for;
* `Session.Carries.meet`     the requests of a session carry contexts that were handed over.
-/

namespace FeatureFlags

/-! ## requests on their way -/

namespace Remote

namespace Seat

theorem goes_of_next? {s t : Seat} {now : Nat} (h : s.next? true now = some t) : Goes s t := by
  rcases next?_cases h with rfl | rfl | rfl
  · exact .resume s
  · exact .start s
  · exact .tick s now

theorem context_close (s : Seat) : s.close.context = s.context := by
  show s.abandonFirst.context = s.context
  rw [abandonFirst]
  split
  · rw [release]
    split <;> rfl
  · rw [release]
    split <;> rfl
  · rfl

/-- Closing begins no request. -/
theorem request?_close (s : Seat) : s.close.request? = s.request? ∨ s.close.request? = none := by
  have hr : ∀ t : Seat, t.release.request? = none := by
    intro t
    rw [request?_eq, underWay_release]
    rfl
  show s.abandonFirst.request? = s.request? ∨ s.abandonFirst.request? = none
  rw [abandonFirst]
  split
  · exact .inr (hr _)
  · exact .inr (hr _)
  · exact .inl rfl

end Seat

namespace Network

/-- The requests that arrived, but for some old ones, carry contexts with a property. -/
structure Carries (environment : String) (old : List Request) (P : Context → Prop) (n : Network) :
    Prop where
  environment_eq : n.environment = environment
  arrived : ∀ r ∈ n.arrived, r ∈ old ∨
    ∃ context, P context ∧ r.body = (requestDocument environment context).print

variable {environment : String} {old : List Request} {P Q : Context → Prop} {n : Network}

namespace Carries

theorem mono (h : n.Carries environment old P) (hPQ : ∀ context, P context → Q context) :
    n.Carries environment old Q := by
  refine ⟨h.environment_eq, fun r hr => (h.arrived r hr).imp_right ?_⟩
  rintro ⟨context, hP, hbody⟩
  exact ⟨context, hPQ context hP, hbody⟩

theorem send (h : n.Carries environment old P) (connection now : Nat) (key : String)
    {context : Context} (hc : P context) :
    (n.send connection now key context).Carries environment old P := by
  rw [Network.send]
  split
  · refine ⟨h.environment_eq, fun r hr => ?_⟩
    rcases List.mem_append.mp hr with hr | hr
    · exact h.arrived r hr
    · rw [List.mem_singleton.mp hr, h.environment_eq]
      exact .inr ⟨context, hc, rfl⟩
  · exact ⟨h.environment_eq, h.arrived⟩

/-- What begins with a step of a task carries the context of the seat. -/
theorem follow (h : n.Carries environment old P) (connection now : Nat) {s t : Seat}
    (hg : s.Goes t) (hc : P s.context) :
    (n.follow connection now s t).Carries environment old P := by
  rw [follow_eq]
  rcases hg.begun_cases with ⟨hb, -⟩ | ⟨-, who, -, hb⟩
  · rw [hb]
    exact h
  · rw [hb]
    exact h.send connection now t.key hc

theorem land? (h : n.Carries environment old P) {now : Nat} {r : Flight × Network}
    (hr : n.land? now = some r) : r.2.Carries environment old P := by
  obtain ⟨_, -, rfl⟩ := Option.map_eq_some_iff.mp hr
  exact ⟨h.environment_eq, h.arrived⟩

theorem abandon_close (h : n.Carries environment old P) (connection now : Nat) (s : Seat) :
    (n.abandon connection now s s.close).Carries environment old P := by
  rw [abandon]
  split
  · exact ⟨h.environment_eq, h.arrived⟩
  next hn =>
    rw [Network.follow]
    split
    next context hbefore hafter =>
      rcases s.request?_close with hc | hc
      · rw [hc, hbefore] at hafter
        cases hafter
      · rw [hc] at hafter
        cases hafter
    next => exact h

end Carries

end Network

end Remote

/-! ## what is handed over -/

namespace Client

theorem given_work (c : Client) : ∃ contexts, c.work.given = c.given ++ contexts := by
  rw [work]
  split
  · split
    · exact ⟨[], (List.append_nil _).symm⟩
    · split
      · exact ⟨[], (List.append_nil _).symm⟩
      · exact ⟨_, List.filterMap_append⟩
  · exact ⟨[], (List.append_nil _).symm⟩

/-- What was handed over stays so. -/
theorem given_subset_step (c : Client) (e : Event) : ∀ d ∈ c.given, d ∈ (c.step e).given := by
  intro d hd
  rw [step, (untold_retire (c.act e)).given_eq]
  by_cases he : e = .work
  · obtain ⟨contexts, hw⟩ := given_work c
    rw [he, act, hw]
    exact List.mem_append_left contexts hd
  · rw [(untold_act c he).given_eq]
    exact hd

/-- A worker that got busy has handed over the request that it took. -/
theorem mem_given_of_busy {c : Client} (hw : c.worker = .idle) {context : Context}
    {rest : List Context} (hr : c.requests = context :: rest) (hb : (c.step .work).worker = .busy) :
    context ∈ (c.step .work).given := by
  have hwork : c.work.worker = .busy := (Still.retire c.work).busy hb
  by_cases hg : c.gone = true
  · rw [work_of_gone hg, hw] at hwork
    cases hwork
  · have hg : c.gone = false := Bool.eq_false_iff.mpr hg
    by_cases hf : c.lifecycle = .failed
    · rw [work_of_failed hf hw hg hr] at hwork
      cases hw.symm.trans hwork
    · rw [step_work_of_not_failed hf hw hg hr, given, List.filterMap_append]
      exact List.mem_append_right _ List.mem_cons_self

end Client

/-! ## sessions -/

namespace Session

namespace Side

def Carries (environment : String) (old : List Remote.Request) (P : Context → Prop) : Side → Prop
  | memory _ _ => True
  | scripted _ => True
  | remote network seat => P seat.context ∧ network.Carries environment old P

variable {environment : String} {old : List Remote.Request} {P Q : Context → Prop} {side : Side}

namespace Carries

theorem mono (h : side.Carries environment old P) (hPQ : ∀ context, P context → Q context) :
    side.Carries environment old Q := by
  cases side with
  | remote network seat => exact ⟨hPQ _ h.1, h.2.mono hPQ⟩
  | _ => trivial

theorem close (h : side.Carries environment old P) (now : Nat) :
    (side.close now).Carries environment old P := by
  cases side with
  | remote network seat =>
    exact ⟨seat.context_close ▸ h.1, h.2.abandon_close line now seat⟩
  | _ => trivial

theorem fetch? (h : side.Carries environment old P) {now : Nat} {next : Side}
    (hn : side.fetch? now = some next) : next.Carries environment old P := by
  cases side with
  | remote network seat =>
    obtain ⟨t, ht, rfl⟩ := Option.map_eq_some_iff.mp hn
    have hg := Remote.Seat.goes_of_next? ht
    exact ⟨hg.context_eq ▸ h.1, h.2.follow line now hg h.1⟩
  | _ => cases hn

theorem identify (h : side.Carries environment old P) (now : Nat) (current : FlagSet)
    {context : Context} (hc : P context) :
    (side.identify now current context).1.Carries environment old P := by
  cases side with
  | memory definitions seat =>
    rw [Side.identify]
    split <;> trivial
  | scripted script => trivial
  | remote network seat =>
    rw [Side.identify]
    split
    next next hn =>
      rw [Remote.Seat.identify] at hn
      split at hn
      · cases hn
      · cases hn
        have hg := Remote.Seat.Goes.join (seat.turnTo context) (.identify 0)
        have hf : (network.follow line now (seat.turnTo context) _).Carries environment old P :=
          h.2.follow line now hg hc
        exact ⟨hg.context_eq ▸ hc, hf⟩
    next => exact h

theorem land? (h : side.Carries environment old P) {now : Nat} {r : Side × List Client.Event}
    (hr : side.land? now = some r) : r.1.Carries environment old P := by
  cases side with
  | remote network seat =>
    obtain ⟨f, hf, rfl⟩ := Option.map_eq_some_iff.mp hr
    exact ⟨(seat.finish_frame now _).1 ▸ h.1, h.2.land? hf⟩
  | _ => cases hr

end Carries

end Side

/-- The requests to a remote service carry contexts that the client handed to its connection. -/
def Carries (environment : String) (old : List Remote.Request) (s : Session) : Prop :=
  s.side.Carries environment old (fun context => context ∈ s.client.given)

namespace Carries

variable {environment : String} {old : List Remote.Request} {s : Session}

theorem apply (h : s.Carries environment old) (e : Client.Event) :
    (s.apply e).Carries environment old := by
  have hm : s.side.Carries environment old (fun context => context ∈ (s.client.step e).given) :=
    h.mono (s.client.given_subset_step e)
  show (if (s.client.step e).cancelled then s.side.close s.now else s.side).Carries _ _ _
  split
  · exact hm.close s.now
  · exact hm

theorem applyAll (h : s.Carries environment old) (es : List Client.Event) :
    (s.applyAll es).Carries environment old := by
  induction es generalizing s with
  | nil => exact h
  | cons e es ih => exact ih (h.apply e)

theorem identify (h : s.Carries environment old) (hw : s.client.worker = .idle)
    {context : Context} {rest : List Context} (hr : s.client.requests = context :: rest) :
    (s.identify context).Carries environment old := by
  have hwork := h.apply .work
  rw [Session.identify]
  split
  next hb =>
    have hgiven := Client.mem_given_of_busy hw hr hb
    exact applyAll (s := { s.apply .work with side := _ }) (Side.Carries.identify hwork _ _ hgiven) _
  next => exact hwork

theorem redefine (h : s.Carries environment old) (change : Definitions → Definitions) :
    (s.redefine change).Carries environment old := by
  rw [Session.redefine]
  split
  next definitions seat _ =>
    have hm : Session.Carries environment old
        { s with side := .memory (change definitions) seat } := trivial
    exact hm.apply _
  next => exact h

theorem proceeds (h : s.Carries environment old) {t : Session} (ht : s.Proceeds t) :
    t.Carries environment old := by
  cases ht with
  | stays => exact h
  | fetches hf => exact Side.Carries.fetch? h hf
  | acts => exact h.apply _
  | identifies hw hr => exact h.identify hw hr
  | @lands r hl => exact applyAll (s := { s with side := r.1 }) (Side.Carries.land? h hl) r.2

theorem meet (h : s.Carries environment old) (i : Incident) :
    (s.meet i).Carries environment old := by
  cases i with
  | turn t =>
    cases t with
    | upsert d => exact h.redefine _
    | removeFlag key => exact h.redefine _
    | operate o => exact h.apply o.event
    | task t => exact h.proceeds (s.proceeds t)
  | push flags =>
    show (s.push flags).Carries environment old
    rw [Session.push]
    split
    · exact h.apply (.arrive flags)
    · exact h
  | direct change =>
    show (s.direct change).Carries environment old
    rw [Session.direct]
    split
    · trivial
    · exact h
  | settle o => exact h.apply (.settle o)
  | take =>
    rcases s.meet_take_cases with ht | ⟨context, rest, hw, hr, ht⟩
    · rw [ht]
      exact h
    · rw [ht]
      exact h.identify hw hr
  | follow =>
    rcases s.meet_follow_cases with hf | hf
    · rw [hf]
      exact h
    · rw [hf]
      exact h.apply .watch
  | _ => exact h

theorem start (backend : Backend) (options : Client.Options) (patience : Nat)
    (identity : Identity) : ∃ environment old,
      (∀ r ∈ old, .request r ∈ (Session.start backend options patience identity).journal) ∧
        (Session.start backend options patience identity).Carries environment old := by
  cases backend with
  | memory ds => exact ⟨"", [], nofun, trivial⟩
  | scripted start flags => exact ⟨"", [], nofun, trivial⟩
  | remote network interval =>
    refine ⟨network.environment, network.arrived, fun r hr => List.mem_map_of_mem hr, ?_⟩
    exact ⟨List.mem_cons_self, rfl, fun r hr => .inl hr⟩

/-- Requests are what a remote service sees, and no other backend. -/
theorem of_mem_journal (h : s.Carries environment old) {r : Remote.Request}
    (hr : .request r ∈ s.journal) : r ∈ old ∨ ∃ context ∈ s.client.given,
      r.body = (Remote.requestDocument environment context).print := by
  rw [Session.Carries] at h
  rw [journal] at hr
  cases hs : s.side with
  | memory definitions seat =>
    rw [hs] at hr
    cases hr
  | scripted script =>
    rw [hs] at hr
    obtain ⟨m, -, hm⟩ := List.mem_map.mp hr
    cases m <;> cases hm
  | remote network seat =>
    rw [hs] at h hr
    obtain ⟨q, hq, hqr⟩ := List.mem_map.mp hr
    exact h.2.arrived r (Backend.Event.request.inj hqr ▸ hq)

end Carries

end Session

end FeatureFlags
