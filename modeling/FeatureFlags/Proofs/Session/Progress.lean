import FeatureFlags.Proofs.Session.Requests

/-!
# No request waits for nothing

While an identify is under way its connection fetches for it or lets it wait for its turn, and each
fetch ends within the time that answers are waited for.  So where nothing can be done without time
passing, no request waits but behind an answer that is on its way.

* `Remote.Seat.Orderly`       nobody waits for a turn as long as nobody has it;
* `Remote.Seat.Asks`          an identify fetches or waits for its turn;
* `Remote.Network.Owes`       an answer is due in time;
* `Session.Attended`          turns are orderly, who fetches will be answered, and an identify that
                              is under way asks its connection;
* `Session.requests_of_idle`  what is left to do when nothing can be done at once.
-/

namespace FeatureFlags

/-! ## turns -/

namespace Remote

namespace Seat

/-- Nobody waits for a turn as long as nobody has it. -/
def Orderly (s : Seat) : Prop := s.turn = .free → s.queue = []

/-- An identify fetches or waits for its turn. -/
def Asks (s : Seat) : Prop := ∃ ticket, .identify ticket ∈ s.callers

namespace Orderly

variable {s t : Seat}

/-- Who asks gets the turn if nobody has it. -/
theorem of_join (s : Seat) (who : Caller) : (s.join who).Orderly := by
  intro hf
  rw [Seat.join] at hf ⊢
  split at hf
  next => cases hf
  next hn => exact absurd hf hn

theorem of_release (s : Seat) : s.release.Orderly := by
  intro hf
  rw [release] at hf ⊢
  split at hf
  next hq => rw [hq]
  next => cases hf

theorem resume (h : s.Orderly) : s.resume.Orderly := by
  intro hf
  rw [Seat.resume] at hf ⊢
  split at hf
  next => cases hf
  next => exact h hf

theorem start (h : s.Orderly) : s.start.Orderly := by
  rw [Seat.start]
  split
  · split
    · exact h
    · exact of_join { s with polling := .starting } .first
  · exact h

theorem tick (h : s.Orderly) (now : Nat) : (s.tick now).Orderly := by
  rw [Seat.tick]
  split
  · split
    · exact h
    · split
      · exact of_join { s with polling := .refreshing _ } .poll
      · exact h
  · exact h

theorem next? (h : s.Orderly) {now : Nat} (ht : s.next? true now = some t) : t.Orderly := by
  rcases next?_cases ht with rfl | rfl | rfl
  · exact h.resume
  · exact h.start
  · exact h.tick now

theorem finish (h : s.Orderly) (now : Nat) (answer : Except BackendError Unit) :
    (s.finish now answer).Orderly := by
  have hr : s.release.Orderly := of_release s
  rw [Seat.finish]
  split
  next who _ _ =>
    cases who with
    | first => cases answer <;> exact hr
    | poll =>
      show s.release.settlePoll.Orderly
      rw [settlePoll]
      split <;> exact hr
    | identify ticket => exact hr
  next => exact h

theorem close (h : s.Orderly) : s.close.Orderly := by
  show s.abandonFirst.Orderly
  rw [abandonFirst]
  split
  · exact of_release _
  · exact of_release _
  · intro hf
    show s.queue.filter _ = []
    rw [h hf, List.filter_nil]

end Orderly

namespace Asks

variable {s t : Seat}

theorem of_join (s : Seat) (ticket : Nat) : (s.join (.identify ticket)).Asks :=
  ⟨ticket, (callers_join s (.identify ticket)).mem_iff.mpr List.mem_cons_self⟩

theorem join (h : s.Asks) (who : Caller) : (s.join who).Asks := by
  obtain ⟨ticket, hm⟩ := h
  exact ⟨ticket, (callers_join s who).mem_iff.mpr (List.mem_cons_of_mem _ hm)⟩

theorem next? (h : s.Asks) {now : Nat} (ht : s.next? true now = some t) : t.Asks := by
  rcases next?_cases ht with rfl | rfl | rfl
  · rw [Asks, callers_resume]
    exact h
  · rw [Seat.start]
    split
    · split
      · exact h
      · exact join (s := { s with polling := .starting }) h .first
    · exact h
  · rw [Seat.tick]
    split
    · split
      · exact h
      · split
        · exact join (s := { s with polling := .refreshing _ }) h .poll
        · exact h
    · exact h

/-- An answer to somebody else leaves an identify where it is. -/
theorem finish (h : s.Asks)
    (hn : ∀ ticket context, s.turn ≠ .fetching (.identify ticket) context) (now : Nat)
    (answer : Except BackendError Unit) : (s.finish now answer).Asks := by
  cases hu : s.underWay with
  | none =>
    have hf : s.finish now answer = s := by
      rw [Seat.finish]
      split
      next hturn =>
        rw [underWay, hturn] at hu
        cases hu
      next => rfl
    rw [hf]
    exact h
  | some fetch =>
    obtain ⟨who, context⟩ := fetch
    obtain ⟨ticket, hm⟩ := h
    rw [callers_finish hu now answer] at hm
    rcases List.mem_cons.mp hm with rfl | hm
    · exact absurd (turn_of_underWay hu) (hn ticket context)
    · exact ⟨ticket, hm⟩

/-- Closing gives up the first fetch only. -/
theorem close (h : s.Asks) : s.close.Asks := by
  obtain ⟨ticket, hm⟩ := h
  let kept := { s with queue := s.queue.filter (fun who => who ≠ Caller.first) }
  have hkept : .identify ticket ∈ kept.callers := by
    rcases List.mem_append.mp hm with hm | hm
    · exact List.mem_append_left _ hm
    · exact List.mem_append_right _ (List.mem_filter.mpr ⟨hm, rfl⟩)
  -- the first fetch may have the turn, or may be about to have it
  have hrelease : kept.holder? = some .first → .identify ticket ∈ kept.release.callers := by
    intro hf
    rw [callers_of_holder? hf] at hkept
    rcases List.mem_cons.mp hkept with he | hkept
    · cases he
    · exact hkept
  show s.abandonFirst.Asks
  rw [abandonFirst]
  split
  next hturn => exact ⟨ticket, hrelease (by rw [holder?, hturn])⟩
  next hturn => exact ⟨ticket, hrelease (by rw [holder?, hturn])⟩
  next => exact ⟨ticket, hkept⟩

end Asks

end Seat

namespace Network

theorem flightTime_le (r : Response) : flightTime r ≤ patience := by
  cases r with
  | hang => exact Nat.le_refl _
  | _ => exact Nat.zero_le _

/-- An answer is due within the time that answers are waited for. -/
def Owes (now : Nat) (n : Network) : Prop := ∃ f ∈ n.flights, f.ends ≤ now + patience

variable {n : Network} {now : Nat}

theorem Owes.later (h : n.Owes now) (ms : Nat) : n.Owes (now + ms) := by
  obtain ⟨f, hf, he⟩ := h
  refine ⟨f, hf, ?_⟩
  omega

theorem owes_send (n : Network) (connection now : Nat) (key : String) (context : Context) :
    (n.send connection now key context).Owes now := by
  rw [send]
  split
  · refine ⟨_, List.mem_append_right _ List.mem_cons_self, ?_⟩
    exact Nat.add_le_add_left (flightTime_le _) now
  · exact ⟨_, List.mem_append_right _ List.mem_cons_self, Nat.le_add_right now patience⟩

/-- What begins with a step of a task is answered in time, and so is what was under way. -/
theorem owes_follow {s t : Seat} (h : s.underWay ≠ none → n.Owes now) (hg : s.Goes t)
    (connection : Nat) (ht : t.underWay ≠ none) : (n.follow connection now s t).Owes now := by
  rw [follow_eq]
  rcases hg.begun_cases with ⟨hb, hu⟩ | ⟨-, who, -, hb⟩
  · rw [hb]
    exact h (hu ▸ ht)
  · rw [hb]
    exact owes_send n connection now t.key s.context

theorem owes_abandon {s : Seat} (h : s.underWay ≠ none → n.Owes now) (connection : Nat)
    (hc : s.close.underWay ≠ none) : (n.abandon connection now s s.close).Owes now := by
  have hclose : s.close.request? ≠ none := fun hn => hc (Seat.request?_eq_none_iff.mp hn)
  have heq : s.close.request? = s.request? := s.request?_close.resolve_right hclose
  obtain ⟨context, hcontext⟩ := Option.ne_none_iff_exists'.mp hclose
  have hs : s.request? = some context := heq.symm.trans hcontext
  have hn : n.abandon connection now s s.close = n := by
    unfold abandon Network.follow
    rw [hcontext, hs]
  rw [hn]
  refine h fun hu => ?_
  rw [Seat.request?_eq_none_iff.mpr hu] at hs
  cases hs

/-- Without an answer that is there all answers are yet to come. -/
theorem lt_ends_of_land? (h : n.land? now = none) : ∀ f ∈ n.flights, now < f.ends := by
  have hs : split now n.flights = none := Option.map_eq_none_iff.mp h
  clear h
  generalize n.flights = fs at hs ⊢
  induction fs with
  | nil => exact nofun
  | cons f fs ih =>
    rw [split] at hs
    split at hs
    next => cases hs
    next hlate =>
      intro g hg
      rcases List.mem_cons.mp hg with rfl | hg
      · exact Nat.lt_of_not_le hlate
      · exact ih (Option.map_eq_none_iff.mp hs) g hg

end Network

end Remote

namespace Session

/-! ## the other side -/

namespace Side

/-- Turns are orderly, and who fetches will be answered in time. -/
def Prompt (now : Nat) : Side → Prop
  | remote network seat => seat.Orderly ∧ (seat.underWay ≠ none → network.Owes now)
  | _ => True

/-- An identify fetches or waits for its turn. -/
def Asks : Side → Prop
  | remote _ seat => seat.Asks
  | _ => False

/-- An answer is on its way, and will be there within the time that answers are waited for. -/
def Awaits (now : Nat) : Side → Prop
  | remote network _ =>
    ∃ f ∈ network.flights, now < f.ends ∧ f.ends ≤ now + Remote.Network.patience
  | _ => False

variable {side next : Side} {now : Nat}

namespace Prompt

theorem later (h : side.Prompt now) (ms : Nat) : side.Prompt (now + ms) := by
  cases side with
  | remote network seat => exact ⟨h.1, fun hu => (h.2 hu).later ms⟩
  | _ => trivial

theorem close (h : side.Prompt now) : (side.close now).Prompt now := by
  cases side with
  | remote network seat => exact ⟨h.1.close, Remote.Network.owes_abandon h.2 line⟩
  | _ => trivial

theorem fetch? (h : side.Prompt now) (hn : side.fetch? now = some next) : next.Prompt now := by
  cases side with
  | remote network seat =>
    obtain ⟨t, ht, rfl⟩ := Option.map_eq_some_iff.mp hn
    exact ⟨h.1.next? ht, Remote.Network.owes_follow h.2 (Remote.Seat.goes_of_next? ht) line⟩
  | _ => cases hn

theorem land? (h : side.Prompt now) {r : Side × List Client.Event} (hr : side.land? now = some r) :
    r.1.Prompt now := by
  cases side with
  | remote network seat =>
    obtain ⟨f, -, rfl⟩ := Option.map_eq_some_iff.mp hr
    have hu := (seat.finish_frame now (f.1.answer.map (fun _ => ()))).2.2.2
    exact ⟨h.1.finish now _, fun hn => absurd hu hn⟩
  | _ => cases hr

/-- An identify is answered at once, or asks for its turn. -/
theorem identify (h : side.Prompt now) (current : FlagSet) (context : Context) :
    (side.identify now current context).1.Prompt now ∧
      ((side.identify now current context).2 = none →
        (side.identify now current context).1.Asks) := by
  cases side with
  | memory definitions seat =>
    rw [Side.identify]
    split <;> exact ⟨trivial, fun hn => by cases hn⟩
  | scripted script => exact ⟨trivial, fun hn => by cases hn⟩
  | remote network seat =>
    rw [Side.identify]
    by_cases hc : seat.closed = true
    · rw [Remote.Seat.identify, if_pos hc]
      exact ⟨h, fun hn => by cases hn⟩
    · rw [Remote.Seat.identify_eq (Bool.eq_false_iff.mpr hc)]
      have hg := Remote.Seat.Goes.join (seat.turnTo context) (.identify 0)
      have howes := Remote.Network.owes_follow (s := seat.turnTo context) h.2 hg line
      exact ⟨⟨.of_join _ _, howes⟩, fun _ => .of_join _ 0⟩

end Prompt

namespace Asks

theorem close (h : side.Asks) (now : Nat) : (side.close now).Asks := by
  cases side with
  | remote network seat => exact Remote.Seat.Asks.close h
  | _ => cases h

theorem fetch? (h : side.Asks) (hn : side.fetch? now = some next) : next.Asks := by
  cases side with
  | remote network seat =>
    obtain ⟨t, ht, rfl⟩ := Option.map_eq_some_iff.mp hn
    exact Remote.Seat.Asks.next? h ht
  | _ => cases h

/-- An answer is one to the identify, or leaves it where it is. -/
theorem land? (h : side.Asks) {r : Side × List Client.Event} (hr : side.land? now = some r) :
    (∃ answer, r.2 = [.answered answer]) ∨ r.1.Asks := by
  cases side with
  | remote network seat =>
    obtain ⟨f, -, rfl⟩ := Option.map_eq_some_iff.mp hr
    by_cases ht : ∃ ticket context, seat.turn = .fetching (.identify ticket) context
    · obtain ⟨ticket, context, ht⟩ := ht
      refine .inl ⟨f.1.answer, ?_⟩
      rw [ht]
    · have hother : ∀ ticket context, seat.turn ≠ .fetching (.identify ticket) context :=
        fun ticket context he => ht ⟨ticket, context, he⟩
      exact .inr (Remote.Seat.Asks.finish h hother now _)
  | _ => cases h

end Asks

/-- Where an identify asks and nothing can be done at once, an answer is on its way. -/
theorem awaits_of_asks (h : side.Prompt now) (ha : side.Asks) (hf : side.fetch? now = none)
    (hl : side.land? now = none) : side.Awaits now := by
  cases side with
  | remote network seat =>
    obtain ⟨ticket, hm⟩ := ha
    have hnext : seat.next? true now = none := Option.map_eq_none_iff.mp hf
    have hu : seat.underWay ≠ none := by
      intro hu
      cases ht : seat.turn with
      | free =>
        rw [Remote.Seat.callers, Remote.Seat.holder?, ht, h.1 ht] at hm
        cases hm
      | granted who =>
        rw [Remote.Seat.next?, ht] at hnext
        cases hnext
      | fetching who context =>
        rw [Remote.Seat.underWay, ht] at hu
        cases hu
    obtain ⟨f, hflight, hends⟩ := h.2 hu
    have hlate := Remote.Network.lt_ends_of_land? (Option.map_eq_none_iff.mp hl) f hflight
    exact ⟨f, hflight, hlate, hends⟩
  | _ => cases ha

end Side

/-! ## sessions -/

/-- Turns are orderly, who fetches will be answered in time, and an identify that is under way asks
its connection. -/
structure Attended (s : Session) : Prop where
  prompt : s.side.Prompt s.now
  asks : s.client.worker = .busy → s.side.Asks

namespace Attended

variable {s : Session}

theorem start (backend : Backend) (options : Client.Options) (patience : Nat)
    (identity : Identity) : Attended (Session.start backend options patience identity) := by
  have hidle : Client.Worker.idle ≠ .busy := by decide
  cases backend with
  | memory ds => exact ⟨trivial, fun hb => absurd hb hidle⟩
  | scripted start flags => exact ⟨trivial, fun hb => absurd hb hidle⟩
  | remote network interval => exact ⟨⟨fun _ => rfl, nofun⟩, fun hb => absurd hb hidle⟩

theorem prompt_apply (h : s.side.Prompt s.now) (e : Client.Event) :
    (s.apply e).side.Prompt s.now := by
  show (if (s.client.step e).cancelled then s.side.close s.now else s.side).Prompt s.now
  split
  · exact h.close
  · exact h

theorem apply (h : Attended s) {e : Client.Event} (he : e ≠ .work) : Attended (s.apply e) := by
  refine ⟨prompt_apply h.prompt e, fun hb => ?_⟩
  have ha : s.side.Asks := h.asks (Client.busy_step he hb)
  show (if (s.client.step e).cancelled then s.side.close s.now else s.side).Asks
  split
  · exact ha.close s.now
  · exact ha

theorem applyAll (h : Attended s) {es : List Client.Event} (he : .work ∉ es) :
    Attended (s.applyAll es) := by
  induction es generalizing s with
  | nil => exact h
  | cons e es ih =>
    have hne : e ≠ .work := fun hw => he (hw ▸ List.mem_cons_self)
    exact ih (h.apply hne) fun hm => he (List.mem_cons_of_mem e hm)

/-- With its answer an identify asks no more. -/
theorem of_answered (h : s.side.Prompt s.now) (answer : Except BackendError FlagSet) :
    Attended (s.apply (.answered answer)) :=
  ⟨prompt_apply h _, fun hb => absurd hb (Client.idle_of_answered s.client answer)⟩

theorem identify (h : Attended s) (context : Context) : Attended (s.identify context) := by
  have hp : (s.apply .work).side.Prompt (s.apply .work).now := prompt_apply h.prompt .work
  rw [Session.identify]
  split
  next hb =>
    obtain ⟨hprompt, hasks⟩ := hp.identify (s.apply .work).client.connection.flags context
    cases hr : ((s.apply .work).side.identify (s.apply .work).now
        (s.apply .work).client.connection.flags context).2 with
    | none =>
      dsimp only
      rw [hr]
      exact ⟨hprompt, fun _ => hasks hr⟩
    | some answer =>
      dsimp only
      rw [hr]
      exact of_answered (s := { s.apply .work with side := _ }) hprompt answer
  next hn => exact ⟨hp, fun hb => absurd hb hn⟩

theorem lands (h : Attended s) {r : Side × List Client.Event} (hr : s.side.land? s.now = some r) :
    Attended ({ s with side := r.1 }.applyAll r.2) := by
  have hp : r.1.Prompt s.now := h.prompt.land? hr
  have hwork : .work ∉ r.2 := by
    intro hm
    have hmem : .work ∈ s.taskEvents .land := by
      rw [taskEvents, hr]
      exact hm
    rcases land_events hmem with ⟨answer, he⟩ | ⟨flags, he⟩ <;> cases he
  by_cases hb : s.client.worker = .busy
  · rcases (h.asks hb).land? hr with ⟨answer, he⟩ | ha
    · rw [he]
      exact of_answered (s := { s with side := r.1 }) hp answer
    · exact applyAll (s := { s with side := r.1 }) ⟨hp, fun _ => ha⟩ hwork
  · exact applyAll (s := { s with side := r.1 }) ⟨hp, fun hbusy => absurd hbusy hb⟩ hwork

theorem proceeds (h : Attended s) {t : Session} (ht : s.Proceeds t) : Attended t := by
  cases ht with
  | stays => exact h
  | fetches hf => exact ⟨h.prompt.fetch? hf, fun hb => (h.asks hb).fetch? hf⟩
  | acts _ _ hwork => exact h.apply hwork
  | identifies => exact h.identify _
  | lands hl => exact h.lands hl

theorem redefine (h : Attended s) (change : Definitions → Definitions) :
    Attended (s.redefine change) := by
  unfold Session.redefine
  cases hs : s.side with
  | memory definitions seat =>
    have hm : Attended { s with side := .memory (change definitions) seat } := by
      refine ⟨trivial, fun hb => ?_⟩
      have ha := h.asks hb
      rw [hs] at ha
      cases ha
    exact hm.apply (fun he => by cases he)
  | _ => exact h

/-- Whatever a scripted connection is told, it answers at once. -/
theorem direct (h : Attended s) (change : Scripted → Scripted) : Attended (s.direct change) := by
  unfold Session.direct
  cases hs : s.side with
  | scripted script =>
    refine ⟨trivial, fun hb => ?_⟩
    have ha := h.asks hb
    rw [hs] at ha
    cases ha
  | _ => exact h

theorem meet (h : Attended s) (i : Incident) : Attended (s.meet i) := by
  cases i with
  | turn t =>
    cases t with
    | upsert d => exact h.redefine _
    | removeFlag key => exact h.redefine _
    | operate o => exact h.apply (fun he => by cases o <;> cases he)
    | task t => exact h.proceeds (s.proceeds t)
  | push flags =>
    show Attended (s.push flags)
    rw [Session.push]
    split
    · exact h.apply (fun he => by cases he)
    · exact h
  | direct change => exact h.direct change
  | wait => exact ⟨h.prompt, h.asks⟩
  | settle o => exact h.apply (fun he => by cases he)
  | take =>
    rcases s.meet_take_cases with ht | ⟨context, rest, -, -, ht⟩
    · rw [ht]
      exact h
    · rw [ht]
      exact h.identify context
  | follow =>
    rcases s.meet_follow_cases with hf | hf
    · rw [hf]
      exact h
    · rw [hf]
      exact h.apply (fun he => by cases he)
  | pass ms => exact ⟨h.prompt.later ms, h.asks⟩

theorem meetAll (h : Attended s) (is : List Incident) : Attended (s.meetAll is) := by
  induction is generalizing s with
  | nil => exact h
  | cons i is ih => exact ih (h.meet i)

end Attended

/-- **Where nothing can be done without time passing no request waits, unless an answer is on its
way.** -/
theorem requests_of_idle {s : Session} (h : Attended s) (hm : Client.Manned s.client)
    (hc : s.client.cancelled = false) (hi : s.Idle) :
    s.client.requests = [] ∨ s.side.Awaits s.now := by
  cases hw : s.client.worker with
  | stopped => exact absurd hw (hm.not_stopped hc)
  | busy =>
    have hfetch : s.side.fetch? s.now = none := Option.map_eq_none_iff.mp (hi .fetch)
    have hland : s.side.land? s.now = none := Option.map_eq_none_iff.mp (hi .land)
    exact .inr (Side.awaits_of_asks h.prompt (h.asks hw) hfetch hland)
  | idle =>
    have hwork : s.work? = none := hi .work
    rw [work?, hw, hc, if_neg Bool.false_ne_true, take?, hw] at hwork
    exact .inl (List.head?_eq_none_iff.mp (Option.map_eq_none_iff.mp hwork))

end Session

end FeatureFlags
