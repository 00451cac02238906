import FeatureFlags.Proofs.Client.Shutdown
import FeatureFlags.Proofs.Session.Runs

/-!
# The end of the wait for the first flags

The wait ends with an outcome that is there: the first flags, or the news that there will be none,
the end of the patience, or a shutdown.  All but the last settle what becomes of the client.

* `Session.Offers`           an outcome is there;
* `Session.Fair`             runs in which the wait ends only with an outcome that is there;
* `Incident.ending?`         the outcome with which an incident ends the wait;
* `Session.unmoved_meet`, `Session.meet_of_ending`   what the wait decides comes of this alone;
* `Session.SameClock`, `Session.Clocked`   only the passing of time moves the clock;
* `Session.ends_of_patience`   once the patience is over the wait ends as soon as its task goes on;
* `Session.settled_unless_cancelled`   a wait that is over has settled the client, unless the client
                             was shut down while it waited.
-/

namespace FeatureFlags

namespace Client

/-! ## what the wait decides -/

theorem Unmoved.step (c : Client) {e : Event} (he : ∀ o, e ≠ .settle o) : Unmoved c (c.step e) :=
  (Unmoved.act c he).trans (.retire _)

theorem Unmoved.run (c : Client) {es : List Event} (h : ∀ o, .settle o ∉ es) :
    Unmoved c (c.run es) := by
  induction es generalizing c with
  | nil => exact .refl c
  | cons e es ih =>
    have he : ∀ o, e ≠ .settle o := fun o ho => h o (ho ▸ List.mem_cons_self)
    exact (Unmoved.step c he).trans (ih _ fun o hm => h o (List.mem_cons_of_mem e hm))

theorem waiting_step_settle (c : Client) (o : Outcome) : (c.step (.settle o)).waiting = false := by
  have hs : (c.settle o).waiting = false := by
    rw [settle]
    split
    · cases o <;> rfl
    next hw => exact Bool.eq_false_iff.mpr hw
  exact (Unmoved.retire (c.settle o)).waiting_eq.trans hs

/-- One who waits becomes what the outcome says. -/
theorem Raced.of_settle {c : Client} {d : Option Outcome} (h : Raced c d)
    (hw : c.waiting = true) (o : Outcome) : Raced (c.step (.settle o)) (some o) := by
  have hd : d = none := Option.isNone_iff_eq_none.mp (h.waiting_eq.symm.trans hw)
  have hs := h.undergo (.event (.settle o))
  rw [hd] at hs
  exact hs

/-- What a client has become once its wait is over, it stays. -/
theorem Raced.lifecycle_run {c : Client} {d : Option Outcome} (h : Raced c d)
    (hw : c.waiting = false) (es : List Event) : (c.run es).lifecycle = c.lifecycle := by
  have hd : d ≠ none := by
    rintro rfl
    cases hw.symm.trans h.waiting_eq
  obtain ⟨o, rfl⟩ := Option.ne_none_iff_exists'.mp hd
  rw [run_eq_live, (h.live _).lifecycle_eq, h.lifecycle_eq]
  rfl

theorem verdict_ne_initializing {o : Outcome} (h : o ≠ .cancelled) :
    verdict (some o) ≠ .initializing := by
  cases o with
  | cancelled => exact absurd rfl h
  | _ => exact nofun

end Client

namespace Session

/-! ## outcomes that are there -/

/-- An outcome is there; there may be several at once. -/
def Offers (s : Session) : Client.Outcome → Prop
  | .ready => s.side.readiness? (s.began.getD s.now) s.now = some (.ok ())
  | .refused => ∃ e, s.side.readiness? (s.began.getD s.now) s.now = some (.error e)
  | .timeout => s.began.getD s.now + s.patience ≤ s.now
  | .cancelled => s.client.cancelled = true

/-- The task takes an outcome that is there. -/
theorem offers_of_outcome? {s : Session} {o : Client.Outcome} (h : s.outcome? = some o) :
    s.Offers o := by
  rw [outcome?] at h
  split at h
  next hc =>
    cases h
    exact hc
  next =>
    dsimp only at h
    split at h
    next hr =>
      cases h
      exact hr
    next e hr =>
      cases h
      exact ⟨e, hr⟩
    next =>
      split at h
      next ht =>
        cases h
        exact ht
      next => cases h

theorem outcome?_of_timeout {s : Session} (h : s.Offers .timeout) : s.outcome? ≠ none := by
  have h : s.began.getD s.now + s.patience ≤ s.now := h
  intro hn
  rw [outcome?] at hn
  split at hn
  · cases hn
  · dsimp only at hn
    split at hn
    · cases hn
    · cases hn
    · rw [if_pos h] at hn
      cases hn

/-- The wait ends with nothing but an outcome that is there. -/
def Incident.Fair (s : Session) : Incident → Prop
  | .settle o => s.Offers o
  | _ => True

def Fair (s : Session) : List Incident → Prop
  | [] => True
  | i :: is => i.Fair s ∧ (s.meet i).Fair is

/-! ## the end of the wait -/

/-- the outcome with which an incident ends the wait -/
def Incident.ending? (s : Session) : Incident → Option Client.Outcome
  | .settle o => some o
  | .turn (.task .race) => if s.client.waiting then s.outcome? else none
  | _ => none

theorem incidentEvents_of_ending {s : Session} {i : Incident} {o : Client.Outcome}
    (h : i.ending? s = some o) : s.incidentEvents i = [.settle o] := by
  cases i with
  | settle p =>
    cases h
    rfl
  | turn t =>
    cases t with
    | task t =>
      cases t with
      | race =>
        have h : (if s.client.waiting then s.outcome? else none) = some o := h
        show (if s.client.waiting then _ else _) = _
        by_cases hw : s.client.waiting = true
        · rw [if_pos hw] at h ⊢
          rw [h]
          rfl
        · rw [if_neg hw] at h
          cases h
      | _ => cases h
    | _ => cases h
  | _ => cases h

theorem settle_not_mem_takeEvents (s : Session) (o : Client.Outcome) :
    .settle o ∉ s.takeEvents := by
  intro hm
  rcases take_events hm with he | ⟨answer, he⟩
  · cases he
  · cases he

/-- Of the tasks only one ends the wait. -/
theorem race_of_settle_mem {s : Session} {t : Task} {o : Client.Outcome}
    (hm : .settle o ∈ s.taskEvents t) :
    t = .race ∧ s.client.waiting = true ∧ s.outcome? = some o := by
  cases t with
  | fetch => cases hm
  | race =>
    rw [taskEvents] at hm
    split at hm
    next hw =>
      obtain ⟨p, hp, he⟩ := Option.map_eq_some_iff.mp (Option.mem_toList.mp hm)
      cases he
      exact ⟨rfl, hw, hp⟩
    next => cases hm
  | work =>
    rw [taskEvents] at hm
    split at hm
    · split at hm
      · cases List.mem_singleton.mp hm
      · exact absurd hm (s.settle_not_mem_takeEvents o)
    · cases hm
  | watch =>
    rw [taskEvents] at hm
    split at hm
    · split at hm
      · cases List.mem_singleton.mp hm
      · cases follow_events hm
    · cases hm
  | land => rcases land_events hm with ⟨answer, he⟩ | ⟨flags, he⟩ <;> cases he

theorem ending_of_settle_mem {s : Session} {i : Incident} {o : Client.Outcome}
    (hm : .settle o ∈ s.incidentEvents i) : i.ending? s = some o := by
  have hredefine : ∀ change, .settle o ∉ s.redefineEvents change := by
    intro change hm
    rw [redefineEvents] at hm
    split at hm
    · cases List.mem_singleton.mp hm
    · cases hm
  cases i with
  | settle p =>
    cases List.mem_singleton.mp hm
    rfl
  | push flags =>
    rw [incidentEvents] at hm
    split at hm
    · cases List.mem_singleton.mp hm
    · cases hm
  | turn t =>
    cases t with
    | upsert d => exact absurd hm (hredefine _)
    | removeFlag key => exact absurd hm (hredefine _)
    | operate p =>
      have he : .settle o = p.event := List.mem_singleton.mp hm
      cases p <;> cases he
    | task t =>
      obtain ⟨rfl, hw, ho⟩ := race_of_settle_mem (s := s) hm
      show (if s.client.waiting then s.outcome? else none) = some o
      rw [if_pos hw, ho]
  | take => exact absurd hm (s.settle_not_mem_takeEvents o)
  | follow => cases follow_events hm
  | _ => cases hm

/-- What the wait decides does not change unless it ends. -/
theorem unmoved_meet {s : Session} {i : Incident} (h : i.ending? s = none) :
    Client.Unmoved s.client (s.meet i).client := by
  rw [client_meet]
  refine .run s.client fun o hm => ?_
  cases h.symm.trans (ending_of_settle_mem hm)

theorem meet_of_ending {s : Session} {i : Incident} {o : Client.Outcome}
    (h : i.ending? s = some o) : (s.meet i).client = s.client.step (.settle o) := by
  rw [client_meet, incidentEvents_of_ending h]
  rfl

theorem Incident.Fair.offers {s : Session} {i : Incident} (h : i.Fair s) {o : Client.Outcome}
    (ho : i.ending? s = some o) : s.Offers o := by
  cases i with
  | settle p =>
    cases ho
    exact h
  | turn t =>
    cases t with
    | task t =>
      cases t with
      | race =>
        have ho : (if s.client.waiting then s.outcome? else none) = some o := ho
        split at ho
        · exact offers_of_outcome? ho
        · cases ho
      | _ => cases ho
    | _ => cases ho
  | _ => cases ho

/-! ## the clock -/

structure SameClock (s t : Session) : Prop where
  now_eq : t.now = s.now
  began_eq : t.began = s.began
  patience_eq : t.patience = s.patience

namespace SameClock

theorem refl (s : Session) : SameClock s s := ⟨rfl, rfl, rfl⟩

theorem trans {s t u : Session} (h : SameClock s t) (k : SameClock t u) : SameClock s u :=
  ⟨k.now_eq.trans h.now_eq, k.began_eq.trans h.began_eq, k.patience_eq.trans h.patience_eq⟩

theorem applyAll (s : Session) (es : List Client.Event) : SameClock s (s.applyAll es) := by
  induction es generalizing s with
  | nil => exact refl s
  | cons e es ih =>
    have hrest := ih (s.apply e)
    exact ⟨hrest.now_eq, hrest.began_eq, hrest.patience_eq⟩

theorem identify (s : Session) (context : Context) : SameClock s (s.identify context) := by
  rw [Session.identify]
  split
  · have hrest := applyAll { s.apply .work with
      side := ((s.apply .work).side.identify (s.apply .work).now
        (s.apply .work).client.connection.flags context).1 }
      (((s.apply .work).side.identify (s.apply .work).now
        (s.apply .work).client.connection.flags context).2.map Client.Event.answered).toList
    exact ⟨hrest.now_eq, hrest.began_eq, hrest.patience_eq⟩
  · exact ⟨rfl, rfl, rfl⟩

theorem proceeds {s t : Session} (h : s.Proceeds t) : SameClock s t := by
  cases h with
  | stays => exact refl s
  | fetches => exact ⟨rfl, rfl, rfl⟩
  | acts => exact ⟨rfl, rfl, rfl⟩
  | identifies => exact identify s _
  | @lands r _ =>
    have hrest := applyAll { s with side := r.1 } r.2
    exact ⟨hrest.now_eq, hrest.began_eq, hrest.patience_eq⟩

theorem redefine (s : Session) (change : Definitions → Definitions) :
    SameClock s (s.redefine change) := by
  rw [Session.redefine]
  split <;> exact ⟨rfl, rfl, rfl⟩

theorem turn (s : Session) (t : Turn) : SameClock s (s.turn t) := by
  cases t with
  | upsert d => exact redefine s _
  | removeFlag key => exact redefine s _
  | operate o => exact ⟨rfl, rfl, rfl⟩
  | task t => exact proceeds (s.proceeds t)

theorem take (s : Session) : SameClock s (s.meet .take) := by
  rcases s.meet_take_cases with h | ⟨context, rest, -, -, h⟩
  · rw [h]
    exact refl s
  · rw [h]
    exact identify s context

theorem follow (s : Session) : SameClock s (s.meet .follow) := by
  rcases s.meet_follow_cases with h | h
  · rw [h]
    exact refl s
  · rw [h]
    exact ⟨rfl, rfl, rfl⟩

theorem push (s : Session) (flags : FlagSet) : SameClock s (s.push flags) := by
  rw [Session.push]
  split <;> exact ⟨rfl, rfl, rfl⟩

theorem direct (s : Session) (change : Scripted → Scripted) : SameClock s (s.direct change) := by
  rw [Session.direct]
  split <;> exact ⟨rfl, rfl, rfl⟩

end SameClock

/-- The wait did not begin later than now, and its patience is that of the beginning. -/
structure Clocked (patience : Nat) (s : Session) : Prop where
  began_le : s.began.getD s.now ≤ s.now
  patience_eq : s.patience = patience

namespace Clocked

variable {patience : Nat} {s t : Session}

theorem of_same (h : Clocked patience s) (hc : SameClock s t) : Clocked patience t := by
  refine ⟨?_, hc.patience_eq.trans h.patience_eq⟩
  rw [hc.began_eq, hc.now_eq]
  exact h.began_le

theorem meet (h : Clocked patience s) (i : Incident) : Clocked patience (s.meet i) := by
  cases i with
  | turn t => exact h.of_same (.turn s t)
  | push flags => exact h.of_same (.push s flags)
  | direct change => exact h.of_same (.direct s change)
  | wait => exact ⟨h.began_le, h.patience_eq⟩
  | settle o => exact h.of_same ⟨rfl, rfl, rfl⟩
  | take => exact h.of_same (.take s)
  | follow => exact h.of_same (.follow s)
  | pass ms =>
    refine ⟨?_, h.patience_eq⟩
    have hb := h.began_le
    show s.began.getD (s.now + ms) ≤ s.now + ms
    cases hs : s.began with
    | none => exact Nat.le_refl _
    | some began =>
      rw [hs] at hb
      exact Nat.le_trans hb (Nat.le_add_right _ _)

theorem meetAll (h : Clocked patience s) (is : List Incident) :
    Clocked patience (s.meetAll is) := by
  induction is generalizing s with
  | nil => exact h
  | cons i is ih => exact ih (h.meet i)

end Clocked

/-! ## a wait that goes on, and a wait that is over -/

/-- **Once the patience is over the wait ends as soon as its task goes on; and it settles what
becomes of the client, unless that is shut down.** -/
theorem ends_of_patience {s : Session} (hr : ∃ d, Client.Raced s.client d)
    (hc : Clocked s.patience s) (hw : s.client.waiting = true) {ms : Nat} (hms : s.patience ≤ ms) :
    let t := s.meetAll [.wait, .pass ms, .turn (.task .race)]
    t.client.waiting = false ∧
      (s.client.cancelled = false → t.client.lifecycle ≠ .initializing) := by
  intro t
  -- the clock shows an instant at which the patience is over
  let u := s.meetAll [.wait, .pass ms]
  have hu : u.Offers .timeout := by
    have hb := hc.began_le
    show s.began.getD s.now + s.patience ≤ s.now + ms
    omega
  obtain ⟨o, ho⟩ := Option.ne_none_iff_exists'.mp (outcome?_of_timeout hu)
  have hend : Incident.ending? u (.turn (.task .race)) = some o := by
    show (if s.client.waiting then u.outcome? else none) = some o
    rw [if_pos hw, ho]
  have ht : t.client = s.client.step (.settle o) := meet_of_ending hend
  obtain ⟨d, hr⟩ := hr
  rw [ht]
  refine ⟨Client.waiting_step_settle s.client o, fun hcancelled => ?_⟩
  rw [(hr.of_settle hw o).lifecycle_eq]
  refine Client.verdict_ne_initializing ?_
  rintro rfl
  have hoffers : s.client.cancelled = true := offers_of_outcome? ho
  cases hcancelled.symm.trans hoffers

/-- The incident that ends a wait settles the client, unless that is shut down. -/
theorem settled_of_end {s : Session} (hr : ∃ d, Client.Raced s.client d) {i : Incident}
    (hf : i.Fair s) (hw : s.client.waiting = true) (he : (s.meet i).client.waiting = false) :
    (s.meet i).client.lifecycle ≠ .initializing ∨ s.client.cancelled = true := by
  obtain ⟨d, hr⟩ := hr
  cases ho : i.ending? s with
  | none =>
    rw [(unmoved_meet ho).waiting_eq, hw] at he
    cases he
  | some o =>
    by_cases hcancelled : o = .cancelled
    · subst hcancelled
      exact .inr (hf.offers ho)
    · left
      rw [meet_of_ending ho, (hr.of_settle hw o).lifecycle_eq]
      exact Client.verdict_ne_initializing hcancelled

theorem lifecycle_meetAll {s : Session} (hr : ∃ d, Client.Raced s.client d)
    (hw : s.client.waiting = false) (is : List Incident) :
    (s.meetAll is).client.lifecycle = s.client.lifecycle := by
  obtain ⟨d, hr⟩ := hr
  rw [client_meetAll]
  exact hr.lifecycle_run hw _

/-- A wait that is over was ended by some incident. -/
theorem exists_end {s : Session} (hs : Sound s.client) (hw : s.client.waiting = true)
    {is : List Incident} (hf : s.Fair is) (he : (s.meetAll is).client.waiting = false) :
    (s.meetAll is).client.lifecycle ≠ .initializing ∨
      ∃ before i after, is = before ++ i :: after ∧
        (s.meetAll before).client.waiting = true ∧ (s.meetAll before).client.cancelled = true ∧
          ((s.meetAll before).meet i).client.waiting = false := by
  induction is generalizing s with
  | nil => cases hw.symm.trans he
  | cons i is ih =>
    have hmeet : Sound (s.meet i).client := by
      rw [client_meet]
      exact hs.run _
    cases hi : (s.meet i).client.waiting with
    | false =>
      rcases settled_of_end hs.raced hf.1 hw hi with hl | hc
      · left
        rw [meetAll_cons, lifecycle_meetAll hmeet.raced hi]
        exact hl
      · exact .inr ⟨[], i, is, rfl, hw, hc, hi⟩
    | true =>
      rcases ih hmeet hi hf.2 he with hl | ⟨before, j, after, rfl, hend⟩
      · exact .inl hl
      · exact .inr ⟨i :: before, j, after, rfl, hend⟩

/-- **On any backend and in any run a wait that is over has made the client initialized or failed,
unless the client was shut down while it waited and its wait ended after that; then it will never be
either, and who waits for that waits for ever.  A wait that is not over ends once the patience is
over.** -/
theorem settled_unless_cancelled (backend : Backend) (options : Client.Options) (patience : Nat)
    (identity : Identity) (is : List Incident)
    (hf : (start backend options patience identity).Fair is) :
    let begun := start backend options patience identity
    let s := begun.meetAll is
    (s.client.waiting = false →
      s.client.lifecycle = .initialized ∨ s.client.lifecycle = .failed ∨
        ((∀ later, (s.meetAll later).client.lifecycle = .initializing) ∧
          ∃ before i after, is = before ++ i :: after ∧
            (begun.meetAll before).client.waiting = true ∧
              (begun.meetAll before).client.cancelled = true ∧
                ((begun.meetAll before).meet i).client.waiting = false)) ∧
      (s.client.waiting = true → ∀ ms, patience ≤ ms →
        let t := s.meetAll [.wait, .pass ms, .turn (.task .race)]
        t.client.waiting = false ∧
          (s.client.cancelled = false → t.client.lifecycle ≠ .initializing)) := by
  intro begun s
  have hbegun : Sound begun.client := .start backend options patience identity
  have hs : Sound s.client := .meetAll backend options patience identity is
  have hclock : Clocked patience begun := ⟨Nat.le_refl _, rfl⟩
  refine ⟨fun hw => ?_, fun hw ms hms => ?_⟩
  · have hwait : begun.client.waiting = true := by
      obtain ⟨flags, forgetful, hc⟩ := client_start backend options patience identity
      rw [hc]
      rfl
    cases hl : s.client.lifecycle with
    | initialized => exact .inl rfl
    | failed => exact .inr (.inl rfl)
    | initializing =>
      refine .inr (.inr ⟨fun later => (lifecycle_meetAll hs.raced hw later).trans hl, ?_⟩)
      exact (exists_end hbegun hwait hf hw).resolve_left fun hn => hn hl
  · have hc : Clocked patience s := hclock.meetAll is
    have hp : s.patience = patience := hc.patience_eq
    exact ends_of_patience hs.raced (hp.symm ▸ hc) hw (hp.symm ▸ hms)

/-- a shutdown before the first flags are there -/
def earlyShutdown : List Incident :=
  [.wait, .turn (.task .race), .turn (.operate .shutdown), .turn (.task .race)]

theorem cancelled_of_earlyShutdown :
    let begun := start (.scripted (.after 1000) {}) ⟨"key", {}⟩ 5000 (.anonymous "en")
    begun.Fair earlyShutdown ∧ (begun.meetAll earlyShutdown).client.waiting = false ∧
      ∃ before i after, earlyShutdown = before ++ i :: after ∧
        (begun.meetAll before).client.cancelled = true ∧
          ((begun.meetAll before).meet i).client.waiting = false := by
  have hf : (start (.scripted (.after 1000) {}) ⟨"key", {}⟩ 5000 (.anonymous "en")).Fair
      earlyShutdown := ⟨trivial, trivial, trivial, trivial, trivial⟩
  have hw : ((start (.scripted (.after 1000) {}) ⟨"key", {}⟩ 5000 (.anonymous "en")).meetAll
      earlyShutdown).client.waiting = false := by decide +kernel
  have hl : ((start (.scripted (.after 1000) {}) ⟨"key", {}⟩ 5000 (.anonymous "en")).meetAll
      earlyShutdown).client.lifecycle = .initializing := by decide +kernel
  have hsettled := (settled_unless_cancelled _ _ _ _ _ hf).1 hw
  rw [hl] at hsettled
  obtain ⟨-, before, i, after, he, -, hc, hi⟩ :=
    (hsettled.resolve_left nofun).resolve_left nofun
  exact ⟨hf, hw, before, i, after, he, hc, hi⟩

/-- Once it is shut down while it waits a client will be neither initialized nor failed, however
long somebody waits for that. -/
theorem shutdown_leaves_initializing :
    let s := (start (.scripted .never {}) ⟨"key", {}⟩ 5000 (.anonymous "en")).meetAll earlyShutdown
    s.client.waiting = false ∧ s.awaitFlags.client.lifecycle = .initializing ∧
      ∀ later, (s.meetAll later).client.lifecycle = .initializing := by
  have hw : ((start (.scripted .never {}) ⟨"key", {}⟩ 5000 (.anonymous "en")).meetAll
      earlyShutdown).client.waiting = false := by decide +kernel
  have hl : ((start (.scripted .never {}) ⟨"key", {}⟩ 5000 (.anonymous "en")).meetAll
      earlyShutdown).client.lifecycle = .initializing := by decide +kernel
  refine ⟨hw, by decide +kernel, fun later => ?_⟩
  exact (lifecycle_meetAll (Sound.meetAll _ _ _ _ _).raced hw later).trans hl

end Session

end FeatureFlags
