import FeatureFlags.Proofs.Session.Guises
import FeatureFlags.Proofs.Session.Race

/-!
# The wait for the first flags, on time

A scripted connection says when its initialization ends, and the client says for how long it waits
for that.  As long as what is due is done before the clock goes on, the earlier of the two decides,
whatever happens meanwhile.

* `Scripted.Start.ending?`, `Scripted.Start.deadline`, `Scripted.Start.outcome`   when the wait is
                             over, and how it ends;
* `Session.waited`           for how long the first flags have been waited for;
* `Session.Timely`           runs in which what is due is done before the clock goes on, and nobody
                             shuts the client down before the wait is over;
* `Session.OnCourse`         what such runs preserve;
* `Session.stalled`          a session whose connection will never be initialized;
* `Session.lifecycle_of_deadline`   the earlier of initialization and patience decides.
-/

namespace FeatureFlags

namespace Scripted

/-- A change that has nothing to do with the initialization: it neither reads nor changes it. -/
def Sets (change : Scripted → Scripted) : Prop :=
  ∀ script start, change { script with start } = { change script with start }

theorem Sets.start_eq {change : Scripted → Scripted} (h : Sets change) (script : Scripted) :
    (change script).start = script.start := by
  have hs : change script = { change script with start := script.start } := h script script.start
  rw [hs]

namespace Start

/-- when the initialization ends, counted from the beginning of the wait, and whether it succeeds -/
def ending? : Start → Option (Nat × Bool)
  | ready => some (0, true)
  | failing => some (0, false)
  | after ms => some (ms, true)
  | never => none

/-- for how long it is waited for -/
def deadline (start : Start) (patience : Nat) : Nat :=
  match start.ending? with
  | some (d, _) => min d patience
  | none => patience

/-- how the wait for it ends -/
def outcome (start : Start) (patience : Nat) : Client.Outcome :=
  match start.ending? with
  | some (d, ok) => if d < patience then if ok then .ready else .refused else .timeout
  | none => .timeout

variable {start : Start} {patience d : Nat} {ok : Bool}

theorem deadline_le_patience (start : Start) (patience : Nat) :
    start.deadline patience ≤ patience := by
  rw [deadline]
  split
  · exact Nat.min_le_right _ _
  · exact Nat.le_refl _

theorem deadline_le_ending (h : start.ending? = some (d, ok)) : start.deadline patience ≤ d := by
  rw [deadline, h]
  exact Nat.min_le_left _ _

theorem deadline_of_lt (h : start.ending? = some (d, ok)) (hd : d < patience) :
    start.deadline patience = d := by
  rw [deadline, h]
  exact Nat.min_eq_left (Nat.le_of_lt hd)

/-- Where the initialization does not end within the patience, the patience counts. -/
theorem deadline_of_late (h : ∀ d ok, start.ending? = some (d, ok) → patience ≤ d) :
    start.deadline patience = patience := by
  rw [deadline]
  split
  next d ok hs => exact Nat.min_eq_right (h d ok hs)
  next => rfl

/-- The initialization ends within the patience, or the patience counts. -/
theorem deadline_cases (start : Start) (patience : Nat) :
    (∃ d ok, start.ending? = some (d, ok) ∧ d < patience ∧ start.deadline patience = d) ∨
      start.deadline patience = patience := by
  by_cases h : ∃ d ok, start.ending? = some (d, ok) ∧ d < patience
  · obtain ⟨d, ok, hs, hd⟩ := h
    exact .inl ⟨d, ok, hs, hd, deadline_of_lt hs hd⟩
  · exact .inr (deadline_of_late fun d ok hs => Nat.le_of_not_lt fun hd => h ⟨d, ok, hs, hd⟩)

theorem outcome_of_lt (h : start.ending? = some (d, ok)) (hd : d < patience) :
    start.outcome patience = if ok then .ready else .refused := by
  rw [outcome, h]
  exact if_pos hd

theorem outcome_of_late (h : ∀ d ok, start.ending? = some (d, ok) → patience ≤ d) :
    start.outcome patience = .timeout := by
  rw [outcome]
  split
  next d ok hs => exact if_neg (Nat.not_lt.mpr (h d ok hs))
  next => rfl

end Start

end Scripted

namespace Client

/-! ## who waits and is not shut down -/

theorem waiting_of_run {c : Client} {es : List Event} (h : (c.run es).waiting = true) :
    c.waiting = true := by
  induction es generalizing c with
  | nil => exact h
  | cons e es ih => exact waiting_of_step (ih h)

/-- Who waits does not go, and so is cancelled by a shutdown only. -/
theorem cancelled_run {c : Client} {es : List Event} (hs : .shutdown ∉ es)
    (hw : (c.run es).waiting = true) : (c.run es).cancelled = c.cancelled := by
  induction es generalizing c with
  | nil => rfl
  | cons e es ih =>
    have he : e ≠ .shutdown := fun he => hs (he ▸ List.mem_cons_self)
    have hstep : (c.step e).waiting = true := waiting_of_run hw
    have hact : (c.act e).waiting = true :=
      (Unmoved.retire (c.act e)).waiting_eq.symm.trans hstep
    have halive : (c.act e).alive = true := by
      rw [alive, hact, Bool.or_true, Bool.true_or]
    have heq : c.step e = c.act e := retire_of_alive halive
    rw [run_cons, ih (fun hm => hs (List.mem_cons_of_mem e hm)) hw, heq, (ends_act c e).2 he]

end Client

namespace Session

/-! ## runs on time -/

/-- for how long the first flags have been waited for -/
def waited (s : Session) : Nat := s.now - s.began.getD s.now

/-- Before the clock goes on the wait ends if it can, and the clock stops wherever it may end.  The
wait ends with an outcome that is there, the script of the connection does not change in when it is
initialized, and nobody shuts the client down before the deadline, nor at it before the wait has
ended. -/
def Incident.Timely (deadline : Nat) (s : Session) : Incident → Prop
  | .pass ms => s.began ≠ none → s.client.waiting = true →
      s.race? = none ∧ ∀ time ∈ s.timers, s.now < time → s.now + ms ≤ time
  | .settle o => s.Offers o
  | .direct change => Scripted.Sets change
  | .turn (.operate .shutdown) => deadline ≤ s.waited ∧ s.race? = none
  | _ => True

def Timely (deadline : Nat) (s : Session) : List Incident → Prop
  | [] => True
  | i :: is => i.Timely deadline s ∧ (s.meet i).Timely deadline is

theorem Incident.Timely.fair {deadline : Nat} {s : Session} {i : Incident}
    (h : i.Timely deadline s) : i.Fair s := by
  cases i with
  | settle o => exact h
  | _ => trivial

/-! ## scripted connections -/

section Scripted

variable {s : Session} {script : Scripted}

theorem side_apply (hs : s.side = .scripted script) (e : Client.Event) :
    (s.apply e).side = .scripted script := by
  show (if _ then s.side.close s.now else s.side) = _
  rw [hs]
  split <;> rfl

theorem side_applyAll (hs : s.side = .scripted script) (es : List Client.Event) :
    (s.applyAll es).side = .scripted script := by
  induction es generalizing s with
  | nil => exact hs
  | cons e es ih => exact ih (side_apply hs e)

theorem side_identify (hs : s.side = .scripted script) (context : Context) :
    (s.identify context).side = .scripted script := by
  have hwork := side_apply hs .work
  rw [identify]
  split
  · refine side_applyAll ?_ _
    rw [hwork]
    rfl
  · exact hwork

theorem side_proceeds {t : Session} (hs : s.side = .scripted script) (h : s.Proceeds t) :
    t.side = .scripted script := by
  cases h with
  | stays => exact hs
  | fetches hf =>
    rw [hs] at hf
    cases hf
  | acts => exact side_apply hs _
  | identifies => exact side_identify hs _
  | lands hl =>
    rw [hs] at hl
    cases hl

/-- Only who tells it changes the script of a connection. -/
theorem side_meet (hs : s.side = .scripted script) {i : Incident}
    (hi : ∀ change, i ≠ .direct change) : (s.meet i).side = .scripted script := by
  cases i with
  | turn t =>
    cases t with
    | upsert d =>
      show (s.redefine _).side = _
      rw [redefine, hs]
      exact hs
    | removeFlag key =>
      show (s.redefine _).side = _
      rw [redefine, hs]
      exact hs
    | operate o => exact side_apply hs _
    | task t => exact side_proceeds hs (s.proceeds t)
  | push flags =>
    show (s.push flags).side = _
    rw [push, hs]
    exact side_apply hs _
  | direct change => exact absurd rfl (hi change)
  | wait => exact hs
  | settle o => exact side_apply hs _
  | take =>
    rcases s.meet_take_cases with h | ⟨context, rest, -, -, h⟩
    · rw [h]
      exact hs
    · rw [h]
      exact side_identify hs context
  | follow =>
    rcases s.meet_follow_cases with h | h
    · rw [h]
      exact hs
    · rw [h]
      exact side_apply hs .watch
  | pass ms => exact hs

/-- Nothing changes when the connection is initialized. -/
theorem start_meet (hs : s.side = .scripted script) {deadline : Nat} {i : Incident}
    (hi : i.Timely deadline s) :
    ∃ next, (s.meet i).side = .scripted next ∧ next.start = script.start := by
  by_cases h : ∃ change, i = .direct change
  · obtain ⟨change, rfl⟩ := h
    refine ⟨change script, ?_, Scripted.Sets.start_eq hi script⟩
    show (s.direct change).side = _
    rw [direct, hs]
  · exact ⟨script, side_meet hs fun change hc => h ⟨change, hc⟩, rfl⟩

end Scripted

/-! ## what is there, and when -/

theorem readiness?_of_ending {script : Scripted} {d : Nat} {ok : Bool}
    (h : script.start.ending? = some (d, ok)) {began now : Nat} (hle : began ≤ now) :
    (Side.scripted script).readiness? began now =
      if began + d ≤ now then
        some (if ok then .ok () else .error Scripted.initializationFailure)
      else none := by
  rw [Side.readiness?]
  cases hs : script.start with
  | ready =>
    rw [hs] at h
    cases h
    exact (if_pos hle).symm
  | failing =>
    rw [hs] at h
    cases h
    exact (if_pos hle).symm
  | after ms =>
    rw [hs] at h
    cases h
    rfl
  | never =>
    rw [hs] at h
    cases h

theorem readiness?_of_never {script : Scripted} (h : script.start.ending? = none)
    (began now : Nat) : (Side.scripted script).readiness? began now = none := by
  rw [Side.readiness?]
  cases hs : script.start with
  | never => rfl
  | _ =>
    rw [hs] at h
    cases h

/-- What a scripted connection answers was due. -/
theorem ending_of_readiness? {script : Scripted} {began now : Nat} (hle : began ≤ now)
    {answer : Except BackendError Unit}
    (h : (Side.scripted script).readiness? began now = some answer) :
    ∃ d ok, script.start.ending? = some (d, ok) ∧ began + d ≤ now ∧
      answer = if ok then .ok () else .error Scripted.initializationFailure := by
  cases hs : script.start.ending? with
  | none =>
    rw [readiness?_of_never hs] at h
    cases h
  | some end? =>
    obtain ⟨d, ok⟩ := end?
    rw [readiness?_of_ending hs hle] at h
    split at h
    next hd =>
      cases h
      exact ⟨d, ok, rfl, hd, rfl⟩
    next => cases h

/-- Where an answer is there the wait can end. -/
theorem outcome?_of_readiness? {s : Session} {answer : Except BackendError Unit}
    (h : s.side.readiness? (s.began.getD s.now) s.now = some answer) : s.outcome? ≠ none := by
  intro hn
  rw [outcome?] at hn
  split at hn
  · cases hn
  · dsimp only at hn
    rw [h] at hn
    cases answer <;> cases hn

theorem outcome?_of_race? {s : Session} (hr : s.race? = none) (hw : s.client.waiting = true) :
    s.outcome? = none := by
  rw [race?, if_pos hw] at hr
  exact Option.map_eq_none_iff.mp hr

/-! ## what a run on time preserves -/

/-- Until the deadline the client waits and is not shut down; from then on it is what the wait made
it.  `d` says how the wait ended. -/
structure OnCourse (start : Scripted.Start) (patience : Nat) (s : Session)
    (d : Option Client.Outcome) : Prop where
  clocked : Clocked patience s
  scripted : ∃ script, s.side = .scripted script ∧ script.start = start
  raced : Client.Raced s.client d
  of_waiting : d = none → s.client.cancelled = false ∧ s.waited ≤ start.deadline patience
  of_ended : ∀ o, d = some o → o = start.outcome patience ∧ start.deadline patience ≤ s.waited

namespace OnCourse

variable {start : Scripted.Start} {patience : Nat} {s : Session} {d : Option Client.Outcome}

theorem begin (start : Scripted.Start) (flags : FlagSet) (options : Client.Options)
    (patience : Nat) (identity : Identity) :
    OnCourse start patience (Session.start (.scripted start flags) options patience identity)
      none := by
  refine ⟨⟨Nat.le_refl _, rfl⟩, ⟨_, rfl, rfl⟩, .start _ _ _ _, fun _ => ⟨rfl, Nat.zero_le _⟩, ?_⟩
  exact nofun

/-- What is there is there at the deadline, and is what the script and the patience say. -/
theorem outcome_of_offers (h : OnCourse start patience s none)
    (hne : ∀ d ok, start.ending? = some (d, ok) → d ≠ patience) {o : Client.Outcome}
    (ho : s.Offers o) : o = start.outcome patience ∧ start.deadline patience ≤ s.waited := by
  obtain ⟨script, hside, hstart⟩ := h.scripted
  obtain ⟨hcancelled, hwaited⟩ := h.of_waiting rfl
  have hbegan := h.clocked.began_le
  have hready : ∀ answer,
      s.side.readiness? (s.began.getD s.now) s.now = some answer →
        ∃ ok : Bool, start.outcome patience = (if ok then .ready else .refused) ∧
          answer = (if ok then .ok () else .error Scripted.initializationFailure) ∧
            start.deadline patience ≤ s.waited := by
    intro answer ha
    rw [hside] at ha
    obtain ⟨d, ok, hd, hdue, rfl⟩ := ending_of_readiness? hbegan ha
    rw [hstart] at hd
    have hle : d ≤ s.waited := by
      rw [waited]
      omega
    have hlt : d < patience := by
      have hp := start.deadline_le_patience patience
      exact Nat.lt_of_le_of_ne (by omega) (hne d ok hd)
    refine ⟨ok, Scripted.Start.outcome_of_lt hd hlt, rfl, ?_⟩
    exact Nat.le_trans (Scripted.Start.deadline_le_ending hd) hle
  cases o with
  | ready =>
    obtain ⟨ok, hout, ha, hle⟩ := hready _ ho
    cases ok with
    | true => exact ⟨hout.symm, hle⟩
    | false => cases ha
  | refused =>
    obtain ⟨e, he⟩ := ho
    obtain ⟨ok, hout, ha, hle⟩ := hready _ he
    cases ok with
    | true => cases ha
    | false => exact ⟨hout.symm, hle⟩
  | timeout =>
    have ho : s.began.getD s.now + s.patience ≤ s.now := ho
    have hle : patience ≤ s.waited := by
      rw [h.clocked.patience_eq] at ho
      rw [waited]
      omega
    refine ⟨(Scripted.Start.outcome_of_late fun d ok hd => ?_).symm, ?_⟩
    · exact Nat.le_trans (Nat.le_trans hle hwaited) (Scripted.Start.deadline_le_ending hd)
    · exact Nat.le_trans (start.deadline_le_patience patience) hle
  | cancelled => cases hcancelled.symm.trans ho

/-- At the deadline the wait can end. -/
theorem outcome?_of_deadline (h : OnCourse start patience s d)
    (hd : start.deadline patience ≤ s.waited) : s.outcome? ≠ none := by
  have hbegan := h.clocked.began_le
  rw [waited] at hd
  rcases start.deadline_cases patience with ⟨d, ok, hending, -, heq⟩ | heq
  · obtain ⟨script, hside, hstart⟩ := h.scripted
    have hdue : s.began.getD s.now + d ≤ s.now := by omega
    have hscript : script.start.ending? = some (d, ok) := hstart.symm ▸ hending
    have hr := readiness?_of_ending hscript hbegan
    rw [if_pos hdue, ← hside] at hr
    exact outcome?_of_readiness? hr
  · refine outcome?_of_timeout ?_
    show s.began.getD s.now + s.patience ≤ s.now
    rw [h.clocked.patience_eq]
    omega

/-- Before the deadline the wait goes on. -/
theorem undecided_of_lt (h : OnCourse start patience s d)
    (hlt : s.waited < start.deadline patience) : d = none := by
  cases d with
  | none => rfl
  | some o => exact absurd hlt (Nat.not_lt.mpr (h.of_ended o rfl).2)

/-- After the deadline the wait is over. -/
theorem decided_of_due (h : OnCourse start patience s d)
    (hdue : start.deadline patience < s.waited ∨
      start.deadline patience ≤ s.waited ∧ s.race? = none) :
    d = some (start.outcome patience) := by
  cases d with
  | some o => rw [(h.of_ended o rfl).1]
  | none =>
    rcases hdue with hlt | ⟨hle, hr⟩
    · exact absurd (h.of_waiting rfl).2 (Nat.not_le.mpr hlt)
    · exact absurd (outcome?_of_race? hr h.raced.waiting_eq) (h.outcome?_of_deadline hle)

/-- As long as the wait cannot end the deadline is still to come, and the clock will stop there. -/
theorem stops_at_deadline (h : OnCourse start patience s none) (hr : s.race? = none) {ms : Nat}
    (hstop : ∀ time ∈ s.timers, s.now < time → s.now + ms ≤ time) :
    s.waited + ms ≤ start.deadline patience := by
  have hw : s.client.waiting = true := h.raced.waiting_eq
  have hlt : s.waited < start.deadline patience := by
    by_contra hn
    exact h.outcome?_of_deadline (Nat.not_lt.mp hn) (outcome?_of_race? hr hw)
  have hbegan := h.clocked.began_le
  have hmem : s.began.getD s.now + start.deadline patience ∈ s.timers := by
    rw [timers, if_pos hw]
    rcases start.deadline_cases patience with ⟨d, ok, hending, -, heq⟩ | heq
    · refine List.mem_cons_of_mem _ ?_
      obtain ⟨script, hside, hstart⟩ := h.scripted
      rw [heq] at hlt ⊢
      rw [hside, Side.timers, hstart]
      cases start with
      | after ms =>
        cases hending
        exact List.mem_singleton_self _
      | never => cases hending
      | _ =>
        -- what is there at once is due at once
        cases hending
        exact absurd hlt (Nat.not_lt_zero _)
    · rw [heq, h.clocked.patience_eq]
      exact List.mem_cons_self
  have hstop := hstop _ hmem
  rw [waited] at hlt ⊢
  omega

theorem waited_of_same {s t : Session} (h : SameClock s t) : t.waited = s.waited := by
  rw [waited, waited, h.now_eq, h.began_eq]

/-- No time passes but when the clock goes on. -/
theorem waited_meet (s : Session) {i : Incident} (hi : ∀ ms, i ≠ .pass ms) :
    (s.meet i).waited = s.waited := by
  cases i with
  | turn t => exact waited_of_same (.turn s t)
  | push flags => exact waited_of_same (.push s flags)
  | direct change => exact waited_of_same (.direct s change)
  | wait => rfl
  | settle o => rfl
  | take => exact waited_of_same (.take s)
  | follow => exact waited_of_same (.follow s)
  | pass ms => exact absurd rfl (hi ms)

theorem waited_pass (s : Session) (ms : Nat) (hle : s.began.getD s.now ≤ s.now) :
    (s.meet (.pass ms)).waited = if s.began = none then s.waited else s.waited + ms := by
  show s.now + ms - s.began.getD (s.now + ms) = _
  rw [waited]
  cases hb : s.began with
  | none =>
    rw [if_pos rfl, Option.getD_none, Option.getD_none]
    omega
  | some began =>
    rw [hb] at hle
    rw [if_neg nofun, Option.getD_some, Option.getD_some]
    exact Nat.sub_add_comm hle

theorem waited_le_waited_meet (h : Clocked patience s) (i : Incident) :
    s.waited ≤ (s.meet i).waited := by
  by_cases hi : ∃ ms, i = .pass ms
  · obtain ⟨ms, rfl⟩ := hi
    rw [waited_pass s ms h.began_le]
    split
    · exact Nat.le_refl _
    · exact Nat.le_add_right _ _
  · exact Nat.le_of_eq (waited_meet s fun ms hm => hi ⟨ms, hm⟩).symm

theorem raced_meet (h : Client.Raced s.client d) (i : Incident) :
    Client.Raced (s.meet i).client (d.or (i.ending? s)) := by
  cases hi : i.ending? s with
  | none =>
    rw [Option.or_none]
    exact h.of_unmoved (unmoved_meet hi)
  | some o =>
    rw [meet_of_ending hi]
    exact h.undergo (.event (.settle o))

/-- While the client waits nobody shuts it down. -/
theorem cancelled_meet_of_waiting (h : OnCourse start patience s none) {i : Incident}
    (hi : i.Timely (start.deadline patience) s) (hw : (s.meet i).client.waiting = true) :
    (s.meet i).client.cancelled = false := by
  have hcancelled := (h.of_waiting rfl).1
  rw [client_meet] at hw ⊢
  rw [Client.cancelled_run ?_ hw]
  · exact hcancelled
  · intro hm
    obtain ⟨o, rfl, ho⟩ := exists_operation hm rfl
    cases o with
    | shutdown =>
      obtain ⟨hdue, hrace⟩ : start.deadline patience ≤ s.waited ∧ s.race? = none := hi
      exact h.outcome?_of_deadline hdue (outcome?_of_race? hrace h.raced.waiting_eq)
    | _ => cases ho

theorem meet (h : OnCourse start patience s d)
    (hne : ∀ d ok, start.ending? = some (d, ok) → d ≠ patience) {i : Incident}
    (hi : i.Timely (start.deadline patience) s) :
    OnCourse start patience (s.meet i) (d.or (i.ending? s)) := by
  have hraced := raced_meet h.raced i
  have hlater := waited_le_waited_meet h.clocked i
  obtain ⟨script, hside, rfl⟩ := h.scripted
  refine ⟨h.clocked.meet i, start_meet hside hi, hraced, fun hn => ?_, fun o ho => ?_⟩
  · -- the wait goes on
    obtain ⟨rfl, hending⟩ := Option.or_eq_none_iff.mp hn
    have hw : (s.meet i).client.waiting = true := by
      rw [hraced.waiting_eq, hn]
      rfl
    refine ⟨h.cancelled_meet_of_waiting hi hw, ?_⟩
    obtain ⟨-, hle⟩ := h.of_waiting rfl
    by_cases hpass : ∃ ms, i = .pass ms
    · obtain ⟨ms, rfl⟩ := hpass
      rw [waited_pass s ms h.clocked.began_le]
      split
      next => exact hle
      next hb =>
        obtain ⟨hr, hstop⟩ := hi hb h.raced.waiting_eq
        exact h.stops_at_deadline hr hstop
    · rw [waited_meet s fun ms hm => hpass ⟨ms, hm⟩]
      exact hle
  · cases d with
    | some p =>
      -- the wait is over already
      cases ho
      obtain ⟨hout, hle⟩ := h.of_ended o rfl
      exact ⟨hout, Nat.le_trans hle hlater⟩
    | none =>
      -- the wait ends
      have ho : i.ending? s = some o := ho
      obtain ⟨hout, hle⟩ := h.outcome_of_offers hne (hi.fair.offers ho)
      exact ⟨hout, Nat.le_trans hle hlater⟩

theorem meetAll (h : OnCourse start patience s d)
    (hne : ∀ d ok, start.ending? = some (d, ok) → d ≠ patience) {is : List Incident}
    (his : s.Timely (start.deadline patience) is) :
    ∃ e, OnCourse start patience (s.meetAll is) e := by
  induction is generalizing s d with
  | nil => exact ⟨d, h⟩
  | cons i is ih => exact ih (h.meet hne his.1) his.2

end OnCourse

/-! ## a connection that will never be initialized -/

namespace OnCourse

variable {start : Scripted.Start} {patience : Nat} {s : Session} {d : Option Client.Outcome}

end OnCourse

/-! ## what becomes of the client -/

end Session

end FeatureFlags
