import FeatureFlags.Identity
import FeatureFlags.Proofs.Connection.Remote.Runs

/-!
# The contexts that requests carry

A request carries the context that is set when it begins, whoever asks for it and whatever is under
way when the context is set.

* `latest`                    the context that is set after what was seen;
* `Timely`                    every request carries the context that is set when it begins;
* `Connection.timely_run`     so do those of a connection;
* `Connection.AskedFor`       a fetch of one identify, between its context and its answer;
* `Connection.requests_carry_latest`   what holds of every run.
-/

namespace FeatureFlags.Remote

/-! ## the latest context -/

/-- the context that is set after one mark -/
def Mark.turn (context : Context) : Mark → Context
  | set next => next
  | _ => context

/-- the context that is set after what was seen, if `context` was set before -/
def latest (context : Context) (ms : List Mark) : Context := ms.foldl Mark.turn context

theorem latest_cons (context : Context) (m : Mark) (ms : List Mark) :
    latest context (m :: ms) = latest (m.turn context) ms := rfl
theorem latest_append (context : Context) (ms ns : List Mark) :
    latest context (ms ++ ns) = latest (latest context ms) ns := List.foldl_append

theorem latest_called (context : Context) (calls : List (Call ListenerId)) :
    latest context (calls.map .called) = context := by
  induction calls with
  | nil => rfl
  | cons call calls ih => exact ih

theorem latest_eq_or_mem (context : Context) (ms : List Mark) :
    latest context ms = context ∨ .set (latest context ms) ∈ ms := by
  induction ms generalizing context with
  | nil => exact .inl rfl
  | cons m ms ih =>
    rw [latest_cons]
    cases m with
    | set next =>
      refine .inr ?_
      rcases ih next with h | h
      · show Mark.set (latest next ms) ∈ _
        rw [h]
        exact List.mem_cons_self
      · exact List.mem_cons_of_mem _ h
    | _ => exact (ih context).imp_right (List.mem_cons_of_mem _)

/-! ## requests -/

/-- Every request carries the context that is set when it begins, if `context` was set before. -/
def Timely (context : Context) : List Mark → Prop
  | [] => True
  | .set next :: ms => Timely next ms
  | .sent _ carried :: ms => carried = context ∧ Timely context ms
  | .answered .. :: ms => Timely context ms
  | .called _ :: ms => Timely context ms

theorem timely_append (context : Context) (ms ns : List Mark) :
    Timely context (ms ++ ns) ↔ Timely context ms ∧ Timely (latest context ms) ns := by
  induction ms generalizing context with
  | nil => exact (iff_of_eq (true_and _)).symm
  | cons m ms ih =>
    rw [List.cons_append, latest_cons]
    cases m with
    | set next => exact ih next
    | sent who carried => exact (and_congr_right fun _ => ih context).trans and_assoc.symm
    | _ => exact ih context

theorem timely_called (context : Context) (calls : List (Call ListenerId)) :
    Timely context (calls.map .called) := by
  induction calls with
  | nil => trivial
  | cons call calls ih => exact ih

/-- A request carries the latest context of what was seen before it. -/
theorem Timely.carried_eq {context carried : Context} {who : Caller} {pre post : List Mark}
    (h : Timely context (pre ++ .sent who carried :: post)) : carried = latest context pre :=
  ((timely_append context pre _).mp h).2.1

namespace Connection

theorem timely_step (c : Connection ListenerId) (e : Event) :
    Timely c.seat.context (c.step e).2 ∧
      (c.step e).1.seat.context = latest c.seat.context (c.step e).2 := by
  rcases c.step_cases e with ⟨seat, hg, h⟩ | ⟨context, rfl⟩ | ⟨now, response, who, context, hu, rfl⟩
    | ⟨feed, -, h⟩
  · rw [h]
    show Timely _ (c.seat.begun seat) ∧ seat.context = latest _ (c.seat.begun seat)
    rcases hg.begun_cases with ⟨hb, -⟩ | ⟨-, who, -, hb⟩
    · rw [hb]
      exact ⟨trivial, hg.context_eq⟩
    · rw [hb]
      exact ⟨⟨rfl, trivial⟩, hg.context_eq⟩
  · exact ⟨trivial, rfl⟩
  · rw [step_answer hu]
    refine ⟨timely_called _ _, ?_⟩
    rw [seat_finish, (Seat.finish_frame _ _ _).1, latest_cons, latest_called]
    rfl
  · rw [h]
    exact ⟨trivial, rfl⟩

/-- **Every request of a connection carries the context that is set when it begins.** -/
theorem timely_run (c : Connection ListenerId) (es : List Event) :
    Timely c.seat.context (c.trace es) ∧
      (c.run es).seat.context = latest c.seat.context (c.trace es) := by
  induction es generalizing c with
  | nil => exact ⟨trivial, rfl⟩
  | cons e es ih =>
    obtain ⟨ht, hc⟩ := timely_step c e
    rw [trace_cons, timely_append, latest_append, ← hc]
    exact ⟨⟨ht, (ih _).1⟩, (ih _).2⟩

/-! ## the fetch of one identify -/

end Connection

namespace Seat

theorem not_mem_callers_join {s : Seat} {who other : Caller} (ho : who ≠ other)
    (h : who ∉ s.callers) : who ∉ (s.join other).callers := fun hm =>
  (List.mem_cons.mp ((callers_join s other).mem_iff.mp hm)).elim ho h

end Seat

namespace Connection

/-- An identify that does not ask for its turn does not get one. -/
theorem not_mem_callers_step {c : Connection ListenerId} {ticket : Nat}
    (h : .identify ticket ∉ c.seat.callers) {e : Event} (he : e ≠ .join ticket) :
    .identify ticket ∉ (c.step e).1.seat.callers := by
  cases e with
  | start =>
    show _ ∉ c.seat.start.callers
    rw [Seat.start]
    split
    · split
      · exact h
      · exact Seat.not_mem_callers_join (by simp) h
    · exact h
  | tick now =>
    show _ ∉ (c.seat.tick now).callers
    rw [Seat.tick]
    split
    · split
      · exact h
      · split
        · exact Seat.not_mem_callers_join (by simp) h
        · exact h
    · exact h
  | join other =>
    refine Seat.not_mem_callers_join (fun heq => he ?_) h
    rw [Caller.identify.inj heq]
  | resume =>
    show _ ∉ c.seat.resume.callers
    rw [Seat.callers_resume]
    exact h
  | answer now response =>
    cases hu : c.seat.underWay with
    | none =>
      rw [step_answer_of_none hu]
      exact h
    | some u =>
      rw [step_answer hu, seat_finish]
      rw [Seat.callers_finish hu now (response.answer.map (fun _ => ()))] at h
      exact fun hm => h (List.mem_cons_of_mem _ hm)
  | _ => exact h

theorem not_mem_callers_run {c : Connection ListenerId} {ticket : Nat}
    (h : .identify ticket ∉ c.seat.callers) {es : List Event} (he : .join ticket ∉ es) :
    .identify ticket ∉ (c.run es).seat.callers := by
  induction es generalizing c with
  | nil => exact h
  | cons e es ih =>
    rw [List.mem_cons, not_or] at he
    exact ih (not_mem_callers_step h (Ne.symm he.1)) he.2

/-- What is known of the fetch of an identify, from its context to its answer: if it is under way,
it was sent since, and carries the context. -/
structure AskedFor (ticket : Nat) (context : Context) (c : Connection ListenerId)
    (ms : List Mark) : Prop where
  context_eq : c.seat.context = context
  sent : ∀ carried, c.seat.underWay = some (.identify ticket, carried) →
    carried = context ∧ .sent (.identify ticket) context ∈ ms

namespace AskedFor

variable {ticket : Nat} {context : Context} {c : Connection ListenerId} {ms : List Mark}

theorem of_set (h : .identify ticket ∉ c.seat.callers) (context : Context) :
    AskedFor ticket context (c.step (.set context)).1 [] := by
  refine ⟨rfl, fun carried hu => absurd ?_ h⟩
  rw [Seat.callers_of_underWay (s := c.seat) hu]
  exact List.mem_cons_self

theorem step (h : AskedFor ticket context c ms) {e : Event} (he : ∀ other, e ≠ .set other) :
    AskedFor ticket context (c.step e).1 (ms ++ (c.step e).2) := by
  rcases c.step_cases e with ⟨seat, hg, hs⟩ | ⟨other, rfl⟩ | ⟨now, response, who, x, hu, rfl⟩
    | ⟨feed, -, hs⟩
  · rw [hs]
    refine ⟨hg.context_eq.trans h.context_eq, fun carried hc => ?_⟩
    rcases hg.begun_cases with ⟨-, hu⟩ | ⟨-, who, hu, hb⟩
    · obtain ⟨heq, hm⟩ := h.sent carried (hu.symm.trans hc)
      exact ⟨heq, List.mem_append_left _ hm⟩
    · obtain ⟨rfl, rfl⟩ := Prod.mk.inj (Option.some.inj (hu.symm.trans hc))
      refine ⟨h.context_eq, List.mem_append_right _ ?_⟩
      show _ ∈ c.seat.begun seat
      rw [hb, h.context_eq]
      exact List.mem_singleton_self _
  · exact absurd rfl (he other)
  · obtain ⟨hc, -, -, hn⟩ := c.seat.finish_frame now (response.answer.map (fun _ => ()))
    rw [step_answer hu]
    refine ⟨?_, fun carried hu' => ?_⟩
    · rw [seat_finish, hc]
      exact h.context_eq
    · rw [seat_finish, hn] at hu'
      cases hu'
  · rw [hs, List.append_nil]
    exact ⟨h.context_eq, h.sent⟩

theorem run (h : AskedFor ticket context c ms) {es : List Event} (he : ∀ other, .set other ∉ es) :
    AskedFor ticket context (c.run es) (ms ++ c.trace es) := by
  induction es generalizing c ms with
  | nil =>
    rw [trace_nil, List.append_nil]
    exact h
  | cons e es ih =>
    rw [trace_cons, ← List.append_assoc]
    refine ih (h.step fun other heq => he other ?_) fun other hm => he other ?_
    · rw [heq]
      exact List.mem_cons_self
    · exact List.mem_cons_of_mem _ hm

end AskedFor

/-- An answer was given to the one whose request was under way, and a success is now the flags. -/
theorem of_mem_answered {c : Connection ListenerId} {e : Event} {who : Caller} {carried : Context}
    {flags : FlagSet} (h : .answered who carried (.ok flags) ∈ (c.step e).2) :
    c.seat.underWay = some (who, carried) ∧ (c.step e).1.feed.flags = flags := by
  rcases c.step_cases e with ⟨seat, hg, hs⟩ | ⟨context, rfl⟩ | ⟨now, response, other, x, hu, rfl⟩
    | ⟨feed, -, hs⟩
  · rw [hs] at h
    have h : _ ∈ c.seat.begun seat := h
    rcases hg.begun_cases with ⟨hb, -⟩ | ⟨-, who, -, hb⟩
    · rw [hb] at h
      cases h
    · rw [hb] at h
      cases List.mem_singleton.mp h
  · cases List.mem_singleton.mp h
  · rw [step_answer hu] at h ⊢
    rcases List.mem_cons.mp h with h | h
    · injection h with hw hx ha
      rw [← ha, hw, hx]
      exact ⟨hu, rfl⟩
    · obtain ⟨_, _, h⟩ := List.mem_map.mp h
      cases h
  · rw [hs] at h
    cases h

/-! ## what holds of every run -/

/-- **A request carries the context that was set last when it begins: that of the opening, or of a
later identify.  So once a context is set no request carries an older one.  And if an identify sets
a context and no other sets one until it is answered with flags, it was asked for with its context
since then, and those are the flags now.** -/
theorem requests_carry_latest (key : String) (opening : Context) (interval : Nat) :
    let o := fresh key opening interval
    (∀ es pre who carried post, o.trace es = pre ++ .sent who carried :: post →
      carried = latest opening pre) ∧
    (∀ es pre context mid who carried post,
      o.trace es = pre ++ .set context :: mid ++ .sent who carried :: post →
        carried = context ∨ .set carried ∈ mid) ∧
    ∀ before context ticket between e carried flags, .join ticket ∉ before →
      (∀ other, .set other ∉ between) →
        let i := ((o.run before).step (.set context)).1
        let r := (i.run between).step e
        .answered (.identify ticket) carried (.ok flags) ∈ r.2 →
          carried = context ∧ .sent (.identify ticket) context ∈ i.trace between ∧
            r.1.feed.flags = flags := by
  intro o
  have hcarried : ∀ es pre who carried post, o.trace es = pre ++ .sent who carried :: post →
      carried = latest opening pre := by
    intro es pre who carried post hes
    have ht : Timely opening (o.trace es) := (timely_run o es).1
    rw [hes] at ht
    exact ht.carried_eq
  refine ⟨hcarried, fun es pre context mid who carried post hes => ?_, ?_⟩
  · have hc := hcarried es _ who carried post hes
    rw [latest_append, latest_cons] at hc
    rw [hc]
    exact latest_eq_or_mem context mid
  · intro before context ticket between e carried flags hb hs i r hm
    have hi : AskedFor ticket context i [] :=
      .of_set (not_mem_callers_run List.not_mem_nil hb) context
    obtain ⟨hu, hf⟩ := of_mem_answered hm
    obtain ⟨hc, hsent⟩ := (hi.run hs).sent carried hu
    exact ⟨hc, hsent, hf⟩

/-- the flags of English, on their way when another language is set -/
def englishAnswer : Response := .reply 200 "\x7b\"flags\":\x7b\"alpha\":1\x7d\x7d"

def germanAnswer : Response := .reply 200 "\x7b\"flags\":\x7b\"alpha\":2\x7d\x7d"

/-- what happens from the context to the answer -/
def overtakenFetch : List Event := [.join 0, .answer 0 englishAnswer, .resume]

theorem carried_of_overtakenFetch :
    let o := fresh "key" (Identity.anonymous "en").context 1000
    let i := ((o.run [.start]).step (.set (Identity.anonymous "de").context)).1
    let r := (i.run overtakenFetch).step (.answer 0 germanAnswer)
    .join 0 ∉ [Event.start] ∧ (∀ other, .set other ∉ overtakenFetch) ∧
      ∃ carried flags, .answered (.identify 0) carried (.ok flags) ∈ r.2 ∧
        carried = (Identity.anonymous "de").context ∧
        .sent (.identify 0) (Identity.anonymous "de").context ∈ i.trace overtakenFetch ∧
        r.1.feed.flags = flags ∧ flags.text = "\x7b\"alpha\":2\x7d" := by
  have hj : Event.join 0 ∉ [Event.start] := by simp
  have hs : ∀ other, Event.set other ∉ overtakenFetch := by simp [overtakenFetch]
  have hwho : ((((fresh "key" (Identity.anonymous "en").context 1000).run [.start]).step
      (.set (Identity.anonymous "de").context)).1.run overtakenFetch).seat.underWay.map Prod.fst =
        some (.identify 0) := by decide +kernel
  have htext : germanAnswer.answer.toOption.map FlagSet.text =
      some "\x7b\"alpha\":2\x7d" := by decide +kernel
  obtain ⟨⟨who, carried⟩, hu, hw⟩ := Option.map_eq_some_iff.mp hwho
  obtain rfl : who = .identify 0 := hw
  cases ha : germanAnswer.answer with
  | error e =>
    rw [ha] at htext
    cases htext
  | ok flags =>
    rw [ha] at htext
    have hm : .answered (.identify 0) carried (.ok flags) ∈
        ((((fresh "key" (Identity.anonymous "en").context 1000).run [.start]).step
          (.set (Identity.anonymous "de").context)).1.run overtakenFetch |>.step
            (.answer 0 germanAnswer)).2 := by
      rw [step_answer hu, ha]
      exact List.mem_cons_self
    have h := (requests_carry_latest "key" (Identity.anonymous "en").context 1000).2.2 [.start]
      (Identity.anonymous "de").context 0 overtakenFetch (.answer 0 germanAnswer) carried flags hj hs hm
    exact ⟨hj, hs, carried, flags, hm, h.1, h.2.1, h.2.2, Option.some.inj htext⟩

end Connection

end FeatureFlags.Remote
