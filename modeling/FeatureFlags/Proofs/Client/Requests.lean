import FeatureFlags.Proofs.Client.Lifecycle

/-!
# The order of requests

Every change of the context of a client is asked for, once, and the worker hands the requests to the
connection in their order.

* `Client.line`     what was handed to the connection, then what still waits;
* `Client.turns`    the contexts that a client comes to have during a run;
* `Client.Still`, `Client.Turned`   what one occurrence does to context and line;
* `Client.Drains`   of the requests that wait, and those to come, some are handed over and some
                    still wait, in their order;
* `Client.requests_in_order`   the line is the turns.
-/

namespace FeatureFlags.Client

/-- The requests so far: those handed to the connection, then those that wait. -/
def line (c : Client) : List Context := c.identified ++ c.requests

/-- The contexts that a client comes to have, one for each occurrence that changes it. -/
def turns (c : Client) : List Occurrence → List Context
  | [] => []
  | o :: os =>
    (if (c.undergo o).context == c.context then [] else [(c.undergo o).context]) ++
      turns (c.undergo o) os

theorem turns_nil (c : Client) : c.turns [] = [] := rfl
theorem turns_cons (c : Client) (o : Occurrence) (os : List Occurrence) :
    c.turns (o :: os) =
      (if (c.undergo o).context == c.context then [] else [(c.undergo o).context]) ++
        (c.undergo o).turns os := rfl

/-! ## what stays -/

/-- A client that is shut down stays so, and neither goes nor loses its worker before. -/
structure Kept (c d : Client) : Prop where
  cancelled : c.cancelled = true → d.cancelled = true
  gone : d.gone = true → c.gone = true ∨ d.cancelled = true
  stopped : d.worker = .stopped → c.worker = .stopped ∨ d.cancelled = true

theorem Kept.trans {b c d : Client} (h : Kept b c) (k : Kept c d) : Kept b d := by
  refine ⟨fun hc => k.cancelled (h.cancelled hc), fun hg => ?_, fun hs => ?_⟩
  · rcases k.gone hg with hg | hc
    · exact (h.gone hg).imp id k.cancelled
    · exact .inr hc
  · rcases k.stopped hs with hs | hc
    · exact (h.stopped hs).imp id k.cancelled
    · exact .inr hc

/-- Neither context nor requests change, and nothing is identified. -/
structure Still (c d : Client) : Prop extends Kept c d where
  context_eq : d.context = c.context
  requests_eq : d.requests = c.requests
  untold : Untold c d
  busy : d.worker = .busy → c.worker = .busy

namespace Still

theorem line_eq {c d : Client} (h : Still c d) : d.line = c.line := by
  rw [line, line, h.untold.identified_eq, h.requests_eq]

theorem refl (c : Client) : Still c c := ⟨⟨id, .inl, .inl⟩, rfl, rfl, .inl rfl, id⟩

theorem ring (c : Client) (flags : FlagSet) (calls : List (Call Role)) :
    Still c (c.ring flags calls) := by
  obtain ⟨_, _, _, h⟩ := ring_frame c flags calls
  rw [h]
  exact ⟨⟨id, .inl, .inl⟩, rfl, rfl, .inl rfl, id⟩

theorem answered (c : Client) (answer : Except BackendError FlagSet) :
    Still c (c.answered answer) := by
  by_cases hw : c.worker = .busy
  · obtain ⟨_, _, _, _, h⟩ := answered_frame hw answer
    rw [h]
    exact ⟨⟨id, .inl, nofun⟩, rfl, rfl, .inl rfl, nofun⟩
  · rw [answered_of_not_busy hw]
    exact refl c

theorem settle (c : Client) (o : Outcome) : Still c (c.settle o) := by
  rw [Client.settle]
  split
  · cases o <;> exact ⟨⟨id, .inl, .inl⟩, rfl, rfl, .inl rfl, id⟩
  · exact refl c

theorem shutdown (c : Client) : Still c c.shutdown := by
  rw [Client.shutdown]
  split
  · exact refl c
  · exact ⟨⟨fun _ => rfl, .inl, .inl⟩, rfl, rfl, .inr rfl, id⟩

theorem retire (c : Client) : Still c c.retire := by
  rw [Client.retire]
  split
  · exact refl c
  · exact ⟨⟨fun _ => rfl, fun _ => .inr rfl, .inl⟩, rfl, rfl, .inr rfl, id⟩

end Still

/-- An event turns to a context, or is a step of watcher or worker, or leaves all as it is. -/
theorem act_cases (c : Client) (e : Event) :
    Still c (c.act e) ∨ (∃ context, c.act e = (c.turnTo context).1) ∨ e = .watch ∨ e = .work ∨
      e = .stopWorker := by
  cases e with
  | addContext kind key => exact .inr (.inl ⟨_, congrArg Prod.fst (addContext_eq c kind key)⟩)
  | removeContext kind => exact .inr (.inl ⟨_, congrArg Prod.fst (removeContext_eq c kind)⟩)
  | shutdown => exact .inl (.shutdown c)
  | arrive flags => exact .inl (.ring c flags _)
  | answered answer => exact .inl (.answered c answer)
  | settle o => exact .inl (.settle c o)
  | work => exact .inr (.inr (.inr (.inl rfl)))
  | stopWorker => exact .inr (.inr (.inr (.inr rfl)))
  | watch => exact .inr (.inr (.inl rfl))
  | _ => exact .inl ⟨⟨id, .inl, .inl⟩, rfl, rfl, .inl rfl, id⟩

theorem kept_act (c : Client) (e : Event) : Kept c (c.act e) := by
  rcases act_cases c e with h | ⟨context, h⟩ | rfl | rfl | rfl
  · exact h.toKept
  · obtain ⟨_, _, ht⟩ := turnTo_fst c context
    rw [h, ht]
    exact ⟨id, .inl, .inl⟩
  · obtain ⟨_, _, _, _, hw⟩ := watch_frame c
    rw [act, hw]
    exact ⟨id, .inl, .inl⟩
  · have hb : Worker.busy ≠ .stopped := by decide
    rw [act, work]
    split
    · split
      · exact ⟨id, .inl, .inl⟩
      · split
        · exact ⟨id, .inl, .inl⟩
        · exact ⟨id, .inl, fun hs => absurd hs hb⟩
    · exact ⟨id, .inl, .inl⟩
  · rw [act, stopWorker]
    split
    next hc => exact ⟨id, .inl, fun _ => .inr hc.1⟩
    next => exact ⟨id, .inl, .inl⟩

/-- Only by taking a request the worker gets busy. -/
theorem busy_step {c : Client} {e : Event} (he : e ≠ .work) (h : (c.step e).worker = .busy) :
    c.worker = .busy := by
  have h : (c.act e).worker = .busy := (Still.retire (c.act e)).busy h
  rcases act_cases c e with hs | ⟨context, hs⟩ | rfl | rfl | rfl
  · exact hs.busy h
  · obtain ⟨_, _, ht⟩ := turnTo_fst c context
    rw [hs, ht] at h
    exact h
  · obtain ⟨_, _, _, _, hw⟩ := watch_frame c
    rw [act, hw] at h
    exact h
  · exact absurd rfl he
  · rw [act, stopWorker] at h
    split at h
    · cases h
    · exact h

/-- Only by taking a request the worker hands one over. -/
theorem identified_step {c : Client} {e : Event} (he : e ≠ .work) :
    (c.step e).identified = c.identified :=
  (untold_retire _).identified_eq.trans (untold_act c he).identified_eq

/-- An answer ends the identify that is under way. -/
theorem idle_of_answered (c : Client) (answer : Except BackendError FlagSet) :
    (c.step (.answered answer)).worker ≠ .busy := by
  intro hb
  have hb : (c.answered answer).worker = .busy := (Still.retire _).busy hb
  by_cases hw : c.worker = .busy
  · obtain ⟨_, _, _, _, ha⟩ := answered_frame hw answer
    rw [ha] at hb
    cases hb
  · rw [answered_of_not_busy hw] at hb
    exact hw hb

theorem kept_undergo (c : Client) (o : Occurrence) : Kept c (c.undergo o) := by
  cases o with
  | event e => exact (kept_act c e).trans (Still.retire _).toKept
  | stir flags calls => exact (Still.ring c flags _).toKept

theorem Kept.not_cancelled {c d : Client} (h : Kept c d) (hd : d.cancelled = false) :
    c.cancelled = false := by
  rw [Bool.eq_false_iff] at hd ⊢
  exact fun hc => hd (h.cancelled hc)

theorem not_cancelled_of_live {c : Client} {os : List Occurrence}
    (h : (c.live os).cancelled = false) : c.cancelled = false := by
  induction os generalizing c with
  | nil => exact h
  | cons o os ih => exact (kept_undergo c o).not_cancelled (ih h)

/-- As long as it is not shut down a client is there and has its worker. -/
structure Manned (c : Client) : Prop where
  gone : c.gone = true → c.cancelled = true
  stopped : c.worker = .stopped → c.cancelled = true

theorem Manned.not_gone {c : Client} (h : Manned c) (hc : c.cancelled = false) :
    c.gone = false := by
  rw [Bool.eq_false_iff] at hc ⊢
  exact fun hg => hc (h.gone hg)

theorem Manned.not_stopped {c : Client} (h : Manned c) (hc : c.cancelled = false) :
    c.worker ≠ .stopped := by
  rw [Bool.eq_false_iff] at hc
  exact fun hs => hc (h.stopped hs)

theorem Manned.undergo {c : Client} (h : Manned c) (o : Occurrence) : Manned (c.undergo o) := by
  have k := kept_undergo c o
  refine ⟨fun hg => ?_, fun hs => ?_⟩
  · exact (k.gone hg).elim (fun hg => k.cancelled (h.gone hg)) id
  · exact (k.stopped hs).elim (fun hs => k.cancelled (h.stopped hs)) id

/-! ## one occurrence -/

/-- The context stays and so does the line, or the new context is the last of the line. -/
def Turned (c d : Client) : Prop :=
  (d.context = c.context ∧ d.line = c.line) ∨
    ((d.context == c.context) = false ∧ d.line = c.line ++ [d.context])

namespace Turned

theorem of_still {c d : Client} (h : Still c d) : Turned c d := .inl ⟨h.context_eq, h.line_eq⟩

theorem trans_still {b c d : Client} (h : Turned b c) (k : Still c d) : Turned b d := by
  rw [Turned, k.context_eq, k.line_eq]
  exact h

/-- A client that can still identify asks for each context that it turns to. -/
theorem turnTo {c : Client} (hf : c.lifecycle ≠ .failed) (hw : c.worker ≠ .stopped)
    (context : Context) : Turned c (c.turnTo context).1 := by
  by_cases h : (context == c.context) = true
  · rw [turnTo_of_same h]
    exact .inl ⟨rfl, rfl⟩
  · have hs : ¬ (c.lifecycle = .failed ∨ c.worker = .stopped) := fun e => e.elim hf hw
    rw [turnTo_of_other (Bool.eq_false_iff.mpr h), schedule_fst, if_neg hs]
    refine .inr ⟨Bool.eq_false_iff.mpr h, ?_⟩
    rw [line, line, List.append_assoc]
    rfl

/-- The worker moves the first request that waits to the end of those handed over. -/
theorem work {c : Client} (hf : c.lifecycle ≠ .failed) (hg : c.gone = false) :
    Turned c c.work := by
  rw [Client.work]
  split
  next context rest hw hr =>
    rw [hg, if_neg Bool.false_ne_true, if_neg hf]
    refine .inl ⟨rfl, ?_⟩
    show (c.moves ++ [Move.identified context]).filterMap Move.identified? ++ rest = _
    rw [List.filterMap_append, line, hr, List.append_assoc]
    rfl
  next => exact .inl ⟨rfl, rfl⟩

theorem watch {c : Client} (hf : c.lifecycle ≠ .failed) (hw : c.worker ≠ .stopped) :
    Turned c c.watch := by
  rw [Client.watch]
  cases c.inbox with
  | none => exact .inl ⟨rfl, rfl⟩
  | some next =>
    show Turned c (if _ then _ else _)
    split
    · rw [follow_eq]
      exact turnTo (c := { c with inbox := none, followed := next }) hf hw _
    · exact .inl ⟨rfl, rfl⟩

end Turned

/-- What one occurrence does to context and line of a client that is not shut down by it. -/
theorem turned_undergo {c : Client} (hm : Manned c) (hf : c.lifecycle ≠ .failed) (o : Occurrence)
    (hc : (c.undergo o).cancelled = false) : Turned c (c.undergo o) := by
  have hn : c.cancelled = false := (kept_undergo c o).not_cancelled hc
  have hw : c.worker ≠ .stopped := hm.not_stopped hn
  cases o with
  | stir flags calls => exact .of_still (.ring c flags _)
  | event e =>
    refine Turned.trans_still ?_ (.retire (c.act e))
    rcases act_cases c e with h | ⟨context, h⟩ | rfl | rfl | rfl
    · exact .of_still h
    · rw [h]
      exact .turnTo hf hw context
    · exact .watch hf hw
    · exact .work hf (hm.not_gone hn)
    · rw [act, stopWorker, if_neg fun e => Bool.eq_false_iff.mp hn e.1]
      exact .inl ⟨rfl, rfl⟩

/-! ## requests that are handed over -/

/-- Of the requests that wait, followed by those for other contexts, some are handed over and some
still wait, in their order; the others are dropped. -/
def Drains (c d : Client) (contexts : List Context) : Prop :=
  ∃ taken, d.identified = c.identified ++ taken ∧
    (taken ++ d.requests).Sublist (c.requests ++ contexts)

namespace Drains

/-- Nothing is handed over. -/
theorem of_untold {c d : Client} {contexts : List Context} (h : Untold c d)
    (hr : d.requests.Sublist (c.requests ++ contexts)) : Drains c d contexts :=
  ⟨[], h.identified_eq.trans (List.append_nil _).symm, hr⟩

theorem of_still {c d : Client} (h : Still c d) (contexts : List Context) :
    Drains c d contexts := by
  refine of_untold h.untold ?_
  rw [h.requests_eq]
  exact List.sublist_append_left _ _

theorem trans {b c d : Client} {first later : List Context} (h : Drains b c first)
    (k : Drains c d later) : Drains b d (first ++ later) := by
  obtain ⟨taken, hi, hs⟩ := h
  obtain ⟨more, ki, ks⟩ := k
  refine ⟨taken ++ more, ?_, ?_⟩
  · rw [ki, hi, List.append_assoc]
  · rw [List.append_assoc, ← List.append_assoc b.requests]
    refine (ks.append_left taken).trans ?_
    rw [← List.append_assoc]
    exact hs.append_right later

theorem turnTo (c : Client) (context : Context) :
    Drains c (c.turnTo context).1
      (if (c.turnTo context).1.context == c.context then []
        else [(c.turnTo context).1.context]) := by
  by_cases h : (context == c.context) = true
  · rw [turnTo_of_same h]
    exact of_still (.refl c) _
  · have hn : (context == c.context) = false := Bool.eq_false_iff.mpr h
    rw [turnTo_of_other hn, schedule_fst]
    refine of_untold (.inl rfl) ?_
    show List.Sublist (if _ then _ else _) (c.requests ++ if context == c.context then _ else _)
    rw [hn]
    split
    · exact List.sublist_append_left _ _
    · exact List.Sublist.refl _

theorem watch (c : Client) :
    Drains c c.watch (if c.watch.context == c.context then [] else [c.watch.context]) := by
  rw [Client.watch]
  cases c.inbox with
  | none => exact of_still (.refl c) _
  | some next =>
    dsimp only
    split
    · rw [follow_eq]
      exact turnTo { c with inbox := none, followed := next } _
    · exact of_untold (.inl rfl) (List.sublist_append_left _ _)

/-- The worker hands over the first request that waits, or drops it. -/
theorem work (c : Client) (contexts : List Context) : Drains c c.work contexts := by
  rw [Client.work]
  split
  next context rest hw hr =>
    split
    · exact of_still (.refl c) _
    · split
      · refine of_untold (.inl rfl) ?_
        rw [hr]
        exact ((List.sublist_cons_self context rest).trans (List.sublist_append_left _ _))
      · refine ⟨[context], List.filterMap_append, ?_⟩
        rw [hr]
        exact List.sublist_append_left _ _
  next => exact of_still (.refl c) _

theorem act (c : Client) (e : Event) :
    Drains c (c.act e) (if (c.act e).context == c.context then [] else [(c.act e).context]) := by
  rcases act_cases c e with h | ⟨context, h⟩ | rfl | rfl | rfl
  · exact of_still h _
  · rw [h]
    exact turnTo c context
  · exact watch c
  · exact work c _
  · refine of_untold (untold_act c nofun) ?_
    rw [Client.act, stopWorker]
    split
    · exact List.nil_sublist _
    · exact List.sublist_append_left _ _

theorem undergo (c : Client) (o : Occurrence) :
    Drains c (c.undergo o)
      (if (c.undergo o).context == c.context then [] else [(c.undergo o).context]) := by
  cases o with
  | stir flags calls => exact of_still (.ring c flags _) _
  | event e =>
    have hr : Still (c.act e) (c.step e) := .retire (c.act e)
    have h := (act c e).trans (of_still hr [])
    rw [List.append_nil, ← hr.context_eq] at h
    exact h

end Drains

/-- The line grows by the turns, and the last of them is the context in place. -/
theorem line_live {c : Client} {d : Option Outcome} (hr : Raced c d) (hm : Manned c)
    (os : List Occurrence) (hf : (c.live os).lifecycle ≠ .failed)
    (hc : (c.live os).cancelled = false) :
    (c.live os).line = c.line ++ c.turns os ∧
      (c.context :: c.turns os).getLast? = some (c.live os).context := by
  induction os generalizing c d with
  | nil =>
    rw [turns_nil, live_nil, List.append_nil]
    exact ⟨rfl, rfl⟩
  | cons o os ih =>
    have hf' : c.lifecycle ≠ .failed := by
      intro h
      exact hf ((hr.lifecycle_live (by rw [h]; nofun) (o :: os)).trans h)
    have hc' : (c.undergo o).cancelled = false := not_cancelled_of_live hc
    -- neither failing nor shutting down is undone, so the first occurrence did neither
    obtain ⟨hline, hlast⟩ := ih (hr.undergo o) (hm.undergo o) hf hc
    rw [live_cons, hline, turns_cons]
    rcases turned_undergo hm hf' o hc' with ⟨hctx, hl⟩ | ⟨hctx, hl⟩
    · rw [hctx, Context.same_refl, if_pos rfl, List.nil_append, hl]
      exact ⟨rfl, hctx ▸ hlast⟩
    · rw [hctx, if_neg Bool.false_ne_true, hl, List.append_assoc]
      exact ⟨rfl, hlast⟩

theorem manned_live {c : Client} (h : Manned c) (os : List Occurrence) : Manned (c.live os) := by
  induction os generalizing c with
  | nil => exact h
  | cons o os ih => exact ih (h.undergo o)

/-- What is handed to the connection after it was opened is to be identified. -/
theorem given_undergo {c : Client} {first : Context} (h : c.given = first :: c.identified)
    (o : Occurrence) : (c.undergo o).given = first :: (c.undergo o).identified := by
  have hu : ∀ {b d : Client}, Untold b d → b.given = first :: b.identified →
      d.given = first :: d.identified := by
    intro b d hu hb
    rw [hu.given_eq, hu.identified_eq, hb]
  cases o with
  | stir flags calls => exact hu (Still.ring c flags _).untold h
  | event e =>
    refine hu (untold_retire (c.act e)) ?_
    by_cases he : e = .work
    · rw [he, act, work]
      split
      next context rest _ _ =>
        split
        · exact h
        · split
          · exact h
          · show (c.moves ++ [Move.identified context]).filterMap Move.context? =
              first :: (c.moves ++ [Move.identified context]).filterMap Move.identified?
            rw [List.filterMap_append, List.filterMap_append, ← List.cons_append]
            exact congrArg (· ++ [context]) h
      next => exact h
    · exact hu (untold_act c he) h

theorem given_live {c : Client} {first : Context} (h : c.given = first :: c.identified)
    (os : List Occurrence) : (c.live os).given = first :: (c.live os).identified := by
  induction os generalizing c with
  | nil => exact h
  | cons o os ih => exact ih (given_undergo h o)

/-- A client that can still identify answers that it will if and only if its context changes. -/
theorem turnTo_snd {c : Client} (hf : c.lifecycle ≠ .failed) (hw : c.worker ≠ .stopped)
    (context : Context) :
    ((c.turnTo context).2 = true ↔ ((c.turnTo context).1.context == c.context) = false) ∧
      ((c.turnTo context).2 = false → (c.turnTo context).1 = c) := by
  by_cases h : (context == c.context) = true
  · rw [turnTo_of_same h, Context.same_refl]
    exact ⟨⟨nofun, nofun⟩, fun _ => rfl⟩
  · have hs : ¬ (c.lifecycle = .failed ∨ c.worker = .stopped) := fun e => e.elim hf hw
    have h2 : (schedule { c with context }).2 = true := by
      rw [schedule_snd, decide_eq_false hs]
      rfl
    rw [turnTo_of_other (Bool.eq_false_iff.mpr h), h2, schedule_fst]
    exact ⟨⟨fun _ => Bool.eq_false_iff.mpr h, fun _ => rfl⟩, nofun⟩

/-- **As long as a client neither failed nor is shut down, adding or removing a sub-context answers
whether the context changed; the contexts that were handed over to be identified, followed by those
that wait, are the contexts that it turned to, each once and in their order; and when none waits the
connection was given the context in place last.** -/
theorem requests_in_order (options : Options) (identity : Identity) (connection : Feed Role)
    (forgetful : Bool) (os : List Occurrence)
    (hf : ((start options identity connection forgetful).live os).lifecycle ≠ .failed)
    (hc : ((start options identity connection forgetful).live os).cancelled = false) :
    let begun := start options identity connection forgetful
    let c := begun.live os
    (∀ kind key,
      ((c.addContext kind key).2 = true ↔
        ((c.addContext kind key).1.context == c.context) = false) ∧
      ((c.addContext kind key).2 = false → (c.addContext kind key).1 = c)) ∧
    (∀ kind,
      ((c.removeContext kind).2 = true ↔
        ((c.removeContext kind).1.context == c.context) = false) ∧
      ((c.removeContext kind).2 = false → (c.removeContext kind).1 = c)) ∧
    c.identified ++ c.requests = begun.turns os ∧
    (c.requests = [] → c.given.getLast? = some c.context) := by
  intro begun c
  have hr : Raced begun none := .start options identity connection forgetful
  have hm : Manned begun := ⟨nofun, nofun⟩
  have hw : c.worker ≠ .stopped := (manned_live hm os).not_stopped hc
  obtain ⟨hline, hlast⟩ := line_live hr hm os hf hc
  refine ⟨fun kind key => ?_, fun kind => ?_, hline, fun hn => ?_⟩
  · rw [addContext_eq]
    exact turnTo_snd hf hw _
  · rw [removeContext_eq]
    exact turnTo_snd hf hw _
  · have hg : c.given = begun.context :: c.identified := given_live rfl os
    have hi : c.identified = begun.turns os := by
      rw [← List.append_nil c.identified, ← hn]
      exact hline
    rw [hg, hi]
    exact hlast

theorem requests_of_workspace :
    let begun := start ⟨"key", {}⟩ (.anonymous "en") .empty true
    let c := begun.live [.event (.addContext "workspace" "w1"), .event .work,
      .event (.removeContext "workspace"), .event (.settle .ready)]
    c.lifecycle ≠ .failed ∧ c.cancelled = false ∧
      c.identified ++ c.requests = begun.turns [.event (.addContext "workspace" "w1"), .event .work,
        .event (.removeContext "workspace"), .event (.settle .ready)] := by
  refine ⟨by decide, by decide, ?_⟩
  exact (requests_in_order _ _ _ _ _ (by decide) (by decide)).2.2.1

end FeatureFlags.Client
