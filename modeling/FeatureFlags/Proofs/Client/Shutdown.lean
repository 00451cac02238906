import FeatureFlags.Proofs.Client.Mirror

/-!
# Listeners and streams of a client that is shut down

What a client has registered at its connection and handed out to its readers, and what is left of it
when the client is shut down.

* `Client.Hears`      nothing is registered, and the registry at most hears some calls;
* `Client.act_cases_listeners`   all other ways in which an event touches listeners or streams;
* `Client.Attends`    beside the registry, the client itself has the listener that it knows of;
* `Client.Bare`       nothing is registered and no stream is open;
* `Client.bare_shutdown`, `Client.over_shutdown`   a client that is shut down is bare, and the
                      streams that it handed out are over.
-/

namespace FeatureFlags.Client

open Registry (foreign own Over Wired)

/-! ## what an event does to listeners and streams -/

/-- Nothing is registered, and the registry at most hears some calls. -/
structure Hears (c d : Client) : Prop where
  listeners_eq : d.connection.listeners = c.connection.listeners
  listener_eq : d.listener = c.listener
  registry_eq : ∃ calls : List (Call Role), d.registry = c.registry.hear calls

namespace Hears

theorem refl (c : Client) : Hears c c := ⟨rfl, rfl, [], rfl⟩

theorem ring (c : Client) (flags : FlagSet) (calls : List (Call Role)) :
    Hears c (c.ring flags calls) := by
  by_cases h : c.gone = true
  · rw [ring_of_gone h]
    exact ⟨rfl, rfl, [], rfl⟩
  · rw [ring_of_not_gone (Bool.eq_false_iff.mpr h)]
    exact ⟨rfl, rfl, calls, rfl⟩

theorem arrive (c : Client) (flags : FlagSet) : Hears c (c.arrive flags) := ring c flags _

theorem answered (c : Client) (answer : Except BackendError FlagSet) :
    Hears c (c.answered answer) := by
  by_cases hw : c.worker = .busy
  · cases answer with
    | error e =>
      rw [answered_error hw]
      exact ⟨rfl, rfl, [], rfl⟩
    | ok flags =>
      have ha := arrive { c with worker := .idle } flags
      rw [answered_ok hw]
      split <;> exact ⟨ha.listeners_eq, ha.listener_eq, ha.registry_eq⟩
  · rw [answered_of_not_busy hw]
    exact refl c

/-- The end of the wait registers nothing unless the first flags are there. -/
theorem settle (c : Client) {o : Outcome} (h : c.waiting = true → o ≠ .ready) :
    Hears c (c.settle o) := by
  rw [Client.settle]
  by_cases hw : c.waiting = true
  · rw [if_pos hw]
    cases o with
    | ready => exact absurd rfl (h hw)
    | refused => exact ⟨rfl, rfl, [], rfl⟩
    | timeout => exact ⟨rfl, rfl, [], rfl⟩
    | cancelled => exact ⟨rfl, rfl, [], rfl⟩
  · rw [if_neg hw]
    exact refl c

end Hears

theorem act_cases_listeners (c : Client) (e : Event) :
    Hears c (c.act e) ∨ (∃ flag, e = .subscribe flag) ∨ (∃ id, e = .unsubscribe id) ∨
      (∃ id, e = .take id) ∨ e = .shutdown ∨ (e = .settle .ready ∧ c.waiting = true) := by
  by_cases hi : e.inward = true
  · obtain ⟨_, _, _, _, _, _, _, _, h⟩ := act_inward c hi
    rw [h]
    exact .inl ⟨rfl, rfl, [], rfl⟩
  · cases e with
    | subscribe flag => exact .inr (.inl ⟨flag, rfl⟩)
    | unsubscribe id => exact .inr (.inr (.inl ⟨id, rfl⟩))
    | take id => exact .inr (.inr (.inr (.inl ⟨id, rfl⟩)))
    | shutdown => exact .inr (.inr (.inr (.inr (.inl rfl))))
    | arrive flags => exact .inl (.arrive c flags)
    | answered answer => exact .inl (.answered c answer)
    | settle o =>
      by_cases h : c.waiting = true ∧ o = .ready
      · obtain ⟨hw, rfl⟩ := h
        exact .inr (.inr (.inr (.inr (.inr ⟨rfl, hw⟩))))
      · exact .inl (.settle c fun hw ho => h ⟨hw, ho⟩)
    | _ => exact absurd rfl hi

/-! ## as long as the client is not shut down -/

/-- Beside those of the registry the connection has the listener of the client itself, if it has
one, and no other. -/
def Attends (c : Client) : Prop :=
  foreign c.connection.listeners = (c.listener.map (fun id => (id, Topic.anyChange, ()))).toList

theorem Attends.act {c : Client} (h : Attends c) (hs : Synced c)
    (hw : c.waiting = true → c.lifecycle = .initializing) {e : Event}
    (hc : (c.act e).cancelled = false) : Attends (c.act e) := by
  rcases act_cases_listeners c e with he | ⟨flag, rfl⟩ | ⟨id, rfl⟩ | ⟨id, rfl⟩ | rfl | ⟨rfl, hwait⟩
  · rw [Attends, he.listeners_eq, he.listener_eq]
    exact h
  · exact (Registry.foreign_subscribe c.registry c.connection.listeners flag).trans h
  · exact (hs.wired.foreign_unsubscribe id).trans h
  · exact h
  · rw [Client.act, cancelled_shutdown] at hc
    cases hc
  · -- the client did not listen before, and now does
    have hl : c.lifecycle ≠ .initialized := by
      rw [hw hwait]
      decide
    rw [Client.act, settle, if_pos hwait]
    show foreign (c.connection.listeners.add .anyChange (.other ())).1 = _
    rw [Registry.foreign_add, hs.alone hl]
    rfl

theorem Attends.step {c : Client} {d : Option Outcome} (hr : Raced c d)
    (hs : c.cancelled = false → Synced c) (h : c.cancelled = false → Attends c) (e : Event)
    (hc : (c.step e).cancelled = false) : Attends (c.step e) := by
  have hact : c.step e = c.act e := retire_of_not_cancelled hc
  have hn : c.cancelled = false := (kept_undergo c (.event e)).not_cancelled hc
  rw [hact] at hc ⊢
  exact (h hn).act (hs hn) hr.initializing_of_waiting hc

/-- The wait does not begin again. -/
theorem waiting_of_step {c : Client} {e : Event} (h : (c.step e).waiting = true) :
    c.waiting = true := by
  have h : (c.act e).waiting = true := (Unmoved.retire (c.act e)).waiting_eq.symm.trans h
  by_cases he : ∃ o, e = .settle o
  · obtain ⟨o, rfl⟩ := he
    by_contra hw
    rw [act, settle_of_not_waiting (Bool.eq_false_iff.mpr hw)] at h
    exact hw h
  · exact (Unmoved.act c fun o ho => he ⟨o, ho⟩).waiting_eq.symm.trans h

/-! ## the shutdown -/

/-- Nothing is registered at the connection, and no stream is open. -/
structure Bare (c : Client) : Prop where
  listeners_eq : c.connection.listeners.listeners = []
  groups_eq : c.registry.groups = []

theorem Bare.close {c : Client} (h : Bare c) : Bare c.close := by
  refine ⟨?_, h.groups_eq⟩
  show (if _ then _ else _ : Feed Role).listeners.listeners = []
  split
  · rfl
  · exact h.listeners_eq

/-- All that a client registered is taken away when it is shut down. -/
theorem bare_shutdown {c : Client} (hc : c.cancelled = false)
    (hw : Wired c.registry c.connection.listeners) (ha : Attends c) : Bare c.shutdown := by
  rw [shutdown, if_neg (Bool.eq_false_iff.mp hc)]
  refine Bare.close ⟨?_, rfl⟩
  -- first the listener of the client goes, then those of the registry
  refine hw.listeners_clear ?_ ?_
  · cases c.listener with
    | none => exact List.Subset.refl _
    | some id =>
      show own (c.connection.listeners.remove id) ⊆ own c.connection.listeners
      rw [Registry.own_remove]
      exact List.filter_sublist.subset
  · rw [Attends] at ha
    cases hl : c.listener with
    | none =>
      rw [hl] at ha
      exact ha
    | some id =>
      rw [hl] at ha
      show foreign (c.connection.listeners.remove id) = []
      rw [Registry.foreign_remove, ha]
      simp

theorem over_shutdown {c : Client} (hc : c.cancelled = false) :
    Over c.registry c.shutdown.registry := by
  rw [shutdown, if_neg (Bool.eq_false_iff.mp hc)]
  exact .of_no_groups rfl rfl rfl

namespace Bare

variable {c : Client}

theorem subscriberCount_eq (h : Bare c) (flag : String) : c.subscriberCount flag = 0 := by
  rw [subscriberCount, Registry.count, Registry.group?, h.groups_eq]
  rfl

theorem of_hears {d : Client} (h : Bare c) (hd : Hears c d) : Bare d := by
  obtain ⟨calls, hr⟩ := hd.registry_eq
  refine ⟨?_, ?_⟩
  · rw [hd.listeners_eq]
    exact h.listeners_eq
  · rw [hr, Registry.groups_hear]
    exact h.groups_eq

theorem unsubscribe (h : Bare c) (id : StreamId) : Bare (c.unsubscribe id) := by
  obtain ⟨hg, hl⟩ := Registry.unsubscribe_of_no_groups h.groups_eq c.connection.listeners id
  refine ⟨?_, hg⟩
  show (c.registry.unsubscribe c.connection.listeners id).2.listeners = []
  rw [hl]
  exact h.listeners_eq

theorem shutdown (h : Bare c) : Bare c.shutdown := by
  rw [Client.shutdown]
  split
  · exact h
  · refine close ⟨?_, rfl⟩
    have hclear : ∀ ls : ListenerSet Role, (c.registry.clear ls).2 = ls := by
      intro ls
      rw [Registry.clear, h.groups_eq]
      rfl
    show (c.registry.clear _).2.listeners = []
    rw [hclear]
    cases c.listener with
    | none => exact h.listeners_eq
    | some id =>
      show c.connection.listeners.listeners.filter _ = []
      rw [h.listeners_eq, List.filter_nil]

theorem act (h : Bare c) {e : Event} (hs : ∀ flag, e ≠ .subscribe flag)
    (hw : c.waiting = true → e ≠ .settle .ready) : Bare (c.act e) := by
  rcases act_cases_listeners c e with he | ⟨flag, rfl⟩ | ⟨id, rfl⟩ | ⟨id, rfl⟩ | rfl | ⟨rfl, hwait⟩
  · exact h.of_hears he
  · exact absurd rfl (hs flag)
  · exact h.unsubscribe id
  · exact ⟨h.listeners_eq, (Registry.groups_take c.registry id).trans h.groups_eq⟩
  · exact h.shutdown
  · exact absurd rfl (hw hwait)

theorem retire (h : Bare c) : Bare c.retire := by
  rw [Client.retire]
  split
  · exact h
  · exact close ⟨h.listeners_eq, rfl⟩

/-- A client that is shut down stays bare unless somebody subscribes or its first flags come. -/
theorem run (h : Bare c) {es : List Event} (hs : ∀ flag, .subscribe flag ∉ es)
    (hw : c.waiting = true → .settle .ready ∉ es) : Bare (c.run es) := by
  induction es generalizing c with
  | nil => exact h
  | cons e es ih =>
    have hstep : Bare (c.step e) := by
      refine (h.act (fun flag he => hs flag ?_) fun hwait he => hw hwait ?_).retire
      · exact he ▸ List.mem_cons_self
      · exact he ▸ List.mem_cons_self
    refine ih hstep (fun flag hm => hs flag (List.mem_cons_of_mem _ hm)) fun hwait hm => ?_
    -- who waits after the event waited before it
    exact hw (waiting_of_step hwait) (List.mem_cons_of_mem _ hm)

end Bare

/-- Whatever happens then, streams that are over stay so. -/
theorem over_act {q : Registry} {c : Client} (h : Over q c.registry) (e : Event) :
    Over q (c.act e).registry := by
  rcases act_cases_listeners c e with he | ⟨flag, rfl⟩ | ⟨id, rfl⟩ | ⟨id, rfl⟩ | rfl | ⟨rfl, hwait⟩
  · obtain ⟨calls, hr⟩ := he.registry_eq
    rw [hr]
    exact h.hear calls
  · exact h.subscribe c.connection.listeners flag
  · exact h.unsubscribe c.connection.listeners id
  · exact h.take id
  · rw [act, shutdown]
    split
    · exact h
    · exact h.without_groups rfl rfl rfl
  · rw [act, settle, if_pos hwait]
    exact h.of_groups_subset rfl (fun _ _ hm => hm) fun _ s _ hs => ⟨s, hs, rfl⟩

theorem over_step {q : Registry} {c : Client} (h : Over q c.registry) (e : Event) :
    Over q (c.step e).registry := by
  rw [step, retire]
  split
  · exact over_act h e
  · exact (over_act h e).without_groups rfl rfl rfl

theorem over_run {q : Registry} {c : Client} (h : Over q c.registry) (es : List Event) :
    Over q (c.run es).registry := by
  induction es generalizing c with
  | nil => exact h
  | cons e es ih => exact ih (over_step h e)

theorem over_step_shutdown {c : Client} (hc : c.cancelled = false) :
    Over c.registry (c.step .shutdown).registry := by
  rw [step, act, retire]
  split
  · exact over_shutdown hc
  · exact (over_shutdown hc).without_groups rfl rfl rfl

end FeatureFlags.Client
