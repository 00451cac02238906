import FeatureFlags.Proofs.Client.Requests
import FeatureFlags.Proofs.Equality

/-!
# The flags of a client

A client that is initialized holds the flags of its connection, whatever happens to either.

* `Client.Synced`           the client listens to its connection, and its flags are the same;
* `Client.Synced.step`      every event keeps this, until the client is shut down;
* `Client.flags_connection_act`   which events change the flags of the connection.
-/

namespace FeatureFlags.Client

open Registry (foreign others Wired)

/-! ## the flags of the connection -/

/-- Closing a connection leaves its flags. -/
theorem flags_connection_close (c : Client) : c.close.connection.flags = c.connection.flags := by
  show (if _ then _ else _ : Feed Role).flags = _
  split <;> rfl

theorem flags_connection_retire (c : Client) :
    c.retire.connection.flags = c.connection.flags := by
  rw [retire]
  split
  · rfl
  · exact flags_connection_close _

theorem flags_connection_arrive (c : Client) (flags : FlagSet) :
    (c.arrive flags).connection.flags = flags := by
  obtain ⟨_, _, _, h⟩ := ring_frame c flags
    (c.connection.listeners.calls (c.connection.flags.changesTo flags))
  rw [arrive_eq_ring, h]

theorem flags_connection_answered {c : Client} (h : c.worker = .busy) (flags : FlagSet) :
    (c.answered (.ok flags)).connection.flags = flags := by
  have ha := flags_connection_arrive { c with worker := .idle } flags
  rw [answered_ok h]
  split <;> exact ha

/-- Only the connection changes its flags. -/
theorem flags_connection_act (c : Client) {e : Event} (harr : ∀ flags, e ≠ .arrive flags)
    (hans : ∀ answer, e ≠ .answered answer) :
    (c.act e).connection.flags = c.connection.flags := by
  by_cases hi : e.inward = true
  · obtain ⟨_, _, _, _, _, _, _, _, h⟩ := act_inward c hi
    rw [h]
  · cases e with
    | subscribe flag => rfl
    | unsubscribe id => rfl
    | take id => rfl
    | shutdown =>
      rw [act, shutdown]
      split
      · rfl
      · exact flags_connection_close _
    | arrive flags => exact absurd rfl (harr flags)
    | answered answer => exact absurd rfl (hans answer)
    | settle o =>
      rw [act, settle]
      split
      · cases o <;> rfl
      · rfl
    | _ => exact absurd rfl hi

/-! ## the flags of the client -/

/-- The registry is wired to the connection; once the client is initialized it listens to any change
itself, and its flags are those of the connection. -/
structure Synced (c : Client) : Prop where
  wired : Wired c.registry c.connection.listeners
  alone : c.lifecycle ≠ .initialized → foreign c.connection.listeners = []
  listening : c.lifecycle = .initialized →
    ∃ id, foreign c.connection.listeners = [(id, .anyChange, ())]
  flags_same : c.lifecycle = .initialized → c.flags.same c.connection.flags = true

namespace Synced

variable {c : Client}

theorem start (options : Options) (identity : Identity) (flags : FlagSet) (forgetful : Bool) :
    Synced (Client.start options identity ⟨flags, .empty⟩ forgetful) :=
  ⟨Registry.wired_empty, fun _ => rfl, nofun, nofun⟩

theorem subscribe (h : Synced c) (flag : String) : Synced (c.subscribe flag).1 := by
  have hf : foreign (c.subscribe flag).1.connection.listeners = foreign c.connection.listeners :=
    Registry.foreign_subscribe c.registry c.connection.listeners flag
  refine ⟨h.wired.subscribe flag, ?_, ?_, h.flags_same⟩
  · rw [hf]
    exact h.alone
  · rw [hf]
    exact h.listening

theorem unsubscribe (h : Synced c) (id : StreamId) : Synced (c.unsubscribe id) := by
  have hf : foreign (c.unsubscribe id).connection.listeners = foreign c.connection.listeners :=
    h.wired.foreign_unsubscribe id
  refine ⟨h.wired.unsubscribe id, ?_, ?_, h.flags_same⟩
  · rw [hf]
    exact h.alone
  · rw [hf]
    exact h.listening

theorem take (h : Synced c) (id : StreamId) : Synced (c.take id).1 :=
  ⟨h.wired.of_groups_eq (Registry.groups_take c.registry id), h.alone, h.listening, h.flags_same⟩

/-- If the flags of the connection change the client takes them over; if they are only written in
another way it has no need to. -/
theorem arrive (h : Synced c) (hg : c.gone = false) (flags : FlagSet) :
    Synced (c.arrive flags) := by
  rw [arrive_eq_ring, ring_of_not_gone hg]
  refine ⟨h.wired.of_groups_eq (Registry.groups_hear _ _), h.alone, h.listening, fun hl => ?_⟩
  obtain ⟨id, hf⟩ := h.listening hl
  show FlagSet.same (if _ then _ else _) flags = true
  by_cases hc : c.connection.flags.changesTo flags = []
  · rw [hc, ListenerSet.calls_nil]
    exact FlagSet.same_trans (h.flags_same hl) ((FlagSet.changesTo_eq_nil_iff _ _).mp hc)
  · rw [Registry.others_calls_of_anyChange hf hc]
    exact FlagSet.same_refl flags

theorem answered (h : Synced c) (hg : c.gone = false) (answer : Except BackendError FlagSet) :
    Synced (c.answered answer) := by
  by_cases hw : c.worker = .busy
  · cases answer with
    | error e =>
      rw [answered_error hw]
      exact ⟨h.wired, h.alone, h.listening, h.flags_same⟩
    | ok flags =>
      have hi : Synced { c with worker := .idle } := ⟨h.wired, h.alone, h.listening, h.flags_same⟩
      have ha : Synced (Client.arrive { c with worker := .idle } flags) := hi.arrive hg flags
      have hf := flags_connection_arrive { c with worker := .idle } flags
      -- the flags of the answer are put in place after the listeners, who may have done so already
      have hs : Synced { Client.arrive { c with worker := .idle } flags with flags } := by
        refine ⟨ha.wired, ha.alone, ha.listening, fun _ => ?_⟩
        show flags.same (Client.arrive { c with worker := .idle } flags).connection.flags = true
        rw [hf]
        exact FlagSet.same_refl flags
      rw [answered_ok hw]
      split
      · exact ⟨hs.wired, hs.alone, hs.listening, hs.flags_same⟩
      · exact hs
  · rw [answered_of_not_busy hw]
    exact h

/-- A client that becomes initialized listens, and takes over the flags that there are. -/
theorem settle (h : Synced c) (hw : c.waiting = true → c.lifecycle = .initializing) (o : Outcome) :
    Synced (c.settle o) := by
  rw [Client.settle]
  by_cases hwait : c.waiting = true
  · have hfailed : Lifecycle.failed ≠ .initialized := by decide
    have hl : c.lifecycle ≠ .initialized := by
      rw [hw hwait]
      decide
    rw [if_pos hwait]
    cases o with
    | ready =>
      have hf : foreign (c.connection.listeners.add .anyChange (.other ())).1 =
          [(c.connection.listeners.next, .anyChange, ())] := by
        rw [Registry.foreign_add, h.alone hl]
        rfl
      have hr := (h.wired.listen .anyChange ()).of_groups_eq (q := c.registry.enable) rfl
      exact ⟨hr, fun hn => absurd rfl hn, fun _ => ⟨_, hf⟩,
        fun _ => FlagSet.same_refl c.connection.flags⟩
    | refused =>
      exact ⟨h.wired, fun _ => h.alone hl, fun hn => absurd hn hfailed, fun hn => absurd hn hfailed⟩
    | timeout =>
      exact ⟨h.wired, fun _ => h.alone hl, fun hn => absurd hn hfailed, fun hn => absurd hn hfailed⟩
    | cancelled => exact ⟨h.wired, h.alone, h.listening, h.flags_same⟩
  · rw [if_neg hwait]
    exact h

theorem act (h : Synced c) (hg : c.gone = false)
    (hw : c.waiting = true → c.lifecycle = .initializing) {e : Event}
    (hc : (c.act e).cancelled = false) : Synced (c.act e) := by
  by_cases hi : e.inward = true
  · obtain ⟨_, _, _, _, _, _, _, _, ha⟩ := act_inward c hi
    rw [ha]
    exact ⟨h.wired, h.alone, h.listening, h.flags_same⟩
  · cases e with
    | subscribe flag => exact h.subscribe flag
    | unsubscribe id => exact h.unsubscribe id
    | take id => exact h.take id
    | shutdown =>
      rw [Client.act, cancelled_shutdown] at hc
      cases hc
    | arrive flags => exact h.arrive hg flags
    | answered answer => exact h.answered hg answer
    | settle o => exact h.settle hw o
    | _ => exact absurd rfl hi

end Synced

/-! ## one event -/

/-- Whoever is not shut down did not go. -/
theorem retire_of_not_cancelled {c : Client} (h : c.retire.cancelled = false) : c.retire = c := by
  rw [retire] at h ⊢
  split at h
  next hn => rw [if_pos hn]
  next => cases h

theorem Synced.step {c : Client} {d : Option Outcome} (hm : Manned c) (hr : Raced c d)
    (h : c.cancelled = false → Synced c) (e : Event) (hc : (c.step e).cancelled = false) :
    Synced (c.step e) := by
  have hs : c.step e = c.act e := retire_of_not_cancelled hc
  have hn : c.cancelled = false := (kept_undergo c (.event e)).not_cancelled hc
  rw [hs] at hc ⊢
  exact (h hn).act (hm.not_gone hn) hr.initializing_of_waiting hc

end FeatureFlags.Client
