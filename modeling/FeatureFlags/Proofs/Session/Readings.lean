import FeatureFlags.Proofs.Client.Shutdown
import FeatureFlags.Proofs.Differences
import FeatureFlags.Proofs.Session.Runs

/-!
# Streams and readings

What a stream got last is what can be read, from the moment it is opened.  Values come to streams by
the changes that a connection tells of, and to readers by whole flag sets.

* `FlagSet.valueAt`           the value of a flag, null if there is none;
* `FlagSet.news_changesTo`    the changes between two sets bring its new value if it is another one;
* `Client.reading`            what an application reads;
* `Client.Tuned`              a client that can open streams: their numbers are new, and once it is
                              initialized they get values;
* `Client.Reports`            what a stream got last is the value on the connection;
* `Client.Reports.act`        every event keeps that, until the stream is dropped;
* `Session.reading_of_stream`   so streams and readings agree, on any backend and in any run.
-/

namespace FeatureFlags

open Registry (Fresh Stream Tracks news)

/-! ## values -/

namespace FlagSet

/-- the value of a flag; a flag that is absent reads as null -/
def valueAt (flags : FlagSet) (flag : String) : Json := (flags.find? flag).getD .null

theorem valueAt_of_unchanged {f g : FlagSet} {flag : String}
    (h : unchanged (f.find? flag) (g.find? flag) = true) :
    (f.valueAt flag == g.valueAt flag) = true := by
  unfold valueAt
  cases hg : g.find? flag with
  | none =>
    rw [hg, unchanged_none_iff] at h
    rw [h]
    rfl
  | some b =>
    rw [hg, unchanged_some_iff] at h
    obtain ⟨a, ha, hab⟩ := h
    rw [ha]
    exact hab

theorem valueAt_of_same {f g : FlagSet} (h : f.same g = true) (flag : String) :
    (f.valueAt flag == g.valueAt flag) = true :=
  valueAt_of_unchanged ((same_iff_unchanged f g).mp h flag)

/-- The changes from one set to another bring the value of a flag once if it is another one. -/
theorem news_changesTo (old new : FlagSet) (flag : String) :
    news flag (old.changesTo new) =
      if unchanged (old.find? flag) (new.find? flag) then [] else [new.valueAt flag] := by
  have hfilter := Registry.filter_eq_find?_of_nodup (nodup_changesTo old new) flag
  unfold news
  rw [hfilter]
  cases hc : (old.changesTo new).find? (fun c => c.name = flag) with
  | none =>
    have hu : unchanged (old.find? flag) (new.find? flag) = true := by
      by_contra hu
      have hm : (⟨flag, old.find? flag, new.find? flag⟩ : Change) ∈ old.changesTo new :=
        mem_changesTo_iff.mpr ⟨rfl, rfl, Bool.eq_false_iff.mpr hu⟩
      simpa using List.find?_eq_none.mp hc _ hm
    rw [if_pos hu]
    rfl
  | some c =>
    have hname : c.name = flag := by simpa using List.find?_some hc
    obtain ⟨hprevious, hcurrent, hu⟩ := mem_changesTo_iff.mp (List.mem_of_find?_eq_some hc)
    rw [hprevious, hcurrent, hname] at hu
    have hvalue : Registry.valueOf c = new.valueAt flag := by
      unfold Registry.valueOf valueAt
      rw [hcurrent, hname]
    rw [hu, if_neg Bool.false_ne_true, ← hvalue]
    rfl

end FlagSet

/-! ## the last value of a stream -/

namespace Registry

/-- the last value of a stream; `first` is what counts as long as there is none -/
def Stream.last (first : Json) (s : Stream) : Json := s.delivered.getLast?.getD first

theorem last_push (first : Json) (s : Stream) (values : List Json) :
    (s.push values).last first = values.getLast?.getD (s.last first) := by
  unfold Stream.last Stream.push
  rw [List.getLast?_append]
  cases values.getLast? <;> rfl

/-- A stream of values of any shape hands out all that it got. -/
theorem itemsOf_any (values : List Json) : itemsOf .any values = values :=
  List.filterMap_some

theorem delivered_takeAll (id : StreamId) (s : Stream) :
    (s.takeAll id).delivered = s.delivered := by
  unfold Stream.takeAll
  split <;> rfl

theorem flag_takeAll (id : StreamId) (s : Stream) : (s.takeAll id).flag = s.flag := by
  unfold Stream.takeAll
  split <;> rfl

end Registry

namespace Client

/-- what an application reads of a flag, whatever its shape; null if there is nothing -/
def reading (c : Client) (flag : String) : Json := (c.experiment .any flag).getD .null

theorem reading_of_initialized {c : Client} (h : c.lifecycle = .initialized) (flag : String) :
    c.reading flag = c.flags.valueAt flag := by
  unfold reading experiment FlagSet.valueAt
  rw [flagsInUse_of_initialized h]
  cases c.flags.find? flag <;> rfl

/-! ## clients that can open streams -/

/-- The numbers of new streams are new, and once the client is initialized streams get values. -/
structure Tuned (c : Client) : Prop where
  fresh : Fresh c.registry
  enabled : c.lifecycle = .initialized → c.registry.enabled = true

namespace Tuned

variable {c : Client}

theorem start (options : Options) (identity : Identity) (connection : Feed Role)
    (forgetful : Bool) : Tuned (Client.start options identity connection forgetful) :=
  ⟨Registry.fresh_empty, nofun⟩

/-- The wait ends: with the first flags the registry is enabled, and without them the client is not
initialized. -/
theorem settle (h : Tuned c) (o : Outcome) : Tuned (c.settle o) := by
  have hfailed : Lifecycle.failed ≠ .initialized := by decide
  unfold Client.settle
  split
  · cases o with
    | ready => exact ⟨⟨h.fresh.stream_lt, h.fresh.member_lt⟩, fun _ => rfl⟩
    | refused => exact ⟨h.fresh, fun hl => absurd hl hfailed⟩
    | timeout => exact ⟨h.fresh, fun hl => absurd hl hfailed⟩
    | cancelled => exact ⟨h.fresh, h.enabled⟩
  · exact h

theorem act (h : Tuned c) (hs : Synced c) {e : Event} (hc : (c.act e).cancelled = false) :
    Tuned (c.act e) := by
  by_cases he : ∃ o, e = .settle o
  · obtain ⟨o, rfl⟩ := he
    exact h.settle o
  · have hl : (c.act e).lifecycle = c.lifecycle :=
      (Unmoved.act c fun o ho => he ⟨o, ho⟩).lifecycle_eq
    rcases act_cases_listeners c e with hh | ⟨flag, rfl⟩ | ⟨id, rfl⟩ | ⟨id, rfl⟩ | rfl | ⟨rfl, -⟩
    · obtain ⟨calls, hr⟩ := hh.registry_eq
      refine ⟨hr ▸ h.fresh.hear calls, fun hi => ?_⟩
      rw [hr, Registry.enabled_hear]
      exact h.enabled (hl.symm.trans hi)
    · refine ⟨h.fresh.subscribe c.connection.listeners flag, fun hi => ?_⟩
      exact (Registry.enabled_subscribe _ _ flag).trans (h.enabled hi)
    · refine ⟨h.fresh.unsubscribe hs.wired id, fun hi => ?_⟩
      exact (Registry.enabled_unsubscribe _ _ id).trans (h.enabled hi)
    · exact ⟨h.fresh.take id, fun hi => (Registry.enabled_take _ id).trans (h.enabled hi)⟩
    · rw [Client.act, cancelled_shutdown] at hc
      cases hc
    · exact absurd ⟨_, rfl⟩ he

end Tuned

theorem Tuned.step {c : Client} (hs : c.cancelled = false → Synced c)
    (h : c.cancelled = false → Tuned c) (e : Event) (hc : (c.step e).cancelled = false) :
    Tuned (c.step e) := by
  have hact : c.step e = c.act e := retire_of_not_cancelled hc
  have hn : c.cancelled = false := (kept_undergo c (.event e)).not_cancelled hc
  rw [hact] at hc ⊢
  exact (h hn).act (hs hn) hc

/-! ## what a stream got last -/

/-- A stream is open, and what it got last is the value of its flag on the connection. -/
structure Reports (c : Client) (first : Json) (s : Stream) : Prop where
  tracks : Tracks c.registry s
  attached : c.registry.attached s.id = true
  enabled : c.registry.enabled = true
  last_same : (s.last first == c.connection.flags.valueAt s.flag) = true

namespace Reports

variable {c : Client} {first : Json} {s : Stream}

theorem of_eq (h : Reports c first s) {d : Client} (hr : d.registry = c.registry)
    (hf : d.connection.flags = c.connection.flags) : Reports d first s := by
  refine ⟨?_, ?_, ?_, ?_⟩
  · rw [hr]
    exact h.tracks
  · rw [hr]
    exact h.attached
  · rw [hr]
    exact h.enabled
  · rw [hf]
    exact h.last_same

/-- A new stream got nothing; what counts is what could be read when it was opened. -/
theorem subscribe_self (ht : Tuned c) (hs : Synced c) (hl : c.lifecycle = .initialized)
    (flag : String) :
    Reports (c.subscribe flag).1 (c.reading flag) ⟨c.registry.next, flag, [], 0⟩ := by
  obtain ⟨htracks, hattached⟩ := ht.fresh.tracks_subscribe c.connection.listeners flag
  refine ⟨htracks, hattached, ?_, ?_⟩
  · exact (Registry.enabled_subscribe _ _ flag).trans (ht.enabled hl)
  · show (c.reading flag == c.connection.flags.valueAt flag) = true
    rw [reading_of_initialized hl]
    exact FlagSet.valueAt_of_same (hs.flags_same hl) flag

theorem subscribe (h : Reports c first s) (flag : String) :
    Reports (c.subscribe flag).1 first s := by
  refine ⟨h.tracks.subscribe flag, ?_, ?_, h.last_same⟩
  · exact (Registry.attached_congr (h.tracks.member_of_subscribe flag)).trans h.attached
  · exact (Registry.enabled_subscribe _ _ flag).trans h.enabled

theorem unsubscribe (h : Reports c first s) (hs : Synced c) {id : StreamId} (hi : s.id ≠ id) :
    Reports (c.unsubscribe id) first s := by
  refine ⟨h.tracks.unsubscribe hs.wired hi, ?_, ?_, h.last_same⟩
  · have hm := Tracks.member_of_unsubscribe hs.wired hi
    exact (Registry.attached_congr hm).trans h.attached
  · exact (Registry.enabled_unsubscribe _ _ id).trans h.enabled

/-- What is taken from a stream was delivered to it all the same. -/
theorem take (h : Reports c first s) (id : StreamId) :
    ∃ t, t.id = s.id ∧ t.flag = s.flag ∧ Reports (c.take id).1 first t := by
  have hattached : ∀ i, (c.registry.take id).1.attached i = c.registry.attached i := fun i =>
    Registry.attached_congr fun f => Registry.member_congr (Registry.groups_take _ id) f i
  have henabled : (c.take id).1.registry.enabled = true :=
    (Registry.enabled_take _ id).trans h.enabled
  by_cases hi : id = s.id
  · subst hi
    have hid : (s.takeAll s.id).id = s.id := Registry.id_takeAll s.id s
    have hflag : (s.takeAll s.id).flag = s.flag := Registry.flag_takeAll s.id s
    have hlast : (s.takeAll s.id).last first = s.last first := by
      unfold Stream.last
      rw [Registry.delivered_takeAll]
    refine ⟨s.takeAll s.id, hid, hflag, h.tracks.take_self, ?_, henabled, ?_⟩
    · rw [hid]
      exact (hattached s.id).trans h.attached
    · rw [hlast, hflag]
      exact h.last_same
  · exact ⟨s, rfl, rfl, h.tracks.take_other hi, (hattached s.id).trans h.attached, henabled,
      h.last_same⟩

/-- Other flags arrive, and with them the new value if the flag has another one. -/
theorem arrive (h : Reports c first s) (hs : Synced c) (hg : c.gone = false) (flags : FlagSet) :
    ∃ t, t.id = s.id ∧ t.flag = s.flag ∧ Reports (c.arrive flags) first t := by
  have hregistry : (c.arrive flags).registry =
      c.registry.announce (c.connection.flags.changesTo flags) := by
    rw [arrive_eq_ring, ring_of_not_gone hg]
    exact hs.wired.hear_calls _
  have hon : c.registry.enabled = true ∧ c.registry.attached s.id = true :=
    ⟨h.enabled, h.attached⟩
  have htracks := h.tracks.announce hs.wired.flags_nodup (c.connection.flags.changesTo flags)
  rw [if_pos hon] at htracks
  refine ⟨s.push (news s.flag (c.connection.flags.changesTo flags)), rfl, rfl, ?_, ?_, ?_, ?_⟩
  · rw [hregistry]
    exact htracks
  · have hm := fun f => Registry.member_congr
      (Registry.groups_announce c.registry (c.connection.flags.changesTo flags)) f s.id
    rw [hregistry]
    exact (Registry.attached_congr hm).trans h.attached
  · rw [hregistry, Registry.enabled_announce]
    exact h.enabled
  · rw [flags_connection_arrive, Registry.last_push, FlagSet.news_changesTo, Registry.flag_push]
    by_cases hu : FlagSet.unchanged (c.connection.flags.find? s.flag) (flags.find? s.flag) = true
    · rw [if_pos hu]
      exact Json.same_trans h.last_same (FlagSet.valueAt_of_unchanged hu)
    · rw [if_neg hu]
      exact Json.same_refl _

theorem answered (h : Reports c first s) (hs : Synced c) (hg : c.gone = false)
    (answer : Except BackendError FlagSet) :
    ∃ t, t.id = s.id ∧ t.flag = s.flag ∧ Reports (c.answered answer) first t := by
  by_cases hw : c.worker = .busy
  · cases answer with
    | error e =>
      rw [answered_error hw]
      exact ⟨s, rfl, rfl, h.of_eq rfl rfl⟩
    | ok flags =>
      have hidle : Reports { c with worker := .idle } first s := h.of_eq rfl rfl
      have hsynced : Synced { c with worker := .idle } :=
        ⟨hs.wired, hs.alone, hs.listening, hs.flags_same⟩
      obtain ⟨t, hid, hflag, ht⟩ := hidle.arrive hsynced hg flags
      rw [answered_ok hw]
      refine ⟨t, hid, hflag, ?_⟩
      split <;> exact ht.of_eq rfl rfl
  · rw [answered_of_not_busy hw]
    exact ⟨s, rfl, rfl, h⟩

/-- **Every event that neither drops the stream nor shuts the client down keeps what the stream got
last in step with the connection.** -/
theorem act (h : Reports c first s) (hs : Synced c) (hg : c.gone = false)
    (hw : c.waiting = false) {e : Event} (he : e ≠ .unsubscribe s.id)
    (hc : (c.act e).cancelled = false) :
    ∃ t, t.id = s.id ∧ t.flag = s.flag ∧ Reports (c.act e) first t := by
  by_cases hi : e.inward = true
  · obtain ⟨_, _, _, _, _, _, _, _, ha⟩ := act_inward c hi
    rw [ha]
    exact ⟨s, rfl, rfl, h.of_eq rfl rfl⟩
  · cases e with
    | subscribe flag => exact ⟨s, rfl, rfl, h.subscribe flag⟩
    | unsubscribe id => exact ⟨s, rfl, rfl, h.unsubscribe hs fun e => he (e ▸ rfl)⟩
    | take id => exact h.take id
    | shutdown =>
      rw [Client.act, cancelled_shutdown] at hc
      cases hc
    | arrive flags => exact h.arrive hs hg flags
    | answered answer => exact h.answered hs hg answer
    | settle o =>
      rw [Client.act, settle_of_not_waiting hw]
      exact ⟨s, rfl, rfl, h⟩
    | _ => exact absurd rfl hi

end Reports

end Client

namespace Session

open Client (Reports Synced Tuned)

/-! ## runs -/

theorem tuned_run {c : Client} (h : Sound c) (ht : c.cancelled = false → Tuned c)
    (es : List Client.Event) (hc : (c.run es).cancelled = false) : Tuned (c.run es) := by
  induction es generalizing c with
  | nil => exact ht hc
  | cons e es ih => exact ih (h.step e) (.step h.synced ht e) hc

theorem reports_run {c : Client} {first : Json} {s : Stream} (h : Reports c first s)
    (hs : Sound c) (hl : c.lifecycle = .initialized) {es : List Client.Event}
    (he : .unsubscribe s.id ∉ es) (hc : (c.run es).cancelled = false) :
    (∃ t, t.id = s.id ∧ t.flag = s.flag ∧ Reports (c.run es) first t) ∧
      (c.run es).lifecycle = .initialized := by
  induction es generalizing c s with
  | nil => exact ⟨⟨s, rfl, rfl, h⟩, hl⟩
  | cons e es ih =>
    obtain ⟨d, hr⟩ := hs.raced
    have hstep : (c.step e).cancelled = false := by
      rw [Client.run_cons, Client.run_eq_live] at hc
      exact Client.not_cancelled_of_live hc
    have hact : c.step e = c.act e := Client.retire_of_not_cancelled hstep
    have hn : c.cancelled = false := (Client.kept_undergo c (.event e)).not_cancelled hstep
    have hg : c.gone = false := hs.manned.not_gone hn
    have hw : c.waiting = false := hr.not_waiting (by rw [hl]; decide)
    have hlife : (c.step e).lifecycle = .initialized :=
      (hr.lifecycle_undergo (by rw [hl]; decide) (.event e)).trans hl
    have hne : e ≠ .unsubscribe s.id := fun hm => he (hm ▸ List.mem_cons_self)
    obtain ⟨t, hid, hflag, ht⟩ := h.act (hs.synced hn) hg hw hne (hact ▸ hstep)
    have hes : .unsubscribe t.id ∉ es := fun hm => he (hid ▸ List.mem_cons_of_mem e hm)
    obtain ⟨⟨u, huid, huflag, hu⟩, hlast⟩ := ih (hact ▸ ht) (hs.step e) hlife hes hc
    exact ⟨⟨u, huid.trans hid, huflag.trans hflag, hu⟩, hlast⟩

/-! ## streams and readings -/

/-- Streams are dropped by the application alone. -/
theorem unsubscribe_of_mem_script {s : Session} {is : List Incident} {id : StreamId}
    (h : .unsubscribe id ∈ s.script is) : .turn (.operate (.unsubscribe id)) ∈ is := by
  induction is generalizing s with
  | nil => cases h
  | cons i is ih =>
    rw [script_cons] at h
    rcases List.mem_append.mp h with h | h
    · obtain ⟨o, rfl, ho⟩ := exists_operation h rfl
      cases o with
      | unsubscribe j =>
        cases ho
        exact List.mem_cons_self
      | _ => cases ho
    · exact List.mem_cons_of_mem i (ih h)

/-- **On any backend, take a stream of values of any shape that is opened at any point of any run
after the client is initialized.  At every later point, until it is dropped or the client shut down,
the last value that it got, or if it got none the value that could be read when it was opened, is
the value that can be read.** -/
theorem reading_of_stream (backend : Backend) (options : Client.Options) (patience : Nat)
    (identity : Identity) (before after : List Incident) (flag : String) :
    let s := (start backend options patience identity).meetAll before
    let opened := s.client.subscribe flag
    let u := (s.meet (.turn (.operate (.subscribe flag)))).meetAll after
    s.client.lifecycle = .initialized → u.client.cancelled = false →
      .turn (.operate (.unsubscribe opened.2)) ∉ after →
        ∃ stream, u.client.registry.stream? opened.2 = some stream ∧ stream.flag = flag ∧
          ((Registry.itemsOf .any stream.delivered).getLast?.getD (s.client.reading flag) ==
            u.client.reading flag) = true := by
  intro s opened u hl hc hd
  have hs : Sound s.client := .meetAll backend options patience identity before
  have hid : opened.2 = s.client.registry.next := Registry.id_subscribe _ _ flag
  have hu : u.client = (s.client.step (.subscribe flag)).run
      ((s.meet (.turn (.operate (.subscribe flag)))).script after) := client_meetAll _ after
  have hstep : (s.client.step (.subscribe flag)).cancelled = false := by
    rw [hu, Client.run_eq_live] at hc
    exact Client.not_cancelled_of_live hc
  have hact : s.client.step (.subscribe flag) = opened.1 := Client.retire_of_not_cancelled hstep
  have hn : s.client.cancelled = false :=
    (Client.kept_undergo s.client (.event (.subscribe flag))).not_cancelled hstep
  have ht : Tuned s.client := by
    obtain ⟨flags, forgetful, hstart⟩ := client_start backend options patience identity
    rw [show s.client = _ from client_meetAll _ before]
    refine tuned_run (.start backend options patience identity) (fun _ => ?_) _ ?_
    · rw [hstart]
      exact .start options identity _ forgetful
    · rw [← client_meetAll]
      exact hn
  have hr : Reports (s.client.step (.subscribe flag)) (s.client.reading flag)
      ⟨s.client.registry.next, flag, [], 0⟩ := by
    rw [hact]
    exact .subscribe_self ht (hs.synced hn) hl flag
  have hlife : (s.client.step (.subscribe flag)).lifecycle = .initialized := by
    rw [hact]
    exact hl
  rw [hu] at hc
  obtain ⟨⟨stream, hsid, hsflag, hreports⟩, hlast⟩ :=
    reports_run hr (hs.step _) hlife (fun hm => hd (hid ▸ unsubscribe_of_mem_script hm)) hc
  have hsync : Synced u.client := by
    rw [hu]
    exact ((hs.step (.subscribe flag)).run _).synced hc
  rw [← hu] at hreports hlast
  have hsflag : stream.flag = flag := hsflag
  have hstream := hreports.tracks.stream?_eq
  have hsame := hreports.last_same
  rw [hsid] at hstream
  rw [hsflag] at hsame
  refine ⟨stream, hid ▸ hstream, hsflag, ?_⟩
  rw [Client.reading_of_initialized hlast, Registry.itemsOf_any]
  exact Json.same_trans hsame
    (Json.same_symm (FlagSet.valueAt_of_same (hsync.flags_same hlast) flag))

/-- the first flags of a service -/
def firstFlags : List Incident := [.turn (.task .fetch), .turn (.task .land), .turn (.task .race)]

/-- a poll that brings other flags -/
def nextPoll : List Incident := [.pass 1000, .turn (.task .fetch), .turn (.task .land)]

theorem reading_after_poll :
    let s := (start (.remote changingService 1000) ⟨"key", {}⟩ 5000 (.anonymous "en")).meetAll
      firstFlags
    let u := (s.meet (.turn (.operate (.subscribe "alpha")))).meetAll nextPoll
    s.client.lifecycle = .initialized ∧ u.client.cancelled = false ∧
      (s.client.reading "alpha").print = "1" ∧ (u.client.reading "alpha").print = "2" ∧
      ∃ stream, u.client.registry.stream? (s.client.subscribe "alpha").2 = some stream ∧
        stream.flag = "alpha" ∧
        ((Registry.itemsOf .any stream.delivered).getLast?.getD (s.client.reading "alpha") ==
          u.client.reading "alpha") = true := by
  have hl : ((start (.remote changingService 1000) ⟨"key", {}⟩ 5000 (.anonymous "en")).meetAll
      firstFlags).client.lifecycle = .initialized := by decide +kernel
  have hc : ((((start (.remote changingService 1000) ⟨"key", {}⟩ 5000
      (.anonymous "en")).meetAll firstFlags).meet (.turn (.operate (.subscribe "alpha")))).meetAll
        nextPoll).client.cancelled = false := by decide +kernel
  have hd : ∀ id, .turn (.operate (.unsubscribe id)) ∉ nextPoll := by
    intro id
    simp [nextPoll]
  exact ⟨hl, hc, by decide +kernel, by decide +kernel,
    reading_of_stream _ _ _ _ firstFlags nextPoll "alpha" hl hc (hd _)⟩

end Session

end FeatureFlags
