import FeatureFlags.Proofs.Session.Runs
import Mathlib.Data.List.Induction

/-!
# What a client publishes

A client publishes what is derived from its flags when it becomes initialized, and from then on when
its connection reports changes and when an identify succeeds.

* `Overrides.ofNotices_flatMap_ofFlags`   a store keeps the last edition only;
* `Client.published`         all that was published, load timeouts apart;
* `Client.occasions`         why an event makes the client publish;
* `Client.editions`          occasions and flags of what is published during a run;
* `Client.Edited`            the client published these editions and no more, the last of them with
                             the flags in use;
* `Session.published_editions`   it did, on any backend and in any run.
-/

namespace FeatureFlags

/-! ## stores -/

namespace Overrides

/-- what a store holds that knows of one flag set only -/
def ofFlags (flags : FlagSet) : Overrides :=
  ⟨flags.messages, flags.features, ({} : Table String).insert Notice.experimentsTag flags.text⟩

/-- A store forgets the flag set before. -/
theorem accept_ofFlags {o : Overrides} (h : o = empty ∨ ∃ old, o = ofFlags old) (flags : FlagSet) :
    (Notice.ofFlags flags).foldl accept o = ofFlags flags := by
  show (⟨flags.messages, flags.features, o.tags.insert _ _⟩ : Overrides) = _
  have ht : o.tags.insert Notice.experimentsTag flags.text =
      ({} : Table String).insert Notice.experimentsTag flags.text := by
    refine Table.ext_find? fun name => ?_
    rcases h with rfl | ⟨old, rfl⟩
    · rfl
    · simp only [ofFlags, Table.find?_insert]
      split <;> rfl
  rw [ht]
  rfl

theorem ofNotices_flatMap_ofFlags (sets : List FlagSet) :
    ofNotices (sets.flatMap Notice.ofFlags) = (sets.getLast?.map ofFlags).getD empty := by
  induction sets using List.reverseRecOn with
  | nil => rfl
  | append_singleton sets flags ih =>
    rw [List.flatMap_append, List.flatMap_singleton, ofNotices_append, ih,
      List.getLast?_concat]
    refine accept_ofFlags ?_ flags
    cases sets.getLast? with
    | none => exact .inl rfl
    | some old => exact .inr ⟨old, rfl⟩

end Overrides

namespace Client

/-! ## publishing -/

/-- all that was published; a load timeout is reported, not published -/
def published (c : Client) : List Notice := c.notices.filter (fun n => !isLoadTimeout n)

theorem published_of_notices {c d : Client} {ns : List Notice} (h : d.notices = c.notices ++ ns) :
    d.published = c.published ++ ns.filter (fun n => !isLoadTimeout n) := by
  rw [published, h, List.filter_append]
  rfl

theorem filter_flatMap_ofFlags {α : Type} (as : List α) (f : α → FlagSet) :
    (as.flatMap (fun a => Notice.ofFlags (f a))).filter (fun n => !isLoadTimeout n) =
      as.flatMap (fun a => Notice.ofFlags (f a)) := by
  rw [List.filter_flatMap]
  rfl

/-- A store takes no notice of load timeouts. -/
theorem ofNotices_published (c : Client) :
    Overrides.ofNotices c.published = Overrides.ofNotices c.notices := by
  rw [published, Overrides.ofNotices, List.foldl_filter]
  refine congrArg (fun f => c.notices.foldl f Overrides.empty) ?_
  funext o n
  cases n <;> rfl

/-- Why a client publishes. -/
inductive Occasion where
  /-- it became initialized -/
  | ready
  /-- its connection reported changes -/
  | changes
  /-- an identify succeeded -/
  | identified
  deriving DecidableEq

/-- the flags of an identify that is under way and now succeeds -/
def success? (c : Client) : Event → Option FlagSet
  | .answered (.ok flags) => if c.worker = .busy then some flags else none
  | _ => none

/-- what the connection of a client reports when something happens -/
def batch (c : Client) : Event → List Change
  | .arrive flags => c.connection.flags.changesTo flags
  | e => ((c.success? e).map c.connection.flags.changesTo).getD []

/-- Why an event makes the client publish.  The connection reports the changes that an identify
brings before the identify ends. -/
def occasions (c : Client) (e : Event) : List Occasion :=
  if c.lifecycle = .initialized then
    (if c.batch e = [] then [] else [.changes]) ++
      (if (c.success? e).isSome then [.identified] else [])
  else if (c.step e).lifecycle = .initialized then [.ready]
  else []

/-- Occasions and flags of what is published during a run. -/
def editions (c : Client) : List Event → List (Occasion × FlagSet)
  | [] => []
  | e :: es =>
    (c.occasions e).map (fun o => (o, (c.step e).flagsInUse)) ++ (c.step e).editions es

theorem editions_nil (c : Client) : c.editions [] = [] := rfl
theorem editions_cons (c : Client) (e : Event) (es : List Event) :
    c.editions (e :: es) =
      (c.occasions e).map (fun o => (o, (c.step e).flagsInUse)) ++ (c.step e).editions es := rfl

/-! ## one event -/

theorem success?_of_not_busy {c : Client} (h : c.worker ≠ .busy) (e : Event) :
    c.success? e = none := by
  cases e with
  | answered answer =>
    cases answer with
    | error e => rfl
    | ok flags => exact if_neg h
  | _ => rfl

theorem occasions_of_initialized {c : Client} (h : c.lifecycle = .initialized) (e : Event) :
    c.occasions e =
      (if c.batch e = [] then [] else [.changes]) ++
        (if (c.success? e).isSome then [.identified] else []) := by
  rw [occasions, if_pos h]

/-- Nothing is published, and the flags stay. -/
structure Unsaid (c d : Client) : Prop where
  notices_eq : d.notices = c.notices
  flags_eq : d.flags = c.flags

namespace Unsaid

theorem refl (c : Client) : Unsaid c c := ⟨rfl, rfl⟩

theorem trans {b c d : Client} (h : Unsaid b c) (k : Unsaid c d) : Unsaid b d :=
  ⟨k.notices_eq.trans h.notices_eq, k.flags_eq.trans h.flags_eq⟩

theorem shutdown (c : Client) : Unsaid c c.shutdown := by
  rw [Client.shutdown]
  split <;> exact ⟨rfl, rfl⟩

theorem retire (c : Client) : Unsaid c c.retire := by
  rw [Client.retire]
  split <;> exact ⟨rfl, rfl⟩

/-- When the wait for the first flags is over only the connection makes a client publish. -/
theorem act {c : Client} (hw : c.waiting = false) {e : Event} (harr : ∀ flags, e ≠ .arrive flags)
    (hans : ∀ answer, e ≠ .answered answer) : Unsaid c (c.act e) := by
  by_cases hi : e.inward = true
  · obtain ⟨_, _, _, _, _, _, _, _, h⟩ := act_inward c hi
    rw [h]
    exact ⟨rfl, rfl⟩
  · cases e with
    | subscribe flag => exact ⟨rfl, rfl⟩
    | unsubscribe id => exact ⟨rfl, rfl⟩
    | take id => exact ⟨rfl, rfl⟩
    | shutdown => exact shutdown c
    | arrive flags => exact absurd rfl (harr flags)
    | answered answer => exact absurd rfl (hans answer)
    | settle o =>
      rw [Client.act, settle_of_not_waiting hw]
      exact refl c
    | _ => exact absurd rfl hi

end Unsaid

/-- A client published for each of these occasions; without any its flags are as before. -/
structure Speaks (c d : Client) (os : List Occasion) : Prop where
  notices_eq : d.notices = c.notices ++ os.flatMap (fun _ => Notice.ofFlags d.flags)
  flags_eq : os = [] → d.flags = c.flags

theorem Speaks.of_unsaid {c d : Client} (h : Unsaid c d) : Speaks c d [] :=
  ⟨h.notices_eq.trans (List.append_nil _).symm, fun _ => h.flags_eq⟩

namespace Synced

variable {c : Client}

/-- The listener of the client takes over the flags and publishes once if there are changes. -/
theorem arrive_eq (h : Synced c) (hg : c.gone = false) (hi : c.lifecycle = .initialized)
    (flags : FlagSet) :
    ∃ registry, c.arrive flags =
      { c with
        connection := { c.connection with flags }, registry
        flags := if c.connection.flags.changesTo flags = [] then c.flags else flags
        notices := c.notices ++
          if c.connection.flags.changesTo flags = [] then [] else Notice.ofFlags flags } := by
  obtain ⟨id, hf⟩ := h.listening hi
  rw [arrive_eq_ring, ring_of_not_gone hg]
  by_cases hb : c.connection.flags.changesTo flags = []
  · rw [hb, if_pos rfl, if_pos rfl]
    exact ⟨_, rfl⟩
  · rw [if_neg hb, if_neg hb, Registry.others_calls_of_anyChange hf hb]
    exact ⟨_, rfl⟩

theorem speaks_arrive (h : Synced c) (hg : c.gone = false) (hi : c.lifecycle = .initialized)
    (flags : FlagSet) : Speaks c (c.arrive flags) (c.occasions (.arrive flags)) := by
  obtain ⟨registry, ha⟩ := h.arrive_eq hg hi flags
  rw [occasions_of_initialized hi, ha]
  by_cases hb : c.connection.flags.changesTo flags = []
  · constructor <;> simp [batch, success?, hb]
  · constructor <;> simp [batch, success?, hb]

theorem speaks_answered (h : Synced c) (hg : c.gone = false) (hi : c.lifecycle = .initialized)
    (answer : Except BackendError FlagSet) :
    Speaks c (c.answered answer) (c.occasions (.answered answer)) := by
  rw [occasions_of_initialized hi]
  by_cases hw : c.worker = .busy
  · cases answer with
    | error e =>
      rw [answered_error hw]
      exact .of_unsaid ⟨rfl, rfl⟩
    | ok flags =>
      have hidle : Synced { c with worker := .idle } :=
        ⟨h.wired, h.alone, h.listening, h.flags_same⟩
      obtain ⟨registry, ha⟩ := hidle.arrive_eq hg hi flags
      rw [answered_ok hw, ha, if_pos hi]
      -- the listener publishes a batch first, then the worker publishes the same flags
      by_cases hb : c.connection.flags.changesTo flags = []
      · constructor <;> simp [batch, success?, hb, hw, publish, note]
      · constructor <;> simp [batch, success?, hb, hw, publish, note]
  · rw [answered_of_not_busy hw]
    have hn := success?_of_not_busy hw (.answered answer)
    have hb : c.batch (.answered answer) = [] := by
      show ((c.success? (.answered answer)).map _).getD [] = []
      rw [hn]
      rfl
    rw [hb, hn]
    exact .of_unsaid (.refl c)

/-- What an event makes an initialized client publish. -/
theorem speaks_act (h : Synced c) (hg : c.gone = false) (hi : c.lifecycle = .initialized)
    (hw : c.waiting = false) (e : Event) : Speaks c (c.act e) (c.occasions e) := by
  cases e with
  | arrive flags => exact h.speaks_arrive hg hi flags
  | answered answer => exact h.speaks_answered hg hi answer
  | _ =>
    rw [occasions_of_initialized hi]
    exact .of_unsaid (.act hw nofun nofun)

end Synced

/-- Only the first flags make a client initialized, and only one that waits for them. -/
theorem ready_of_initialized {c : Client} (hl : c.lifecycle ≠ .initialized) {e : Event}
    (hi : (c.act e).lifecycle = .initialized) : c.waiting = true ∧ e = .settle .ready := by
  have he : ∃ o, e = .settle o := by
    by_contra hn
    have hu := Unmoved.act c (e := e) fun o ho => hn ⟨o, ho⟩
    exact hl (hu.lifecycle_eq.symm.trans hi)
  obtain ⟨o, rfl⟩ := he
  rw [act, settle] at hi
  by_cases hw : c.waiting = true
  · rw [if_pos hw] at hi
    cases o with
    | ready => exact ⟨hw, rfl⟩
    | refused => cases hi
    | timeout => cases hi
    | cancelled => exact absurd hi hl
  · rw [if_neg hw] at hi
    exact absurd hi hl

theorem published_of_ready {c : Client} (hl : c.lifecycle ≠ .initialized) {e : Event}
    (hi : (c.act e).lifecycle = .initialized) :
    (c.act e).published = c.published ++ Notice.ofFlags (c.act e).flags := by
  obtain ⟨hw, rfl⟩ := ready_of_initialized hl hi
  rw [act, settle, if_pos hw]
  have hn : (becomeReady { c with waiting := false }).notices =
      c.notices ++ Notice.ofFlags c.connection.flags := rfl
  exact published_of_notices hn

/-! ## whole runs -/

/-- The client published these editions and no more: none before it was initialized, and the last of
them with the flags that it serves. -/
structure Edited (c : Client) (log : List (Occasion × FlagSet)) : Prop where
  published_eq : c.published = (log.map Prod.snd).flatMap Notice.ofFlags
  unread : c.lifecycle ≠ .initialized → log = []
  begun : c.lifecycle = .initialized →
    ∃ later, log.map Prod.fst = .ready :: later ∧ .ready ∉ later
  last : c.lifecycle = .initialized → (log.map Prod.snd).getLast? = some c.flagsInUse

theorem Edited.start (options : Options) (identity : Identity) (connection : Feed Role)
    (forgetful : Bool) : Edited (Client.start options identity connection forgetful) [] :=
  ⟨rfl, fun _ => rfl, nofun, nofun⟩

theorem Quiet.published_eq {c : Client} (h : Quiet c) : c.published = [] := by
  rw [published, List.filter_eq_nil_iff]
  intro n hn
  rw [h.notices_eq n hn]
  exact Bool.false_ne_true

/-- An initialized client stays so, and adds the editions of the event. -/
theorem Edited.step_of_initialized {c : Client} {log : List (Occasion × FlagSet)}
    (h : Edited c log) (hs : Session.Sound c) (hl : c.lifecycle = .initialized) (e : Event)
    (hc : (c.step e).cancelled = false) :
    Edited (c.step e) (log ++ (c.occasions e).map (fun o => (o, (c.step e).flagsInUse))) := by
  obtain ⟨d, hr⟩ := hs.raced
  have hn : c.cancelled = false := (kept_undergo c (.event e)).not_cancelled hc
  have hi : (c.step e).lifecycle = .initialized :=
    (hr.lifecycle_undergo (by rw [hl]; nofun) (.event e)).trans hl
  have hw : c.waiting = false := hr.not_waiting (by rw [hl]; nofun)
  have hspeaks : Speaks c (c.step e) (c.occasions e) := by
    rw [show c.step e = c.act e from retire_of_not_cancelled hc]
    exact (hs.synced hn).speaks_act (hs.manned.not_gone hn) hl hw e
  refine ⟨?_, fun hne => absurd hi hne, fun _ => ?_, fun _ => ?_⟩
  · have hp := published_of_notices hspeaks.notices_eq
    rw [filter_flatMap_ofFlags _ (fun _ => (c.step e).flags), h.published_eq] at hp
    rw [hp, List.map_append, List.flatMap_append, List.map_map, flagsInUse_of_initialized hi]
    refine congrArg (_ ++ ·) ?_
    rw [List.flatMap_map]
    rfl
  · obtain ⟨later, hlater, hnot⟩ := h.begun hl
    have hready : .ready ∉ c.occasions e := by
      rw [occasions_of_initialized hl]
      split <;> split <;> decide
    refine ⟨later ++ c.occasions e, ?_, ?_⟩
    · rw [List.map_append, hlater, List.map_map, List.cons_append]
      exact congrArg (fun os => _ :: (later ++ os)) (List.map_id _)
    · rw [List.mem_append]
      exact fun hm => hm.elim hnot hready
  · rw [List.map_append, List.getLast?_append, List.map_map, List.getLast?_map, h.last hl]
    -- without an occasion what was in use is still in use
    cases ho : (c.occasions e).getLast? with
    | none =>
      have hf := hspeaks.flags_eq (List.getLast?_eq_none_iff.mp ho)
      rw [flagsInUse_of_initialized hi, flagsInUse_of_initialized hl, hf]
      rfl
    | some o => rfl

theorem Edited.step {c : Client} {log : List (Occasion × FlagSet)} (h : Edited c log)
    (hs : Session.Sound c) (hq : c.lifecycle ≠ .initialized → Quiet c) (e : Event)
    (hc : (c.step e).cancelled = false) :
    Edited (c.step e) (log ++ (c.occasions e).map (fun o => (o, (c.step e).flagsInUse))) := by
  by_cases hl : c.lifecycle = .initialized
  · exact h.step_of_initialized hs hl e hc
  · -- nothing was published before, so the log begins with this event if it has any entry
    have hlog : log = [] := h.unread hl
    rw [hlog, List.nil_append, occasions, if_neg hl]
    by_cases hi : (c.step e).lifecycle = .initialized
    · have hact : c.step e = c.act e := retire_of_not_cancelled hc
      rw [if_pos hi]
      refine ⟨?_, fun hne => absurd hi hne, fun _ => ⟨[], rfl, List.not_mem_nil⟩, fun _ => rfl⟩
      rw [flagsInUse_of_initialized hi]
      rw [hact] at hi ⊢
      rw [published_of_ready hl hi, (hq hl).published_eq]
      rfl
    · obtain ⟨d, hr⟩ := hs.raced
      have hquiet : Quiet (c.step e) := Quiet.undergo hr hq (.event e) hi
      rw [if_neg hi]
      exact ⟨hquiet.published_eq, fun _ => rfl, fun he => absurd he hi, fun he => absurd he hi⟩

theorem Edited.run {c : Client} {log : List (Occasion × FlagSet)} (h : Edited c log)
    (hs : Session.Sound c) (hq : c.lifecycle ≠ .initialized → Quiet c) (es : List Event)
    (hc : (c.run es).cancelled = false) : Edited (c.run es) (log ++ c.editions es) := by
  induction es generalizing c log with
  | nil =>
    rw [editions_nil, List.append_nil]
    exact h
  | cons e es ih =>
    have hc' : (c.step e).cancelled = false := by
      rw [run_cons, run_eq_live] at hc
      exact not_cancelled_of_live hc
    obtain ⟨d, hr⟩ := hs.raced
    rw [editions_cons, ← List.append_assoc]
    exact ih (h.step hs hq e hc') (hs.step e) (fun hn => Quiet.undergo hr hq (.event e) hn) hc

end Client

namespace Session

/-! ## what is published -/

/-- **On any backend and in any run, as long as it is not shut down, a client publishes nothing
before it is initialized, then once when it becomes so, and after that once for each batch of
changes of its connection and once for each identify that succeeds, in this order.  Each time it
publishes to all receivers what is derived from the flags in use right after it, and so a store that
knows of it by nothing else holds just what is derived from the flags in use.** -/
theorem published_editions (backend : Backend) (options : Client.Options) (patience : Nat)
    (identity : Identity) (is : List Incident)
    (hc : ((start backend options patience identity).meetAll is).client.cancelled = false) :
    let begun := start backend options patience identity
    let c := (begun.meetAll is).client
    let log := begun.client.editions (begun.script is)
    c.published = (log.map Prod.snd).flatMap Notice.ofFlags ∧
      (c.lifecycle ≠ .initialized → log = []) ∧
      (c.lifecycle = .initialized →
        (∃ later, log.map Prod.fst = .ready :: later ∧ .ready ∉ later) ∧
          (log.map Prod.snd).getLast? = some c.flagsInUse ∧
          Overrides.ofNotices c.notices = .ofFlags c.flagsInUse) := by
  intro begun c log
  have he : Client.Edited c log := by
    obtain ⟨flags, forgetful, hb⟩ := client_start backend options patience identity
    have hedited : Client.Edited begun.client [] := by
      rw [hb]
      exact .start ..
    have hc' : (begun.client.run (begun.script is)).cancelled = false := by
      rw [← client_meetAll]
      exact hc
    have hrun := hedited.run (Sound.start ..) (fun _ => quiet_start ..) (begun.script is) hc'
    rw [← client_meetAll] at hrun
    exact hrun
  refine ⟨he.published_eq, he.unread, fun hi => ⟨he.begun hi, he.last hi, ?_⟩⟩
  rw [← Client.ofNotices_published, he.published_eq, Overrides.ofNotices_flatMap_ofFlags,
    he.last hi]
  rfl

theorem editions_of_early_identify :
    let begun := start (.remote changingService 1000) ⟨"key", {}⟩ 5000 (.anonymous "en")
    let c := (begun.meetAll earlyIdentify).client
    let log := begun.client.editions (begun.script earlyIdentify)
    c.cancelled = false ∧ c.lifecycle = .initialized ∧
      log.map Prod.fst = [.ready, .changes, .identified] ∧
      c.published = (log.map Prod.snd).flatMap Notice.ofFlags ∧
      Overrides.ofNotices c.notices = .ofFlags c.flagsInUse := by
  have hi : ((start (.remote changingService 1000) ⟨"key", {}⟩ 5000 (.anonymous "en")).meetAll
      earlyIdentify).client.lifecycle = .initialized := by decide +kernel
  have hc : ((start (.remote changingService 1000) ⟨"key", {}⟩ 5000 (.anonymous "en")).meetAll
      earlyIdentify).client.cancelled = false := by decide +kernel
  obtain ⟨hp, -, hready⟩ := published_editions _ _ _ _ _ hc
  exact ⟨hc, hi, by decide +kernel, hp, (hready hi).2.2⟩

end Session

end FeatureFlags
