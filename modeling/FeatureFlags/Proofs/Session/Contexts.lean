import FeatureFlags.Proofs.Contexts.Identities
import FeatureFlags.Proofs.Session.Runs

/-!
# Contexts during a run

Which contexts a client has, asks for and hands to its connection while it is told of kinds and of
identities.

* `Client.Event.Sound`      events that tell of nothing that could not be in a context;
* `Client.Informed.run`     through such events a client comes to no other contexts;
* `Session.Incident.Aside`   whatever happens, unless a sub-context is added or an identity
                            published;
* `Session.informed_meet`   to the client this is such events.
-/

namespace FeatureFlags

/-! ## what a client knows -/

namespace Client

/-- An event that tells a client of nothing that could not be in a context. -/
def Event.Sound : Event → Prop
  | .addContext kind _ => kind ≠ Context.multiKind
  | .publish identity => identity.Sound
  | _ => True

/-- All contexts that a client has, asks for and handed over can come about, and so can those of the
identities it knows. -/
structure Informed (c : Client) : Prop where
  context : c.context.Sound
  requests : ∀ d ∈ c.requests, d.Sound
  given : ∀ d ∈ c.given, d.Sound
  followed : c.followed.Sound
  inbox : ∀ i ∈ c.inbox, i.Sound

/-- No identity is published or followed. -/
structure Unread (c d : Client) : Prop where
  followed_eq : d.followed = c.followed
  inbox_eq : d.inbox = c.inbox

theorem unread_ring (c : Client) (flags : FlagSet) (calls : List (Call Role)) :
    Unread c (c.ring flags calls) := by
  obtain ⟨_, _, _, h⟩ := ring_frame c flags calls
  rw [h]
  exact ⟨rfl, rfl⟩

theorem unread_answered (c : Client) (answer : Except BackendError FlagSet) :
    Unread c (c.answered answer) := by
  by_cases hw : c.worker = .busy
  · obtain ⟨_, _, _, _, h⟩ := answered_frame hw answer
    rw [h]
    exact ⟨rfl, rfl⟩
  · rw [answered_of_not_busy hw]
    exact ⟨rfl, rfl⟩

theorem unread_settle (c : Client) (o : Outcome) : Unread c (c.settle o) := by
  rw [settle]
  split
  · cases o <;> exact ⟨rfl, rfl⟩
  · exact ⟨rfl, rfl⟩

theorem unread_shutdown (c : Client) : Unread c c.shutdown := by
  rw [shutdown]
  split <;> exact ⟨rfl, rfl⟩

theorem unread_retire (c : Client) : Unread c c.retire := by
  rw [retire]
  split <;> exact ⟨rfl, rfl⟩

namespace Informed

variable {c d : Client}

theorem of_still (h : Informed c) (hs : Still c d) (hu : Unread c d) : Informed d :=
  ⟨hs.context_eq ▸ h.context, hs.requests_eq ▸ h.requests, hs.untold.given_eq ▸ h.given,
    hu.followed_eq ▸ h.followed, hu.inbox_eq ▸ h.inbox⟩

theorem start (options : Options) {identity : Identity} (hi : identity.Sound)
    (connection : Feed Role) (forgetful : Bool) :
    Informed (.start options identity connection forgetful) := by
  refine ⟨hi.context, nofun, fun d hd => ?_, hi, nofun⟩
  rw [List.mem_singleton.mp hd]
  exact hi.context

theorem turnTo (h : Informed c) {context : Context} (hc : context.Sound) :
    Informed (c.turnTo context).1 := by
  by_cases hs : (context == c.context) = true
  · rw [turnTo_of_same hs]
    exact h
  · rw [turnTo_of_other (Bool.eq_false_iff.mpr hs), schedule_fst]
    refine ⟨hc, fun d hd => ?_, h.given, h.followed, h.inbox⟩
    dsimp only at hd
    split at hd
    · exact h.requests d hd
    · rcases List.mem_append.mp hd with hd | hd
      · exact h.requests d hd
      · exact List.mem_singleton.mp hd ▸ hc

theorem sound_extended {context : Context} (h : context.Sound) {kind : String}
    (hk : kind ≠ Context.multiKind) (key : String) : (extended context kind key).Sound := by
  rw [extended]
  split
  · exact h
  · exact h.insert (SubContext.sound_keyed hk key)

theorem sound_erase_getD {context : Context} (h : context.Sound) (kind : String) :
    ((context.erase? kind).getD context).Sound := by
  cases he : context.erase? kind with
  | none => exact h
  | some d => exact h.erase? he

theorem sound_reduced {context : Context} (h : context.Sound) (kind : String) :
    (reduced context kind).Sound := by
  rw [reduced]
  split
  · exact h
  · exact sound_erase_getD h kind

theorem sound_updated {context : Context} (h : context.Sound) (previous : Identity)
    {next : Identity} (hn : next.Sound) : (updated context previous next).Sound := by
  have huser : (if previous.user == next.user && previous.locale == next.locale then context
      else context.insert (.ofUser next.user next.locale)).Sound := by
    split
    · exact h
    · exact h.insert (SubContext.sound_ofUser hn next.locale)
  rw [updated]
  split
  · exact huser
  · split
    · exact huser.insert (SubContext.sound_keyed (by decide) _)
    · exact sound_erase_getD huser _

theorem watch (h : Informed c) : Informed c.watch := by
  rw [Client.watch]
  cases hi : c.inbox with
  | none => exact h
  | some next =>
    have hn : next.Sound := h.inbox next hi
    show Informed (if c.following ∧ ¬ c.gone then _ else _)
    split
    · rw [follow_eq]
      have hnext : Informed { c with inbox := none, followed := next } :=
        ⟨h.context, h.requests, h.given, hn, by simp⟩
      exact hnext.turnTo (sound_updated h.context c.followed hn)
    · exact ⟨h.context, h.requests, h.given, h.followed, by simp⟩

theorem work (h : Informed c) : Informed c.work := by
  rw [Client.work]
  split
  next context rest _ hr =>
    have hcontext : context.Sound := h.requests context (hr ▸ List.mem_cons_self)
    have hrest : ∀ d ∈ rest, d.Sound := fun d hd =>
      h.requests d (hr ▸ List.mem_cons_of_mem context hd)
    split
    · exact h
    · split
      · exact ⟨h.context, hrest, h.given, h.followed, h.inbox⟩
      · refine ⟨h.context, hrest, fun d hd => ?_, h.followed, h.inbox⟩
        rw [Client.given, List.filterMap_append] at hd
        rcases List.mem_append.mp hd with hd | hd
        · exact h.given d hd
        · exact List.mem_singleton.mp hd ▸ hcontext
  next => exact h

theorem stopWorker (h : Informed c) : Informed c.stopWorker := by
  rw [Client.stopWorker]
  split
  · exact ⟨h.context, List.forall_mem_nil _, h.given, h.followed, h.inbox⟩
  · exact h

theorem act (h : Informed c) {e : Event} (he : e.Sound) : Informed (c.act e) := by
  cases e with
  | addContext kind key =>
    rw [Client.act, addContext_eq]
    exact h.turnTo (sound_extended h.context he key)
  | removeContext kind =>
    rw [Client.act, removeContext_eq]
    exact h.turnTo (sound_reduced h.context kind)
  | publish identity =>
    exact ⟨h.context, h.requests, h.given, h.followed, fun i hi => Option.some.inj hi ▸ he⟩
  | shutdown => exact h.of_still (.shutdown c) (unread_shutdown c)
  | arrive flags => exact h.of_still (.ring c flags _) (unread_ring c flags _)
  | answered answer => exact h.of_still (.answered c answer) (unread_answered c answer)
  | settle o => exact h.of_still (.settle c o) (unread_settle c o)
  | work => exact h.work
  | stopWorker => exact h.stopWorker
  | watch => exact h.watch
  | _ => exact ⟨h.context, h.requests, h.given, h.followed, h.inbox⟩

theorem step (h : Informed c) {e : Event} (he : e.Sound) : Informed (c.step e) :=
  (h.act he).of_still (.retire (c.act e)) (unread_retire (c.act e))

/-- **Told of sound kinds and identities alone, a client has, asks for and hands over contexts that
can come about.** -/
theorem run (h : Informed c) {es : List Event} (hes : ∀ e ∈ es, e.Sound) : Informed (c.run es) := by
  induction es generalizing c with
  | nil => exact h
  | cons e es ih =>
    rw [run_cons]
    exact ih (h.step (hes e List.mem_cons_self)) fun f hf => hes f (List.mem_cons_of_mem e hf)

end Informed

end Client

/-! ## what a run tells the client -/

namespace Session

/-- whatever happens, unless a sub-context is added or an identity published -/
def Incident.Aside : Incident → Prop
  | .turn (.operate (.addContext _ _)) => False
  | .turn (.operate (.publish _)) => False
  | _ => True

/-- Nobody but the application and the identity provider tells a client of kinds and identities. -/
theorem sound_incident {s : Session} {i : Incident} (hi : i.Aside) {e : Client.Event}
    (h : e ∈ s.incidentEvents i) : e.Sound := by
  cases ho : operated e with
  | true =>
    obtain ⟨o, rfl, rfl⟩ := exists_operation h ho
    cases o with
    | addContext kind key => exact hi.elim
    | publish identity => exact hi.elim
    | _ => trivial
  | false =>
    cases e with
    | addContext kind key => cases ho
    | publish identity => cases ho
    | _ => trivial

theorem informed_meet {s : Session} (h : s.client.Informed) {i : Incident} (hi : i.Aside) :
    (s.meet i).client.Informed := by
  rw [client_meet]
  exact h.run fun e he => sound_incident hi he

end Session

end FeatureFlags
