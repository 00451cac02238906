import FeatureFlags.Proofs.Client.Mirror
import FeatureFlags.Proofs.Client.Users
import FeatureFlags.Proofs.Contexts.Algebra

/-!
# What an identity brings about

Whether an identity that is followed leads to a request is decided by comparing whole contexts.  The
comparison always comes out as one would read it off the identities: every sub-context of a client
stems from the identity that was followed last, or has nothing but a key.

* `SubContext.ofUser_same_iff`   the sub-context of a user tells user and locale;
* `Context.Stems`              where the sub-contexts of a client are from;
* `Client.stems_live`          this holds throughout a run;
* `Context.Stems.updated_not_same`   another user or locale always gives another context;
* `Context.Stems.updated_eq_extended`, `Context.Stems.updated_eq_reduced`   another workspace gives
                               what adding or removing it would;
* `Client.identity_reaction`   what the watcher does with an identity.
-/

namespace FeatureFlags

open SubContext (userKind workspaceKind)

/-- The same user, and the same locale. -/
def Identity.SamePerson (i j : Identity) : Prop := (i.user == j.user) = true ∧ i.locale = j.locale

theorem Identity.samePerson_iff (i j : Identity) :
    i.SamePerson j ↔ (i.user == j.user && i.locale == j.locale) = true := by
  rw [SamePerson, Bool.and_eq_true, @beq_iff_eq String]

namespace SubContext

/-- **The sub-context of a user tells user and locale.** -/
theorem ofUser_same_iff {u v : Option User} {locale other : String} :
    (ofUser u locale == ofUser v other) = true ↔ (u == v) = true ∧ locale = other := by
  constructor
  · intro h
    replace h : (ofUser u locale).same (ofUser v other) = true := h
    cases u with
    | none =>
      cases v with
      | none =>
        simp only [same, ofUser, Bool.and_eq_true, beq_iff_eq, Option.some.injEq] at h
        exact ⟨rfl, h.1.2⟩
      | some v => simp [same, ofUser] at h
    | some u =>
      cases v with
      | none => simp [same, ofUser] at h
      | some v =>
        simp only [same, ofUser, Bool.and_eq_true, beq_iff_eq, Option.some.injEq] at h
        obtain ⟨⟨⟨⟨⟨-, hid⟩, hemail⟩, hname⟩, hlocale⟩, hattributes⟩ := h
        refine ⟨?_, hlocale⟩
        show u.same v = true
        simp [User.same, hid, hname, hemail, hattributes]
  · rintro ⟨h, rfl⟩
    exact ofUser_same h

/-- A user has a locale, and what has only a key has none. -/
theorem keyed_not_same_ofUser (kind key : String) (user : Option User) (locale : String) :
    (keyed kind key == ofUser user locale) = false := by
  show (keyed kind key).same (ofUser user locale) = false
  cases user <;> simp [same, keyed, ofUser]

/-- A sub-context is the user of an identity, or has nothing but a key. -/
def StemsFrom (s : SubContext) (i : Identity) : Prop :=
  (s == ofUser i.user i.locale) = true ∨ ∃ key, s = keyed s.kind key

variable {s : SubContext} {i j : Identity}

theorem StemsFrom.eq_keyed (h : s.StemsFrom i) (hk : s.kind ≠ userKind) :
    ∃ key, s = keyed s.kind key := by
  refine h.resolve_left fun hs => hk ?_
  rw [(key_eq_of_same hs).1, kind_ofUser]

theorem StemsFrom.of_samePerson (h : s.StemsFrom i) (hij : i.SamePerson j) : s.StemsFrom j := by
  refine h.imp (fun hs => ?_) id
  exact same_trans hs (ofUser_same_iff.mpr hij)

end SubContext

namespace Context

/-- All sub-contexts of a context are from an identity, or were added by their keys. -/
structure Stems (context : Context) (i : Identity) : Prop where
  normal : context.Normal
  parts : ∀ kind s, context.get? kind = some s → s.StemsFrom i

theorem stems_context (i : Identity) : i.context.Stems i := by
  have hm := mirrors_context i
  refine ⟨hm.normal, fun kind s hs => ?_⟩
  by_cases hu : kind = userKind
  · obtain ⟨user, huser, hsame⟩ := hm.user
    rw [hu, huser] at hs
    exact .inl (Option.some.inj hs ▸ hsame)
  · by_cases hw : kind = workspaceKind
    · rw [hw, hm.workspace] at hs
      obtain ⟨id, -, rfl⟩ := Option.map_eq_some_iff.mp hs
      exact .inr ⟨id, rfl⟩
    · rw [hm.others kind hu hw] at hs
      cases hs

namespace Stems

variable {context : Context} {i next : Identity}

theorem insert (h : Stems context i) {s : SubContext} (hs : s.StemsFrom i) :
    Stems (context.insert s) i := by
  refine ⟨normal_insert _ _, fun kind t ht => ?_⟩
  rw [get?_insert h.normal] at ht
  split at ht
  · exact Option.some.inj ht ▸ hs
  · exact h.parts kind t ht

theorem erase? (h : Stems context i) {kind : String} {d : Context}
    (hd : context.erase? kind = some d) : Stems d i := by
  refine ⟨normal_erase? hd, fun other t ht => ?_⟩
  by_cases ho : other = kind
  · rw [ho, get?_erase?_self hd] at ht
    cases ht
  · rw [get?_erase?_of_ne h.normal hd ho] at ht
    exact h.parts other t ht

theorem erase?_getD (h : Stems context i) (kind : String) :
    Stems ((context.erase? kind).getD context) i := by
  cases hd : context.erase? kind with
  | none => exact h
  | some d => exact h.erase? hd

theorem extended (h : Stems context i) (kind key : String) :
    Stems (Client.extended context kind key) i := by
  rw [Client.extended]
  split
  · exact h
  · exact h.insert (.inr ⟨key, rfl⟩)

theorem reduced (h : Stems context i) (kind : String) :
    Stems (Client.reduced context kind) i := by
  rw [Client.reduced]
  split
  · exact h
  · exact h.erase?_getD kind

/-- The user of the former identity is replaced, all others have nothing but a key. -/
theorem insert_ofUser (h : Stems context i) (next : Identity) :
    Stems (context.insert (.ofUser next.user next.locale)) next := by
  refine ⟨normal_insert _ _, fun kind s hs => ?_⟩
  rw [get?_insert h.normal, SubContext.kind_ofUser] at hs
  split at hs
  next =>
    rw [← Option.some.inj hs]
    exact .inl (SubContext.same_refl _)
  next hk =>
    have hkind : s.kind ≠ userKind := by rwa [kind_of_get? hs]
    exact .inr ((h.parts kind s hs).eq_keyed hkind)

theorem of_samePerson (h : Stems context i) (hi : i.SamePerson next) : Stems context next :=
  ⟨h.normal, fun kind s hs => (h.parts kind s hs).of_samePerson hi⟩

theorem follow_user (h : Stems context i) (next : Identity) :
    Stems (if i.user == next.user && i.locale == next.locale then context
      else context.insert (.ofUser next.user next.locale)) next := by
  split
  next hs => exact h.of_samePerson ((i.samePerson_iff next).mpr hs)
  next => exact h.insert_ofUser next

theorem updated (h : Stems context i) (next : Identity) :
    Stems (Client.updated context i next) next := by
  have huser := h.follow_user next
  rw [Client.updated]
  split
  · exact huser
  · split
    next id _ => exact huser.insert (.inr ⟨id, rfl⟩)
    next => exact huser.erase?_getD workspaceKind

/-- A context that is not put in place because it is the same stems from the same. -/
theorem of_same (h : Stems context i) {other : Context} (ho : Stems other next)
    (hs : (other == context) = true) : Stems context next := by
  refine ⟨h.normal, fun kind s hg => ?_⟩
  obtain ⟨t, ht, hts⟩ := get?_of_same hs hg
  rcases ho.parts kind t ht with hu | ⟨key, hkey⟩
  · exact .inl (SubContext.same_trans (SubContext.same_symm hts) hu)
  · refine .inr ((h.parts kind s hg).resolve_left fun hu => ?_)
    have hk := SubContext.same_trans hts hu
    rw [hkey, SubContext.keyed_not_same_ofUser] at hk
    cases hk

/-! ## what following an identity comes to -/

theorem get?_updated_user (h : context.Normal) (hi : ¬ i.SamePerson next) :
    (Client.updated context i next).get? userKind = some (.ofUser next.user next.locale) := by
  have hkind := SubContext.kind_ofUser next.user next.locale
  have hne : userKind ≠ workspaceKind := by decide
  have hinsert : (context.insert (.ofUser next.user next.locale)).get? userKind =
      some (.ofUser next.user next.locale) := by
    rw [get?_insert h, hkind, if_pos rfl]
  have hnormal := normal_insert context (.ofUser next.user next.locale)
  rw [Client.updated, if_neg fun hs => hi ((i.samePerson_iff next).mpr hs)]
  split
  · exact hinsert
  · split
    next id _ => rw [get?_insert_of_ne hnormal hne, hinsert]
    next =>
      cases hd : (context.insert (.ofUser next.user next.locale)).erase? workspaceKind with
      | none => exact hinsert
      | some d => rw [Option.getD_some, get?_erase?_of_ne hnormal hd hne, hinsert]

/-- **With another user or another locale the context is always another one,** whatever was done to
the user meanwhile. -/
theorem updated_not_same (h : Stems context i) (hi : ¬ i.SamePerson next) :
    (Client.updated context i next == context) = false := by
  have hget := get?_updated_user h.normal hi
  rw [Bool.eq_false_iff]
  intro hs
  cases hc : context.get? userKind with
  | none =>
    have hkeys := keys_eq_of_same hs userKind
    rw [hget, hc] at hkeys
    cases hkeys
  | some u =>
    obtain ⟨t, ht, htu⟩ := get?_of_same hs hc
    rw [hget] at ht
    cases ht
    rcases h.parts userKind u hc with hu | ⟨key, hkey⟩
    · have hsame := SubContext.same_symm (SubContext.same_trans htu hu)
      exact hi (SubContext.ofUser_same_iff.mp hsame)
    · rw [hkey] at htu
      have hk := SubContext.same_symm htu
      rw [SubContext.keyed_not_same_ofUser] at hk
      cases hk

/-- A workspace that is there with its key is the one that the identity would put in place. -/
theorem insert_ofWorkspace (h : Stems context i) {id : String}
    (hk : context.key? workspaceKind = some id) : context.insert (.ofWorkspace id) = context := by
  obtain ⟨s, hs, hkey⟩ := Option.bind_eq_some_iff.mp hk
  have hkind : s.kind = workspaceKind := kind_of_get? hs
  obtain ⟨key, he⟩ := (h.parts workspaceKind s hs).eq_keyed (by rw [hkind]; decide)
  have hid : s = .ofWorkspace id := by
    rw [he] at hkey
    rw [he, hkind, Option.some.inj (show some key = some id from hkey)]
    rfl
  subst hid
  exact insert_of_get? h.normal hs

/-- **Another workspace comes to what adding it would.** -/
theorem updated_eq_extended (h : Stems context i) (hi : i.SamePerson next) {id : String}
    (hw : i.workspaceId ≠ next.workspaceId) (hid : next.workspaceId = some id) :
    Client.updated context i next = Client.extended context workspaceKind id := by
  rw [Client.updated, if_pos ((i.samePerson_iff next).mp hi), if_neg (by simpa using hw), hid,
    Client.extended]
  by_cases hk : context.key? workspaceKind = some id
  · rw [if_pos hk]
    exact h.insert_ofWorkspace hk
  · rw [if_neg hk]
    rfl

/-- **No workspace any more comes to what removing it would.** -/
theorem updated_eq_reduced (h : Stems context i) (hi : i.SamePerson next)
    (hw : i.workspaceId ≠ next.workspaceId) (hid : next.workspaceId = none) :
    Client.updated context i next = Client.reduced context workspaceKind := by
  rw [Client.updated, if_pos ((i.samePerson_iff next).mp hi), if_neg (by simpa using hw), hid,
    Client.reduced]
  cases hg : context.get? workspaceKind with
  | none =>
    show (context.erase? workspaceKind).getD context = context
    rw [erase?_of_get? h.normal hg, Option.getD_some]
  | some s => rfl

theorem updated_of_equal (hi : i.SamePerson next) (hw : i.workspaceId = next.workspaceId) :
    Client.updated context i next = context := by
  rw [Client.updated, if_pos ((i.samePerson_iff next).mp hi), if_pos (beq_iff_eq.mpr hw)]

end Stems

end Context

namespace Client

open Context (Stems)

/-! ## whole runs -/

theorem stems_turnTo {c : Client} {i next : Identity} (h : Stems c.context i) {context : Context}
    (hm : Stems context next) : Stems (c.turnTo context).1.context next := by
  rw [turnTo_context]
  split
  next hs => exact h.of_same hm hs
  next => exact hm

theorem stems_watch {c : Client} (h : Stems c.context c.followed) :
    Stems c.watch.context c.watch.followed := by
  cases hi : c.inbox with
  | none =>
    rw [watch_of_empty hi]
    exact h
  | some next =>
    by_cases hf : c.following = true ∧ c.gone = false
    · have hstems := stems_turnTo (c := { c with inbox := none, followed := next }) h
        (h.updated next)
      rw [(watch_identities hf.1 hf.2).2, hi, Option.getD_some, watch_of_following hi hf.1 hf.2]
      exact hstems
    · rw [watch_of_unfollowed hi hf]
      exact h

theorem stems_undergo {c : Client} (h : Stems c.context c.followed) (o : Occurrence) :
    Stems (c.undergo o).context (c.undergo o).followed := by
  have hunled : ∀ {b d : Client}, Unled b d → Stems b.context b.followed →
      Stems d.context d.followed := by
    intro b d hd hb
    rw [hd.context_eq, hd.followed_eq]
    exact hb
  cases o with
  | stir flags calls => exact hunled (.ring c flags _) h
  | event e =>
    refine hunled (.retire (c.act e)) ?_
    cases e with
    | addContext kind key =>
      have hstems := stems_turnTo h (h.extended kind key)
      obtain ⟨context, requests, he⟩ := turnTo_fst c (extended c.context kind key)
      rw [act, addContext_eq]
      rw [he] at hstems ⊢
      exact hstems
    | removeContext kind =>
      have hstems := stems_turnTo h (h.reduced kind)
      obtain ⟨context, requests, he⟩ := turnTo_fst c (reduced c.context kind)
      rw [act, removeContext_eq]
      rw [he] at hstems ⊢
      exact hstems
    | publish next => exact h
    | watch => exact stems_watch h
    | _ => exact hunled (unled_act c rfl) h

theorem stems_live {c : Client} (h : Stems c.context c.followed) (os : List Occurrence) :
    Stems (c.live os).context (c.live os).followed := by
  induction os generalizing c with
  | nil => exact h
  | cons o os ih => exact ih (stems_undergo h o)

/-- As long as a client is not shut down somebody refers to it. -/
theorem alive_undergo {c : Client} (hm : Manned c) (h : c.cancelled = false → c.alive = true)
    (o : Occurrence) (hc : (c.undergo o).cancelled = false) : (c.undergo o).alive = true := by
  have hgone : (c.undergo o).gone = false := (hm.undergo o).not_gone hc
  cases o with
  | stir flags calls =>
    have hn : c.cancelled = false := (kept_undergo c (.stir flags calls)).not_cancelled hc
    obtain ⟨_, _, _, hr⟩ := ring_frame c flags (reached c.connection.listeners calls)
    rw [undergo, hr]
    exact h hn
  | event e =>
    have hs : c.step e = c.act e := retire_of_not_cancelled hc
    rw [undergo, hs] at hgone ⊢
    by_contra ha
    -- whoever is neither referred to nor gone goes now, and is shut down by that
    have hr : (c.act e).retire.cancelled = true := by
      rw [retire, Bool.eq_false_iff.mpr ha, hgone]
      rfl
    exact absurd hr (Bool.eq_false_iff.mp hc)

theorem alive_live {c : Client} (hm : Manned c) (h : c.cancelled = false → c.alive = true)
    (os : List Occurrence) (hc : (c.live os).cancelled = false) : (c.live os).alive = true := by
  induction os generalizing c with
  | nil => exact h hc
  | cons o os ih => exact ih (hm.undergo o) (alive_undergo hm h o) hc

/-! ## the watcher at work -/

/-- The client once an identity was taken from its inbox. -/
def knowing (c : Client) (next : Identity) : Client := { c with inbox := none, followed := next }

/-- The watcher is about to follow an identity. -/
structure Watching (c : Client) (next : Identity) : Prop where
  inbox_eq : c.inbox = some next
  following : c.following = true
  gone : c.gone = false
  alive : c.alive = true
  stems : Stems c.context c.followed

theorem retire_turnTo {c : Client} (h : c.alive = true) (context : Context) :
    (c.turnTo context).1.retire = (c.turnTo context).1 := by
  obtain ⟨_, _, ht⟩ := turnTo_fst c context
  have halive : (c.turnTo context).1.alive = true := by
    rw [ht]
    exact h
  exact retire_of_alive halive

theorem reduced_of_lone {context : Context} (h : context.Normal) {kind : String}
    (hk : context.parts.map SubContext.kind = [kind]) : reduced context kind = context := by
  rw [reduced]
  split
  · rfl
  · rw [(Context.erase?_eq_none_iff_kinds h).mpr hk, Option.getD_none]

namespace Watching

variable {c : Client} {next : Identity}

theorem step_eq (h : Watching c next) :
    c.step .watch = ((c.knowing next).turnTo (updated c.context c.followed next)).1 := by
  have halive : (c.knowing next).alive = true := h.alive
  rw [step, act, watch_of_following h.inbox_eq h.following h.gone]
  exact retire_turnTo halive _

/-- A context that is the same is not asked for. -/
theorem step_of_updated (h : Watching c next)
    (hu : updated c.context c.followed next = c.context) : c.step .watch = c.knowing next := by
  have hsame : (updated c.context c.followed next == (c.knowing next).context) = true := by
    rw [hu]
    exact Context.same_refl c.context
  rw [h.step_eq, turnTo_of_same hsame]

theorem step_of_person (h : Watching c next) (hf : c.lifecycle ≠ .failed)
    (hw : c.worker ≠ .stopped) (hp : ¬ c.followed.SamePerson next) :
    c.step .watch =
      { c.knowing next with
        context := updated c.context c.followed next
        requests := c.requests ++ [updated c.context c.followed next] } := by
  have hready : ¬ (c.lifecycle = .failed ∨ c.worker = .stopped) := fun e => e.elim hf hw
  have hother : (updated c.context c.followed next == (c.knowing next).context) = false :=
    h.stems.updated_not_same hp
  rw [h.step_eq, turnTo_of_other hother, schedule_fst]
  exact congrArg (fun requests => { c.knowing next with
    context := updated c.context c.followed next, requests }) (if_neg hready)

theorem step_of_workspace (h : Watching c next) (hp : c.followed.SamePerson next)
    (hw : c.followed.workspaceId ≠ next.workspaceId) {id : String}
    (hid : next.workspaceId = some id) :
    c.step .watch = (c.knowing next).step (.addContext workspaceKind id) := by
  have halive : (c.knowing next).alive = true := h.alive
  rw [h.step_eq, h.stems.updated_eq_extended hp hw hid, step, act, addContext_eq]
  exact (retire_turnTo halive _).symm

theorem step_of_no_workspace (h : Watching c next) (hp : c.followed.SamePerson next)
    (hw : c.followed.workspaceId ≠ next.workspaceId) (hid : next.workspaceId = none) :
    c.step .watch = (c.knowing next).step (.removeContext workspaceKind) := by
  have halive : (c.knowing next).alive = true := h.alive
  rw [h.step_eq, h.stems.updated_eq_reduced hp hw hid, step, act, removeContext_eq]
  exact (retire_turnTo halive _).symm

/-- The workspace stays if there is nothing else. -/
theorem step_of_lone_workspace (h : Watching c next) (hp : c.followed.SamePerson next)
    (hw : c.followed.workspaceId ≠ next.workspaceId) (hid : next.workspaceId = none)
    (hk : c.context.parts.map SubContext.kind = [workspaceKind]) :
    c.step .watch = c.knowing next := by
  refine h.step_of_updated ?_
  rw [h.stems.updated_eq_reduced hp hw hid, reduced_of_lone h.stems.normal hk]

theorem step_of_equal (h : Watching c next) (hp : c.followed.SamePerson next)
    (hw : c.followed.workspaceId = next.workspaceId) : c.step .watch = c.knowing next :=
  h.step_of_updated (Context.Stems.updated_of_equal hp hw)

end Watching

/-- **What the watcher does with an identity,** as long as the client neither failed nor is shut
down, whatever sub-contexts were added and removed before.  With another user or another locale it
asks for one identify, also if the workspace is another one as well.  With another workspace only it
does what adding or removing the workspace would do, so a workspace that is alone stays.  With an
equal identity it does nothing. -/
theorem identity_reaction (options : Options) (identity : Identity) (connection : Feed Role)
    (forgetful : Bool) (os : List Occurrence) (next : Identity)
    (hf : ((start options identity connection forgetful).live os).lifecycle ≠ .failed)
    (hc : ((start options identity connection forgetful).live os).cancelled = false)
    (hfollowing : ((start options identity connection forgetful).live os).following = true)
    (hi : ((start options identity connection forgetful).live os).inbox = some next) :
    let c := (start options identity connection forgetful).live os
    let context := updated c.context c.followed next
    (¬ c.followed.SamePerson next →
      (context == c.context) = false ∧
        c.step .watch =
          { c.knowing next with context, requests := c.requests ++ [context] }) ∧
    (c.followed.SamePerson next → c.followed.workspaceId ≠ next.workspaceId →
      (∀ id, next.workspaceId = some id →
        c.step .watch = (c.knowing next).step (.addContext workspaceKind id)) ∧
      (next.workspaceId = none →
        c.step .watch = (c.knowing next).step (.removeContext workspaceKind) ∧
          (c.context.parts.map SubContext.kind = [workspaceKind] →
            c.step .watch = c.knowing next))) ∧
    (c.followed.SamePerson next → c.followed.workspaceId = next.workspaceId →
      c.step .watch = c.knowing next) := by
  intro c context
  have hbegun : Manned (start options identity connection forgetful) := ⟨nofun, nofun⟩
  have hmanned : Manned c := manned_live hbegun os
  have hwatching : Watching c next :=
    { inbox_eq := hi
      following := hfollowing
      gone := hmanned.not_gone hc
      alive := alive_live hbegun (fun _ => rfl) os hc
      stems := stems_live (Context.stems_context identity) os }
  refine ⟨fun hp => ?_, fun hp hw => ⟨fun id hid => ?_, fun hid => ⟨?_, fun hk => ?_⟩⟩,
    fun hp hw => ?_⟩
  · exact ⟨hwatching.stems.updated_not_same hp,
      hwatching.step_of_person hf (hmanned.not_stopped hc) hp⟩
  · exact hwatching.step_of_workspace hp hw hid
  · exact hwatching.step_of_no_workspace hp hw hid
  · exact hwatching.step_of_lone_workspace hp hw hid hk
  · exact hwatching.step_of_equal hp hw

/-- The user was removed when an identity with another locale and another workspace came: one
identify is asked for, with both. -/
theorem reaction_to_move :
    let c := (start ⟨"key", {}⟩ ⟨none, "en", some "w1"⟩ .empty true).live
      [.event (.removeContext userKind), .event (.publish ⟨none, "de", some "w2"⟩)]
    let next : Identity := ⟨none, "de", some "w2"⟩
    let context := updated c.context c.followed next
    c.lifecycle ≠ .failed ∧ c.cancelled = false ∧ c.following = true ∧ c.inbox = some next ∧
      ¬ c.followed.SamePerson next ∧
      context.parts = [.ofWorkspace "w2", .ofUser none "de"] ∧
      c.step .watch =
        { c.knowing next with context, requests := c.requests ++ [context] } := by
  intro c next context
  have hf : c.lifecycle ≠ .failed := by decide
  have hp : ¬ c.followed.SamePerson next := fun h => absurd h.2 (by decide)
  obtain ⟨hreaction, -, -⟩ := identity_reaction ⟨"key", {}⟩ ⟨none, "en", some "w1"⟩ .empty true
    [.event (.removeContext userKind), .event (.publish ⟨none, "de", some "w2"⟩)] next hf rfl rfl
    rfl
  exact ⟨hf, rfl, rfl, rfl, hp, rfl, (hreaction hp).2⟩

end Client

end FeatureFlags
