import FeatureFlags.Proofs.Client.Requests

/-!
# Following identities

Identities are published and followed while the application adds and removes sub-contexts of other
kinds.  Only the identity that was published last matters in the end, whatever was skipped.

* `Client.lastPublished`   the identity that was published last;
* `Client.auxiliary`       the key under a kind that additions and removals alone leave;
* `Context.Mirrors`        a context shows an identity, and the keys under all other kinds;
* `Context.Mirrors.updated`   following an identity keeps that, from whichever identity it started;
* `Client.Led`             what ties a client to the identities that were published;
* `Client.context_mirrors_identity`   so once the last identity was followed, the context shows it.
-/

namespace FeatureFlags

open SubContext (userKind workspaceKind)

theorem SubContext.kind_ofUser (user : Option User) (locale : String) :
    (SubContext.ofUser user locale).kind = userKind := by
  cases user <;> rfl

theorem SubContext.kind_ofWorkspace (id : String) :
    (SubContext.ofWorkspace id).kind = workspaceKind := rfl

/-- Equal users have equal sub-contexts. -/
theorem SubContext.ofUser_same {u v : Option User} {locale : String} (h : (u == v) = true) :
    (SubContext.ofUser u locale == SubContext.ofUser v locale) = true := by
  cases u with
  | none =>
    cases v with
    | none => exact SubContext.same_refl _
    | some v => cases h
  | some u =>
    cases v with
    | none => cases h
    | some v =>
      have h : u.same v = true := h
      simp only [User.same, Bool.and_eq_true, beq_iff_eq] at h
      obtain ⟨⟨⟨hid, hname⟩, hemail⟩, hattributes⟩ := h
      show SubContext.same _ _ = true
      simp [SubContext.same, SubContext.ofUser, hid, hname, hemail, hattributes]

/-! ## a context and an identity -/

namespace Context

/-- Under the kinds of users and workspaces a context holds what belongs to an identity, and under
every other kind what has the given key. -/
structure Mirrors (context : Context) (i : Identity) (keys : String → Option String) : Prop where
  normal : context.Normal
  user : ∃ user, context.get? userKind = some user ∧
    (user == SubContext.ofUser i.user i.locale) = true
  workspace : context.get? workspaceKind = i.workspaceId.map SubContext.ofWorkspace
  others : ∀ kind, kind ≠ userKind → kind ≠ workspaceKind →
    context.get? kind = (keys kind).map (SubContext.keyed kind)

theorem mirrors_context (i : Identity) : i.context.Mirrors i (fun _ => none) := by
  have huser : (SubContext.ofUser i.user i.locale).kind = userKind := SubContext.kind_ofUser _ _
  have hparts : i.context.parts =
      SubContext.ofUser i.user i.locale :: (i.workspaceId.map SubContext.ofWorkspace).toList := by
    refine parts_compose_of_nodup ?_
    cases i.workspaceId with
    | none => exact List.pairwise_singleton _ _
    | some id =>
      have hne : userKind ≠ workspaceKind := by decide
      simpa [huser, SubContext.kind_ofWorkspace] using hne
  refine ⟨normal_compose _ _, ⟨_, ?_, SubContext.same_refl _⟩, ?_, fun kind hu hw => ?_⟩
  · rw [get?, hparts, List.find?_cons_of_pos (by simpa using huser)]
  · rw [get?, hparts, List.find?_cons_of_neg (by rw [huser]; decide)]
    cases i.workspaceId <;> rfl
  · rw [get?, hparts, List.find?_cons_of_neg (by simpa [huser] using Ne.symm hu)]
    cases i.workspaceId with
    | none => rfl
    | some id =>
      have hne : (SubContext.ofWorkspace id).kind ≠ kind := Ne.symm hw
      simp [hne]

namespace Mirrors

variable {context : Context} {i : Identity} {keys : String → Option String}

theorem holds_user (h : Mirrors context i keys) : context.get? userKind ≠ none := by
  obtain ⟨user, hu, -⟩ := h.user
  rw [hu]
  exact Option.some_ne_none user

theorem key?_eq (h : Mirrors context i keys) {kind : String} (hu : kind ≠ userKind)
    (hw : kind ≠ workspaceKind) : context.key? kind = keys kind := by
  rw [key?, h.others kind hu hw]
  cases keys kind <;> rfl

/-- A sub-context of another kind is added under its kind alone. -/
theorem extended (h : Mirrors context i keys) {kind key : String} (hu : kind ≠ userKind)
    (hw : kind ≠ workspaceKind) :
    Mirrors (Client.extended context kind key) i
      (fun k => if k = kind then some key else keys k) := by
  have hkeyed : (SubContext.keyed kind key).kind = kind := rfl
  unfold Client.extended
  by_cases hk : context.key? kind = some key
  · rw [if_pos hk]
    refine ⟨h.normal, h.user, h.workspace, fun k hku hkw => ?_⟩
    rw [h.others k hku hkw]
    by_cases he : k = kind
    · rw [if_pos he, ← hk, h.key?_eq hu hw, he]
    · rw [if_neg he]
  · rw [if_neg hk]
    refine ⟨normal_insert _ _, ?_, ?_, fun k hku hkw => ?_⟩
    · rw [get?_insert_of_ne h.normal (hkeyed ▸ Ne.symm hu)]
      exact h.user
    · rw [get?_insert_of_ne h.normal (hkeyed ▸ Ne.symm hw)]
      exact h.workspace
    · by_cases he : k = kind
      · subst he
        rw [if_pos rfl]
        exact get?_insert_self context (.keyed k key)
      · rw [if_neg he, get?_insert_of_ne h.normal (hkeyed ▸ he)]
        exact h.others k hku hkw

/-- The sub-context of another kind is removed alone; there is always the user, so it can be. -/
theorem reduced (h : Mirrors context i keys) {kind : String} (hu : kind ≠ userKind)
    (hw : kind ≠ workspaceKind) :
    Mirrors (Client.reduced context kind) i (fun k => if k = kind then none else keys k) := by
  unfold Client.reduced
  cases hg : context.get? kind with
  | none =>
    refine ⟨h.normal, h.user, h.workspace, fun k hku hkw => ?_⟩
    by_cases he : k = kind
    · rw [if_pos he, he, hg]
      rfl
    · rw [if_neg he]
      exact h.others k hku hkw
  | some s =>
    obtain ⟨d, hd⟩ := exists_erase? (Ne.symm hu) h.holds_user
    show Mirrors ((context.erase? kind).getD context) i _
    rw [hd, Option.getD_some]
    refine ⟨normal_erase? hd, ?_, ?_, fun k hku hkw => ?_⟩
    · rw [get?_erase?_of_ne h.normal hd (Ne.symm hu)]
      exact h.user
    · rw [get?_erase?_of_ne h.normal hd (Ne.symm hw)]
      exact h.workspace
    · by_cases he : k = kind
      · rw [if_pos he, he, get?_erase?_self hd]
        rfl
      · rw [if_neg he, get?_erase?_of_ne h.normal hd he]
        exact h.others k hku hkw

/-- The user is made anew unless user and locale are the same. -/
theorem follow_user (h : Mirrors context i keys) (user : Option User) (locale : String) :
    Mirrors
      (if i.user == user && i.locale == locale then context
        else context.insert (.ofUser user locale))
      ⟨user, locale, i.workspaceId⟩ keys := by
  have hkind : (SubContext.ofUser user locale).kind = userKind := SubContext.kind_ofUser _ _
  by_cases hs : (i.user == user && i.locale == locale) = true
  · rw [if_pos hs]
    rw [Bool.and_eq_true] at hs
    obtain ⟨hsame, hlocale⟩ := hs
    obtain rfl := beq_iff_eq.mp hlocale
    obtain ⟨u, hu, hus⟩ := h.user
    exact ⟨h.normal, ⟨u, hu, SubContext.same_trans hus (SubContext.ofUser_same hsame)⟩,
      h.workspace, h.others⟩
  · rw [if_neg hs]
    refine ⟨normal_insert _ _, ⟨_, ?_, SubContext.same_refl _⟩, ?_, fun k hku hkw => ?_⟩
    · rw [← hkind]
      exact get?_insert_self _ _
    · rw [get?_insert_of_ne h.normal (by rw [hkind]; decide)]
      exact h.workspace
    · rw [get?_insert_of_ne h.normal (hkind ▸ hku)]
      exact h.others k hku hkw

/-- The workspace is put in place or taken away unless it is the same. -/
theorem follow_workspace (h : Mirrors context i keys) (workspaceId : Option String) :
    Mirrors
      (if i.workspaceId == workspaceId then context
        else match workspaceId with
          | some id => context.insert (.ofWorkspace id)
          | none => (context.erase? workspaceKind).getD context)
      ⟨i.user, i.locale, workspaceId⟩ keys := by
  have huw : userKind ≠ workspaceKind := by decide
  by_cases hs : (i.workspaceId == workspaceId) = true
  · rw [if_pos hs]
    obtain rfl := beq_iff_eq.mp hs
    exact h
  · rw [if_neg hs]
    cases workspaceId with
    | some id =>
      refine ⟨normal_insert _ _, ?_, get?_insert_self _ (.ofWorkspace id), fun k hku hkw => ?_⟩
      · rw [get?_insert_of_ne h.normal (SubContext.kind_ofWorkspace id ▸ huw)]
        exact h.user
      · rw [get?_insert_of_ne h.normal (SubContext.kind_ofWorkspace id ▸ hkw)]
        exact h.others k hku hkw
    | none =>
      obtain ⟨d, hd⟩ := exists_erase? huw h.holds_user
      show Mirrors ((context.erase? workspaceKind).getD context) _ _
      rw [hd, Option.getD_some]
      refine ⟨normal_erase? hd, ?_, get?_erase?_self hd, fun k hku hkw => ?_⟩
      · rw [get?_erase?_of_ne h.normal hd huw]
        exact h.user
      · rw [get?_erase?_of_ne h.normal hd hkw]
        exact h.others k hku hkw

/-- **A context that shows one identity shows the next one after it was followed, and keeps
everything else.** -/
theorem updated (h : Mirrors context i keys) (next : Identity) :
    Mirrors (Client.updated context i next) next keys :=
  (h.follow_user next.user next.locale).follow_workspace next.workspaceId

/-- A change that gives an equal context need not be put in place. -/
theorem of_same (h : Mirrors context i keys) {other : Context} {next : Identity}
    {keys' : String → Option String} (ho : Mirrors other next keys')
    (hs : (other == context) = true) : Mirrors context next keys' := by
  have hkeys : ∀ kind, (other.get? kind).map SubContext.key = (context.get? kind).map _ :=
    keys_eq_of_same hs
  refine ⟨h.normal, ?_, ?_, fun kind hu hw => ?_⟩
  · obtain ⟨u, hu, -⟩ := h.user
    obtain ⟨v, hv, hvu⟩ := get?_of_same hs hu
    obtain ⟨w, hw, hws⟩ := ho.user
    cases hv.symm.trans hw
    exact ⟨u, hu, SubContext.same_trans (SubContext.same_symm hvu) hws⟩
  -- sub-contexts that have nothing but a key are told apart by it
  · have hk := hkeys workspaceKind
    have hinj : Function.Injective (SubContext.key ∘ SubContext.ofWorkspace) :=
      fun _ _ he => Option.some.inj he
    rw [ho.workspace, h.workspace, Option.map_map, Option.map_map] at hk
    rw [h.workspace, ← Option.map_injective hinj hk]
  · have hk := hkeys kind
    have hinj : Function.Injective (SubContext.key ∘ SubContext.keyed kind) :=
      fun _ _ he => Option.some.inj he
    rw [ho.others kind hu hw, h.others kind hu hw, Option.map_map, Option.map_map] at hk
    rw [h.others kind hu hw, ← Option.map_injective hinj hk]

end Mirrors

end Context

/-! ## what occurrences say -/

namespace Client

/-- the kind that the application adds or removes -/
def Occurrence.kind? : Occurrence → Option String
  | .event (.addContext kind _) => some kind
  | .event (.removeContext kind) => some kind
  | _ => none

/-- the key under a kind after an occurrence, where only additions and removals count -/
def Occurrence.keyAfter (kind : String) (key : Option String) : Occurrence → Option String
  | .event (.addContext k new) => if kind = k then some new else key
  | .event (.removeContext k) => if kind = k then none else key
  | _ => key

/-- the key under a kind that additions and removals alone leave -/
def auxiliary (kind : String) (os : List Occurrence) : Option String :=
  os.foldl (Occurrence.keyAfter kind) none

def Occurrence.identityAfter (i : Identity) : Occurrence → Identity
  | .event (.publish next) => next
  | _ => i

/-- the identity that was published last; `first` is the one from before -/
def lastPublished (first : Identity) (os : List Occurrence) : Identity :=
  os.foldl Occurrence.identityAfter first

theorem lastPublished_append (first : Identity) (os ps : List Occurrence) :
    lastPublished first (os ++ ps) = lastPublished (lastPublished first os) ps := by
  rw [lastPublished, lastPublished, lastPublished, List.foldl_append]

theorem lastPublished_of_none {first : Identity} {os : List Occurrence}
    (h : ∀ i, .event (.publish i) ∉ os) : lastPublished first os = first := by
  induction os with
  | nil => rfl
  | cons o os ih =>
    have hos : ∀ i, .event (.publish i) ∉ os := fun i hm => h i (List.mem_cons_of_mem o hm)
    have ho : o.identityAfter first = first := by
      cases o with
      | stir flags calls => rfl
      | event e =>
        cases e with
        | publish i => exact absurd List.mem_cons_self (h i)
        | _ => rfl
    rw [lastPublished, List.foldl_cons, ho]
    exact ih hos

/-! ## occurrences that do not concern identities -/

/-- Context and identities stay, and nobody begins to follow. -/
structure Unled (c d : Client) : Prop where
  context_eq : d.context = c.context
  followed_eq : d.followed = c.followed
  inbox_eq : d.inbox = c.inbox
  following : d.following = true → c.following = true
  gone : d.gone = false → c.gone = false

namespace Unled

theorem refl (c : Client) : Unled c c := ⟨rfl, rfl, rfl, id, id⟩

theorem ring (c : Client) (flags : FlagSet) (calls : List (Call Role)) :
    Unled c (c.ring flags calls) := by
  obtain ⟨_, _, _, h⟩ := ring_frame c flags calls
  rw [h]
  exact ⟨rfl, rfl, rfl, id, id⟩

theorem answered (c : Client) (answer : Except BackendError FlagSet) :
    Unled c (c.answered answer) := by
  by_cases hw : c.worker = .busy
  · obtain ⟨_, _, _, _, h⟩ := answered_frame hw answer
    rw [h]
    exact ⟨rfl, rfl, rfl, id, id⟩
  · rw [answered_of_not_busy hw]
    exact refl c

theorem settle (c : Client) (o : Outcome) : Unled c (c.settle o) := by
  unfold Client.settle
  split
  · cases o <;> exact ⟨rfl, rfl, rfl, id, id⟩
  · exact refl c

theorem shutdown (c : Client) : Unled c c.shutdown := by
  unfold Client.shutdown
  split
  · exact refl c
  · exact ⟨rfl, rfl, rfl, id, id⟩

theorem work (c : Client) : Unled c c.work := by
  obtain ⟨_, _, _, h⟩ := work_frame c
  rw [h]
  exact ⟨rfl, rfl, rfl, id, id⟩

theorem stopWorker (c : Client) : Unled c c.stopWorker := by
  unfold Client.stopWorker
  split
  · exact ⟨rfl, rfl, rfl, id, id⟩
  · exact refl c

theorem retire (c : Client) : Unled c c.retire := by
  unfold Client.retire
  split
  · exact refl c
  · exact ⟨rfl, rfl, rfl, id, nofun⟩

end Unled

/-- events that change the context or the identities -/
def Event.leads : Event → Bool
  | .addContext _ _ => true
  | .removeContext _ => true
  | .publish _ => true
  | .watch => true
  | _ => false

theorem unled_act (c : Client) {e : Event} (he : e.leads = false) : Unled c (c.act e) := by
  cases e with
  | addContext kind key => cases he
  | removeContext kind => cases he
  | publish i => cases he
  | watch => cases he
  | shutdown => exact .shutdown c
  | arrive flags => exact .ring c flags _
  | answered answer => exact .answered c answer
  | settle o => exact .settle c o
  | work => exact .work c
  | stopWorker => exact .stopWorker c
  | stopWatcher => exact ⟨rfl, rfl, rfl, nofun, id⟩
  | _ => exact ⟨rfl, rfl, rfl, id, id⟩

theorem turnTo_context (c : Client) (context : Context) :
    (c.turnTo context).1.context = if context == c.context then c.context else context := by
  by_cases h : (context == c.context) = true
  · rw [turnTo_of_same h, if_pos h]
  · rw [turnTo_of_other (Bool.eq_false_iff.mpr h), schedule_fst, if_neg h]

/-- A client that turns to a context shows what that context shows. -/
theorem mirrors_turnTo {c : Client} {i next : Identity} {keys keys' : String → Option String}
    (h : Context.Mirrors c.context i keys) {context : Context}
    (hm : Context.Mirrors context next keys') :
    Context.Mirrors (c.turnTo context).1.context next keys' := by
  rw [turnTo_context]
  split
  next hs => exact h.of_same hm hs
  next => exact hm

theorem watch_of_empty {c : Client} (hi : c.inbox = none) : c.watch = c := by
  unfold watch
  rw [hi]

theorem watch_of_following {c : Client} {next : Identity} (hi : c.inbox = some next)
    (hf : c.following = true) (hg : c.gone = false) :
    c.watch =
      (turnTo { c with inbox := none, followed := next }
        (updated c.context c.followed next)).1 := by
  have hat : c.following = true ∧ ¬ c.gone = true := ⟨hf, Bool.eq_false_iff.mp hg⟩
  unfold watch
  rw [hi]
  show (if c.following ∧ ¬ c.gone then _ else _) = _
  rw [if_pos hat, follow_eq]

/-- Where nobody follows, what was published is only taken away. -/
theorem watch_of_unfollowed {c : Client} {next : Identity} (hi : c.inbox = some next)
    (hf : ¬ (c.following = true ∧ c.gone = false)) : c.watch = { c with inbox := none } := by
  have hat : ¬ (c.following = true ∧ ¬ c.gone = true) :=
    fun e => hf ⟨e.1, Bool.eq_false_iff.mpr e.2⟩
  unfold watch
  rw [hi]
  show (if c.following ∧ ¬ c.gone then _ else _) = _
  rw [if_neg hat]

/-- At work, the watcher leaves nothing behind. -/
theorem watch_identities {c : Client} (hf : c.following = true) (hg : c.gone = false) :
    c.watch.inbox = none ∧ c.watch.followed = c.inbox.getD c.followed := by
  cases hi : c.inbox with
  | none =>
    rw [watch_of_empty hi]
    exact ⟨hi, rfl⟩
  | some next =>
    obtain ⟨context, requests, he⟩ := turnTo_fst { c with inbox := none, followed := next }
      (updated c.context c.followed next)
    rw [watch_of_following hi hf hg, he]
    exact ⟨rfl, rfl⟩

/-! ## one occurrence -/

/-- The context shows the identity that was followed last, and as long as identities are followed
the one that was published last is about to be. -/
structure Led (c : Client) (i : Identity) (keys : String → Option String) : Prop where
  mirrors : Context.Mirrors c.context c.followed keys
  due : c.following = true → c.gone = false → c.inbox.getD c.followed = i

namespace Led

variable {c d : Client} {i : Identity} {keys : String → Option String}

theorem of_unled (h : Led c i keys) (hu : Unled c d) : Led d i keys := by
  refine ⟨?_, fun hf hg => ?_⟩
  · rw [hu.context_eq, hu.followed_eq]
    exact h.mirrors
  · rw [hu.inbox_eq, hu.followed_eq]
    exact h.due (hu.following hf) (hu.gone hg)

/-- The context turns to one that shows the same identity. -/
theorem turnTo (h : Led c i keys) {context : Context} {keys' : String → Option String}
    (hm : Context.Mirrors context c.followed keys') : Led (c.turnTo context).1 i keys' := by
  have hmirrors := mirrors_turnTo h.mirrors hm
  obtain ⟨context', requests, he⟩ := turnTo_fst c context
  rw [he] at hmirrors ⊢
  exact ⟨hmirrors, h.due⟩

/-- The identity that was published last is followed, unless nobody follows any more. -/
theorem watch (h : Led c i keys) : Led c.watch i keys := by
  cases hi : c.inbox with
  | none =>
    rw [watch_of_empty hi]
    exact h
  | some next =>
    by_cases hf : c.following = true ∧ c.gone = false
    · have hnext : next = i := by
        have hd := h.due hf.1 hf.2
        rwa [hi, Option.getD_some] at hd
      have hc : Context.Mirrors c.context c.followed keys := h.mirrors
      have hmirrors := mirrors_turnTo (c := { c with inbox := none, followed := next }) hc
        (hc.updated next)
      obtain ⟨context, requests, he⟩ := turnTo_fst { c with inbox := none, followed := next }
        (updated c.context c.followed next)
      rw [watch_of_following hi hf.1 hf.2]
      rw [he] at hmirrors ⊢
      exact ⟨hmirrors, fun _ _ => hnext⟩
    · rw [watch_of_unfollowed hi hf]
      exact ⟨h.mirrors, fun hfollowing hgone => absurd ⟨hfollowing, hgone⟩ hf⟩

/-- What one occurrence does, if the application adds and removes auxiliary sub-contexts only. -/
theorem undergo (h : Led c i keys) {o : Occurrence} (hu : o.kind? ≠ some userKind)
    (hw : o.kind? ≠ some workspaceKind) :
    Led (c.undergo o) (o.identityAfter i) (fun kind => o.keyAfter kind (keys kind)) := by
  cases o with
  | stir flags calls => exact h.of_unled (.ring c flags _)
  | event e =>
    refine Led.of_unled ?_ (.retire (c.act e))
    cases e with
    | addContext kind key =>
      have hu : kind ≠ userKind := fun e => hu (congrArg some e)
      have hw : kind ≠ workspaceKind := fun e => hw (congrArg some e)
      rw [act, addContext_eq]
      exact h.turnTo (h.mirrors.extended hu hw)
    | removeContext kind =>
      have hu : kind ≠ userKind := fun e => hu (congrArg some e)
      have hw : kind ≠ workspaceKind := fun e => hw (congrArg some e)
      rw [act, removeContext_eq]
      exact h.turnTo (h.mirrors.reduced hu hw)
    | publish next => exact ⟨h.mirrors, fun _ _ => rfl⟩
    | watch => exact h.watch
    | _ => exact h.of_unled (unled_act c rfl)

theorem live (h : Led c i keys) {os : List Occurrence}
    (hk : ∀ o ∈ os, o.kind? ≠ some userKind ∧ o.kind? ≠ some workspaceKind) :
    Led (c.live os) (lastPublished i os)
      (fun kind => os.foldl (Occurrence.keyAfter kind) (keys kind)) := by
  induction os generalizing c i keys with
  | nil => exact h
  | cons o os ih =>
    obtain ⟨hu, hw⟩ := hk o List.mem_cons_self
    exact ih (h.undergo hu hw) fun p hp => hk p (List.mem_cons_of_mem o hp)

end Led

/-! ## whole runs -/

/-- As long as nothing is published the identity that was followed last stays. -/
theorem followed_live {c : Client} (hi : c.inbox = none) {os : List Occurrence}
    (hp : ∀ i, .event (.publish i) ∉ os) : (c.live os).followed = c.followed := by
  induction os generalizing c with
  | nil => rfl
  | cons o os ih =>
    have hstep : (c.undergo o).inbox = none ∧ (c.undergo o).followed = c.followed := by
      have hretire : ∀ d : Client, d.inbox = none ∧ d.followed = c.followed →
          d.retire.inbox = none ∧ d.retire.followed = c.followed := by
        intro d hd
        rw [(Unled.retire d).inbox_eq, (Unled.retire d).followed_eq]
        exact hd
      have hunled : ∀ d, Unled c d → d.inbox = none ∧ d.followed = c.followed :=
        fun d hd => ⟨hd.inbox_eq.trans hi, hd.followed_eq⟩
      cases o with
      | stir flags calls => exact hunled _ (.ring c flags _)
      | event e =>
        refine hretire (c.act e) ?_
        cases e with
        | addContext kind key =>
          obtain ⟨context, requests, he⟩ := turnTo_fst c (extended c.context kind key)
          rw [act, addContext_eq, he]
          exact ⟨hi, rfl⟩
        | removeContext kind =>
          obtain ⟨context, requests, he⟩ := turnTo_fst c (reduced c.context kind)
          rw [act, removeContext_eq, he]
          exact ⟨hi, rfl⟩
        | publish next => exact absurd List.mem_cons_self (hp next)
        | watch =>
          rw [act, watch_of_empty hi]
          exact ⟨hi, rfl⟩
        | _ => exact hunled _ (unled_act c rfl)
    rw [live_cons, ih hstep.1 fun i hm => hp i (List.mem_cons_of_mem o hm), hstep.2]

/-- The watcher was at work after the last identity was published, if any was. -/
def Handled (begun : Client) (os : List Occurrence) : Prop :=
  (∀ i, .event (.publish i) ∉ os) ∨
    ∃ before after, os = before ++ .event .watch :: after ∧
      (begun.live before).following = true ∧ (begun.live before).gone = false ∧
      ∀ i, .event (.publish i) ∉ after

theorem live_append (c : Client) (os ps : List Occurrence) :
    c.live (os ++ ps) = (c.live os).live ps := by
  rw [live, live, live, List.foldl_append]

theorem Led.followed_of_handled {c : Client} {keys : String → Option String}
    (h : Led c c.followed keys) (hi : c.inbox = none) {os : List Occurrence}
    (hk : ∀ o ∈ os, o.kind? ≠ some userKind ∧ o.kind? ≠ some workspaceKind)
    (hh : Handled c os) : (c.live os).followed = lastPublished c.followed os := by
  rcases hh with hp | ⟨before, after, rfl, hf, hg, hp⟩
  · rw [followed_live hi hp, lastPublished_of_none hp]
  · have hb : Led (c.live before) (lastPublished c.followed before) _ :=
      h.live fun o ho => hk o (List.mem_append_left _ ho)
    have hwatch := watch_identities hf hg
    rw [hb.due hf hg] at hwatch
    have hunled := Unled.retire (c.live before).watch
    have hlast : lastPublished c.followed (before ++ .event .watch :: after) =
        lastPublished c.followed before := by
      rw [lastPublished_append]
      refine lastPublished_of_none fun i hm => ?_
      rcases List.mem_cons.mp hm with hm | hm
      · cases hm
      · exact hp i hm
    rw [live_append, live_cons, hlast, ← hwatch.2, ← hunled.followed_eq]
    exact followed_live (hunled.inbox_eq.trans hwatch.1) hp

/-- **Whatever identities were published, whichever of them were skipped, and whatever sub-contexts
of other kinds were added and removed meanwhile: once the identity that was published last was
followed, the context holds its user and its workspace, and under every other kind what additions
and removals alone leave there.**  No kind is there twice, so only the order is left open. -/
theorem context_mirrors_identity (options : Options) (identity : Identity) (connection : Feed Role)
    (forgetful : Bool) (os : List Occurrence)
    (hk : ∀ o ∈ os, o.kind? ≠ some userKind ∧ o.kind? ≠ some workspaceKind)
    (hh : Handled (start options identity connection forgetful) os) :
    let c := (start options identity connection forgetful).live os
    let last := lastPublished identity os
    (∃ user, c.context.get? userKind = some user ∧
        (user == SubContext.ofUser last.user last.locale) = true) ∧
      c.context.get? workspaceKind = last.workspaceId.map SubContext.ofWorkspace ∧
      (∀ kind, kind ≠ userKind → kind ≠ workspaceKind →
        c.context.get? kind = (auxiliary kind os).map (SubContext.keyed kind)) ∧
      c.context.Normal := by
  intro c last
  have hled : Led (start options identity connection forgetful) identity (fun _ => none) :=
    ⟨Context.mirrors_context identity, fun _ _ => rfl⟩
  have hfollowed : c.followed = last := hled.followed_of_handled rfl hk hh
  have hmirrors := (hled.live hk).mirrors
  rw [show ((start options identity connection forgetful).live os).followed = last from hfollowed]
    at hmirrors
  exact ⟨hmirrors.user, hmirrors.workspace, hmirrors.others, hmirrors.normal⟩

/-- The first of two workspaces is skipped, while a team is added and removed again. -/
theorem context_after_skipped_workspace :
    let begun := start ⟨"key", {}⟩ (.anonymous "en") .empty true
    let before := [Occurrence.event (.publish ⟨none, "en", some "w1"⟩),
      .event (.addContext "team" "t1"), .event (.publish ⟨none, "de", some "w2"⟩)]
    let after := [Occurrence.event (.addContext "region" "eu"), .event (.removeContext "team")]
    let os := before ++ .event .watch :: after
    (∀ o ∈ os, o.kind? ≠ some userKind ∧ o.kind? ≠ some workspaceKind) ∧ Handled begun os ∧
      (begun.live os).context.get? workspaceKind = some (.ofWorkspace "w2") ∧
      (begun.live os).context.get? "region" = some (.keyed "region" "eu") ∧
      (begun.live os).context.get? "team" = none := by
  intro begun before after os
  have hk : ∀ o ∈ os, o.kind? ≠ some userKind ∧ o.kind? ≠ some workspaceKind := by decide +kernel
  have hp : ∀ i, Occurrence.event (.publish i) ∉ after := by simp [after]
  have hh : Handled begun os :=
    .inr ⟨before, after, rfl, by decide +kernel, by decide +kernel, hp⟩
  obtain ⟨-, hworkspace, hothers, -⟩ := context_mirrors_identity _ _ _ _ os hk hh
  exact ⟨hk, hh, hworkspace, hothers "region" (by decide) (by decide),
    hothers "team" (by decide) (by decide)⟩

end Client

end FeatureFlags
