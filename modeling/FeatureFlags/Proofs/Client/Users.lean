import FeatureFlags.Proofs.Client.Following

/-!
# The user of a context

A client begins with one user in its context.  The application may remove the user like any other
sub-context, as long as there is another one; then the user is missing until somebody adds one, or
an identity with another user or another locale is followed.

* `Context.count`              how many sub-contexts of a kind there are;
* `Client.Occurrence.dismisses`, `Client.Occurrence.restores`   what takes the user away, and what
                               puts one in place;
* `Client.dismissed`           whether the user is missing after a run, read off these alone;
* `Client.vacant_undergo`      one occurrence;
* `Client.had_of_mem_line`     a client hands over only contexts that it had;
* `Client.user_of_context`     so there is one user unless it was dismissed, and then there is none.
-/

namespace FeatureFlags

open SubContext (userKind workspaceKind)

namespace Context

/-! ## how many there are of a kind -/

def count (c : Context) (kind : String) : Nat := c.parts.countP (fun s => s.kind = kind)

/-- There is no user. -/
def vacant (c : Context) : Bool := (c.get? userKind).isNone

/-- No kind is there twice, so finding one is finding all. -/
theorem Normal.count_eq {c : Context} (h : c.Normal) (kind : String) :
    c.count kind = if (c.get? kind).isNone then 0 else 1 := by
  have hcount : c.count kind = (c.parts.map SubContext.kind).count kind := by
    rw [List.count_eq_countP, List.countP_map]
    rfl
  rw [hcount]
  cases hg : c.get? kind with
  | none => exact List.count_eq_zero_of_not_mem (get?_eq_none_iff.mp hg)
  | some s => exact List.count_eq_one_of_mem h.nodup (mem_kinds_of_get? hg)

theorem vacant_of_same {c d : Context} (h : (c == d) = true) : c.vacant = d.vacant := by
  have hk := congrArg Option.isNone (keys_eq_of_same h userKind)
  rwa [Option.isNone_map, Option.isNone_map] at hk

/-! ## what a change leaves -/

theorem normal_extended {c : Context} (h : c.Normal) (kind key : String) :
    (Client.extended c kind key).Normal := by
  rw [Client.extended]
  split
  · exact h
  · exact normal_insert _ _

theorem normal_erase?_getD {c : Context} (h : c.Normal) (kind : String) :
    ((c.erase? kind).getD c).Normal := by
  cases he : c.erase? kind with
  | none => exact h
  | some d => exact normal_erase? he

theorem normal_reduced {c : Context} (h : c.Normal) (kind : String) :
    (Client.reduced c kind).Normal := by
  rw [Client.reduced]
  split
  · exact h
  · exact normal_erase?_getD h kind

theorem normal_updated {c : Context} (h : c.Normal) (previous next : Identity) :
    (Client.updated c previous next).Normal := by
  have huser : (if previous.user == next.user && previous.locale == next.locale then c
      else c.insert (.ofUser next.user next.locale)).Normal := by
    split
    · exact h
    · exact normal_insert _ _
  rw [Client.updated]
  split
  · exact huser
  · split
    · exact normal_insert _ _
    · exact normal_erase?_getD huser _

/-- Where nothing else is there the user stays. -/
theorem vacant_reduced_user {c : Context} (h : c.Normal) :
    (Client.reduced c userKind).vacant = (c.isMulti || c.vacant) := by
  rw [Client.reduced]
  cases hg : c.get? userKind with
  | none =>
    have hv : c.vacant = true := by rw [vacant, hg]; rfl
    show c.vacant = _
    rw [hv, Bool.or_true]
  | some s =>
    have hv : c.vacant = false := by rw [vacant, hg]; rfl
    show ((c.erase? userKind).getD c).vacant = _
    rw [hv, Bool.or_false]
    cases c with
    | single t =>
      have ht : t.kind = userKind := by
        by_contra hn
        rw [get?, parts_single, List.find?_cons_of_neg (by simpa using hn)] at hg
        cases hg
      have he : (single t).erase? userKind = none := by
        rw [erase?, parts_single, List.filter_cons_of_neg (by simpa using ht), List.filter_nil]
      rw [he]
      exact hv
    | multi ss =>
      -- two kinds are different, so one of them is not that of the user
      obtain ⟨other, hother, ho⟩ : ∃ other ∈ ss.map SubContext.kind, other ≠ userKind := by
        obtain ⟨hlength, hnodup⟩ := h
        obtain ⟨a, b, rest, rfl⟩ : ∃ a b rest, ss = a :: b :: rest := by
          rcases ss with _ | ⟨a, _ | ⟨b, rest⟩⟩
          · exact absurd hlength (by decide)
          · exact absurd hlength (Nat.lt_irrefl 1)
          · exact ⟨a, b, rest, rfl⟩
        have hab : a.kind ≠ b.kind := by
          intro he
          rw [List.map_cons, List.map_cons, List.nodup_cons] at hnodup
          exact hnodup.1 (he ▸ List.mem_cons_self)
        by_cases ha : a.kind = userKind
        · exact ⟨b.kind, by simp, fun hb => hab (ha.trans hb.symm)⟩
        · exact ⟨a.kind, by simp, ha⟩
      have hsome : (multi ss).get? other ≠ none := fun hn => get?_eq_none_iff.mp hn hother
      obtain ⟨d, hd⟩ := exists_erase? ho hsome
      rw [hd, Option.getD_some, vacant, get?_erase?_self hd]
      rfl

theorem vacant_reduced_of_ne {c : Context} (h : c.Normal) {kind : String} (hk : kind ≠ userKind) :
    (Client.reduced c kind).vacant = c.vacant := by
  rw [Client.reduced]
  cases hg : c.get? kind with
  | none => rfl
  | some s =>
    show ((c.erase? kind).getD c).vacant = _
    cases he : c.erase? kind with
    | none => rfl
    | some d => rw [Option.getD_some, vacant, get?_erase?_of_ne h he (Ne.symm hk), vacant]

theorem vacant_insert_user (c : Context) {s : SubContext} (hs : s.kind = userKind) :
    (c.insert s).vacant = false := by
  rw [vacant, ← hs, get?_insert_self]
  rfl

theorem vacant_insert_of_ne {c : Context} (h : c.Normal) {s : SubContext} (hs : s.kind ≠ userKind) :
    (c.insert s).vacant = c.vacant := by
  rw [vacant, get?_insert_of_ne h (Ne.symm hs), vacant]

theorem vacant_extended {c : Context} (h : c.Normal) (kind key : String) :
    (Client.extended c kind key).vacant = (c.vacant && !decide (kind = userKind)) := by
  rw [Client.extended]
  by_cases hk : kind = userKind
  · rw [decide_eq_true hk, Bool.not_true, Bool.and_false]
    by_cases hkey : c.key? kind = some key
    · rw [if_pos hkey, vacant]
      rw [hk, key?] at hkey
      cases hg : c.get? userKind with
      | none =>
        rw [hg] at hkey
        cases hkey
      | some s => rfl
    · rw [if_neg hkey]
      exact vacant_insert_user c hk
  · rw [decide_eq_false hk, Bool.not_false, Bool.and_true]
    by_cases hkey : c.key? kind = some key
    · rw [if_pos hkey]
    · rw [if_neg hkey]
      exact vacant_insert_of_ne h hk

/-- An identity with another user or another locale brings its user; the workspace does not
matter. -/
theorem vacant_updated {c : Context} (h : c.Normal) (previous next : Identity) :
    (Client.updated c previous next).vacant =
      (c.vacant && (previous.user == next.user && previous.locale == next.locale)) := by
  have hworkspace : workspaceKind ≠ userKind := by decide
  have huser : ∃ d : Context, d.Normal ∧
      (if previous.user == next.user && previous.locale == next.locale then c
        else c.insert (.ofUser next.user next.locale)) = d ∧
      d.vacant = (c.vacant && (previous.user == next.user && previous.locale == next.locale)) := by
    by_cases hs : (previous.user == next.user && previous.locale == next.locale) = true
    · rw [if_pos hs, hs, Bool.and_true]
      exact ⟨c, h, rfl, rfl⟩
    · rw [if_neg hs, Bool.eq_false_iff.mpr hs, Bool.and_false]
      exact ⟨_, normal_insert _ _, rfl, vacant_insert_user c (SubContext.kind_ofUser _ _)⟩
  obtain ⟨d, hd, he, hv⟩ := huser
  rw [Client.updated, he, ← hv]
  split
  · rfl
  · split
    next id => exact vacant_insert_of_ne hd hworkspace
    next =>
      cases hr : d.erase? workspaceKind with
      | none => rfl
      | some r =>
        rw [Option.getD_some, vacant, get?_erase?_of_ne hd hr (Ne.symm hworkspace), vacant]

end Context

namespace Client

/-! ## what concerns the user -/

/-- The user is removed while there is another sub-context. -/
def Occurrence.dismisses (c : Client) : Occurrence → Bool
  | .event (.removeContext kind) => decide (kind = userKind) && c.context.isMulti
  | _ => false

/-- A user is added, or an identity with another user or another locale is followed. -/
def Occurrence.restores (c : Client) : Occurrence → Bool
  | .event (.addContext kind _) => decide (kind = userKind)
  | .event .watch =>
    c.following && !c.gone &&
      c.inbox.any (fun i => !(c.followed.user == i.user && c.followed.locale == i.locale))
  | _ => false

/-- whether the user is missing after a run of a client that had one -/
def dismissedFrom (c : Client) (missing : Bool) : List Occurrence → Bool
  | [] => missing
  | o :: os => dismissedFrom (c.undergo o) (o.dismisses c || (missing && !o.restores c)) os

def dismissed (c : Client) (os : List Occurrence) : Bool := c.dismissedFrom false os

theorem dismissedFrom_cons (c : Client) (missing : Bool) (o : Occurrence) (os : List Occurrence) :
    c.dismissedFrom missing (o :: os) =
      (c.undergo o).dismissedFrom (o.dismisses c || (missing && !o.restores c)) os := rfl

/-! ## one occurrence -/

/-- the context that an occurrence turns to -/
def aim (c : Client) : Occurrence → Context
  | .event (.addContext kind key) => extended c.context kind key
  | .event (.removeContext kind) => reduced c.context kind
  | .event .watch =>
    if c.following && !c.gone then
      (c.inbox.map (updated c.context c.followed)).getD c.context
    else c.context
  | _ => c.context

theorem watch_context (c : Client) :
    c.watch.context =
      if c.aim (.event .watch) == c.context then c.context else c.aim (.event .watch) := by
  have hstays : c.context = if c.context == c.context then c.context else c.context := by
    rw [ite_self]
  rw [aim]
  cases hi : c.inbox with
  | none =>
    rw [watch_of_empty hi, Option.map_none, Option.getD_none, ite_self]
    exact hstays
  | some next =>
    by_cases hf : c.following = true ∧ c.gone = false
    · rw [watch_of_following hi hf.1 hf.2, turnTo_context, hf.1, hf.2]
      rfl
    · have hn : ¬ (c.following && !c.gone) = true := by
        rw [Bool.and_eq_true, Bool.not_eq_true']
        exact hf
      rw [watch_of_unfollowed hi hf, if_neg hn]
      exact hstays

/-- An equal context is not put in place. -/
theorem context_undergo (c : Client) (o : Occurrence) :
    (c.undergo o).context = if c.aim o == c.context then c.context else c.aim o := by
  have hstays : ∀ d : Client, d.context = c.context →
      d.context = if c.context == c.context then c.context else c.context := by
    intro d hd
    rw [ite_self, hd]
  cases o with
  | stir flags calls => exact hstays _ (Still.ring c flags _).context_eq
  | event e =>
    rw [undergo, step, (Still.retire _).context_eq]
    cases hl : e.leads with
    | false =>
      have haim : c.aim (.event e) = c.context := by
        cases e with
        | addContext kind key => cases hl
        | removeContext kind => cases hl
        | watch => cases hl
        | _ => rfl
      rw [haim]
      exact hstays _ (unled_act c hl).context_eq
    | true =>
      cases e with
      | addContext kind key =>
        rw [act, addContext_eq]
        exact turnTo_context c _
      | removeContext kind =>
        rw [act, removeContext_eq]
        exact turnTo_context c _
      | publish identity => exact hstays { c with inbox := some identity } rfl
      | watch => exact watch_context c
      | _ => cases hl

theorem normal_aim {c : Client} (h : c.context.Normal) (o : Occurrence) : (c.aim o).Normal := by
  cases o with
  | stir flags calls => exact h
  | event e =>
    cases e with
    | addContext kind key => exact Context.normal_extended h kind key
    | removeContext kind => exact Context.normal_reduced h kind
    | watch =>
      rw [aim]
      split
      · cases c.inbox with
        | none => exact h
        | some next => exact Context.normal_updated h c.followed next
      · exact h
    | _ => exact h

theorem vacant_aim {c : Client} (h : c.context.Normal) (o : Occurrence) :
    (c.aim o).vacant = (o.dismisses c || (c.context.vacant && !o.restores c)) := by
  have hother : c.context.vacant = (false || (c.context.vacant && !false)) := by
    rw [Bool.false_or, Bool.not_false, Bool.and_true]
  cases o with
  | stir flags calls => exact hother
  | event e =>
    cases e with
    | addContext kind key =>
      rw [aim, Context.vacant_extended h]
      exact (Bool.false_or _).symm
    | removeContext kind =>
      by_cases hk : kind = userKind
      · rw [aim, hk, Context.vacant_reduced_user h]
        simp [Occurrence.dismisses, Occurrence.restores]
      · rw [aim, Context.vacant_reduced_of_ne h hk]
        simp [Occurrence.dismisses, Occurrence.restores, hk]
    | watch =>
      rw [aim, Occurrence.restores]
      cases hf : c.following && !c.gone with
      | false => exact hother
      | true =>
        cases hi : c.inbox with
        | none => exact hother
        | some next =>
          show (updated c.context c.followed next).vacant = _
          rw [Context.vacant_updated h, Option.any_some, Bool.true_and, Bool.not_not]
          exact (Bool.false_or _).symm
    | _ => exact hother

/-- The user is missing after an occurrence that takes it away, or if it was missing and none is put
in place. -/
theorem vacant_undergo {c : Client} (h : c.context.Normal) (o : Occurrence) :
    (c.undergo o).context.vacant =
      (o.dismisses c || (c.context.vacant && !o.restores c)) := by
  rw [context_undergo, ← vacant_aim h]
  split
  next hs => exact (Context.vacant_of_same hs).symm
  next => rfl

theorem normal_undergo {c : Client} (h : c.context.Normal) (o : Occurrence) :
    (c.undergo o).context.Normal := by
  rw [context_undergo]
  split
  · exact h
  · exact normal_aim h o

/-! ## what is handed over -/

/-- Whatever is asked for or was handed over was so before, or is the context in place. -/
def Holds (c d : Client) : Prop :=
  ∀ x ∈ d.given ++ d.requests, x ∈ c.given ++ c.requests ∨ x = d.context

theorem holds_of_still {c d : Client} (h : Still c d) : Holds c d := by
  intro x hx
  rw [h.untold.given_eq, h.requests_eq] at hx
  exact .inl hx

theorem holds_turnTo (c : Client) (context : Context) : Holds c (c.turnTo context).1 := by
  by_cases h : (context == c.context) = true
  · rw [turnTo_of_same h]
    exact fun x hx => .inl hx
  · rw [turnTo_of_other (Bool.eq_false_iff.mpr h), schedule_fst]
    intro x hx
    rcases List.mem_append.mp hx with hx | hx
    · exact .inl (List.mem_append_left _ hx)
    · dsimp only at hx
      split at hx
      · exact .inl (List.mem_append_right _ hx)
      · rcases List.mem_append.mp hx with hx | hx
        · exact .inl (List.mem_append_right _ hx)
        · exact .inr (List.mem_singleton.mp hx)

theorem holds_watch (c : Client) : Holds c c.watch := by
  rw [watch]
  cases c.inbox with
  | none => exact fun x hx => .inl hx
  | some next =>
    show Holds c (if _ then _ else _)
    split
    · rw [follow_eq]
      exact holds_turnTo { c with inbox := none, followed := next } _
    · exact fun x hx => .inl hx

/-- The worker hands over what was asked for, or drops it. -/
theorem holds_work (c : Client) : Holds c c.work := by
  rw [work]
  split
  next context rest _ hr =>
    have hrest : ∀ x ∈ rest, x ∈ c.requests := fun x hx => hr ▸ List.mem_cons_of_mem context hx
    have hcontext : context ∈ c.requests := hr ▸ List.mem_cons_self
    split
    · exact fun x hx => .inl hx
    · split
      · intro x hx
        rcases List.mem_append.mp hx with hx | hx
        · exact .inl (List.mem_append_left _ hx)
        · exact .inl (List.mem_append_right _ (hrest x hx))
      · intro x hx
        rcases List.mem_append.mp hx with hx | hx
        · have hx : x ∈ (c.moves ++ [Move.identified context]).filterMap Move.context? := hx
          rw [List.filterMap_append] at hx
          rcases List.mem_append.mp hx with hx | hx
          · exact .inl (List.mem_append_left _ hx)
          · rw [List.mem_singleton.mp hx]
            exact .inl (List.mem_append_right _ hcontext)
        · exact .inl (List.mem_append_right _ (hrest x hx))
  next => exact fun x hx => .inl hx

theorem holds_stopWorker (c : Client) : Holds c c.stopWorker := by
  rw [stopWorker]
  split
  · intro x hx
    rcases List.mem_append.mp hx with hx | hx
    · exact .inl (List.mem_append_left _ hx)
    · cases hx
  · exact fun x hx => .inl hx

theorem holds_undergo (c : Client) (o : Occurrence) : Holds c (c.undergo o) := by
  cases o with
  | stir flags calls => exact holds_of_still (.ring c flags _)
  | event e =>
    have hact : Holds c (c.act e) := by
      rcases act_cases c e with h | ⟨context, h⟩ | rfl | rfl | rfl
      · exact holds_of_still h
      · rw [h]
        exact holds_turnTo c context
      · exact holds_watch c
      · exact holds_work c
      · exact holds_stopWorker c
    have hretire := Still.retire (c.act e)
    intro x hx
    rcases holds_of_still hretire x hx with hx | hx
    · rw [show (c.undergo (.event e)).context = _ from hretire.context_eq]
      exact hact x hx
    · exact .inr hx

/-! ## whole runs -/

theorem normal_live {c : Client} (h : c.context.Normal) (os : List Occurrence) :
    (c.live os).context.Normal := by
  induction os generalizing c with
  | nil => exact h
  | cons o os ih => exact ih (normal_undergo h o)

theorem vacant_live {c : Client} (h : c.context.Normal) (os : List Occurrence) :
    (c.live os).context.vacant = c.dismissedFrom c.context.vacant os := by
  induction os generalizing c with
  | nil => rfl
  | cons o os ih => rw [live_cons, ih (normal_undergo h o), vacant_undergo h, dismissedFrom_cons]

/-- A client asks for and hands over only contexts that it had. -/
theorem had_of_mem_line {c : Client} {os : List Occurrence} {x : Context}
    (hx : x ∈ (c.live os).given ++ (c.live os).requests) :
    x ∈ c.given ++ c.requests ∨
      ∃ before after, os = before ++ after ∧ x = (c.live before).context := by
  induction os generalizing c with
  | nil => exact .inl hx
  | cons o os ih =>
    rcases ih hx with hx | ⟨before, after, rfl, hb⟩
    · rcases holds_undergo c o x hx with hx | hx
      · exact .inl hx
      · exact .inr ⟨[o], os, rfl, hx⟩
    · exact .inr ⟨o :: before, after, rfl, hb⟩

/-- **There is one user in the context of a client, unless the user was removed while there was
another sub-context, and since then none was added and no identity with another user or another
locale was followed; then there is none.  The contexts that are handed to the connection are some
that the client had.** -/
theorem user_of_context (options : Options) (identity : Identity) (connection : Feed Role)
    (forgetful : Bool) (os : List Occurrence) :
    let begun := start options identity connection forgetful
    let c := begun.live os
    c.context.count userKind = (if begun.dismissed os then 0 else 1) ∧
      ∀ x ∈ c.given, ∃ before after, os = before ++ after ∧ x = (begun.live before).context ∧
        x.count userKind = if begun.dismissed before then 0 else 1 := by
  intro begun c
  have hnormal : begun.context.Normal := Context.normal_compose _ _
  have hseated : begun.context.vacant = false := by
    obtain ⟨user, hu, -⟩ := (Context.mirrors_context identity).user
    show (identity.context.get? userKind).isNone = false
    rw [hu]
    rfl
  have hcount : ∀ ps, (begun.live ps).context.count userKind =
      if begun.dismissed ps then 0 else 1 := by
    intro ps
    rw [(normal_live hnormal ps).count_eq, dismissed, ← hseated, ← vacant_live hnormal ps]
    rfl
  refine ⟨hcount os, fun x hx => ?_⟩
  -- what was handed over at the beginning is the context at the beginning
  obtain ⟨before, after, hos, hb⟩ :
      ∃ before after, os = before ++ after ∧ x = (begun.live before).context := by
    rcases had_of_mem_line (List.mem_append_left (c.requests) hx) with hx | hx
    · exact ⟨[], os, rfl, List.mem_singleton.mp hx⟩
    · exact hx
  exact ⟨before, after, hos, hb, hb ▸ hcount before⟩

/-- With a workspace beside it the user can be removed, and the workspace alone is handed over. -/
theorem user_removed_beside_workspace :
    let c := (start ⟨"key", {}⟩ (.anonymous "en") .empty true).live
      [.event (.addContext workspaceKind "w1"), .event (.removeContext userKind), .event .work,
        .event (.answered (.ok {})), .event .work]
    c.context.count userKind = 0 ∧ c.given.map (Context.count · userKind) = [1, 1, 0] := by
  decide +kernel

end Client

end FeatureFlags
