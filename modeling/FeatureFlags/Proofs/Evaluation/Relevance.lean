import FeatureFlags.Proofs.Contexts.Algebra
import FeatureFlags.Proofs.Evaluation.Rules
import Mathlib.Data.List.Find

/-!
# What evaluation looks at

A definition looks at the key and the email address of the user, and at the keys of the kinds that
its rules name.  Contexts that agree on these are one context to it.

* `Definition.Names`         a rule looks at the keys of a kind;
* `Definition.Indifferent`   two contexts show a definition the same;
* `Definition.Indifferent.evaluate_eq`   then it has the same value in both, for the same reason;
* `SubContext.badge`         kind, key and email address: all of a sub-context that counts at all;
* `Definition.indifferent_of_badges`     so order, names, locales and attributes do not count;
* `Definition.indifferent_insert`, `Definition.indifferent_erase?`   nor does a sub-context of a
                             kind that no rule names.
-/

namespace FeatureFlags

open SubContext (userKind)

/-! ## what a rule names -/

theorem Target.eq_append_of_ofType {type kind : String}
    (h : Target.ofType type = .contextKey kind) : type = "context:" ++ kind := by
  unfold Target.ofType at h
  split at h
  · cases h
  · cases h
  · cases h
  · split at h
    next hd =>
      cases h
      exact Text.after?_eq_some_iff.mp hd
    next => cases h

namespace Definition

/-- A rule looks at the keys of a kind. -/
def Names (d : Definition) (kind : String) : Prop := ∃ r ∈ d.rules, r.type = "context:" ++ kind

/-- Two contexts show a definition the same: the user's key and email address, and the keys of the
kinds that its rules name. -/
structure Indifferent (d : Definition) (b c : Context) : Prop where
  userKey_eq : b.userKey? = c.userKey?
  userEmail_eq : b.userEmail? = c.userEmail?
  key_eq : ∀ kind, d.Names kind → b.key? kind = c.key? kind

namespace Indifferent

variable {d : Definition} {b c : Context}

theorem covers_eq (h : d.Indifferent b c) {r : Rule} (hr : r ∈ d.rules) :
    r.covers b = r.covers c := by
  rw [Rule.covers, Rule.covers]
  cases ht : Target.ofType r.type with
  | userKey => exact congrArg (· == some r.value) h.userKey_eq
  | userEmail => exact congrArg (· == some r.value) h.userEmail_eq
  | emailDomain => exact congrArg (·.any (Text.endsWith r.value)) h.userEmail_eq
  | contextKey kind =>
    have hkind : d.Names kind := ⟨r, hr, Target.eq_append_of_ofType ht⟩
    exact congrArg (· == some r.value) (h.key_eq kind hkind)
  | unknown => rfl

/-- Ranking does not look at the context, so the same rule is the first that matches. -/
theorem matching_eq (h : d.Indifferent b c) : matching? d.rules b = matching? d.rules c := by
  rw [matching?, matching?]
  refine List.find?_congr fun r hr => ?_
  exact h.covers_eq (mem_ranked.mp hr).1

theorem identifier_eq (h : d.Indifferent b c) : b.identifier = c.identifier := by
  rw [Context.identifier, Context.identifier, h.userKey_eq, h.userEmail_eq]

theorem evaluateRollout_eq (h : d.Indifferent b c) :
    d.evaluateRollout b = d.evaluateRollout c := by
  rw [evaluateRollout, evaluateRollout, h.identifier_eq]

theorem evaluate_eq (h : d.Indifferent b c) : d.evaluate b = d.evaluate c := by
  rw [evaluate, evaluate, h.matching_eq, h.evaluateRollout_eq]

end Indifferent

end Definition

/-! ## what never counts -/

/-- all that any definition looks at in a sub-context -/
def SubContext.badge (s : SubContext) : String × Option String × Option String :=
  (s.kind, s.key, s.email)

namespace Context

theorem map_badge_get? {c : Context} (h : c.Normal) (kind : String)
    (x : String × Option String × Option String) :
    (c.get? kind).map SubContext.badge = some x ↔
      x ∈ c.parts.map SubContext.badge ∧ x.1 = kind := by
  rw [Option.map_eq_some_iff, List.mem_map]
  constructor
  · rintro ⟨s, hs, rfl⟩
    obtain ⟨hmem, hk⟩ := (get?_eq_some_iff h).mp hs
    exact ⟨⟨s, hmem, rfl⟩, hk⟩
  · rintro ⟨⟨s, hmem, rfl⟩, hk⟩
    exact ⟨s, (get?_eq_some_iff h).mpr ⟨hmem, hk⟩, rfl⟩

theorem map_badge_get?_of_perm {b c : Context} (hb : b.Normal) (hc : c.Normal)
    (h : (b.parts.map SubContext.badge).Perm (c.parts.map SubContext.badge)) (kind : String) :
    (b.get? kind).map SubContext.badge = (c.get? kind).map SubContext.badge := by
  refine Option.ext fun x => ?_
  rw [map_badge_get? hb, map_badge_get? hc, h.mem_iff]

theorem key?_eq_badge (c : Context) (kind : String) :
    c.key? kind = ((c.get? kind).map SubContext.badge).bind (fun x => x.2.1) := by
  rw [key?]
  cases c.get? kind <;> rfl

theorem userEmail?_eq_badge (c : Context) :
    c.userEmail? = ((c.get? userKind).map SubContext.badge).bind (fun x => x.2.2) := by
  rw [userEmail?]
  cases c.get? userKind <;> rfl

end Context

namespace Definition

theorem indifferent_of_badges (d : Definition) {b c : Context} (hb : b.Normal) (hc : c.Normal)
    (h : (b.parts.map SubContext.badge).Perm (c.parts.map SubContext.badge)) :
    d.Indifferent b c := by
  have hbadge : ∀ kind, (b.get? kind).map SubContext.badge = (c.get? kind).map SubContext.badge :=
    Context.map_badge_get?_of_perm hb hc h
  have hkey : ∀ kind, b.key? kind = c.key? kind := by
    intro kind
    rw [Context.key?_eq_badge, hbadge, ← Context.key?_eq_badge]
  refine ⟨hkey userKind, ?_, fun kind _ => hkey kind⟩
  rw [Context.userEmail?_eq_badge, hbadge, ← Context.userEmail?_eq_badge]

/-- Other kinds than that of the user count only where a rule names them. -/
theorem indifferent_of_get? {d : Definition} {b c : Context} {kind : String} (hu : kind ≠ userKind)
    (hn : ¬ d.Names kind) (h : ∀ other ≠ kind, b.get? other = c.get? other) :
    d.Indifferent b c := by
  have huser : b.get? userKind = c.get? userKind := h userKind (Ne.symm hu)
  refine ⟨?_, ?_, fun other ho => ?_⟩
  · rw [Context.userKey?, Context.key?, huser]
    rfl
  · rw [Context.userEmail?, huser]
    rfl
  · have hne : other ≠ kind := fun he => hn (he ▸ ho)
    rw [Context.key?, h other hne]
    rfl

theorem indifferent_insert {d : Definition} {c : Context} (h : c.Normal) {s : SubContext}
    (hu : s.kind ≠ userKind) (hn : ¬ d.Names s.kind) : d.Indifferent (c.insert s) c :=
  indifferent_of_get? hu hn fun _ ho => Context.get?_insert_of_ne h ho

theorem indifferent_erase? {d : Definition} {b c : Context} (h : c.Normal) {kind : String}
    (hu : kind ≠ userKind) (hn : ¬ d.Names kind) (hb : c.erase? kind = some b) :
    d.Indifferent b c :=
  indifferent_of_get? hu hn fun _ ho => Context.get?_erase?_of_ne h hb ho

/-- **What evaluation looks at.**  Contexts that agree on the user's key and email address and on
the keys of the kinds that rules name give a definition the same value for the same reason.  So the
order of sub-contexts and all that they have beside key and email address never counts, and a
sub-context of another kind than the user's, which no rule names, may come and go. -/
theorem evaluate_of_indifferent (d : Definition) {b c : Context} (hb : b.Normal) (hc : c.Normal) :
    (b.userKey? = c.userKey? → b.userEmail? = c.userEmail? →
      (∀ r ∈ d.rules, ∀ kind, r.type = "context:" ++ kind → b.key? kind = c.key? kind) →
      d.evaluate b = d.evaluate c) ∧
    ((b.parts.map SubContext.badge).Perm (c.parts.map SubContext.badge) →
      d.evaluate b = d.evaluate c) ∧
    ∀ kind, kind ≠ userKind → (∀ r ∈ d.rules, r.type ≠ "context:" ++ kind) →
      (∀ s : SubContext, s.kind = kind → d.evaluate (c.insert s) = d.evaluate c) ∧
      ∀ e, c.erase? kind = some e → d.evaluate e = d.evaluate c := by
  refine ⟨fun hkey hemail hkeys => ?_, fun hperm => ?_, fun kind hu hn => ?_⟩
  · have hnames : ∀ kind, d.Names kind → b.key? kind = c.key? kind := by
      rintro kind ⟨r, hr, ht⟩
      exact hkeys r hr kind ht
    exact Indifferent.evaluate_eq ⟨hkey, hemail, hnames⟩
  · exact (d.indifferent_of_badges hb hc hperm).evaluate_eq
  · have hnames : ¬ d.Names kind := fun ⟨r, hr, ht⟩ => hn r hr ht
    refine ⟨?_, fun e he => (indifferent_erase? hc hu hnames he).evaluate_eq⟩
    rintro s rfl
    exact (indifferent_insert hc hu hnames).evaluate_eq

/-- a rule on teams before a rollout -/
def teamed : Definition where
  key := "beta"
  enabled := true
  rollout := some 30
  onValue := .str "on"
  offValue := .str "off"
  rules := [⟨"context:team", "t1", true, 5⟩]

/-- A user alone is seen like one of another name and language who comes after her region, and a
region beside her is not seen. -/
theorem evaluate_of_renamed :
    let ann := Context.single (.ofUser (some ⟨"u1", "Ann", "ann@company.com", {}⟩) "en")
    let anna := Context.multi [.keyed "region" "eu",
      .ofUser (some ⟨"u1", "Anna", "ann@company.com", .ofList [("plan", .str "gold")]⟩) "de"]
    anna.Normal ∧ ann.Normal ∧ anna.userKey? = ann.userKey? ∧ anna.userEmail? = ann.userEmail? ∧
      anna.key? "team" = ann.key? "team" ∧
      teamed.evaluate anna = teamed.evaluate ann ∧
      teamed.evaluate (ann.insert (.keyed "region" "us")) = teamed.evaluate ann := by
  intro ann anna
  have hb : anna.Normal := ⟨by decide, by decide⟩
  have hteam : anna.key? "team" = ann.key? "team" := by decide
  have hkeys : ∀ r ∈ teamed.rules, ∀ kind, r.type = "context:" ++ kind →
      anna.key? kind = ann.key? kind := by
    intro r hr kind ht
    rw [List.mem_singleton.mp hr] at ht
    have hkind : "team" = kind := String.append_right_inj "context:" |>.mp ht
    rw [← hkind, hteam]
  obtain ⟨hagree, -, hothers⟩ := evaluate_of_indifferent teamed hb (c := ann) trivial
  obtain ⟨hregion, -⟩ := hothers "region" (by decide) (by decide)
  exact ⟨hb, trivial, by decide, by decide, hteam, hagree (by decide) (by decide) hkeys,
    hregion (.keyed "region" "us") rfl⟩

end Definition

end FeatureFlags
