import FeatureFlags.Proofs.Evaluation.Rules

/-!
# Email domains

A rule of type `email_domain` looks at the end of an address.  A value that begins with the at sign
can only be all that follows the last at sign of the address; one without it can also be the end of
a longer domain.

* `domainOf`                 what follows the last at sign of an address;
* `endsWith_marked_iff`      an address ends with a domain and the at sign before it;
* `endsWith_bare_iff`        an address ends with the letters of a domain;
* `Rule.applies_domain`      a rule of this type tests the end of the address;
* `Definition.exists_applies`   a rule that is named as the reason applies;
* `Definition.domain_rules_by_ending`   which addresses such rules reach;
* `Definition.longer_domain_reached`    so a bare domain also reaches longer ones.
-/

namespace FeatureFlags

/-! ## what follows the last separator -/

section Separated

variable {α : Type} {a : α} {xs ys zs : List α}

/-- What has no separator in it ends a list exactly if it ends the last part. -/
theorem suffix_append_cons_iff (h : a ∉ ys) : ys <:+ xs ++ a :: zs ↔ ys <:+ zs := by
  constructor
  · intro hs
    have hpart : a :: zs <:+ xs ++ a :: zs := List.suffix_append _ _
    rcases List.suffix_or_suffix_of_suffix hs hpart with hys | hpart
    · rcases List.suffix_cons_iff.mp hys with rfl | hys
      · exact absurd List.mem_cons_self h
      · exact hys
    · exact absurd (hpart.subset List.mem_cons_self) h
  · intro hs
    exact (hs.trans (List.suffix_cons a zs)).trans (List.suffix_append _ _)

/-- With the separator before it, it is the last part. -/
theorem cons_suffix_append_cons_iff (hy : a ∉ ys) (hz : a ∉ zs) :
    a :: ys <:+ xs ++ a :: zs ↔ ys = zs := by
  have hpart : a :: zs <:+ xs ++ a :: zs := List.suffix_append _ _
  -- of two parts with their separators, one of which ends the other, none is longer
  have hsame : ∀ {us vs : List α}, a ∉ vs → a :: us <:+ a :: vs → us = vs := by
    intro us vs hv hs
    rcases List.suffix_cons_iff.mp hs with heq | hs
    · exact (List.cons.inj heq).2
    · exact absurd (hs.subset List.mem_cons_self) hv
  constructor
  · intro hs
    rcases List.suffix_or_suffix_of_suffix hs hpart with h | h
    · exact hsame hz h
    · exact (hsame hy h).symm
  · rintro rfl
    exact hpart

end Separated

/-! ## addresses -/

/-- what follows the last at sign of an address -/
def domainOf (address : String) : String :=
  String.ofList (address.toList.reverse.takeWhile (fun c => c ≠ '@')).reverse

theorem toList_domainOf (address : String) :
    (domainOf address).toList = (address.toList.reverse.takeWhile (fun c => c ≠ '@')).reverse :=
  String.toList_ofList

theorem at_not_mem_domainOf (address : String) : '@' ∉ (domainOf address).toList := by
  rw [toList_domainOf, List.mem_reverse]
  intro h
  have hall := List.all_eq_true.mp List.all_takeWhile '@' h
  simp at hall

/-- An address with an at sign is split at the last one. -/
theorem exists_toList_eq {address : String} (h : '@' ∈ address.toList) :
    ∃ user, address.toList = user ++ '@' :: (domainOf address).toList := by
  obtain ⟨before, after, hsplit, hbefore⟩ :=
    List.eq_append_cons_of_mem (List.mem_reverse.mpr h)
  have htake : (before ++ '@' :: after).takeWhile (fun c => c ≠ '@') = before := by
    rw [List.takeWhile_append_of_pos]
    · simp
    · intro c hc
      exact decide_eq_true fun heq => hbefore (heq ▸ hc)
  refine ⟨after.reverse, ?_⟩
  rw [toList_domainOf, hsplit, htake, ← List.reverse_reverse address.toList, hsplit]
  simp

variable {address domain : String}

theorem endsWith_iff (tail s : String) :
    Text.endsWith tail s = true ↔ tail.toList <:+ s.toList :=
  List.isSuffixOf_iff_suffix

/-- **A domain with its at sign ends the addresses of that domain.** -/
theorem endsWith_marked_iff (hat : '@' ∈ address.toList) (hdomain : '@' ∉ domain.toList) :
    Text.endsWith ("@" ++ domain) address = true ↔ domainOf address = domain := by
  obtain ⟨user, hsplit⟩ := exists_toList_eq hat
  have hmarked : ("@" ++ domain).toList = '@' :: domain.toList := by
    rw [String.toList_append]
    rfl
  rw [endsWith_iff, hmarked, hsplit,
    cons_suffix_append_cons_iff hdomain (at_not_mem_domainOf address), String.toList_inj]
  exact eq_comm

/-- **A bare domain ends the addresses of all domains that end in it.** -/
theorem endsWith_bare_iff (hat : '@' ∈ address.toList) (hdomain : '@' ∉ domain.toList) :
    Text.endsWith domain address = true ↔ ∃ more, domainOf address = more ++ domain := by
  obtain ⟨user, hsplit⟩ := exists_toList_eq hat
  rw [endsWith_iff, hsplit, suffix_append_cons_iff hdomain]
  constructor
  · rintro ⟨more, hmore⟩
    refine ⟨String.ofList more, ?_⟩
    rw [← String.toList_inj, String.toList_append, String.toList_ofList]
    exact hmore.symm
  · rintro ⟨more, hmore⟩
    rw [hmore, String.toList_append]
    exact List.suffix_append _ _

/-! ## rules -/

theorem Rule.applies_domain {r : Rule} (htype : r.type = "email_domain") (he : r.enabled = true)
    {c : Context} (hc : c.userEmail? = some address) :
    r.applies c = Text.endsWith r.value address := by
  unfold Rule.applies Rule.covers
  rw [he, htype, hc, Bool.true_and]
  rfl

namespace Definition

theorem reason_evaluateRollout_ne (d : Definition) (c : Context) (type value : String) :
    (d.evaluateRollout c).reason ≠ .rule type value := by
  unfold evaluateRollout
  split
  · split <;> exact nofun
  · exact nofun

/-- A rule that is named as the reason is one of the definition's, and applies. -/
theorem exists_applies {d : Definition} {c : Context} {type value : String}
    (h : (d.evaluate c).reason = .rule type value) :
    ∃ r ∈ d.rules, r.type = type ∧ r.value = value ∧ r.applies c = true := by
  by_cases he : d.enabled = true
  · cases hm : matching? d.rules c with
    | some r =>
      rw [evaluate_of_matching he hm] at h
      obtain ⟨htype, hvalue⟩ := Reason.rule.inj h
      obtain ⟨hr, ha, -⟩ := of_head?_among (heads_of_matching hm).2
      exact ⟨r, hr, htype, hvalue, ha⟩
    | none =>
      rw [evaluate_of_none he hm] at h
      exact absurd h (d.reason_evaluateRollout_ne c type value)
  · rw [evaluate, if_neg he] at h
    cases h

/-- **Which addresses the rules for a domain reach.**  A rule that is written with the at sign
matches the addresses of its domain and no other; one without it matches those of every domain that
ends in the same letters.  So where such a rule is the reason why a flag is on, the user's domain is
that of the rule, or at least ends in it. -/
theorem domain_rules_by_ending {c : Context} {email domain : String}
    (hemail : c.userEmail? = some email) (hat : '@' ∈ email.toList)
    (hdomain : '@' ∉ domain.toList) :
    (∀ r : Rule, r.type = "email_domain" → r.enabled = true →
      (r.value = "@" ++ domain → (r.applies c = true ↔ domainOf email = domain)) ∧
      (r.value = domain →
        (r.applies c = true ↔ ∃ more, domainOf email = more ++ domain))) ∧
    ∀ d : Definition,
      ((d.evaluate c).reason = .rule "email_domain" ("@" ++ domain) → domainOf email = domain) ∧
      ((d.evaluate c).reason = .rule "email_domain" domain →
        ∃ more, domainOf email = more ++ domain) := by
  have hrules : ∀ r : Rule, r.type = "email_domain" → r.enabled = true →
      (r.value = "@" ++ domain → (r.applies c = true ↔ domainOf email = domain)) ∧
      (r.value = domain → (r.applies c = true ↔ ∃ more, domainOf email = more ++ domain)) := by
    intro r htype he
    rw [Rule.applies_domain htype he hemail]
    constructor
    · intro hv
      rw [hv]
      exact endsWith_marked_iff hat hdomain
    · intro hv
      rw [hv]
      exact endsWith_bare_iff hat hdomain
  refine ⟨hrules, fun d => ⟨fun h => ?_, fun h => ?_⟩⟩
  · obtain ⟨r, -, htype, hv, ha⟩ := exists_applies h
    exact ((hrules r htype (Rule.applies_iff.mp ha).1).1 hv).mp ha
  · obtain ⟨r, -, htype, hv, ha⟩ := exists_applies h
    exact ((hrules r htype (Rule.applies_iff.mp ha).1).2 hv).mp ha

/-- a user with an address -/
def addressed (email : String) : Context := .single (.ofUser (some ⟨"u1", "Ann", email, {}⟩) "en")

def companyRule (value : String) : Rule := ⟨"email_domain", value, true, 0⟩

/-- Of two at signs the last one counts. -/
theorem domain_after_last_at :
    let c := addressed "ann@other.com@company.com"
    (c.userEmail? = some "ann@other.com@company.com" ∧
      '@' ∈ "ann@other.com@company.com".toList ∧ '@' ∉ "company.com".toList ∧
      '@' ∉ "other.com".toList) ∧
    (companyRule "@company.com").applies c = true ∧
    ¬(companyRule "@other.com").applies c = true := by
  have hat : '@' ∈ "ann@other.com@company.com".toList := by decide
  have hcompany : '@' ∉ "company.com".toList := by decide
  have hother : '@' ∉ "other.com".toList := by decide
  have hdomain : domainOf "ann@other.com@company.com" = "company.com" := by decide
  refine ⟨⟨rfl, hat, hcompany, hother⟩, ?_, ?_⟩
  · exact (((domain_rules_by_ending rfl hat hcompany).1 _ rfl rfl).1 rfl).mpr hdomain
  · intro ha
    have hd := (((domain_rules_by_ending rfl hat hother).1 (companyRule "@other.com") rfl rfl).1
      rfl).mp ha
    rw [hdomain] at hd
    revert hd
    decide

/-- a flag for one company, which is written without the at sign -/
def companyFlag : Definition where
  key := "beta"
  enabled := true
  rollout := some 0
  onValue := .str "on"
  offValue := .str "off"
  rules := [companyRule "company.com"]

/-- The flag is on for a user of another domain that ends in the same letters. -/
theorem longer_domain_reached :
    let c := addressed "ann@notcompany.com"
    c.userEmail? = some "ann@notcompany.com" ∧ '@' ∉ "company.com".toList ∧
    domainOf "ann@notcompany.com" = "notcompany.com" ∧
    ¬((companyRule "company.com").applies c = true ↔
      domainOf "ann@notcompany.com" = "company.com") ∧
    companyFlag.evaluate c = ⟨.str "on", .rule "email_domain" "company.com"⟩ := by
  have ha : (companyRule "company.com").applies (addressed "ann@notcompany.com") = true := by
    decide
  have hleads : Leads (addressed "ann@notcompany.com") [] (companyRule "company.com") [] := by
    refine ⟨ha, fun s hs _ => ?_, nofun⟩
    rw [List.mem_singleton.mp hs]
    exact Int32.le_refl _
  refine ⟨rfl, by decide, by decide, fun h => ?_, ?_⟩
  · exact absurd (h.mp ha) (by decide)
  · exact evaluate_of_matching (d := companyFlag) rfl (matching_of_leads hleads)

end Definition

end FeatureFlags
