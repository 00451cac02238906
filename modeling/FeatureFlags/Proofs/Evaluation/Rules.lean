import FeatureFlags.Evaluation
import FeatureFlags.Identity
import Mathlib.Data.List.Basic

/-!
# Which rule decides

Rules are ranked by a stable sort and tried one after the other.  What comes out is told by the list
as it is written: the rule with the highest priority among those that match, and of several the
first.

* `Rule.applies`           an enabled rule that matches a context;
* `Leads`                  a rule at its place in a list, no applying rule being ahead of it;
* `filter_ranked`          ranking keeps the order of rules with one priority;
* `matching_iff`           the rule that is found, by priority groups of the list as it is written;
* `matching_congr`         so only the order within the groups of applying rules counts;
* `matching_of_leads`, `exists_leads`   it is the one that leads;
* `Definition.evaluate_by_rules`   what this means for the value and the reason.
-/

namespace FeatureFlags

namespace Rule

def applies (r : Rule) (c : Context) : Bool := r.enabled && r.covers c

/-- whether a rule has one of the types that look at something -/
def known (r : Rule) : Bool :=
  ["user_key", "user_email", "email_domain"].contains r.type ||
    "context:".toList.isPrefixOf r.type.toList

theorem applies_iff {r : Rule} {c : Context} :
    r.applies c = true ↔ r.enabled = true ∧ r.covers c = true := by
  rw [applies, Bool.and_eq_true]

theorem ofType_of_unknown {type : String}
    (h : type ∉ ["user_key", "user_email", "email_domain"])
    (hp : ¬ "context:".toList <+: type.toList) : Target.ofType type = .unknown := by
  have hd : Text.after? "context:" type = none := by
    rw [Text.after?, Option.map_eq_none_iff, Option.eq_none_iff_forall_ne_some]
    intro rest hrest
    exact hp ⟨rest, (Text.eq_append_of_dropHead? hrest).symm⟩
  unfold Target.ofType
  split
  next => exact absurd (by simp) h
  next => exact absurd (by simp) h
  next => exact absurd (by simp) h
  next => rw [hd]

/-- A rule of unknown type matches nothing. -/
theorem covers_of_unknown {r : Rule} (h : r.known = false) (c : Context) : r.covers c = false := by
  rw [known, Bool.or_eq_false_iff] at h
  have ht : Target.ofType r.type = .unknown := by
    refine ofType_of_unknown (by simpa using h.1) fun hp => ?_
    rw [List.isPrefixOf_iff_prefix.mpr hp] at h
    cases h.2
  rw [covers, ht]

theorem known_of_applies {r : Rule} {c : Context} (h : r.applies c = true) :
    (r.enabled && r.known) = true := by
  obtain ⟨he, hc⟩ := applies_iff.mp h
  rw [he, Bool.true_and]
  by_contra hk
  rw [covers_of_unknown (Bool.eq_false_iff.mpr hk)] at hc
  cases hc

theorem precedes_trans (q r s : Rule) (h : q.precedes r = true) (h' : r.precedes s = true) :
    q.precedes s = true :=
  decide_eq_true (Int32.le_trans (of_decide_eq_true h') (of_decide_eq_true h))

theorem precedes_total (r s : Rule) : (r.precedes s || s.precedes r) = true := by
  rw [precedes, precedes, Bool.or_eq_true, decide_eq_true_iff, decide_eq_true_iff]
  exact Int32.le_total s.priority r.priority

/-- an applying rule of a priority -/
def among (c : Context) (p : Int32) (r : Rule) : Bool := r.applies c && r.priority = p

theorem among_iff {c : Context} {p : Int32} {r : Rule} :
    r.among c p = true ↔ r.applies c = true ∧ r.priority = p := by
  rw [among, Bool.and_eq_true, decide_eq_true_iff]

end Rule

/-! ## ranking -/

theorem mem_ranked {rs : List Rule} {r : Rule} : r ∈ ranked rs ↔ r ∈ rs ∧ r.enabled = true := by
  rw [ranked, List.mem_mergeSort, List.mem_filter]

theorem pairwise_ranked (rs : List Rule) : (ranked rs).Pairwise (fun r s => s.priority ≤ r.priority) :=
  (List.pairwise_mergeSort Rule.precedes_trans Rule.precedes_total _).imp of_decide_eq_true

/-- **Ranking keeps the order of rules with one priority.** -/
theorem filter_ranked (rs : List Rule) (c : Context) (p : Int32) :
    (ranked rs).filter (Rule.among c p) = rs.filter (Rule.among c p) := by
  have henabled : (rs.filter Rule.enabled).filter (Rule.among c p) = rs.filter (Rule.among c p) := by
    rw [List.filter_filter]
    refine List.filter_congr fun r _ => Bool.and_eq_left_iff_imp.mpr fun h => ?_
    exact (Rule.applies_iff.mp (Rule.among_iff.mp h).1).1
  -- rules of one priority stand in ranked order as they are, so the sort keeps them as a sublist
  have hpairwise : (rs.filter (Rule.among c p)).Pairwise (fun r s => r.precedes s = true) := by
    rw [List.pairwise_filter]
    refine List.pairwise_of_forall fun r s hr hs => decide_eq_true ?_
    rw [(Rule.among_iff.mp hr).2, (Rule.among_iff.mp hs).2]
    exact Int32.le_refl p
  have hsub : (rs.filter (Rule.among c p)).Sublist (ranked rs) :=
    List.sublist_mergeSort Rule.precedes_trans Rule.precedes_total hpairwise
      (henabled ▸ List.filter_sublist)
  have hsub := hsub.filter (Rule.among c p)
  rw [List.filter_filter] at hsub
  simp only [Bool.and_self] at hsub
  refine (hsub.eq_of_length ?_).symm
  rw [← henabled]
  exact (((List.mergeSort_perm _ _).filter _).length_eq).symm

/-! ## the rule that is found -/

theorem matching_eq_none_iff {rs : List Rule} {c : Context} :
    matching? rs c = none ↔ ∀ r ∈ rs, ¬ r.applies c = true := by
  rw [matching?, List.find?_eq_none]
  constructor
  · intro h r hr ha
    obtain ⟨he, hc⟩ := Rule.applies_iff.mp ha
    exact h r (mem_ranked.mpr ⟨hr, he⟩) hc
  · intro h r hr hc
    obtain ⟨hr, he⟩ := mem_ranked.mp hr
    exact h r hr (Rule.applies_iff.mpr ⟨he, hc⟩)

theorem of_head?_among {rs : List Rule} {c : Context} {p : Int32} {r : Rule}
    (h : (rs.filter (Rule.among c p)).head? = some r) :
    r ∈ rs ∧ r.applies c = true ∧ r.priority = p := by
  rw [List.head?_filter] at h
  exact ⟨List.mem_of_find?_eq_some h, Rule.among_iff.mp (List.find?_some h)⟩

/-- No rule that applies is ahead of one that is found. -/
theorem heads_of_matching {rs : List Rule} {c : Context} {r : Rule} (h : matching? rs c = some r) :
    (∀ s ∈ rs, s.applies c = true → s.priority ≤ r.priority) ∧
      (rs.filter (Rule.among c r.priority)).head? = some r := by
  obtain ⟨hc, before, after, hranked, hbefore⟩ := List.find?_eq_some_iff_append.mp h
  have hr : r ∈ ranked rs := hranked ▸ List.mem_append_right _ List.mem_cons_self
  have ha : r.applies c = true := Rule.applies_iff.mpr ⟨(mem_ranked.mp hr).2, hc⟩
  have hbefore : ∀ s ∈ before, ¬ s.covers c = true := fun s hs => by simpa using hbefore s hs
  constructor
  · intro s hs has
    obtain ⟨he, hcs⟩ := Rule.applies_iff.mp has
    have hmem : s ∈ before ++ r :: after := hranked ▸ mem_ranked.mpr ⟨hs, he⟩
    have hsorted := (List.pairwise_append.mp (hranked ▸ pairwise_ranked rs)).2.1
    rcases List.mem_append.mp hmem with hmem | hmem
    · exact absurd hcs (hbefore s hmem)
    · rcases List.mem_cons.mp hmem with rfl | hmem
      · exact Int32.le_refl _
      · exact List.rel_of_pairwise_cons hsorted hmem
  · rw [← filter_ranked, hranked, List.head?_filter, List.find?_eq_some_iff_append]
    refine ⟨Rule.among_iff.mpr ⟨ha, rfl⟩, before, after, rfl, fun s hs => ?_⟩
    rw [Bool.not_eq_true', Bool.eq_false_iff]
    exact fun hs' => hbefore s hs (Rule.applies_iff.mp (Rule.among_iff.mp hs').1).2

/-- **The rule that is found:** none that applies has a higher priority, and it is the first of
those with its own. -/
theorem matching_iff {rs : List Rule} {c : Context} {r : Rule} :
    matching? rs c = some r ↔ (∀ s ∈ rs, s.applies c = true → s.priority ≤ r.priority) ∧
      (rs.filter (Rule.among c r.priority)).head? = some r := by
  refine ⟨heads_of_matching, fun ⟨hmax, hhead⟩ => ?_⟩
  obtain ⟨hr, ha, -⟩ := of_head?_among hhead
  cases hf : matching? rs c with
  | none => exact absurd ha (matching_eq_none_iff.mp hf r hr)
  | some s =>
    obtain ⟨hmax', hhead'⟩ := heads_of_matching hf
    obtain ⟨hs, has, -⟩ := of_head?_among hhead'
    rw [Int32.le_antisymm (hmax s hs has) (hmax' r hr ha), hhead] at hhead'
    exact hhead'.symm

/-! ## what does not count -/

theorem mem_filter_among {rs : List Rule} {c : Context} {r : Rule} (h : r.applies c = true) :
    r ∈ rs.filter (Rule.among c r.priority) ↔ r ∈ rs := by
  rw [List.mem_filter, Rule.among_iff]
  exact and_iff_left ⟨h, rfl⟩

/-- **Only the order within the groups of applying rules with one priority counts.** -/
theorem matching_congr {rs qs : List Rule} {c : Context}
    (h : ∀ p, rs.filter (Rule.among c p) = qs.filter (Rule.among c p)) :
    matching? rs c = matching? qs c := by
  have hmem : ∀ s, s.applies c = true → (s ∈ rs ↔ s ∈ qs) := fun s hs => by
    rw [← mem_filter_among hs, h, mem_filter_among hs]
  refine Option.ext fun r => ?_
  rw [matching_iff, matching_iff, h]
  refine and_congr_left fun _ => forall_congr' fun s => ?_
  constructor
  · exact fun hmax hs ha => hmax ((hmem s ha).mpr hs) ha
  · exact fun hmax hs ha => hmax ((hmem s ha).mp hs) ha

/-- Rules that are disabled or of unknown type do not count. -/
theorem matching_congr_known {rs qs : List Rule} {c : Context}
    (h : rs.filter (fun r => r.enabled && r.known) = qs.filter (fun r => r.enabled && r.known)) :
    matching? rs c = matching? qs c := by
  have hsub : ∀ (ls : List Rule) (p : Int32), ls.filter (Rule.among c p) =
      (ls.filter (fun r => r.enabled && r.known)).filter (Rule.among c p) := fun ls p => by
    rw [List.filter_filter]
    refine List.filter_congr fun r _ => (Bool.and_eq_left_iff_imp.mpr fun hr => ?_).symm
    exact Rule.known_of_applies (Rule.among_iff.mp hr).1
  exact matching_congr fun p => by rw [hsub rs, hsub qs, h]

/-! ## its place in the list -/

/-- `r` applies at its place, none that applies has a higher priority, and none before it the
same. -/
structure Leads (c : Context) (before : List Rule) (r : Rule) (after : List Rule) : Prop where
  applies : r.applies c = true
  no_higher : ∀ s ∈ before ++ r :: after, s.applies c = true → s.priority ≤ r.priority
  no_earlier : ∀ s ∈ before, s.applies c = true → s.priority ≠ r.priority

theorem matching_of_leads {c : Context} {before after : List Rule} {r : Rule}
    (h : Leads c before r after) : matching? (before ++ r :: after) c = some r := by
  refine matching_iff.mpr ⟨h.no_higher, ?_⟩
  rw [List.head?_filter, List.find?_eq_some_iff_append]
  refine ⟨Rule.among_iff.mpr ⟨h.applies, rfl⟩, before, after, rfl, fun s hs => ?_⟩
  rw [Bool.not_eq_true', Bool.eq_false_iff]
  intro hs'
  obtain ⟨ha, hp⟩ := Rule.among_iff.mp hs'
  exact h.no_earlier s hs ha hp

theorem exists_leads {rs : List Rule} {c : Context} {r : Rule} (hr : r ∈ rs)
    (ha : r.applies c = true) : ∃ before s after, rs = before ++ s :: after ∧
      Leads c before s after := by
  cases hf : matching? rs c with
  | none => exact absurd ha (matching_eq_none_iff.mp hf r hr)
  | some s =>
    obtain ⟨hmax, hhead⟩ := matching_iff.mp hf
    rw [List.head?_filter, List.find?_eq_some_iff_append] at hhead
    obtain ⟨hs, before, after, rfl, hbefore⟩ := hhead
    refine ⟨before, s, after, rfl, (Rule.among_iff.mp hs).1, hmax, fun q hq hqa hqp => ?_⟩
    have := hbefore q hq
    rw [Rule.among_iff.mpr ⟨hqa, hqp⟩] at this
    cases this

/-! ## evaluation -/

theorem isSome_matching_of_perm {rs qs : List Rule} (h : rs.Perm qs) (c : Context) :
    (matching? rs c).isSome = (matching? qs c).isSome := by
  rw [Bool.eq_iff_iff, Option.isSome_iff_ne_none, Option.isSome_iff_ne_none, not_iff_not,
    matching_eq_none_iff, matching_eq_none_iff]
  exact forall_congr' fun r => by rw [h.mem_iff]

namespace Definition

theorem evaluate_of_matching {d : Definition} (h : d.enabled = true) {c : Context} {r : Rule}
    (hm : matching? d.rules c = some r) : d.evaluate c = d.on (.rule r.type r.value) := by
  rw [evaluate, if_pos h, hm]

theorem evaluate_of_none {d : Definition} (h : d.enabled = true) {c : Context}
    (hm : matching? d.rules c = none) : d.evaluate c = d.evaluateRollout c := by
  rw [evaluate, if_pos h, hm]

/-- Other rules among which the same one is found make no difference. -/
theorem evaluate_congr (d : Definition) {c : Context} {rs : List Rule}
    (h : matching? rs c = matching? d.rules c) :
    { d with rules := rs }.evaluate c = d.evaluate c := by
  rw [evaluate, evaluate, h]
  rfl

/-- For the value it counts only whether some rule is found. -/
theorem value_evaluate (d : Definition) (c : Context) :
    (d.evaluate c).value =
      if d.enabled then
        if (matching? d.rules c).isSome then d.onValue else (d.evaluateRollout c).value
      else d.offValue := by
  rw [evaluate]
  split
  · cases matching? d.rules c <;> rfl
  · rfl

theorem value_perm (d : Definition) (c : Context) {rs : List Rule} (h : rs.Perm d.rules) :
    ({ d with rules := rs }.evaluate c).value = (d.evaluate c).value := by
  rw [value_evaluate, value_evaluate, isSome_matching_of_perm h]
  rfl

/-- **Which rule decides.**  If rules apply, one of them leads, and it turns an enabled flag on and
is named as the reason; if none does, the rollout alone decides, and without one the flag is on.
Rules that are disabled or of unknown type never count, the order of the rules never counts for the
value, and for the reason only the order of applying rules with one priority. -/
theorem evaluate_by_rules (d : Definition) (c : Context) (h : d.enabled = true) :
    ((∃ r ∈ d.rules, r.applies c = true) →
      ∃ before r after, d.rules = before ++ r :: after ∧ Leads c before r after) ∧
    (∀ before r after, d.rules = before ++ r :: after → Leads c before r after →
      d.evaluate c = ⟨d.onValue, .rule r.type r.value⟩) ∧
    ((∀ r ∈ d.rules, ¬ r.applies c = true) →
      d.evaluate c =
        match d.rollout with
        | none => ⟨d.onValue, .everyone⟩
        | some p =>
          if Rollout.includes p d.key c.identifier then ⟨d.onValue, .inRollout p⟩
          else ⟨d.offValue, .notInRollout p⟩) ∧
    (∀ rs : List Rule, rs.filter (fun r => r.enabled && r.known) =
        d.rules.filter (fun r => r.enabled && r.known) →
      { d with rules := rs }.evaluate c = d.evaluate c) ∧
    ∀ rs : List Rule, rs.Perm d.rules →
      ({ d with rules := rs }.evaluate c).value = (d.evaluate c).value ∧
        (({ d with rules := rs }.evaluate c).reason ≠ (d.evaluate c).reason →
          ∃ p, rs.filter (Rule.among c p) ≠ d.rules.filter (Rule.among c p)) := by
  refine ⟨fun ⟨r, hr, ha⟩ => exists_leads hr ha, fun before r after hd hl => ?_, fun hn => ?_,
    fun rs hrs => d.evaluate_congr (matching_congr_known hrs), fun rs hrs => ⟨?_, fun hne => ?_⟩⟩
  · exact evaluate_of_matching h (hd ▸ matching_of_leads hl)
  · rw [evaluate_of_none h (matching_eq_none_iff.mpr hn), evaluateRollout]
    cases d.rollout <;> rfl
  · exact d.value_perm c hrs
  · by_contra hsame
    have hsame : ∀ p, rs.filter (Rule.among c p) = d.rules.filter (Rule.among c p) := fun p => by
      by_contra hp
      exact hsame ⟨p, hp⟩
    exact hne (congrArg Evaluation.reason (d.evaluate_congr (matching_congr hsame)))

/-- a disabled rule and one of unknown type before two that apply with one priority -/
def tied : Definition where
  key := "beta"
  enabled := true
  rollout := some 0
  onValue := .str "on"
  offValue := .str "off"
  rules := [⟨"user_key", "u1", false, 9⟩, ⟨"plan", "gold", true, 7⟩,
    ⟨"email_domain", "@company.com", true, 5⟩, ⟨"user_key", "u1", true, 5⟩]

/-- A user whom the last two of these rules match. -/
def employee : Context :=
  .single (.ofUser (some ⟨"u1", "John", "john@company.com", {}⟩) "en")

theorem evaluate_of_tie : tied.enabled = true ∧
    tied.evaluate employee = ⟨.str "on", .rule "email_domain" "@company.com"⟩ := by
  refine ⟨rfl, (evaluate_by_rules tied employee rfl).2.1
    [⟨"user_key", "u1", false, 9⟩, ⟨"plan", "gold", true, 7⟩] _ _ rfl ⟨?_, ?_, ?_⟩⟩
  · decide
  · decide
  · decide

end Definition

end FeatureFlags
