import FeatureFlags.Proofs.Contexts

/-!
# What a composed context holds

Composing replaces a sub-context in its place and puts a new kind at the end.  So the place of a
kind comes from its first occurrence and the content from its last, however often it is given.

* `Context.Gathers`        sub-contexts with each given kind once, in the order in which the kinds
                           first occur, and with what is given last for it;
* `Context.gathers_place`  one more sub-context;
* `Context.gathers_compose`, `Context.gathers_insert`, `Context.gathers_erase?`   what composing and
                           changing a context give, also where the changed one is not normal;
* `Context.single_compose_iff`   a lone sub-context exactly for a lone kind.
-/

namespace FeatureFlags.Context

/-- Each given kind once, in the order of the first occurrences, with the last given sub-context. -/
structure Gathers (given ss : List SubContext) : Prop where
  kinds_eq : ss.map SubContext.kind = (given.map SubContext.kind).eraseDups
  nodup : (ss.map SubContext.kind).Nodup
  last_given : ∀ s ∈ ss, (given.filter (fun t => t.kind = s.kind)).getLast? = some s

/-! ## one more -/

theorem mem_place_of_nodup {s t : SubContext} {ts : List SubContext}
    (hn : (ts.map SubContext.kind).Nodup) (h : t ∈ place s ts) :
    t = s ∨ t ∈ ts ∧ t.kind ≠ s.kind := by
  induction ts with
  | nil => exact .inl (List.mem_singleton.mp h)
  | cons u us ih =>
    rw [List.map_cons, List.nodup_cons] at hn
    rw [place_cons] at h
    split at h
    next hu =>
      -- `u` was the only one of its kind, and `s` has its place
      rcases List.mem_cons.mp h with h | h
      · exact .inl h
      · refine .inr ⟨List.mem_cons_of_mem _ h, fun hk => hn.1 ?_⟩
        rw [hu, ← hk]
        exact List.mem_map_of_mem h
    next hu =>
      rcases List.mem_cons.mp h with rfl | h
      · exact .inr ⟨List.mem_cons_self, hu⟩
      · exact (ih hn.2 h).imp id fun h => ⟨List.mem_cons_of_mem _ h.1, h.2⟩

theorem eraseDups_concat (ks : List String) (k : String) :
    (ks ++ [k]).eraseDups = if k ∈ ks then ks.eraseDups else ks.eraseDups ++ [k] := by
  rw [List.eraseDups_append, List.cons_removeAll]
  by_cases h : k ∈ ks
  · rw [if_pos h, if_neg (by simpa using h)]
    exact List.append_nil _
  · rw [if_neg h, if_pos (by simpa using h)]
    rfl

theorem gathers_place {given ss : List SubContext} (h : Gathers given ss) (s : SubContext) :
    Gathers (given ++ [s]) (place s ss) := by
  refine ⟨?_, nodup_place h.nodup s, fun t ht => ?_⟩
  · rw [kinds_place, h.kinds_eq, List.map_append, List.map_singleton, eraseDups_concat]
    simp only [List.mem_eraseDups]
  · rw [List.filter_append, List.getLast?_append]
    rcases mem_place_of_nodup h.nodup ht with rfl | ⟨ht, hk⟩
    · simp
    · rw [h.last_given t ht, List.filter_eq_nil_iff.mpr (by simpa using Ne.symm hk)]
      rfl

theorem gathers_singleton (s : SubContext) : Gathers [s] [s] := by
  refine ⟨rfl, List.pairwise_singleton _ _, fun t ht => ?_⟩
  rw [List.mem_singleton.mp ht]
  simp

theorem gathers_foldl {given ss : List SubContext} (h : Gathers given ss) (ts : List SubContext) :
    Gathers (given ++ ts) (ts.foldl (fun ss s => place s ss) ss) := by
  induction ts generalizing given ss with
  | nil => rwa [List.append_nil]
  | cons t ts ih =>
    rw [← List.singleton_append, ← List.append_assoc]
    exact ih (gathers_place h t)

/-! ## composing and changing -/

theorem gathers_compose (s : SubContext) (ss : List SubContext) :
    Gathers (s :: ss) (compose s ss).parts := by
  rw [parts_compose]
  exact gathers_foldl (gathers_singleton s) ss

/-- However the context was built, adding to it gathers its parts and what is added. -/
theorem gathers_insert (c : Context) (s : SubContext) :
    Gathers (c.parts ++ [s]) (c.insert s).parts := by
  rw [insert]
  cases c.parts with
  | nil => exact gathers_singleton s
  | cons first rest => exact gathers_compose first (rest ++ [s])

/-- However the context was built, removing a kind from it gathers the others. -/
theorem gathers_erase? {c d : Context} {kind : String} (h : c.erase? kind = some d) :
    Gathers (c.parts.filter (fun s => s.kind ≠ kind)) d.parts := by
  rw [erase?] at h
  split at h
  · cases h
  · next first rest hparts =>
    cases h
    rw [hparts]
    exact gathers_compose first rest

theorem erase?_eq_none_iff {c : Context} {kind : String} :
    c.erase? kind = none ↔ ∀ s ∈ c.parts, s.kind = kind := by
  have hnil : c.parts.filter (fun s => s.kind ≠ kind) = [] ↔ ∀ s ∈ c.parts, s.kind = kind := by
    rw [List.filter_eq_nil_iff]
    simp
  rw [← hnil, erase?]
  cases c.parts.filter (fun s => s.kind ≠ kind) with
  | nil => exact iff_of_true rfl rfl
  | cons first rest => exact iff_of_false (Option.some_ne_none _) (List.cons_ne_nil first rest)

/-! ## one kind or several -/

theorem Gathers.mem_kinds_iff {given ss : List SubContext} (h : Gathers given ss) {kind : String} :
    kind ∈ ss.map SubContext.kind ↔ kind ∈ given.map SubContext.kind := by
  rw [h.kinds_eq, List.mem_eraseDups]

/-- Several sub-contexts of a normal context would be of different kinds. -/
theorem Normal.single_of_kinds {c : Context} (h : c.Normal) (kind : String)
    (hk : ∀ s ∈ c.parts, s.kind = kind) : ∃ s, c = single s := by
  match c, h with
  | single s, _ => exact ⟨s, rfl⟩
  | multi (s :: t :: ss), h =>
    have hne : s.kind ≠ t.kind := fun he =>
      (List.nodup_cons.mp h.2).1 (he ▸ List.mem_map_of_mem List.mem_cons_self)
    have hs := hk s List.mem_cons_self
    have ht := hk t (List.mem_cons_of_mem _ List.mem_cons_self)
    exact absurd (hs.trans ht.symm) hne
  | multi [], h => exact absurd h.1 (by simp)
  | multi [_], h => exact absurd h.1 (by simp)

/-- **A composed context is a lone sub-context exactly when there is one kind only.** -/
theorem single_compose_iff (s : SubContext) (ss : List SubContext) :
    (∃ t, compose s ss = single t) ↔ ∀ t ∈ ss, t.kind = s.kind := by
  have hg := gathers_compose s ss
  have hs : s.kind ∈ (compose s ss).parts.map SubContext.kind := hg.mem_kinds_iff.mpr (by simp)
  constructor
  · rintro ⟨u, hu⟩ t ht
    have ht : t.kind ∈ (compose s ss).parts.map SubContext.kind :=
      hg.mem_kinds_iff.mpr (List.mem_map_of_mem (List.mem_cons_of_mem _ ht))
    rw [hu, parts_single, List.map_singleton, List.mem_singleton] at hs ht
    exact ht.trans hs.symm
  · intro h
    refine (normal_compose s ss).single_of_kinds s.kind fun t ht => ?_
    obtain ⟨u, hu, hk⟩ := List.mem_map.mp (hg.mem_kinds_iff.mp (List.mem_map_of_mem ht))
    rcases List.mem_cons.mp hu with rfl | hu
    · exact hk.symm
    · exact hk.symm.trans (h u hu)

/-! ## the normal form -/

/-- **Composing gives the normal form of what is given, and changes give normal forms whatever they
are made on.**  A composed context holds the given kinds in the order of their first occurrence, each
with what was given last, and is wrapped exactly when there are several.  A context that is changed
need not be normal: it may be wrapped and hold nothing, one sub-context, or a kind twice. -/
theorem composed_normal_form (s : SubContext) (ss : List SubContext) (c : Context)
    (kind : String) :
    ((compose s ss).Normal ∧ Gathers (s :: ss) (compose s ss).parts ∧
      ((∃ t, compose s ss = single t) ↔ ∀ t ∈ ss, t.kind = s.kind)) ∧
    ((c.insert s).Normal ∧ Gathers (c.parts ++ [s]) (c.insert s).parts) ∧
    ((c.erase? kind = none ↔ ∀ t ∈ c.parts, t.kind = kind) ∧
      ∀ d, c.erase? kind = some d →
        d.Normal ∧ Gathers (c.parts.filter (fun t => t.kind ≠ kind)) d.parts) :=
  ⟨⟨normal_compose s ss, gathers_compose s ss, single_compose_iff s ss⟩,
    ⟨normal_insert c s, gathers_insert c s⟩,
    erase?_eq_none_iff, fun _ h => ⟨normal_erase? h, gathers_erase? h⟩⟩

end FeatureFlags.Context
