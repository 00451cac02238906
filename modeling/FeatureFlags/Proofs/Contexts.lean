import FeatureFlags.Identity
import FeatureFlags.Proofs.Equality

/-!
# Changed contexts

What is found in a context after a sub-context was added, replaced or removed, and that such a
context is told apart from the one before.

* `Context.get?_insert_self`   an added sub-context is found under its kind;
* `Context.get?_erase?_self`   after removing a kind nothing is found under it;
* `Context.normal_compose`, `Context.normal_insert`, `Context.normal_erase?`   no kind is there
                                twice;
* `Context.get?_insert_of_ne`, `Context.get?_erase?_of_ne`   the other kinds stay as they are;
* `Context.keys_eq_of_same`    equal contexts hold the same keys;
* `Context.get?_of_same`       and equal sub-contexts;
* `Context.insert_keyed_not_same`, `Context.erase?_not_same`   so both changes are seen.
-/

namespace FeatureFlags

theorem SubContext.same_refl (c : SubContext) : (c == c) = true := by
  show c.same c = true
  simp [same, Json.sameMembers_refl]

theorem SubContext.same_symm {c d : SubContext} (h : (c == d) = true) : (d == c) = true := by
  replace h : c.same d = true := h
  show d.same c = true
  simp only [same, Bool.and_eq_true, beq_iff_eq] at h ⊢
  exact ⟨⟨⟨⟨⟨⟨h.1.1.1.1.1.1.symm, h.1.1.1.1.1.2.symm⟩, h.1.1.1.1.2.symm⟩, h.1.1.1.2.symm⟩,
    h.1.1.2.symm⟩, h.1.2.symm⟩, Json.sameMembers_symm h.2⟩

theorem SubContext.same_trans {b c d : SubContext} (h : (b == c) = true) (h' : (c == d) = true) :
    (b == d) = true := by
  replace h : b.same c = true := h
  replace h' : c.same d = true := h'
  show b.same d = true
  simp only [same, Bool.and_eq_true, beq_iff_eq] at h h' ⊢
  exact ⟨⟨⟨⟨⟨⟨h.1.1.1.1.1.1.trans h'.1.1.1.1.1.1, h.1.1.1.1.1.2.trans h'.1.1.1.1.1.2⟩,
    h.1.1.1.1.2.trans h'.1.1.1.1.2⟩, h.1.1.1.2.trans h'.1.1.1.2⟩, h.1.1.2.trans h'.1.1.2⟩,
    h.1.2.trans h'.1.2⟩, Json.sameMembers_trans h.2 h'.2⟩

theorem SubContext.key_eq_of_same {c d : SubContext} (h : (c == d) = true) :
    c.kind = d.kind ∧ c.key = d.key := by
  replace h : c.same d = true := h
  simp only [same, Bool.and_eq_true, beq_iff_eq] at h
  exact ⟨h.1.1.1.1.1.1, h.1.1.1.1.2⟩

instance : ReflBEq SubContext := ⟨SubContext.same_refl _⟩

namespace Context

theorem same_refl (c : Context) : (c == c) = true := by
  cases c with
  | single s => exact SubContext.same_refl s
  | multi ss => exact beq_self_eq_true ss

theorem get?_eq_none_iff {c : Context} {kind : String} :
    c.get? kind = none ↔ kind ∉ c.parts.map SubContext.kind := by
  rw [get?, List.find?_eq_none, List.mem_map]
  constructor
  · rintro h ⟨s, hs, hk⟩
    exact h s hs (decide_eq_true hk)
  · intro h s hs hk
    exact h ⟨s, hs, of_decide_eq_true hk⟩

theorem mem_kinds_of_get? {c : Context} {kind : String} {s : SubContext}
    (h : c.get? kind = some s) : kind ∈ c.parts.map SubContext.kind := by
  refine Decidable.byContradiction fun hn => ?_
  rw [get?_eq_none_iff.mpr hn] at h
  cases h

/-! ## adding -/

theorem find?_place_self (s : SubContext) (ts : List SubContext) :
    (place s ts).find? (fun t => t.kind = s.kind) = some s := by
  induction ts with
  | nil => simp [place_nil]
  | cons t ts ih =>
    rw [place_cons]
    by_cases h : t.kind = s.kind
    · rw [if_pos h, List.find?_cons_of_pos (by simp)]
    · rw [if_neg h, List.find?_cons_of_neg (by simpa using h), ih]

theorem parts_compose (s : SubContext) (ss : List SubContext) :
    (compose s ss).parts = ss.foldl (fun ss s => place s ss) [s] := by
  rw [compose, parts_ofParts]

theorem get?_insert_self (c : Context) (s : SubContext) : (c.insert s).get? s.kind = some s := by
  rw [get?, insert]
  cases c.parts with
  | nil => simp [parts_single]
  | cons first rest =>
    show (compose first (rest ++ [s])).parts.find? _ = _
    rw [parts_compose, List.foldl_append]
    exact find?_place_self s _

theorem key?_insert_keyed (c : Context) (kind key : String) :
    (c.insert (.keyed kind key)).key? kind = some key := by
  have h := get?_insert_self c (.keyed kind key)
  rw [key?, show (c.insert (.keyed kind key)).get? kind = _ from h]
  rfl

/-! ## removing -/

theorem mem_place {s t : SubContext} {ts : List SubContext} (h : t ∈ place s ts) :
    t = s ∨ t ∈ ts := by
  induction ts with
  | nil => exact .inl (List.mem_singleton.mp h)
  | cons u us ih =>
    rw [place_cons] at h
    split at h
    · rcases List.mem_cons.mp h with h | h
      · exact .inl h
      · exact .inr (List.mem_cons_of_mem _ h)
    · rcases List.mem_cons.mp h with h | h
      · exact .inr (h ▸ List.mem_cons_self)
      · exact (ih h).imp id (List.mem_cons_of_mem _)

theorem mem_of_mem_compose {s t : SubContext} {ss : List SubContext}
    (h : t ∈ (compose s ss).parts) : t ∈ s :: ss := by
  rw [parts_compose] at h
  suffices ∀ acc, t ∈ ss.foldl (fun ss s => place s ss) acc → t ∈ acc ∨ t ∈ ss from
    List.mem_cons.mpr ((this [s] h).imp List.mem_singleton.mp id)
  clear h
  induction ss with
  | nil => exact fun acc h => .inl h
  | cons u us ih =>
    intro acc h
    rcases ih _ h with h | h
    · rcases mem_place h with rfl | h
      · exact .inr List.mem_cons_self
      · exact .inl h
    · exact .inr (List.mem_cons_of_mem _ h)

theorem get?_erase?_self {c d : Context} {kind : String} (h : c.erase? kind = some d) :
    d.get? kind = none := by
  rw [erase?] at h
  split at h
  · cases h
  · next first rest hparts =>
    cases h
    rw [get?, List.find?_eq_none]
    intro s hs
    have := hparts ▸ mem_of_mem_compose hs
    simpa using (List.mem_filter.mp this).2

/-! ## different kinds -/

theorem kinds_place (s : SubContext) (ts : List SubContext) :
    (place s ts).map SubContext.kind =
      if s.kind ∈ ts.map SubContext.kind then ts.map SubContext.kind
      else ts.map SubContext.kind ++ [s.kind] := by
  induction ts with
  | nil => rfl
  | cons t ts ih =>
    rw [place_cons, List.map_cons]
    by_cases h : t.kind = s.kind
    · rw [if_pos h, if_pos (List.mem_cons.mpr (.inl h.symm)), List.map_cons, h]
    · have hmem : s.kind ∈ t.kind :: ts.map SubContext.kind ↔ s.kind ∈ ts.map SubContext.kind :=
        List.mem_cons.trans (or_iff_right (Ne.symm h))
      rw [if_neg h, List.map_cons, ih]
      by_cases hs : s.kind ∈ ts.map SubContext.kind
      · rw [if_pos hs, if_pos (hmem.mpr hs)]
      · rw [if_neg hs, if_neg (mt hmem.mp hs), List.cons_append]

theorem nodup_place {ts : List SubContext} (h : (ts.map SubContext.kind).Nodup) (s : SubContext) :
    ((place s ts).map SubContext.kind).Nodup := by
  rw [kinds_place]
  by_cases hs : s.kind ∈ ts.map SubContext.kind
  · rwa [if_pos hs]
  · rw [if_neg hs, List.nodup_append]
    refine ⟨h, List.pairwise_singleton _ _, fun a ha b hb hab => ?_⟩
    rw [List.mem_singleton.mp hb] at hab
    exact hs (hab ▸ ha)

theorem place_ne_nil (s : SubContext) (ts : List SubContext) : place s ts ≠ [] := by
  cases ts with
  | nil => exact List.cons_ne_nil _ _
  | cons t ts =>
    rw [place_cons]
    split <;> exact List.cons_ne_nil _ _

theorem normal_ofParts {ss : List SubContext} (hne : ss ≠ [])
    (h : (ss.map SubContext.kind).Nodup) : (ofParts ss).Normal := by
  match ss with
  | [] => exact absurd rfl hne
  | [s] => trivial
  | s :: t :: ss => exact ⟨Nat.le_add_left 2 ss.length, h⟩

/-- Composing gives each kind once. -/
theorem normal_compose (s : SubContext) (ss : List SubContext) : (compose s ss).Normal := by
  suffices ∀ acc : List SubContext, acc ≠ [] → (acc.map SubContext.kind).Nodup →
      (ofParts (ss.foldl (fun ss s => place s ss) acc)).Normal from
    this [s] (List.cons_ne_nil _ _) (List.pairwise_singleton _ _)
  induction ss with
  | nil => exact fun _ hne h => normal_ofParts hne h
  | cons t ss ih => exact fun acc _ h => ih _ (place_ne_nil t acc) (nodup_place h t)

theorem normal_insert (c : Context) (s : SubContext) : (c.insert s).Normal := by
  rw [insert]
  cases c.parts with
  | nil => trivial
  | cons first rest => exact normal_compose _ _

theorem normal_erase? {c d : Context} {kind : String} (h : c.erase? kind = some d) : d.Normal := by
  rw [erase?] at h
  split at h
  · cases h
  · cases h
    exact normal_compose _ _

theorem mem_of_mem_insert {c : Context} {s t : SubContext} (h : t ∈ (c.insert s).parts) :
    t = s ∨ t ∈ c.parts := by
  rw [insert] at h
  cases hc : c.parts with
  | nil =>
    rw [hc] at h
    exact .inl (List.mem_singleton.mp h)
  | cons first rest =>
    rw [hc] at h
    rcases List.mem_cons.mp (mem_of_mem_compose h) with h | h
    · exact .inr (h ▸ List.mem_cons_self)
    · rcases List.mem_append.mp h with h | h
      · exact .inr (List.mem_cons_of_mem _ h)
      · exact .inl (List.mem_singleton.mp h)

theorem mem_of_mem_erase? {c d : Context} {kind : String} (h : c.erase? kind = some d)
    {t : SubContext} (ht : t ∈ d.parts) : t ∈ c.parts := by
  rw [erase?] at h
  split at h
  · cases h
  · next first rest hparts =>
    cases h
    exact (List.mem_filter.mp (hparts ▸ mem_of_mem_compose ht)).1

/-! ## other kinds -/

theorem Normal.nodup {c : Context} (h : c.Normal) : (c.parts.map SubContext.kind).Nodup := by
  cases c with
  | single s => exact List.pairwise_singleton _ _
  | multi ss => exact h.2

theorem Normal.parts_ne_nil {c : Context} (h : c.Normal) : c.parts ≠ [] := by
  cases c with
  | single s => exact List.cons_ne_nil _ _
  | multi ss => exact List.ne_nil_of_length_pos (Nat.lt_of_lt_of_le Nat.two_pos h.1)

theorem place_of_not_mem {s : SubContext} {ts : List SubContext}
    (h : s.kind ∉ ts.map SubContext.kind) : place s ts = ts ++ [s] := by
  induction ts with
  | nil => rfl
  | cons t ts ih =>
    rw [List.map_cons, List.mem_cons, not_or] at h
    rw [place_cons, if_neg (Ne.symm h.1), ih h.2, List.cons_append]

/-- Sub-contexts of different kinds are put together as they are. -/
theorem foldl_place_of_nodup {acc ss : List SubContext}
    (h : ((acc ++ ss).map SubContext.kind).Nodup) :
    ss.foldl (fun ss s => place s ss) acc = acc ++ ss := by
  induction ss generalizing acc with
  | nil => exact (List.append_nil acc).symm
  | cons s ss ih =>
    have hs : s.kind ∉ acc.map SubContext.kind := by
      rw [List.map_append, List.nodup_append] at h
      exact fun hm => h.2.2 _ hm _ (List.mem_map_of_mem List.mem_cons_self) rfl
    have he : acc ++ [s] ++ ss = acc ++ s :: ss := by
      rw [List.append_assoc, List.singleton_append]
    rw [List.foldl_cons, place_of_not_mem hs, ih (he ▸ h), he]

theorem parts_compose_of_nodup {s : SubContext} {ss : List SubContext}
    (h : ((s :: ss).map SubContext.kind).Nodup) : (compose s ss).parts = s :: ss := by
  rw [parts_compose]
  exact foldl_place_of_nodup h

theorem parts_insert {c : Context} (h : c.Normal) (s : SubContext) :
    (c.insert s).parts = place s c.parts := by
  rw [insert]
  cases hc : c.parts with
  | nil => rfl
  | cons first rest =>
    have hr : rest.foldl (fun ss s => place s ss) [first] = [first] ++ rest :=
      foldl_place_of_nodup (show ((first :: rest).map SubContext.kind).Nodup from hc ▸ h.nodup)
    show (compose first (rest ++ [s])).parts = _
    rw [parts_compose, List.foldl_append, hr]
    rfl

theorem parts_erase? {c d : Context} (hn : c.Normal) {kind : String}
    (h : c.erase? kind = some d) : d.parts = c.parts.filter (fun s => s.kind ≠ kind) := by
  rw [erase?] at h
  split at h
  · cases h
  · next first rest hparts =>
    cases h
    rw [hparts]
    refine parts_compose_of_nodup ?_
    rw [← hparts]
    exact hn.nodup.sublist (List.filter_sublist.map _)

theorem find?_place_of_ne {s : SubContext} {kind : String} (h : kind ≠ s.kind)
    (ts : List SubContext) :
    (place s ts).find? (fun t => t.kind = kind) = ts.find? (fun t => t.kind = kind) := by
  have hs : ¬ s.kind = kind := Ne.symm h
  induction ts with
  | nil => simp [place_nil, hs]
  | cons t ts ih =>
    rw [place_cons]
    by_cases ht : t.kind = s.kind
    · rw [if_pos ht, List.find?_cons_of_neg (by simpa using hs),
        List.find?_cons_of_neg (by simpa [ht] using hs)]
    · rw [if_neg ht, List.find?_cons, List.find?_cons, ih]

theorem get?_insert_of_ne {c : Context} (hn : c.Normal) {s : SubContext} {kind : String}
    (h : kind ≠ s.kind) : (c.insert s).get? kind = c.get? kind := by
  rw [get?, parts_insert hn, find?_place_of_ne h, get?]

theorem get?_erase?_of_ne {c d : Context} (hn : c.Normal) {kind other : String}
    (h : c.erase? kind = some d) (ho : other ≠ kind) : d.get? other = c.get? other := by
  rw [get?, parts_erase? hn h, List.find?_filter, get?]
  congr 1
  funext s
  by_cases hs : s.kind = other
  · simp [hs, ho]
  · simp [hs]

theorem kind_of_get? {c : Context} {kind : String} {s : SubContext} (h : c.get? kind = some s) :
    s.kind = kind := by
  simpa using List.find?_some h

/-- A kind can be removed from a context that holds another one. -/
theorem exists_erase? {c : Context} {kind other : String} (ho : other ≠ kind)
    (h : c.get? other ≠ none) : ∃ d, c.erase? kind = some d := by
  obtain ⟨s, hs⟩ := Option.ne_none_iff_exists'.mp h
  have hk : s.kind = other := kind_of_get? hs
  have hm : s ∈ c.parts.filter (fun s => s.kind ≠ kind) :=
    List.mem_filter.mpr ⟨List.mem_of_find?_eq_some hs, decide_eq_true (hk ▸ ho)⟩
  rw [erase?]
  split
  next hnil => exact absurd (hnil ▸ hm) List.not_mem_nil
  next => exact ⟨_, rfl⟩

/-! ## changes are seen -/

theorem find?_key_eq_of_same {ss ts : List SubContext} (h : (ss == ts) = true) (kind : String) :
    (ss.find? (fun s => s.kind = kind)).map SubContext.key =
      (ts.find? (fun t => t.kind = kind)).map SubContext.key := by
  induction ss generalizing ts with
  | nil =>
    cases ts with
    | nil => rfl
    | cons t ts => cases h
  | cons s ss ih =>
    cases ts with
    | nil => cases h
    | cons t ts =>
      have h : (s == t) = true ∧ (ss == ts) = true := by
        rwa [List.cons_beq_cons, Bool.and_eq_true] at h
      obtain ⟨hkind, hkey⟩ := SubContext.key_eq_of_same h.1
      rw [List.find?_cons, List.find?_cons, hkind]
      split
      · exact congrArg some hkey
      · exact ih h.2

theorem parts_of_same {c d : Context} (h : (c == d) = true) : (c.parts == d.parts) = true := by
  cases c with
  | single s =>
    cases d with
    | single t =>
      rw [parts_single, parts_single, List.cons_beq_cons, show (s == t) = true from h]
      rfl
    | multi ts => cases h
  | multi ss =>
    cases d with
    | single t => cases h
    | multi ts => exact h

/-- Equal contexts hold the same kinds with the same keys. -/
theorem keys_eq_of_same {c d : Context} (h : (c == d) = true) (kind : String) :
    (c.get? kind).map SubContext.key = (d.get? kind).map SubContext.key :=
  find?_key_eq_of_same (parts_of_same h) kind

theorem find?_of_same {ss ts : List SubContext} (h : (ss == ts) = true) {kind : String}
    {t : SubContext} (ht : ts.find? (fun t => t.kind = kind) = some t) :
    ∃ s, ss.find? (fun s => s.kind = kind) = some s ∧ (s == t) = true := by
  induction ss generalizing ts with
  | nil =>
    cases ts with
    | nil => cases ht
    | cons t ts => cases h
  | cons s ss ih =>
    cases ts with
    | nil => cases h
    | cons u ts =>
      have h : (s == u) = true ∧ (ss == ts) = true := by
        rwa [List.cons_beq_cons, Bool.and_eq_true] at h
      rw [List.find?_cons, (SubContext.key_eq_of_same h.1).1]
      rw [List.find?_cons] at ht
      split at ht
      · cases ht
        exact ⟨s, rfl, h.1⟩
      · exact ih h.2 ht

/-- Equal contexts hold equal sub-contexts. -/
theorem get?_of_same {c d : Context} (h : (c == d) = true) {kind : String} {t : SubContext}
    (ht : d.get? kind = some t) : ∃ s, c.get? kind = some s ∧ (s == t) = true :=
  find?_of_same (parts_of_same h) ht

theorem key?_eq_of_same {c d : Context} (h : (c == d) = true) (kind : String) :
    c.key? kind = d.key? kind := by
  have hk := keys_eq_of_same h kind
  rw [key?, key?]
  cases hc : c.get? kind with
  | none =>
    rw [hc] at hk
    rw [Option.map_eq_none_iff.mp hk.symm]
  | some s =>
    rw [hc] at hk
    obtain ⟨t, ht, hst⟩ := Option.map_eq_some_iff.mp hk.symm
    rw [ht]
    exact hst.symm

theorem insert_keyed_not_same {c : Context} {kind key : String} (h : c.key? kind ≠ some key) :
    (c.insert (.keyed kind key) == c) = false := by
  rw [Bool.eq_false_iff]
  intro hs
  exact h ((key?_eq_of_same hs kind).symm.trans (key?_insert_keyed c kind key))

theorem erase?_not_same {c d : Context} {kind : String} (h : c.erase? kind = some d)
    (hc : c.get? kind ≠ none) : (d == c) = false := by
  rw [Bool.eq_false_iff]
  intro hs
  have hk := keys_eq_of_same hs kind
  rw [get?_erase?_self h] at hk
  exact hc (Option.map_eq_none_iff.mp hk.symm)

end Context

end FeatureFlags
