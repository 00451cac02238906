import FeatureFlags.Proofs.Contexts.Composition
import Mathlib.Data.List.Nodup

/-!
# The algebra of contexts

How adding and removing sub-contexts go together on normal contexts.  A normal context is determined
by its parts, so each law is one about lists of sub-contexts of different kinds.

* `Context.Normal.ext`        normal contexts with the same parts are equal;
* `Context.get?_eq_some_iff`  each part is the one that is found under its kind;
* `Context.place_of_mem`      a sub-context of a kind that is there is put in place;
* `Context.place_place`       of two sub-contexts of one kind the later one counts;
* `Context.place_comm`        those of two kinds may be added in either order, up to their places;
* `Context.Rearranged`        contexts that differ in the order of their sub-contexts at most;
* `Context.insert_of_get?`, `Context.erase?_of_get?`   changes that are none;
* `Context.erase?_insert`     what was added can be taken away again;
* `Context.context_algebra`   the laws together.
-/

namespace FeatureFlags.Context

/-! ## normal contexts and their parts -/

theorem Normal.ofParts_parts {c : Context} (h : c.Normal) : ofParts c.parts = c := by
  cases c with
  | single s => rfl
  | multi ss =>
    have hlength : 2 ≤ ss.length := h.1
    match ss with
    | [] => simp at hlength
    | [s] => simp at hlength
    | _ :: _ :: _ => rfl

theorem Normal.ext {c d : Context} (hc : c.Normal) (hd : d.Normal) (h : c.parts = d.parts) :
    c = d := by
  rw [← hc.ofParts_parts, h, hd.ofParts_parts]

/-- Composing the parts of a normal context gives it again. -/
theorem Normal.exists_compose {c : Context} (h : c.Normal) :
    ∃ first rest, c.parts = first :: rest ∧ compose first rest = c := by
  obtain ⟨first, rest, hparts⟩ := List.exists_cons_of_ne_nil h.parts_ne_nil
  have hnodup : ((first :: rest).map SubContext.kind).Nodup := hparts ▸ h.nodup
  refine ⟨first, rest, hparts, (normal_compose first rest).ext h ?_⟩
  rw [parts_compose_of_nodup hnodup, hparts]

theorem get?_eq_some_iff {c : Context} (h : c.Normal) {kind : String} {s : SubContext} :
    c.get? kind = some s ↔ s ∈ c.parts ∧ s.kind = kind := by
  constructor
  · intro hs
    exact ⟨List.mem_of_find?_eq_some hs, kind_of_get? hs⟩
  · rintro ⟨hs, rfl⟩
    cases hg : c.get? s.kind with
    | none => exact absurd (List.mem_map_of_mem hs) (get?_eq_none_iff.mp hg)
    | some t =>
      have ht : t ∈ c.parts := List.mem_of_find?_eq_some hg
      have hk : t.kind = s.kind := kind_of_get? hg
      rw [List.inj_on_of_nodup_map h.nodup ht hs hk]

/-! ## placing -/

/-- The only sub-context of the kind is replaced. -/
theorem place_of_mem {s : SubContext} {ts : List SubContext}
    (hn : (ts.map SubContext.kind).Nodup) (h : s.kind ∈ ts.map SubContext.kind) :
    place s ts = ts.map (fun t => if t.kind = s.kind then s else t) := by
  induction ts with
  | nil => simp at h
  | cons t ts ih =>
    rw [List.map_cons, List.nodup_cons] at hn
    rw [place_cons, List.map_cons]
    by_cases ht : t.kind = s.kind
    · have hrest : ∀ u ∈ ts, (if u.kind = s.kind then s else u) = u := by
        intro u hu
        rw [if_neg]
        intro hk
        exact hn.1 (ht.trans hk.symm ▸ List.mem_map_of_mem hu)
      rw [if_pos ht, if_pos ht, List.map_congr_left hrest, List.map_id']
    · have hs : s.kind ∈ ts.map SubContext.kind := by
        rw [List.map_cons, List.mem_cons] at h
        exact h.resolve_left (Ne.symm ht)
      rw [if_neg ht, if_neg ht, ih hn.2 hs]

/-- What is there already is put in its own place. -/
theorem place_of_find? {s : SubContext} {ts : List SubContext}
    (h : ts.find? (fun t => t.kind = s.kind) = some s) : place s ts = ts := by
  induction ts with
  | nil => simp at h
  | cons t ts ih =>
    rw [place_cons]
    by_cases ht : t.kind = s.kind
    · rw [List.find?_cons_of_pos (by simpa using ht)] at h
      rw [if_pos ht, Option.some.inj h]
    · rw [List.find?_cons_of_neg (by simpa using ht)] at h
      rw [if_neg ht, ih h]

theorem place_place {s t : SubContext} (h : s.kind = t.kind) (us : List SubContext) :
    place t (place s us) = place t us := by
  induction us with
  | nil => simp [place_nil, place_cons, h]
  | cons u us ih =>
    by_cases hu : u.kind = t.kind
    · simp [place_cons, h, hu]
    · simp [place_cons, h, hu, ih]

/-- Of two new kinds the one that is added first stands first; otherwise nothing depends on the
order. -/
theorem place_comm {s t : SubContext} (h : s.kind ≠ t.kind) (us : List SubContext) :
    (place t (place s us)).Perm (place s (place t us)) := by
  induction us with
  | nil =>
    rw [place_nil, place_nil, place_cons, place_cons, if_neg h, if_neg (Ne.symm h)]
    exact List.Perm.swap t s []
  | cons u us ih =>
    by_cases hs : u.kind = s.kind
    · have ht : u.kind ≠ t.kind := hs ▸ h
      rw [place_cons, if_pos hs, place_cons, if_neg h, place_cons, if_neg ht, place_cons, if_pos hs]
    · by_cases ht : u.kind = t.kind
      · rw [place_cons, if_neg hs, place_cons, if_pos ht, place_cons, if_pos ht, place_cons,
          if_neg (Ne.symm h)]
      · rw [place_cons, if_neg hs, place_cons, if_neg ht, place_cons, if_neg ht, place_cons,
          if_neg hs]
        exact ih.cons u

/-! ## adding and removing -/

variable {c : Context}

/-- The same sub-contexts, alone or together, in whatever order. -/
structure Rearranged (c d : Context) : Prop where
  isMulti_eq : c.isMulti = d.isMulti
  perm : c.parts.Perm d.parts

theorem Normal.isMulti_eq (h : c.Normal) : c.isMulti = decide (2 ≤ c.parts.length) := by
  cases c with
  | single s => rfl
  | multi ss => exact (decide_eq_true h.1).symm

theorem Normal.rearranged {d : Context} (hc : c.Normal) (hd : d.Normal)
    (h : c.parts.Perm d.parts) : c.Rearranged d := by
  refine ⟨?_, h⟩
  rw [hc.isMulti_eq, hd.isMulti_eq, h.length_eq]

/-- An added sub-context is put in the place of the one of its kind, or at the end. -/
theorem parts_insert_eq (h : c.Normal) (s : SubContext) :
    (c.insert s).parts =
      if (c.get? s.kind).isSome then c.parts.map (fun t => if t.kind = s.kind then s else t)
      else c.parts ++ [s] := by
  rw [parts_insert h]
  cases hg : c.get? s.kind with
  | none => exact place_of_not_mem (get?_eq_none_iff.mp hg)
  | some t => exact place_of_mem h.nodup (mem_kinds_of_get? hg)

/-- Adding what is there changes nothing. -/
theorem insert_of_get? (h : c.Normal) {s : SubContext} (hs : c.get? s.kind = some s) :
    c.insert s = c := by
  refine (normal_insert c s).ext h ?_
  rw [parts_insert h, place_of_find? hs]

theorem get?_insert (h : c.Normal) (s : SubContext) (kind : String) :
    (c.insert s).get? kind = if kind = s.kind then some s else c.get? kind := by
  by_cases hk : kind = s.kind
  · rw [if_pos hk, hk, get?_insert_self]
  · rw [if_neg hk, get?_insert_of_ne h hk]

theorem insert_insert_of_eq (h : c.Normal) {s t : SubContext} (hk : s.kind = t.kind) :
    (c.insert s).insert t = c.insert t := by
  refine (normal_insert _ t).ext (normal_insert c t) ?_
  rw [parts_insert (normal_insert c s), parts_insert h, parts_insert h, place_place hk]

theorem insert_insert_of_ne (h : c.Normal) {s t : SubContext} (hk : s.kind ≠ t.kind) :
    ((c.insert s).insert t).Rearranged ((c.insert t).insert s) := by
  refine (normal_insert _ t).rearranged (normal_insert _ s) ?_
  rw [parts_insert (normal_insert c s), parts_insert h, parts_insert (normal_insert c t),
    parts_insert h]
  exact place_comm hk c.parts

/-- Only the kind of a lone sub-context cannot be removed. -/
theorem erase?_eq_none_iff_kinds (h : c.Normal) {kind : String} :
    c.erase? kind = none ↔ c.parts.map SubContext.kind = [kind] := by
  rw [erase?_eq_none_iff]
  constructor
  · intro hall
    obtain ⟨s, rfl⟩ := h.single_of_kinds kind hall
    rw [parts_single, List.map_singleton, hall s List.mem_cons_self]
  · intro hkinds s hs
    have hk : s.kind ∈ c.parts.map SubContext.kind := List.mem_map_of_mem hs
    rw [hkinds] at hk
    exact List.mem_singleton.mp hk

theorem erase?_of_parts {d : Context} (hc : c.Normal) (hd : d.Normal) {kind : String}
    (h : c.parts.filter (fun s => s.kind ≠ kind) = d.parts) : c.erase? kind = some d := by
  cases he : c.erase? kind with
  | none =>
    have hnil : c.parts.filter (fun s => s.kind ≠ kind) = [] := by
      rw [List.filter_eq_nil_iff]
      simpa using erase?_eq_none_iff.mp he
    exact absurd (h.symm.trans hnil) hd.parts_ne_nil
  | some e => rw [(normal_erase? he).ext hd ((parts_erase? hc he).trans h)]

theorem filter_kind_ne {ts : List SubContext} {kind : String}
    (h : kind ∉ ts.map SubContext.kind) : ts.filter (fun t => t.kind ≠ kind) = ts := by
  refine List.filter_eq_self.mpr fun t ht => decide_eq_true ?_
  intro hk
  exact h (hk ▸ List.mem_map_of_mem ht)

/-- Removing what is not there changes nothing. -/
theorem erase?_of_get? (h : c.Normal) {kind : String} (hk : c.get? kind = none) :
    c.erase? kind = some c :=
  erase?_of_parts h h (filter_kind_ne (get?_eq_none_iff.mp hk))

/-- A sub-context of a new kind can be removed again. -/
theorem erase?_insert (h : c.Normal) {s : SubContext} (hs : c.get? s.kind = none) :
    (c.insert s).erase? s.kind = some c := by
  have hmem : s.kind ∉ c.parts.map SubContext.kind := get?_eq_none_iff.mp hs
  refine erase?_of_parts (normal_insert c s) h ?_
  rw [parts_insert h, place_of_not_mem hmem, List.filter_append, filter_kind_ne hmem]
  simp

/-! ## the laws -/

/-- **The laws of normal contexts.**  Composing the parts gives the context again.  An added
sub-context is found under its kind, in the place of the former one or at the end, and no other kind
is touched.  A kind can be removed unless it is the only one, and the others stay as they are.  Of
two sub-contexts of one kind the later one counts, those of two kinds can be added in either order
up to their places, and a sub-context of a new kind can be taken away again. -/
theorem context_algebra {c : Context} (h : c.Normal) (s t : SubContext) (kind : String) :
    (∃ first rest, c.parts = first :: rest ∧ compose first rest = c) ∧
    (c.insert s).get? kind = (if kind = s.kind then some s else c.get? kind) ∧
    ((c.erase? kind = none ↔ c.parts.map SubContext.kind = [kind]) ∧
      ∀ d, c.erase? kind = some d →
        d.Normal ∧ d.parts = c.parts.filter (fun u => u.kind ≠ kind)) ∧
    ((c.insert s).Normal ∧ (c.insert s).parts =
      if (c.get? s.kind).isSome then c.parts.map (fun u => if u.kind = s.kind then s else u)
      else c.parts ++ [s]) ∧
    (s.kind = t.kind → (c.insert s).insert t = c.insert t) ∧
    (s.kind ≠ t.kind → ((c.insert s).insert t).Rearranged ((c.insert t).insert s)) ∧
    (c.get? s.kind = none → (c.insert s).erase? s.kind = some c) :=
  ⟨h.exists_compose, get?_insert h s kind,
    ⟨erase?_eq_none_iff_kinds h, fun _ hd => ⟨normal_erase? hd, parts_erase? h hd⟩⟩,
    ⟨normal_insert c s, parts_insert_eq h s⟩, insert_insert_of_eq h, insert_insert_of_ne h,
    erase?_insert h⟩

/-- Beside a user the workspace is replaced in its place, while a team comes and goes. -/
theorem laws_of_workspace :
    let c := compose (.keyed "user" "u1") [.keyed "workspace" "w1"]
    let moved := SubContext.keyed "workspace" "w2"
    let team := SubContext.keyed "team" "t1"
    c.Normal ∧
      (c.insert moved).parts = [.keyed "user" "u1", moved] ∧
      ((c.insert moved).insert team).Rearranged ((c.insert team).insert moved) ∧
      (c.insert team).erase? "team" = some c := by
  intro c moved team
  have h : c.Normal := normal_compose _ _
  obtain ⟨-, -, -, ⟨-, hplace⟩, -, hswap, -⟩ := context_algebra h moved team "user"
  obtain ⟨-, -, -, -, -, -, hback⟩ := context_algebra h team moved "user"
  exact ⟨h, hplace.trans rfl, hswap (by decide), hback rfl⟩

end FeatureFlags.Context
