import FeatureFlags.Proofs.Json.Decoding

/-!
# Values that are decoded

A value is decoded without a text between, so no depth limits it and numbers stay as they are.  Its
members come in the order of their names, whatever order a record was written in: what a record has
in a field depends on the member with that name alone.

* `Entries.find?_collect`     sorting entries of different names changes nothing that is found;
* `Json.collapse_of_wellFormed`   a value is its own value;
* `Node.toJson_ofJson`        and is decoded as itself;
* `Entries.decoded?`          what the member with a name decodes to;
* `Entries.others`            what is kept of the members that are no fields;
* `Node.fold_seen`, `Node.fold_collapse`   a record whose members all fit, read member by member;
* `Node.toInt32_ofJson`, `Node.toOption_ofOption`, `Node.toList_ofJson`   members that fit.
-/

namespace FeatureFlags

variable {α σ : Type}

namespace Entries

/-! ## entries of different names -/

theorem find?_foldl_put_of_nodup {es : List (Entry α)} (h : (es.map Prod.fst).Nodup)
    (acc : List (Entry α)) (name : String) :
    find? name (es.foldl (fun acc e => put e.1 e.2 acc) acc) =
      (find? name es).or (find? name acc) := by
  induction es generalizing acc with
  | nil => rfl
  | cons e es ih =>
    obtain ⟨he, hes⟩ := List.nodup_cons.mp h
    rw [List.foldl_cons, ih hes, find?_put, find?_cons]
    by_cases hn : e.1 = name
    · have hnone : find? name es = none := find?_eq_none_iff.mpr (hn ▸ he)
      rw [if_pos hn, if_pos hn, hnone]
      rfl
    · rw [if_neg hn, if_neg hn]

theorem find?_collect {es : List (Entry α)} (h : (es.map Prod.fst).Nodup) (name : String) :
    find? name (collect es) = find? name es := by
  rw [collect, find?_foldl_put_of_nodup h, find?_nil, Option.or_none]

theorem collect_of_sorted {es : List (Entry α)} (h : Sorted es) : collect es = es :=
  eq_of_find? (Sorted.collect es) h (find?_collect h.nodup_names)

theorem find?_append (name : String) (es fs : List (Entry α)) :
    find? name (es ++ fs) = (find? name es).or (find? name fs) := by
  induction es with
  | nil => rfl
  | cons e es ih =>
    rw [List.cons_append, find?_cons, find?_cons, ih]
    split <;> rfl

theorem find?_filter (p : String → Bool) (name : String) (es : List (Entry α)) :
    find? name (es.filter (fun e => p e.1)) = if p name then find? name es else none := by
  induction es with
  | nil => exact (ite_self none).symm
  | cons e es ih =>
    rw [List.filter_cons]
    by_cases hn : e.1 = name
    · subst hn
      by_cases hp : p e.1 = true
      · rw [if_pos hp, if_pos hp, find?_cons, find?_cons, if_pos rfl, if_pos rfl]
      · rw [if_neg hp, ih, if_neg hp, if_neg hp]
    · rw [find?_cons, if_neg hn, ← ih]
      split
      · rw [find?_cons, if_neg hn]
      · rfl

end Entries

namespace Json

/-! ## values -/

mutual

/-- **A value is its own value.** -/
theorem collapse_of_wellFormed : ∀ {a : Json}, a.WellFormed → a.collapse = a
  | .null, _ => by simp [collapse]
  | .bool _, _ => by simp [collapse]
  | .num _, _ => by simp [collapse]
  | .str _, _ => by simp [collapse]
  | .arr _, h => by rw [collapse, collapseItems_of_wellFormed h]
  | .obj _, h => by
    rw [collapse, collapseMembers_of_wellFormed h.2, Entries.collect_of_sorted h.1]

theorem collapseItems_of_wellFormed :
    ∀ {as : List Json}, WellFormedItems as → collapseItems as = as
  | [], _ => rfl
  | _ :: _, h => by
    rw [collapseItems, collapse_of_wellFormed h.1, collapseItems_of_wellFormed h.2]

theorem collapseMembers_of_wellFormed :
    ∀ {es : List (Entry Json)}, WellFormedMembers es → collapseMembers es = es
  | [], _ => rfl
  | (_, _) :: _, h => by
    rw [collapseMembers, collapse_of_wellFormed h.1, collapseMembers_of_wellFormed h.2]

end

theorem collapseMembers_eq_map (es : List (Entry Json)) :
    collapseMembers es = es.map (fun e => (e.1, e.2.collapse)) := by
  induction es with
  | nil => rfl
  | cons e es ih => rw [collapseMembers, ih, List.map_cons]

theorem collapse_obj {es : List (Entry Json)} (h : ∀ e ∈ es, e.2.WellFormed) :
    (obj es).collapse = obj (Entries.collect es) := by
  rw [collapse, collapseMembers_of_wellFormed ((wellFormedMembers_iff es).mpr h)]

theorem collapseItems_eq_map (as : List Json) : collapseItems as = as.map collapse := by
  induction as with
  | nil => rfl
  | cons a as ih => rw [collapseItems, ih, List.map_cons]

theorem collapse_ofOption (f : α → Json) (o : Option α) :
    (ofOption f o).collapse = ofOption (fun a => (f a).collapse) o := by
  cases o with
  | none => exact collapse_of_wellFormed trivial
  | some a => rfl

theorem wellFormed_ofOption {f : α → Json} (h : ∀ a, (f a).WellFormed) (o : Option α) :
    (ofOption f o).WellFormed := by
  cases o with
  | none => trivial
  | some a => exact h a

end Json

namespace Node

/-! ## decoding values -/

theorem ofMembers_eq_map (es : List (Entry Json)) :
    ofMembers es = es.map (fun e => (some e.1, ofJson e.2)) := by
  induction es with
  | nil => rfl
  | cons e es ih => rw [ofMembers, ih, List.map_cons]

mutual

/-- **A value is decoded as itself.** -/
theorem toJson_ofJson : ∀ {a : Json}, a.WellFormed → toJson .value (ofJson a) = .ok a
  | .null, _ => rfl
  | .bool _, _ => rfl
  | .num _, _ => rfl
  | .str _, _ => rfl
  | .arr as, h => by
    rw [ofJson, toJson, Origin.enter]
    show toJsonItems .value (ofItems as) >>= _ = _
    rw [toJsonItems_ofItems h]
    rfl
  | .obj es, h => by
    rw [ofJson, toJson, Origin.enter]
    show toJsonMembers .value (ofMembers es) >>= _ = _
    rw [toJsonMembers_ofMembers h.2]
    exact congrArg (fun fs => Except.ok (Json.obj fs)) (Entries.collect_of_sorted h.1)

theorem toJsonItems_ofItems : ∀ {as : List Json}, Json.WellFormedItems as →
    toJsonItems .value (ofItems as) = .ok as
  | [], _ => rfl
  | a :: as, h => by
    rw [ofItems, toJsonItems, toJson_ofJson h.1, toJsonItems_ofItems h.2]
    rfl

theorem toJsonMembers_ofMembers : ∀ {es : List (Entry Json)}, Json.WellFormedMembers es →
    toJsonMembers .value (ofMembers es) = .ok es
  | [], _ => rfl
  | (name, a) :: es, h => by
    rw [ofMembers, toJsonMembers, toJson_ofJson h.1, toJsonMembers_ofMembers h.2]
    rfl

end

theorem fold_ofJson (take : Origin → σ → String → Node → Except DecodeError σ) (start : σ)
    (es : List (Entry Json)) :
    fold take start .value (ofJson (.obj es)) =
      es.foldlM (fun s e => take .value s e.1 (ofJson e.2)) start := by
  rw [ofJson, ofMembers_eq_map, fold, Origin.enter]
  simp only [List.foldlM_map]
  show es.foldlM (fun s e => take .value s e.1 (ofJson e.2)) start >>= finish true = _
  cases es.foldlM (fun s e => take .value s e.1 (ofJson e.2)) start <;> rfl

/-- What is known of a record once some of its members were read, in `seen`, grows by each further
member: so in the end all of them were seen. -/
theorem fold_seen {take : Origin → σ → String → Node → Except DecodeError σ}
    (seen : List (Entry Json) → σ) {es : List (Entry Json)} (hn : (es.map Prod.fst).Nodup)
    (htake : ∀ before, ∀ e ∈ es, e.1 ∉ before.map Prod.fst →
      take .value (seen before) e.1 (ofJson e.2) = .ok (seen (before ++ [e]))) :
    fold take (seen []) .value (ofJson (.obj es)) = .ok (seen es) := by
  suffices h : ∀ before after, es = before ++ after →
      after.foldlM (fun s e => take .value s e.1 (ofJson e.2)) (seen before) = .ok (seen es) by
    rw [fold_ofJson]
    exact h [] es rfl
  intro before after hes
  induction after generalizing before with
  | nil =>
    rw [hes, List.append_nil]
    rfl
  | cons e after ih =>
    have he : e ∈ es := hes ▸ List.mem_append_right _ List.mem_cons_self
    have hnew : e.1 ∉ before.map Prod.fst := by
      rw [hes, List.map_append, List.nodup_append] at hn
      exact fun hm => hn.2.2 _ hm _ (List.mem_map_of_mem List.mem_cons_self) rfl
    rw [List.foldlM_cons, htake before e he hnew]
    exact ih (before ++ [e]) (by rw [hes, List.append_assoc, List.singleton_append])

/-- Nothing depends on the order in which the members were written. -/
theorem fold_collapse {take : Origin → σ → String → Node → Except DecodeError σ}
    (seen : List (Entry Json) → σ) {es : List (Entry Json)} (hvalues : ∀ e ∈ es, e.2.WellFormed)
    (htake : ∀ before, ∀ e ∈ es, e.1 ∉ before.map Prod.fst →
      take .value (seen before) e.1 (ofJson e.2) = .ok (seen (before ++ [e]))) :
    fold take (seen []) .value (ofJson (Json.obj es).collapse) =
      .ok (seen (Entries.collect es)) := by
  rw [Json.collapse_obj hvalues]
  exact fold_seen seen (Entries.Sorted.collect es).nodup_names fun before e he =>
    htake before e (Entries.mem_of_mem_collect he)

end Node

namespace Entries

/-! ## fields -/

/-- what the member with a name decodes to -/
def decoded? (read : Origin → Node → Except DecodeError α) (name : String)
    (es : List (Entry Json)) : Option α :=
  (find? name es).bind (fun v => (read .value (Node.ofJson v)).toOption)

variable {read : Origin → Node → Except DecodeError α} {name other : String} {v : Json}
  {es : List (Entry Json)}

theorem decoded?_concat_of_ne (h : other ≠ name) :
    decoded? read name (es ++ [(other, v)]) = decoded? read name es := by
  rw [decoded?, find?_append, find?_cons, if_neg h, find?_nil, Option.or_none, decoded?]

/-- A member fills the field with its name. -/
theorem fill_decoded? (hn : name ∉ es.map Prod.fst) {a : α}
    (ha : read .value (Node.ofJson v) = .ok a) :
    fill name (decoded? read name es) (read .value (Node.ofJson v)) =
      .ok (decoded? read name (es ++ [(name, v)])) := by
  have hnone : find? name es = none := find?_eq_none_iff.mpr hn
  rw [decoded?, decoded?, find?_append, hnone, ha, find?_cons, if_pos rfl]
  show Except.ok (some a) = Except.ok ((read .value (Node.ofJson v)).toOption)
  rw [ha]
  rfl

theorem decoded?_of_find? (hv : find? name es = some v) {a : α}
    (ha : read .value (Node.ofJson v) = .ok a) : decoded? read name es = some a := by
  rw [decoded?, hv]
  show (read .value (Node.ofJson v)).toOption = some a
  rw [ha]
  rfl

/-- what is kept of the members that are no fields -/
def others (names : List String) (es : List (Entry Json)) : Table Json :=
  .ofList (es.filter (fun e => e.1 ∉ names))

variable {names : List String}

theorem others_concat_of_mem (h : name ∈ names) :
    others names (es ++ [(name, v)]) = others names es := by
  have hdrop : ¬ decide (name ∉ names) = true := by simpa using h
  rw [others, List.filter_append, List.filter_cons, if_neg hdrop, List.filter_nil, List.append_nil,
    others]

theorem others_concat_of_not_mem (h : name ∉ names) :
    others names (es ++ [(name, v)]) = (others names es).insert name v := by
  have hkeep : decide (name ∉ names) = true := decide_eq_true h
  rw [others, List.filter_append, List.filter_cons, if_pos hkeep, List.filter_nil, others,
    Table.ofList, Table.insert]
  congr 1
  rw [collect, List.foldl_append]
  rfl

theorem find?_others (hn : (es.map Prod.fst).Nodup) (names : List String) (name : String) :
    (others names es).find? name = if name ∈ names then none else find? name es := by
  have hnodup : ((es.filter (fun e => e.1 ∉ names)).map Prod.fst).Nodup :=
    hn.sublist (List.filter_sublist.map _)
  have hfind : find? name (es.filter (fun e => e.1 ∉ names)) =
      if (decide (name ∉ names)) = true then find? name es else none :=
    find?_filter (fun name => decide (name ∉ names)) name es
  rw [others, Table.find?, Table.ofList, find?_collect hnodup, hfind]
  by_cases h : name ∈ names
  · rw [if_neg (by simpa using h), if_pos h]
  · rw [if_pos (decide_eq_true h), if_neg h]

section

variable {fields : List (Entry Json)} {t : Table Json} (hnodup : (fields.map Prod.fst).Nodup)
  (hsub : fields.map Prod.fst ⊆ names) (hclear : ∀ name ∈ names, t.find? name = none)

include hnodup hsub hclear

theorem nodup_fields_append : ((fields ++ t.entries).map Prod.fst).Nodup := by
  rw [List.map_append, List.nodup_append]
  refine ⟨hnodup, t.sorted.nodup_names, ?_⟩
  rintro name hfield _ hother rfl
  exact find?_eq_none_iff.mp (hclear name (hsub hfield)) hother

/-- In the value of a record whose fields are written before all else that is known, each field is
found, -/
theorem find?_fields_append (hname : name ∈ names) :
    find? name (collect (fields ++ t.entries)) = find? name fields := by
  have hnone : find? name t.entries = none := hclear name hname
  rw [find?_collect (nodup_fields_append hnodup hsub hclear), find?_append, hnone, Option.or_none]

/-- and so is the rest. -/
theorem others_fields_append : others names (collect (fields ++ t.entries)) = t := by
  refine Table.ext_find? fun name => ?_
  rw [find?_others (Sorted.collect _).nodup_names]
  by_cases h : name ∈ names
  · rw [if_pos h, hclear name h]
  · have hnone : find? name fields = none := find?_eq_none_iff.mpr fun hmem => h (hsub hmem)
    rw [if_neg h, find?_collect (nodup_fields_append hnodup hsub hclear), find?_append, hnone]
    rfl

end

end Entries

namespace Node

theorem toInt32_ofJson (n : Int32) : toInt32 .value (ofJson (.integer n.toInt)) = .ok n := by
  have hrange : -int32Limit ≤ n.toInt ∧ n.toInt < int32Limit := ⟨n.le_toInt, n.toInt_lt⟩
  rw [Json.integer, ofJson, toInt32, if_pos hrange, Int32.ofInt_toInt]

variable {read : Origin → Node → Except DecodeError α} {f : α → Json}

theorem toOption_ofJson {v : Json} (hv : v ≠ .null) {a : α} (ha : read .value (ofJson v) = .ok a) :
    toOption read .value (ofJson v) = .ok (some a) := by
  have hsome : toOption read .value (ofJson v) = some <$> read .value (ofJson v) := by
    cases v with
    | null => exact absurd rfl hv
    | _ => rfl
  rw [hsome, ha]
  rfl

/-- A field that is left out when it has no value. -/
theorem join_decoded? {name : String} {es : List (Entry Json)} {o : Option α}
    (hv : Entries.find? name es = o.map f) (hf : ∀ a, f a ≠ .null)
    (h : ∀ a, read .value (ofJson (f a)) = .ok a) :
    (Entries.decoded? (toOption read) name es).join = o := by
  cases o with
  | none => rw [Entries.decoded?, hv]; rfl
  | some a => rw [Entries.decoded?_of_find? hv (toOption_ofJson (hf a) (h a))]; rfl

/-- What stands for nothing is decoded as nothing. -/
theorem toOption_ofOption {o : Option α} (hf : ∀ a, f a ≠ .null)
    (h : ∀ a ∈ o, read .value (ofJson (f a)) = .ok a) :
    toOption read .value (ofJson (.ofOption f o)) = .ok o := by
  cases o with
  | none => rfl
  | some a => exact toOption_ofJson (hf a) (h a rfl)

theorem ofItems_eq_map (as : List Json) : ofItems as = as.map ofJson := by
  induction as with
  | nil => rfl
  | cons a as ih => rw [ofItems, ih, List.map_cons]

theorem toList_ofJson {as : List α} (h : ∀ a ∈ as, read .value (ofJson (f a)) = .ok a) :
    toList read .value (ofJson (.arr (as.map f))) = .ok as := by
  have hitems : (as.map (fun a => ofJson (f a))).mapM (read .value) = .ok as := by
    induction as with
    | nil => rfl
    | cons a as ih =>
      obtain ⟨ha, has⟩ := List.forall_mem_cons.mp h
      rw [List.map_cons, List.mapM_cons, ha, ih has]
      rfl
  rw [ofJson, ofItems_eq_map, List.map_map, toList, Origin.enter]
  show List.mapM (read .value) (as.map (fun a => ofJson (f a))) >>= _ = _
  rw [hitems]
  rfl

end Node

end FeatureFlags
