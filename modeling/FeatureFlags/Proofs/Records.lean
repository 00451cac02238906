import FeatureFlags.Definition
import FeatureFlags.Proofs.Contexts.Algebra
import FeatureFlags.Proofs.Contexts.Identities
import FeatureFlags.Proofs.Json.Values

/-!
# Records that are written and read back

A record is decoded from its own value.  Users and sub-contexts keep what else is known beside their
fields, and an attribute with the name of a field is lost: it is written over the field, and read as
the field.

* `User.Draft.seen`, `SubContext.Draft.seen`   what is known once some members were read;
* `User.decode_value_iff`, `SubContext.decode_value_iff`, `Identity.decode_value_iff`   what is read
                       back is the record exactly if no attribute has the name of a field;
* `Rule.decode_value`, `Definition.decode_value`   rules and definitions are always read back;
* `Context.exists_members`   the members of a wrapped context, each decoded by itself;
* `records_read_back`   all of them.
-/

namespace FeatureFlags

open Entries

/-! ## users -/

namespace User

/-- what is known of a user once some members were read -/
def Draft.seen (es : List (Entry Json)) : Draft where
  userId := decoded? Node.toStr "userId" es
  name := decoded? Node.toStr "name" es
  email := decoded? Node.toStr "email" es
  attributes := others fixedNames es

/-- A further member is one more that was seen. -/
theorem take_seen {before : List (Entry Json)} {name : String} {v : Json}
    (hnew : name ∉ before.map Prod.fst) (hv : v.WellFormed)
    (htext : name ∈ fixedNames → ∃ t, v = .str t) :
    (Draft.seen before).take .value name (Node.ofJson v) =
      .ok (Draft.seen (before ++ [(name, v)])) := by
  unfold Draft.take
  split
  case h_4 hid hname hemail =>
    have hother : name ∉ fixedNames := not_mem_fixedNames hid hname hemail
    simp only [Node.toJson_ofJson hv, Draft.seen, others_concat_of_not_mem hother,
      decoded?_concat_of_ne hid, decoded?_concat_of_ne hname, decoded?_concat_of_ne hemail]
    rfl
  -- a field is filled for the first time, and what was seen of all others stays
  all_goals
    obtain ⟨t, rfl⟩ := htext (by decide)
    have hread : Node.toStr .value (Node.ofJson (.str t)) = .ok t := rfl
    simp only [Draft.seen, fill_decoded? hnew hread]
    simp [decoded?_concat_of_ne, others_concat_of_mem, fixedNames]

theorem names_fixedMembers (u : User) : u.fixedMembers.map Prod.fst = fixedNames := rfl

/-- Fields are texts, and attributes values. -/
theorem readable_member {u : User} (h : u.Sound) (hc : u.Clear) {e : Entry Json}
    (he : e ∈ u.fixedMembers ++ u.attributes.entries) :
    e.2.WellFormed ∧ (e.1 ∈ fixedNames → ∃ t, e.2 = .str t) := by
  rcases List.mem_append.mp he with he | he
  · have htext : ∃ t, e.2 = .str t := by
      simp only [fixedMembers, List.mem_cons, List.not_mem_nil, or_false] at he
      rcases he with rfl | rfl | rfl
      · exact ⟨_, rfl⟩
      · exact ⟨_, rfl⟩
      · exact ⟨_, rfl⟩
    refine ⟨?_, fun _ => htext⟩
    obtain ⟨t, ht⟩ := htext
    rw [ht]
    trivial
  · have hname : e.1 ∈ u.attributes.entries.map Prod.fst := List.mem_map_of_mem he
    exact ⟨h e he, fun hfield => absurd hname (find?_eq_none_iff.mp (hc e.1 hfield))⟩

/-- Members among which the fields and attributes of a user are found give this user. -/
theorem finish_seen {u : User} {es : List (Entry Json)}
    (hfields : ∀ name ∈ fixedNames, find? name es = find? name u.fixedMembers)
    (hrest : others fixedNames es = u.attributes) : (Draft.seen es).finish = .ok u := by
  have hid : decoded? Node.toStr "userId" es = some u.userId :=
    decoded?_of_find? (hfields "userId" (by decide)) rfl
  have hname : decoded? Node.toStr "name" es = some u.name :=
    decoded?_of_find? (hfields "name" (by decide)) rfl
  have hemail : decoded? Node.toStr "email" es = some u.email :=
    decoded?_of_find? (hfields "email" (by decide)) rfl
  rw [Draft.finish, Draft.seen, hid, hname, hemail, hrest]
  rfl

theorem decode_value {u : User} (h : u.Sound) (hc : u.Clear) :
    decodeValue decode u.value = .ok u := by
  have hnodup : (u.fixedMembers.map Prod.fst).Nodup := by
    rw [names_fixedMembers]
    decide
  have hsub : u.fixedMembers.map Prod.fst ⊆ fixedNames := List.Subset.refl _
  have hread : Node.fold Draft.take {} .value (Node.ofJson u.value) =
      .ok (Draft.seen (collect (u.fixedMembers ++ u.attributes.entries))) := by
    refine Node.fold_collapse Draft.seen (fun e he => (readable_member h hc he).1) ?_
    intro before e he hnew
    obtain ⟨hv, htext⟩ := readable_member h hc he
    exact take_seen hnew hv htext
  rw [decodeValue, decode, hread]
  exact finish_seen (fun name hname => find?_fields_append hnodup hsub hc hname)
    (others_fields_append hnodup hsub hc)

/-- A user is read back exactly if no attribute has the name of a field. -/
theorem decode_value_iff {u : User} (h : u.Sound) :
    decodeValue decode u.value = .ok u ↔ u.Clear :=
  ⟨yields_decode_clear .value _ u, decode_value h⟩

end User

/-! ## sub-contexts -/

namespace SubContext

/-- what is known of a sub-context once some members were read -/
def Draft.seen (es : List (Entry Json)) : Draft where
  kind := decoded? Node.toStr "kind" es
  anonymous := decoded? (Node.toOption Node.toBool) "anonymous" es
  key := decoded? (Node.toOption Node.toStr) "key" es
  email := decoded? (Node.toOption Node.toStr) "email" es
  name := decoded? (Node.toOption Node.toStr) "name" es
  locale := decoded? (Node.toOption Node.toStr) "locale" es
  attributes := others fixedNames es

/-- A member that can be read: one field is a truth value, the others are texts, and attributes are
values. -/
structure Readable (name : String) (v : Json) : Prop where
  wellFormed : v.WellFormed
  truth : name = "anonymous" → ∃ b, v = .bool b
  text : name ∈ fixedNames → name ≠ "anonymous" → ∃ t, v = .str t

theorem not_mem_fixedNames {name : String} (hkind : name ≠ "kind") (hanonymous : name ≠ "anonymous")
    (hkey : name ≠ "key") (hemail : name ≠ "email") (hname : name ≠ "name")
    (hlocale : name ≠ "locale") : name ∉ fixedNames := by
  simp only [fixedNames, List.mem_cons, List.not_mem_nil, or_false, not_or]
  exact ⟨hkind, hanonymous, hkey, hemail, hname, hlocale⟩

theorem take_seen {before : List (Entry Json)} {name : String} {v : Json}
    (hnew : name ∉ before.map Prod.fst) (h : Readable name v) :
    (Draft.seen before).take .value name (Node.ofJson v) =
      .ok (Draft.seen (before ++ [(name, v)])) := by
  unfold Draft.take
  split
  case h_7 hkind hanonymous hkey hemail hname hlocale =>
    have hother : name ∉ fixedNames :=
      not_mem_fixedNames hkind hanonymous hkey hemail hname hlocale
    simp only [Node.toJson_ofJson h.wellFormed, Draft.seen, others_concat_of_not_mem hother,
      decoded?_concat_of_ne hkind, decoded?_concat_of_ne hanonymous, decoded?_concat_of_ne hkey,
      decoded?_concat_of_ne hemail, decoded?_concat_of_ne hname, decoded?_concat_of_ne hlocale]
    rfl
  case h_2 =>
    obtain ⟨b, rfl⟩ := h.truth rfl
    have hread : Node.toOption Node.toBool .value (Node.ofJson (.bool b)) = .ok (some b) := rfl
    simp only [Draft.seen, fill_decoded? hnew hread]
    simp [decoded?_concat_of_ne, others_concat_of_mem, fixedNames]
  case h_1 =>
    obtain ⟨t, rfl⟩ := h.text (by decide) (by decide)
    have hread : Node.toStr .value (Node.ofJson (.str t)) = .ok t := rfl
    simp only [Draft.seen, fill_decoded? hnew hread]
    simp [decoded?_concat_of_ne, others_concat_of_mem, fixedNames]
  all_goals
    obtain ⟨t, rfl⟩ := h.text (by decide) (by decide)
    have hread : Node.toOption Node.toStr .value (Node.ofJson (.str t)) = .ok (some t) := rfl
    simp only [Draft.seen, fill_decoded? hnew hread]
    simp [decoded?_concat_of_ne, others_concat_of_mem, fixedNames]

theorem readable_str {name : String} (h : name ≠ "anonymous") (t : String) :
    Readable name (.str t) := ⟨trivial, fun hname => absurd hname h, fun _ _ => ⟨t, rfl⟩⟩

theorem readable_bool (b : Bool) : Readable "anonymous" (.bool b) :=
  ⟨trivial, fun _ => ⟨b, rfl⟩, fun _ hne => absurd rfl hne⟩

theorem readable_fixedMembers (s : SubContext) : ∀ e ∈ s.fixedMembers, Readable e.1 e.2 := by
  have hkind : Readable "kind" (.str s.kind) := readable_str (by decide) s.kind
  rw [fixedMembers, List.forall_mem_cons, List.forall_mem_append, List.forall_mem_append,
    List.forall_mem_append, List.forall_mem_append]
  exact ⟨hkind, forall_mem_optionalMember readable_bool _,
    forall_mem_optionalMember (readable_str (by decide)) _,
    forall_mem_optionalMember (readable_str (by decide)) _,
    forall_mem_optionalMember (readable_str (by decide)) _,
    forall_mem_optionalMember (readable_str (by decide)) _⟩

theorem readable_member {s : SubContext} (h : ∀ e ∈ s.attributes.entries, e.2.WellFormed)
    (hc : s.Clear) {e : Entry Json} (he : e ∈ s.fixedMembers ++ s.attributes.entries) :
    Readable e.1 e.2 := by
  rcases List.mem_append.mp he with he | he
  · exact s.readable_fixedMembers e he
  · have hname : e.1 ∈ s.attributes.entries.map Prod.fst := List.mem_map_of_mem he
    have hother : e.1 ∉ fixedNames := fun hfield => find?_eq_none_iff.mp (hc e.1 hfield) hname
    refine ⟨h e he, fun htruth => ?_, fun hfield => absurd hfield hother⟩
    rw [htruth] at hother
    exact absurd (by decide) hother

theorem find?_optionalMember (name other : String) (f : α → Json) (o : Option α) :
    find? name (optionalMember other f o) = if other = name then o.map f else none := by
  cases o with
  | none => exact (ite_self none).symm
  | some a => exact find?_cons name (other, f a) []

/-- What the fields are written as. -/
theorem find?_fixedMembers (s : SubContext) :
    find? "kind" s.fixedMembers = some (.str s.kind) ∧
      find? "anonymous" s.fixedMembers = s.anonymous.map .bool ∧
      find? "key" s.fixedMembers = s.key.map .str ∧
      find? "email" s.fixedMembers = s.email.map .str ∧
      find? "name" s.fixedMembers = s.name.map .str ∧
      find? "locale" s.fixedMembers = s.locale.map .str := by
  simp [fixedMembers, find?_cons, find?_append, find?_optionalMember]

/-- Members among which the fields and attributes of a sub-context are found give this
sub-context. -/
theorem finish_seen {s : SubContext} {es : List (Entry Json)}
    (hfields : ∀ name ∈ fixedNames, find? name es = find? name s.fixedMembers)
    (hrest : others fixedNames es = s.attributes) : (Draft.seen es).finish = .ok s := by
  have htext : ∀ name ∈ fixedNames, ∀ o : Option String,
      find? name s.fixedMembers = o.map .str →
        (decoded? (Node.toOption Node.toStr) name es).join = o :=
    fun name hname o ho => Node.join_decoded? ((hfields name hname).trans ho) nofun fun _ => rfl
  obtain ⟨hkind, hanonymous, hkey, hemail, hname, hlocale⟩ := s.find?_fixedMembers
  have hkind : decoded? Node.toStr "kind" es = some s.kind :=
    decoded?_of_find? ((hfields "kind" (by decide)).trans hkind) rfl
  have hanonymous : (decoded? (Node.toOption Node.toBool) "anonymous" es).join = s.anonymous :=
    Node.join_decoded? ((hfields "anonymous" (by decide)).trans hanonymous) nofun fun _ => rfl
  rw [Draft.finish, Draft.seen, hkind]
  refine congrArg Except.ok ?_
  simp only [hanonymous, htext "key" (by decide) s.key hkey,
    htext "email" (by decide) s.email hemail, htext "name" (by decide) s.name hname,
    htext "locale" (by decide) s.locale hlocale, hrest]

theorem decode_value {s : SubContext} (h : ∀ e ∈ s.attributes.entries, e.2.WellFormed)
    (hc : s.Clear) : decodeValue decode s.value = .ok s := by
  have hnodup : (s.fixedMembers.map Prod.fst).Nodup := s.nodup_names_fixedMembers
  have hsub : s.fixedMembers.map Prod.fst ⊆ fixedNames := s.names_fixedMembers_sublist.subset
  have hread : Node.fold Draft.take {} .value (Node.ofJson s.value) =
      .ok (Draft.seen (collect (s.fixedMembers ++ s.attributes.entries))) := by
    refine Node.fold_collapse Draft.seen (fun e he => (readable_member h hc he).wellFormed) ?_
    intro before e he hnew
    exact take_seen hnew (readable_member h hc he)
  rw [decodeValue, decode, hread]
  exact finish_seen (fun name hname => find?_fields_append hnodup hsub hc hname)
    (others_fields_append hnodup hsub hc)

/-! ### what was decoded -/

/-- A member is a field, or else an attribute. -/
theorem attributes_take {o : Origin} {d : Draft} {name : String} {node : Node} {t : Draft}
    (h : d.take o name node = .ok t) :
    t.attributes = d.attributes ∨ name ∉ fixedNames ∧
      ∃ a, node.toJson o = .ok a ∧ t.attributes = d.attributes.insert name a := by
  unfold Draft.take at h
  split at h
  case h_7 hkind hanonymous hkey hemail hname hlocale =>
    obtain ⟨a, ha, h⟩ := exists_of_bind_ok h
    cases h
    exact .inr ⟨not_mem_fixedNames hkind hanonymous hkey hemail hname hlocale, a, ha, rfl⟩
  all_goals
    obtain ⟨_, -, h⟩ := exists_of_bind_ok h
    cases h
    exact .inl rfl

theorem yields_decode_clear : Yields decode Clear := by
  have hdraft : Yields (fun o node => node.fold Draft.take {} o)
      (fun d => Node.Rest fixedNames d.attributes) :=
    Node.yields_rest rfl (fun _ _ _ _ _ => attributes_take)
  intro o node s h
  obtain ⟨d, hd, h⟩ := exists_of_bind_ok h
  have hrest : Node.Rest fixedNames d.attributes := hdraft o node d hd
  obtain ⟨_, -, h⟩ := exists_of_bind_ok h
  cases h
  exact hrest.clear

/-- A sub-context is read back exactly if no attribute has the name of a field. -/
theorem decode_value_iff {s : SubContext} (h : ∀ e ∈ s.attributes.entries, e.2.WellFormed) :
    decodeValue decode s.value = .ok s ↔ s.Clear :=
  ⟨yields_decode_clear .value _ s, decode_value h⟩

end SubContext

/-! ## identities -/

theorem User.value_ne_null (u : User) : u.value ≠ .null := by
  rw [User.value, User.document, Json.collapse]
  exact nofun

namespace Identity

/-- the members of an identity in the order of their names -/
def members (i : Identity) : List (Entry Json) :=
  [("locale", .str i.locale), ("user", .ofOption User.value i.user),
    ("workspace_id", .ofOption .str i.workspaceId)]

theorem value_eq (i : Identity) : i.value = .obj i.members := by
  have huser : (Json.ofOption User.document i.user).collapse = .ofOption User.value i.user :=
    Json.collapse_ofOption User.document i.user
  have htext : ∀ t, (Json.str t).WellFormed := fun _ => trivial
  have hworkspace : (Json.ofOption .str i.workspaceId).collapse = .ofOption .str i.workspaceId :=
    Json.collapse_of_wellFormed (Json.wellFormed_ofOption htext i.workspaceId)
  rw [value, document, Json.collapse, Json.collapseMembers_eq_map, members]
  refine congrArg Json.obj ?_
  simp only [List.map_cons, List.map_nil, huser, hworkspace, Json.collapse, collect,
    List.foldl_cons, List.foldl_nil, put, String.reduceLT, String.reduceEq, if_true, if_false]

theorem decode_value {i : Identity} (h : i.Sound) (hc : ∀ u ∈ i.user, u.Clear) :
    decodeValue decode i.value = .ok i := by
  have huser : Node.toOption User.decode .value (Node.ofJson (.ofOption User.value i.user)) =
      .ok i.user :=
    Node.toOption_ofOption User.value_ne_null fun u hu => User.decode_value (h u hu) (hc u hu)
  have hworkspace : Node.toOption Node.toStr .value
      (Node.ofJson (.ofOption .str i.workspaceId)) = .ok i.workspaceId :=
    Node.toOption_ofOption nofun fun _ _ => rfl
  have hread : Node.fold Draft.take {} .value (Node.ofJson (.obj i.members)) =
      .ok ⟨some i.user, some i.locale, some i.workspaceId⟩ := by
    rw [Node.fold_ofJson]
    simp only [members, List.foldlM_cons, Draft.take, huser, hworkspace]
    rfl
  rw [value_eq]
  show Node.fold Draft.take {} .value (Node.ofJson (.obj i.members)) >>= Draft.finish = .ok i
  rw [hread]
  rfl

/-- An identity is read back exactly if no attribute of its user has the name of a field. -/
theorem decode_value_iff {i : Identity} (h : i.Sound) :
    decodeValue decode i.value = .ok i ↔ ∀ u ∈ i.user, u.Clear :=
  ⟨yields_user User.yields_decode_clear .value _ i, decode_value h⟩

end Identity

/-! ## definitions -/

namespace Rule

/-- the members of a rule in the order of their names -/
def members (r : Rule) : List (Entry Json) :=
  [("enabled", .bool r.enabled), ("priority", .integer r.priority.toInt),
    ("rule_type", .str r.type), ("rule_value", .str r.value)]

theorem value_eq (r : Rule) : r.document.collapse = .obj r.members := by
  rw [document, Json.collapse, Json.collapseMembers_eq_map, members]
  refine congrArg Json.obj ?_
  simp only [List.map_cons, List.map_nil, Json.integer, Json.collapse, collect,
    List.foldl_cons, List.foldl_nil, put, String.reduceLT, String.reduceEq, if_true, if_false]

/-- A rule is read back. -/
theorem decode_value (r : Rule) : decodeValue decode r.document.collapse = .ok r := by
  have hread : Node.fold Draft.take {} .value (Node.ofJson (.obj r.members)) =
      .ok ⟨some r.type, some r.value, some r.enabled, some r.priority⟩ := by
    rw [Node.fold_ofJson]
    simp only [members, List.foldlM_cons, Draft.take, Node.toInt32_ofJson]
    rfl
  rw [value_eq]
  show Node.fold Draft.take {} .value (Node.ofJson (.obj r.members)) >>= Draft.finish = .ok r
  rw [hread]
  rfl

end Rule

namespace Definition

/-- What a definition serves are values. -/
structure Sound (d : Definition) : Prop where
  onValue : d.onValue.WellFormed
  offValue : d.offValue.WellFormed

/-- the members of a definition in the order of their names -/
def members (d : Definition) : List (Entry Json) :=
  [("enabled", .bool d.enabled), ("key", .str d.key), ("off_value", d.offValue),
    ("rollout_percentage", .ofOption (fun p => .integer p.toInt) d.rollout),
    ("rules", .arr (d.rules.map fun r => r.document.collapse)), ("value", d.onValue)]

theorem value_eq {d : Definition} (h : d.Sound) : d.value = .obj d.members := by
  have hinteger : ∀ p : Int32, (Json.integer p.toInt).WellFormed := fun _ => trivial
  have hrollout : (Json.ofOption (fun p : Int32 => .integer p.toInt) d.rollout).collapse =
      .ofOption (fun p => .integer p.toInt) d.rollout :=
    Json.collapse_of_wellFormed (Json.wellFormed_ofOption hinteger d.rollout)
  have hrules : Json.collapseItems (d.rules.map Rule.document) =
      d.rules.map fun r => r.document.collapse := by
    rw [Json.collapseItems_eq_map, List.map_map]
    rfl
  rw [value, document, Json.collapse, Json.collapseMembers_eq_map, members]
  refine congrArg Json.obj ?_
  simp only [List.map_cons, List.map_nil, hrollout, hrules,
    Json.collapse_of_wellFormed h.onValue, Json.collapse_of_wellFormed h.offValue,
    Json.collapse, collect, List.foldl_cons, List.foldl_nil, put, String.reduceLT,
    String.reduceEq, if_true, if_false]

theorem decode_value {d : Definition} (h : d.Sound) : decodeValue decode d.value = .ok d := by
  have hrollout : Node.toOption Node.toInt32 .value
      (Node.ofJson (.ofOption (fun p => .integer p.toInt) d.rollout)) = .ok d.rollout :=
    Node.toOption_ofOption nofun fun p _ => Node.toInt32_ofJson p
  have hrules : Node.toList Rule.decode .value
      (Node.ofJson (.arr (d.rules.map fun r => r.document.collapse))) = .ok d.rules :=
    Node.toList_ofJson fun r _ => r.decode_value
  have hread : Node.fold Draft.take {} .value (Node.ofJson (.obj d.members)) =
      .ok ⟨some d.key, some d.enabled, some d.rollout, some d.onValue, some d.offValue,
        some d.rules⟩ := by
    rw [Node.fold_ofJson]
    simp only [members, List.foldlM_cons, Draft.take, hrollout, hrules,
      Node.toJson_ofJson h.onValue, Node.toJson_ofJson h.offValue]
    rfl
  rw [value_eq h]
  show Node.fold Draft.take {} .value (Node.ofJson (.obj d.members)) >>= Draft.finish = .ok d
  rw [hread]
  rfl

end Definition

/-! ## contexts -/

namespace Context

/-- What stands under the kinds of sub-contexts, each under its own. -/
theorem find?_map_value (cs : List SubContext) (kind : String) :
    find? kind (cs.map fun s => (s.kind, s.value)) =
      ((multi cs).get? kind).map SubContext.value := by
  rw [get?, parts_multi]
  induction cs with
  | nil => rfl
  | cons s cs ih =>
    rw [List.map_cons, find?_cons, List.find?_cons, ih]
    by_cases hk : s.kind = kind
    · rw [if_pos hk, decide_eq_true hk]
      rfl
    · rw [if_neg hk, decide_eq_false hk]

theorem value_multi (cs : List SubContext) :
    (multi cs).value =
      .ofTable (.ofList (("kind", .str multiKind) :: cs.map fun s => (s.kind, s.value))) := by
  have hparts : (members cs).map (fun e => (e.1, e.2.collapse)) =
      cs.map fun s => (s.kind, s.value) := by
    rw [members, List.map_map]
    rfl
  rw [value, document_multi, Json.collapse, Json.collapseMembers_eq_map, List.map_cons, hparts]
  rfl

/-- The members of a wrapped context are the one that tells the kind, and each sub-context under its
kind, which is read back from there. -/
theorem exists_members {cs : List SubContext} (hn : (multi cs).Normal) (hc : (multi cs).Clear)
    (h : ∀ s ∈ cs, ∀ e ∈ s.attributes.entries, e.2.WellFormed) :
    ∃ members : Table Json, (multi cs).value = .ofTable members ∧
      members.find? "kind" = some (.str multiKind) ∧
      ∀ kind, kind ≠ "kind" →
        (members.find? kind).map (decodeValue SubContext.decode) =
          ((multi cs).get? kind).map .ok := by
  have hkinds : (cs.map fun s => (s.kind, s.value)).map Prod.fst = cs.map SubContext.kind := by
    rw [List.map_map]
    rfl
  have hother : "kind" ∉ cs.map SubContext.kind := by
    rw [← names_members]
    exact (kind_not_mem_iff cs).mpr (hc.2 hn.1)
  have hnodup : ((("kind", Json.str multiKind) :: cs.map fun s => (s.kind, s.value)).map
      Prod.fst).Nodup := by
    rw [List.map_cons, hkinds]
    exact List.nodup_cons.mpr ⟨hother, hn.2⟩
  refine ⟨_, value_multi cs, find?_collect hnodup "kind", fun kind hkind => ?_⟩
  have hfind : (Table.ofList (("kind", .str multiKind) ::
      cs.map fun s => (s.kind, s.value))).find? kind =
        ((multi cs).get? kind).map SubContext.value := by
    rw [Table.find?, Table.ofList, find?_collect hnodup, find?_cons, if_neg hkind.symm,
      find?_map_value]
  rw [hfind, Option.map_map]
  refine Option.map_congr fun s hs => ?_
  have hmem : s ∈ cs := List.mem_of_find?_eq_some hs
  exact SubContext.decode_value (h s hmem) (hc.1 s hmem)

end Context

/-- **What is written of a record is read back as the record exactly if no attribute in it has the
name of a field.**  Rules and definitions have no attributes.  Of a wrapped context, whose kinds
stand beside the member that tells the kind, each sub-context is read back under its own kind. -/
theorem records_read_back :
    (∀ u : User, u.Sound → (decodeValue User.decode u.value = .ok u ↔ u.Clear)) ∧
      (∀ s : SubContext, (∀ e ∈ s.attributes.entries, e.2.WellFormed) →
        (decodeValue SubContext.decode s.value = .ok s ↔ s.Clear)) ∧
      (∀ i : Identity, i.Sound →
        (decodeValue Identity.decode i.value = .ok i ↔ ∀ u ∈ i.user, u.Clear)) ∧
      (∀ r : Rule, decodeValue Rule.decode r.document.collapse = .ok r) ∧
      (∀ d : Definition, d.Sound → decodeValue Definition.decode d.value = .ok d) ∧
      ∀ cs : List SubContext, (Context.multi cs).Normal → (Context.multi cs).Clear →
        (∀ s ∈ cs, ∀ e ∈ s.attributes.entries, e.2.WellFormed) →
        ∃ members : Table Json, (Context.multi cs).value = .ofTable members ∧
          members.find? "kind" = some (.str Context.multiKind) ∧
          ∀ kind, kind ≠ "kind" →
            (members.find? kind).map (decodeValue SubContext.decode) =
              ((Context.multi cs).get? kind).map .ok :=
  ⟨fun _ => User.decode_value_iff, fun _ => SubContext.decode_value_iff,
    fun _ => Identity.decode_value_iff, Rule.decode_value, fun _ => Definition.decode_value,
    fun _ => Context.exists_members⟩

/-- A plan is read back beside the fields of a user, a second address is not. -/
theorem plan_read_back :
    let ann := fun name => User.mk "u1" "Ann" "ann@company.com" (.ofList [(name, .str "gold")])
    let user := fun name => SubContext.ofUser (some (ann name)) "en"
    let beta := Definition.mk "beta" true (some 30) (.str "on") (.arr [.null])
      [⟨"context:team", "t1", true, 5⟩]
    decodeValue User.decode (ann "plan").value = .ok (ann "plan") ∧
      decodeValue User.decode (ann "email").value ≠ .ok (ann "email") ∧
      decodeValue SubContext.decode (user "plan").value = .ok (user "plan") ∧
      decodeValue SubContext.decode (user "locale").value ≠ .ok (user "locale") ∧
      decodeValue Identity.decode (Identity.value ⟨some (ann "plan"), "en", none⟩) =
        .ok ⟨some (ann "plan"), "en", none⟩ ∧
      decodeValue Definition.decode beta.value = .ok beta ∧
      ∃ members : Table Json,
        (Context.multi [user "plan", .keyed "team" "t1"]).value = .ofTable members ∧
          (members.find? "team").map (decodeValue SubContext.decode) =
            some (.ok (.keyed "team" "t1")) := by
  intro ann user beta
  have hsound : ∀ name, (ann name).Sound := by
    intro name e he
    rw [List.mem_singleton.mp he]
    trivial
  have hbeta : beta.Sound := ⟨trivial, trivial, trivial⟩
  have hvalues : ∀ s ∈ [user "plan", .keyed "team" "t1"],
      ∀ e ∈ s.attributes.entries, e.2.WellFormed := by
    intro s hs
    rcases List.mem_cons.mp hs with rfl | hs
    · exact hsound "plan"
    · rw [List.mem_singleton.mp hs]
      exact nofun
  obtain ⟨huser, hsub, hidentity, -, hdefinition, hmulti⟩ := records_read_back
  obtain ⟨members, hmembers, -, hparts⟩ :=
    hmulti [user "plan", .keyed "team" "t1"] ⟨by decide, by decide⟩ (by decide) hvalues
  refine ⟨(huser _ (hsound "plan")).mpr (by decide), ?_,
    (hsub (user "plan") (hsound "plan")).mpr (by decide), ?_, (hidentity _ ?_).mpr ?_,
    hdefinition beta hbeta, members, hmembers, hparts "team" (by decide)⟩
  · exact mt (huser _ (hsound "email")).mp (by decide)
  · exact mt (hsub (user "locale") (hsound "locale")).mp (by decide)
  · rintro u ⟨⟩
    exact hsound "plan"
  · rintro u ⟨⟩
    decide

end FeatureFlags
