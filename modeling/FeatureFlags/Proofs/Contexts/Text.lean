import FeatureFlags.Proofs.Contexts
import FeatureFlags.Proofs.Json.Members

/-!
# The text of a context

Three kinds of names meet in the text of a context: those of the fields of a sub-context, those of
its attributes, and in a wrapped context the kinds of the sub-contexts.  Where no two of them are
the same, whoever reads the text finds the context in it.

* `SubContext.Sound`, `Context.Sound`   contexts that can come about;
* `SubContext.Clear`, `Context.Clear`   no attribute has the name of a field, and no kind that of
                                  the member which tells the kind;
* `Node.Tells`                    what a tree tells of a sub-context;
* `Context.Told`                  and of a context;
* `Context.distinct_tree_iff`     the text of a context repeats no name exactly if the context is
                                  clear;
* `Context.Clear.told`            the text of a clear context tells of it.
-/

namespace FeatureFlags

open Json

/-! ## what is read -/

/-- All that a tree has under the names of the fields are the fields of a sub-context. -/
structure Node.Tells (n : Node) (s : SubContext) : Prop where
  kind : n.named "kind" = [.string (some s.kind)]
  anonymous : n.named "anonymous" = (s.anonymous.map Node.bool).toList
  key : n.named "key" = (s.key.map (fun t => Node.string (some t))).toList
  email : n.named "email" = (s.email.map (fun t => Node.string (some t))).toList
  name : n.named "name" = (s.name.map (fun t => Node.string (some t))).toList
  locale : n.named "locale" = (s.locale.map (fun t => Node.string (some t))).toList

/-- where a tree of a context has the sub-contexts of a kind -/
def Context.places (c : Context) (kind : String) (n : Node) : List Node :=
  if c.isMulti then n.named kind else [n]

/-- A tree tells whether a context is wrapped, and of each sub-context in one place. -/
structure Context.Told (c : Context) (n : Node) : Prop where
  kind : n.named "kind" = [.string (some multiKind)] ↔ 2 ≤ c.parts.length
  parts : ∀ s ∈ c.parts, ∃ m, c.places s.kind n = [m] ∧ m.Tells s

/-! ## sub-contexts -/

/-- What else the provider tells of a user are values. -/
def User.Sound (u : User) : Prop := ∀ e ∈ u.attributes.entries, e.2.WellFormed

namespace SubContext

/-- No attribute has the name of a field. -/
def Clear (s : SubContext) : Prop := ∀ name ∈ fixedNames, s.attributes.find? name = none

instance (s : SubContext) : Decidable s.Clear :=
  inferInstanceAs (Decidable (∀ name ∈ fixedNames, s.attributes.find? name = none))

structure Sound (s : SubContext) : Prop where
  kind_ne : s.kind ≠ Context.multiKind
  wellFormed : ∀ e ∈ s.attributes.entries, e.2.WellFormed
  /-- what has attributes has all fields -/
  complete : s.attributes.entries = [] ∨ s.fixedMembers.map Prod.fst = fixedNames

theorem sound_keyed {kind : String} (h : kind ≠ Context.multiKind) (key : String) :
    (keyed kind key).Sound := ⟨h, nofun, .inl rfl⟩

theorem userKind_ne_multiKind : userKind ≠ Context.multiKind := by decide

theorem sound_ofUser {user : Option User} (h : ∀ u ∈ user, u.Sound) (locale : String) :
    (ofUser user locale).Sound := by
  cases user with
  | none => exact ⟨userKind_ne_multiKind, nofun, .inl rfl⟩
  | some u => exact ⟨userKind_ne_multiKind, h u rfl, .inr rfl⟩

/-! ### names -/

theorem names_optionalMember_sublist (name : String) (f : α → Json) (o : Option α) :
    ((optionalMember name f o).map Prod.fst).Sublist [name] := by
  cases o with
  | none => exact List.nil_sublist _
  | some a => exact List.Sublist.refl _

theorem names_fixedMembers_sublist (s : SubContext) :
    (s.fixedMembers.map Prod.fst).Sublist fixedNames := by
  rw [fixedMembers, List.map_cons, List.map_append, List.map_append, List.map_append,
    List.map_append]
  exact (((names_optionalMember_sublist "anonymous" _ _).append
    ((names_optionalMember_sublist "key" _ _).append
      ((names_optionalMember_sublist "email" _ _).append
        ((names_optionalMember_sublist "name" _ _).append
          (names_optionalMember_sublist "locale" _ _))))).cons_cons "kind")

theorem nodup_names_fixedMembers (s : SubContext) : (s.fixedMembers.map Prod.fst).Nodup :=
  List.Nodup.sublist s.names_fixedMembers_sublist (by decide)

theorem forall_mem_optionalMember {P : Entry Json → Prop} {name : String} {f : α → Json}
    (hf : ∀ a, P (name, f a)) (o : Option α) : ∀ e ∈ optionalMember name f o, P e := by
  intro e he
  cases o with
  | none => cases he
  | some a =>
    rw [List.mem_singleton.mp he]
    exact hf a

/-- Fields are texts and truth values. -/
theorem distinct_fixedMembers (s : SubContext) :
    ∀ e ∈ s.fixedMembers, (tree e.2).Distinct := by
  have hbool : ∀ b, (tree (.bool b)).Distinct := fun _ => trivial
  have hstr : ∀ t, (tree (.str t)).Distinct := fun _ => trivial
  rw [fixedMembers, List.forall_mem_cons, List.forall_mem_append, List.forall_mem_append,
    List.forall_mem_append, List.forall_mem_append]
  exact ⟨hstr s.kind, forall_mem_optionalMember hbool _, forall_mem_optionalMember hstr _,
    forall_mem_optionalMember hstr _, forall_mem_optionalMember hstr _,
    forall_mem_optionalMember hstr _⟩

/-- No attribute takes the name of a field that is written exactly if none takes that of any
field. -/
theorem Sound.disjoint_iff {s : SubContext} (h : s.Sound) :
    (∀ name ∈ s.fixedMembers.map Prod.fst, name ∉ s.attributes.entries.map Prod.fst) ↔
      s.Clear := by
  constructor
  · intro hd name hname
    refine Entries.find?_eq_none_iff.mpr ?_
    rcases h.complete with ha | ha
    · rw [ha]
      exact List.not_mem_nil
    · exact hd name (ha ▸ hname)
  · intro hc name hname
    exact Entries.find?_eq_none_iff.mp (hc name (s.names_fixedMembers_sublist.subset hname))

/-- The text of a sub-context repeats no name exactly if no attribute has the name of a field. -/
theorem Sound.distinct_iff {s : SubContext} (h : s.Sound) :
    (tree s.document).Distinct ↔ s.Clear := by
  rw [document, Json.distinct_tree_iff, List.map_append, List.nodup_append, ← h.disjoint_iff]
  constructor
  · rintro ⟨⟨-, -, hd⟩, -⟩ name hname hattr
    exact hd name hname name hattr rfl
  · intro hd
    refine ⟨⟨s.nodup_names_fixedMembers, s.attributes.sorted.nodup_names, ?_⟩, fun e he => ?_⟩
    · rintro a ha b hb rfl
      exact hd a ha hb
    · rcases List.mem_append.mp he with he | he
      · exact s.distinct_fixedMembers e he
      · exact (h.wellFormed e he).distinct

/-! ### fields -/

theorem under_optionalMember (name other : String) (f : α → Json) (o : Option α) :
    under name (optionalMember other f o) = if other = name then (o.map f).toList else [] := by
  cases o with
  | none => exact (ite_self _).symm
  | some a => exact under_cons name (other, f a) []

theorem named_document {s : SubContext} (h : s.Clear) {name : String} (hname : name ∈ fixedNames) :
    (tree s.document).named name = (under name s.fixedMembers).map tree := by
  have hattr : under name s.attributes.entries = [] :=
    under_eq_nil (Entries.find?_eq_none_iff.mp (h name hname))
  rw [document, named_tree, under_append, hattr, List.append_nil]

theorem map_tree_toList {f : α → Json} {g : α → Node} (h : ∀ a, tree (f a) = g a)
    (o : Option α) : (o.map f).toList.map tree = (o.map g).toList := by
  cases o with
  | none => rfl
  | some a => exact congrArg ([·]) (h a)

/-- The text of a clear sub-context tells its fields. -/
theorem Clear.tells {s : SubContext} (h : s.Clear) : (tree s.document).Tells s := by
  have hn : ∀ name ∈ fixedNames, (tree s.document).named name =
      (under name s.fixedMembers).map tree := fun name hname => named_document h hname
  have hu : under "kind" s.fixedMembers = [.str s.kind] ∧
      under "anonymous" s.fixedMembers = (s.anonymous.map Json.bool).toList ∧
      under "key" s.fixedMembers = (s.key.map Json.str).toList ∧
      under "email" s.fixedMembers = (s.email.map Json.str).toList ∧
      under "name" s.fixedMembers = (s.name.map Json.str).toList ∧
      under "locale" s.fixedMembers = (s.locale.map Json.str).toList := by
    simp [fixedMembers, under_cons, under_append, under_optionalMember]
  obtain ⟨hkind, hanonymous, hkey, hemail, hname, hlocale⟩ := hu
  constructor
  · rw [hn "kind" (by decide), hkind]
    rfl
  · rw [hn "anonymous" (by decide), hanonymous]
    exact map_tree_toList (fun _ => rfl) s.anonymous
  · rw [hn "key" (by decide), hkey]
    exact map_tree_toList (fun _ => rfl) s.key
  · rw [hn "email" (by decide), hemail]
    exact map_tree_toList (fun _ => rfl) s.email
  · rw [hn "name" (by decide), hname]
    exact map_tree_toList (fun _ => rfl) s.name
  · rw [hn "locale" (by decide), hlocale]
    exact map_tree_toList (fun _ => rfl) s.locale

end SubContext

/-! ## contexts -/

namespace Context

/-- No attribute has the name of a field, and in a wrapped context no kind is the name of the member
that tells the kind. -/
def Clear (c : Context) : Prop :=
  (∀ s ∈ c.parts, s.Clear) ∧ (2 ≤ c.parts.length → ∀ s ∈ c.parts, s.kind ≠ "kind")

instance (c : Context) : Decidable c.Clear :=
  inferInstanceAs (Decidable ((∀ s ∈ c.parts, s.Clear) ∧
    (2 ≤ c.parts.length → ∀ s ∈ c.parts, s.kind ≠ "kind")))

structure Sound (c : Context) : Prop where
  normal : c.Normal
  parts : ∀ s ∈ c.parts, s.Sound

theorem Sound.insert {c : Context} (h : c.Sound) {s : SubContext} (hs : s.Sound) :
    (c.insert s).Sound := by
  refine ⟨normal_insert c s, fun t ht => ?_⟩
  rcases mem_of_mem_insert ht with rfl | ht
  · exact hs
  · exact h.parts t ht

theorem Sound.erase? {c d : Context} (h : c.Sound) {kind : String} (hd : c.erase? kind = some d) :
    d.Sound := ⟨normal_erase? hd, fun t ht => h.parts t (mem_of_mem_erase? hd ht)⟩

/-- the members of a wrapped context -/
def members (cs : List SubContext) : List (Entry Json) :=
  cs.map (fun s => (s.kind, s.document))

theorem document_multi (cs : List SubContext) :
    (multi cs).document = .obj (("kind", .str multiKind) :: members cs) := rfl

theorem names_members (cs : List SubContext) :
    (members cs).map Prod.fst = cs.map SubContext.kind := by
  rw [members, List.map_map]
  rfl

theorem kind_not_mem_iff (cs : List SubContext) :
    "kind" ∉ (members cs).map Prod.fst ↔ ∀ s ∈ cs, s.kind ≠ "kind" := by
  rw [names_members, List.mem_map]
  exact ⟨fun h s hs heq => h ⟨s, hs, heq⟩, fun h ⟨s, hs, heq⟩ => h s hs heq⟩

/-- What the text of a context is read as. -/
theorem read_text (c : Context) : Node.read c.text = (tree c.document, true) := by
  rw [text, Node.read_print]

/-- **The text of a context repeats no name in any object exactly if the context is clear.** -/
theorem distinct_tree_iff {c : Context} (h : c.Sound) :
    (tree c.document).Distinct ↔ c.Clear := by
  cases c with
  | single s =>
    have hs : (tree s.document).Distinct ↔ s.Clear :=
      (h.parts s List.mem_cons_self).distinct_iff
    rw [Clear, parts_single, List.forall_mem_singleton]
    exact hs.trans (and_iff_left fun hn => absurd hn (by decide : ¬ 2 ≤ 1)).symm
  | multi cs =>
    have hlen : 2 ≤ (multi cs).parts.length := h.normal.1
    have hparts : (∀ e ∈ members cs, (tree e.2).Distinct) ↔ ∀ s ∈ cs, s.Clear := by
      rw [members, List.forall_mem_map]
      exact forall₂_congr fun s hs => (h.parts s hs).distinct_iff
    have hnodup : ((members cs).map Prod.fst).Nodup := names_members cs ▸ h.normal.2
    rw [document_multi, Json.distinct_tree_iff, List.map_cons, List.nodup_cons,
      List.forall_mem_cons, kind_not_mem_iff, hparts, Clear, parts_multi]
    constructor
    · rintro ⟨⟨hkind, -⟩, -, hclear⟩
      exact ⟨hclear, fun _ => hkind⟩
    · rintro ⟨hclear, hkind⟩
      exact ⟨⟨hkind hlen, hnodup⟩, trivial, hclear⟩

/-- **The text of a clear context tells of it.** -/
theorem Clear.told {c : Context} (hc : c.Clear) (h : c.Sound) : c.Told (tree c.document) := by
  cases c with
  | single s =>
    have ht : (tree s.document).Tells s := (hc.1 s List.mem_cons_self).tells
    refine ⟨?_, fun t hmem => ⟨tree s.document, rfl, List.mem_singleton.mp hmem ▸ ht⟩⟩
    refine iff_of_false (fun hk => ?_) (by decide : ¬ 2 ≤ 1)
    have hkind : [Node.string (some s.kind)] = [.string (some multiKind)] := ht.kind.symm.trans hk
    have hstring : some s.kind = some multiKind := Node.string.inj (List.cons.inj hkind).1
    exact (h.parts s List.mem_cons_self).kind_ne (Option.some.inj hstring)
  | multi cs =>
    have hkind : ∀ s ∈ cs, s.kind ≠ "kind" := hc.2 h.normal.1
    refine ⟨iff_of_true ?_ h.normal.1, fun s hs => ⟨tree s.document, ?_, (hc.1 s hs).tells⟩⟩
    · rw [document_multi, named_tree, under_cons, if_pos rfl,
        under_eq_nil ((kind_not_mem_iff cs).mpr hkind)]
      rfl
    · have hu : under s.kind (members cs) = [s.document] :=
        under_eq_singleton (names_members cs ▸ h.normal.2)
          (List.mem_map_of_mem (f := fun s : SubContext => (s.kind, s.document)) hs)
      show (tree (multi cs).document).named s.kind = _
      rw [document_multi, named_tree, under_cons, if_neg (hkind s hs).symm, hu]
      rfl

end Context

end FeatureFlags
