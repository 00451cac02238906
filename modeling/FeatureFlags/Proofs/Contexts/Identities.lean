import FeatureFlags.Proofs.Contexts.Text
import FeatureFlags.Proofs.Json.Decoding

/-!
# Identities that were read

* `User.yields_attributes`   the attributes of a decoded user are values, and none has the name of a
                             field;
* `Identity.yields_user`     a decoded identity has a user that could be decoded;
* `Identity.yields_decode`   so it tells of its user in values only;
* `Identity.Sound.context`   the context of such an identity can come about.
-/

namespace FeatureFlags

namespace User

/-- No attribute has the name of a field. -/
def Clear (u : User) : Prop := ∀ name ∈ fixedNames, u.attributes.find? name = none

instance (u : User) : Decidable u.Clear :=
  inferInstanceAs (Decidable (∀ name ∈ fixedNames, u.attributes.find? name = none))

theorem not_mem_fixedNames {name : String} (hid : name ≠ "userId") (hname : name ≠ "name")
    (hemail : name ≠ "email") : name ∉ fixedNames := by
  simp only [fixedNames, List.mem_cons, List.not_mem_nil, or_false, not_or]
  exact ⟨hid, hname, hemail⟩

/-- A member is a field, or else an attribute. -/
theorem attributes_take {o : Origin} {d : Draft} {name : String} {node : Node} {t : Draft}
    (h : d.take o name node = .ok t) :
    t.attributes = d.attributes ∨ name ∉ fixedNames ∧
      ∃ a, node.toJson o = .ok a ∧ t.attributes = d.attributes.insert name a := by
  unfold Draft.take at h
  split at h
  case h_4 hid hname hemail =>
    obtain ⟨a, ha, h⟩ := exists_of_bind_ok h
    cases h
    exact .inr ⟨not_mem_fixedNames hid hname hemail, a, ha, rfl⟩
  all_goals
    obtain ⟨_, -, h⟩ := exists_of_bind_ok h
    cases h
    exact .inl rfl

/-- What a user has beside the fields. -/
theorem yields_attributes : Yields decode (fun u => Node.Rest fixedNames u.attributes) := by
  have hdraft : Yields (fun o node => node.fold Draft.take {} o)
      (fun d => Node.Rest fixedNames d.attributes) :=
    Node.yields_rest rfl (fun _ _ _ _ _ => attributes_take)
  intro o node u h
  obtain ⟨d, hd, h⟩ := exists_of_bind_ok h
  have hrest : Node.Rest fixedNames d.attributes := hdraft o node d hd
  obtain ⟨_, -, h⟩ := exists_of_bind_ok h
  obtain ⟨_, -, h⟩ := exists_of_bind_ok h
  obtain ⟨_, -, h⟩ := exists_of_bind_ok h
  cases h
  exact hrest

theorem yields_decode : Yields decode Sound := fun o node u h =>
  (yields_attributes o node u h).wellFormed

theorem yields_decode_clear : Yields decode Clear := fun o node u h =>
  (yields_attributes o node u h).clear

end User

namespace Identity

def Sound (i : Identity) : Prop := ∀ u ∈ i.user, u.Sound

theorem sound_anonymous (locale : String) : (anonymous locale).Sound := nofun

/-- What an identity becomes in a context can come about. -/
theorem Sound.context {i : Identity} (h : i.Sound) : i.context.Sound := by
  refine ⟨Context.normal_compose _ _, fun s hs => ?_⟩
  rcases List.mem_cons.mp (Context.mem_of_mem_compose hs) with rfl | hs
  · exact SubContext.sound_ofUser h i.locale
  · obtain ⟨id, -, rfl⟩ := Option.map_eq_some_iff.mp (Option.mem_toList.mp hs)
    exact SubContext.sound_keyed (by decide) id

section

variable {P : User → Prop}

theorem user_take (hP : Yields User.decode P) {o : Origin} {d : Draft} {name : String}
    {node : Node} {t : Draft} (hd : ∀ u ∈ d.user.join, P u) (h : d.take o name node = .ok t) :
    ∀ u ∈ t.user.join, P u := by
  unfold Draft.take at h
  split at h
  · obtain ⟨slot, hslot, h⟩ := exists_of_bind_ok h
    obtain ⟨user, huser, rfl⟩ := fill_ok hslot
    cases h
    exact hP.toOption o node user huser
  · obtain ⟨_, -, h⟩ := exists_of_bind_ok h
    cases h
    exact hd
  · obtain ⟨_, -, h⟩ := exists_of_bind_ok h
    cases h
    exact hd
  · rw [Node.ignore] at h
    split at h
    · cases h
      exact hd
    · cases h

theorem user_ofItems (hP : Yields User.decode P) {o : Origin} {items : Items} {i : Identity}
    (h : ofItems o items = .ok i) : ∀ u ∈ i.user, P u := by
  obtain ⟨⟨user, afterUser⟩, huser, h⟩ := exists_of_bind_ok h
  obtain ⟨⟨locale, afterLocale⟩, -, h⟩ := exists_of_bind_ok h
  obtain ⟨⟨workspaceId, afterWorkspace⟩, -, h⟩ := exists_of_bind_ok h
  rw [← Items.finish_ok h]
  intro u hu
  exact hP.toOption.next? huser _ (Option.join_eq_some_iff.mp hu) u rfl

theorem user_members (hP : Yields User.decode P) {o : Origin} {node : Node} {d : Draft}
    {i : Identity} (hd : node.fold Draft.take {} o = .ok d) (h : d.finish = .ok i) :
    ∀ u ∈ i.user, P u := by
  have hnobody : ∀ u ∈ ({} : Draft).user.join, P u :=
    fun u hu => absurd hu (Option.not_mem_none u)
  have huser : ∀ u ∈ d.user.join, P u :=
    Node.yields_fold (P := fun d : Draft => ∀ u ∈ d.user.join, P u) hnobody
      (fun _ _ _ _ _ hs ht => user_take hP hs ht) o node d hd
  obtain ⟨locale, -, h⟩ := exists_of_bind_ok h
  cases h
  exact huser

/-- What all users have that are decoded, the user of a decoded identity has. -/
theorem yields_user (hP : Yields User.decode P) : Yields decode (fun i => ∀ u ∈ i.user, P u) := by
  intro o node i h
  cases node with
  | array items closed =>
    obtain ⟨o', -, h⟩ := exists_of_bind_ok h
    exact user_ofItems hP h
  | _ =>
    obtain ⟨d, hd, h⟩ := exists_of_bind_ok h
    exact user_members hP hd h

end

/-- All that is decoded as an identity is sound. -/
theorem yields_decode : Yields decode Sound := yields_user User.yields_decode

end Identity

end FeatureFlags
