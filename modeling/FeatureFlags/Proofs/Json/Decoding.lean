import FeatureFlags.Json.Decode
import FeatureFlags.Proofs.Json.Members

/-!
# What decoders give

All that a decoder gives may have a property, whatever the tree it reads and wherever the tree is
from.  What the parts of a decoder give, the decoder hands on.

* `Yields`               all that a decoder gives has a property;
* `Node.yields_toJson`   JSON that was decoded is a value: no object in it repeats a name;
* `Node.yields_fold`     a record that is read member by member;
* `Node.yields_rest`     what such a record keeps of the members that are no fields;
* `Yields.toOption`, `Yields.next?`, `Yields.decodeText`   what is read where null may stand, from
                         the items of an array, and from a text;
* `decodeText_toTable_iff`   a table of values is read from the texts of objects.
-/

namespace FeatureFlags

variable {ε α β σ : Type}

theorem exists_of_bind_ok {x : Except ε α} {f : α → Except ε β} {b : β} (h : x >>= f = .ok b) :
    ∃ a, x = .ok a ∧ f a = .ok b := by
  cases x with
  | error e => cases h
  | ok a => exact ⟨a, rfl, h⟩

theorem exists_of_map_ok {x : Except ε α} {f : α → β} {b : β} (h : f <$> x = .ok b) :
    ∃ a, x = .ok a ∧ f a = b := by
  cases x with
  | error e => cases h
  | ok a => exact ⟨a, rfl, Except.ok.inj h⟩

/-- What holds at the beginning and after each step holds at the end. -/
theorem of_foldlM_ok {f : σ → β → Except ε σ} {P : σ → Prop} {bs : List β} {s t : σ}
    (hs : P s) (hf : ∀ s b t, P s → f s b = .ok t → P t) (h : bs.foldlM f s = .ok t) : P t := by
  induction bs generalizing s with
  | nil =>
    cases h
    exact hs
  | cons b bs ih =>
    rw [List.foldlM_cons] at h
    obtain ⟨u, hu, h⟩ := exists_of_bind_ok h
    exact ih (hf s b u hs hu) h

/-- A slot that was filled has what was read. -/
theorem fill_ok {name : String} {slot : Option α} {read : Except DecodeError α} {r : Option α}
    (h : fill name slot read = .ok r) : ∃ a, read = .ok a ∧ r = some a := by
  cases slot with
  | some b => cases h
  | none =>
    obtain ⟨a, ha, rfl⟩ := exists_of_map_ok h
    exact ⟨a, ha, rfl⟩

theorem Node.finish_ok {closed : Bool} {a b : α} (h : Node.finish closed a = .ok b) : a = b := by
  cases closed with
  | true => exact Except.ok.inj h
  | false => cases h

theorem Items.finish_ok {items : Items} {o : Origin} {a b : α} (h : items.finish o a = .ok b) :
    a = b := by
  rw [Items.finish] at h
  split at h
  · exact Node.finish_ok h
  · cases h

/-- All that a decoder gives has a property. -/
def Yields (read : Origin → Node → Except DecodeError α) (P : α → Prop) : Prop :=
  ∀ o node a, read o node = .ok a → P a

variable {read : Origin → Node → Except DecodeError α} {P : α → Prop}

namespace Yields

theorem toOption (h : Yields read P) : Yields (Node.toOption read) (fun a => ∀ x ∈ a, P x) := by
  intro o node a ha x hx
  cases node with
  | null =>
    cases ha
    cases hx
  | _ =>
    obtain ⟨b, hb, rfl⟩ := exists_of_map_ok ha
    exact Option.some.inj hx ▸ h o _ b hb

theorem next? (h : Yields read P) {o : Origin} {items : Items} {r : Option α × Items}
    (hr : items.next? (read o) = .ok r) : ∀ x ∈ r.1, P x := by
  intro x hx
  obtain ⟨rest, closed⟩ := items
  cases rest with
  | nil =>
    rw [← Node.finish_ok hr] at hx
    cases hx
  | cons n ns =>
    obtain ⟨a, ha, hr⟩ := exists_of_bind_ok hr
    cases hr
    exact Option.some.inj hx ▸ h o n a ha

theorem decodeText (h : Yields read P) {text : String} {a : α}
    (ha : FeatureFlags.decodeText read text = .ok a) : P a := by
  obtain ⟨b, hb, ha⟩ := exists_of_bind_ok ha
  exact Node.finish_ok ha ▸ h _ _ b hb

end Yields

namespace Node

/-- What holds at the beginning of a record and after each of its members holds of the record. -/
theorem yields_fold {take : Origin → σ → String → Node → Except DecodeError σ} {P : σ → Prop}
    {start : σ} (hstart : P start)
    (htake : ∀ o s name node t, P s → take o s name node = .ok t → P t) :
    Yields (fun o node => node.fold take start o) P := by
  intro o node s hs
  cases node with
  | object members closed =>
    obtain ⟨o', -, hrest⟩ := exists_of_bind_ok hs
    obtain ⟨t, ht, hfinish⟩ := exists_of_bind_ok hrest
    rw [← finish_ok hfinish]
    refine of_foldlM_ok hstart (fun s m t hs hm => ?_) ht
    obtain ⟨name, node⟩ := m
    cases name with
    | none => cases hm
    | some name => exact htake o' s name node t hs hm
  | _ => cases hs

mutual

/-- **JSON that was decoded is a value.** -/
theorem wellFormed_toJson : ∀ (n : Node) (o : Origin) (a : Json), toJson o n = .ok a → a.WellFormed
  | .null, _, _, h => by cases h; trivial
  | .bool _, _, _, h => by cases h; trivial
  | .number (some _), _, _, h => by cases h; trivial
  | .string (some _), _, _, h => by cases h; trivial
  | .number none, _, _, h => by cases h
  | .string none, _, _, h => by cases h
  | .fault, _, _, h => by cases h
  | .array items closed, o, a, h => by
    rw [toJson] at h
    obtain ⟨o, -, h⟩ := exists_of_bind_ok h
    obtain ⟨as, has, h⟩ := exists_of_bind_ok h
    rw [← finish_ok h]
    exact wellFormed_toJsonItems items o as has
  | .object members closed, o, a, h => by
    rw [toJson] at h
    obtain ⟨o, -, h⟩ := exists_of_bind_ok h
    obtain ⟨es, hes, h⟩ := exists_of_bind_ok h
    rw [← finish_ok h]
    refine ⟨Entries.Sorted.collect es, (Json.wellFormedMembers_iff _).mpr fun e he => ?_⟩
    exact wellFormed_toJsonMembers members o es hes e (Entries.mem_of_mem_collect he)

theorem wellFormed_toJsonItems : ∀ (ns : List Node) (o : Origin) (as : List Json),
    toJsonItems o ns = .ok as → Json.WellFormedItems as
  | [], _, _, h => by cases h; trivial
  | n :: ns, o, as, h => by
    rw [toJsonItems] at h
    obtain ⟨b, hb, h⟩ := exists_of_bind_ok h
    obtain ⟨bs, hbs, h⟩ := exists_of_bind_ok h
    cases h
    exact ⟨wellFormed_toJson n o b hb, wellFormed_toJsonItems ns o bs hbs⟩

theorem wellFormed_toJsonMembers : ∀ (ns : List (Option String × Node)) (o : Origin)
    (es : List (Entry Json)), toJsonMembers o ns = .ok es → ∀ e ∈ es, e.2.WellFormed
  | [], _, _, h, _, he => by
    cases h
    cases he
  | (none, _) :: _, _, _, h, _, _ => by cases h
  | (some name, n) :: ns, o, es, h, e, he => by
    rw [toJsonMembers] at h
    obtain ⟨b, hb, h⟩ := exists_of_bind_ok h
    obtain ⟨bs, hbs, h⟩ := exists_of_bind_ok h
    cases h
    rcases List.mem_cons.mp he with rfl | he
    · exact wellFormed_toJson n o b hb
    · exact wellFormed_toJsonMembers ns o bs hbs e he

end

theorem yields_toJson : Yields toJson Json.WellFormed := fun o node a => wellFormed_toJson node o a

/-! ## members that are no fields -/

/-- Values, none of them under the name of a field. -/
structure Rest (names : List String) (t : Table Json) : Prop where
  wellFormed : ∀ e ∈ t.entries, e.2.WellFormed
  clear : ∀ name ∈ names, t.find? name = none

theorem Rest.empty (names : List String) : Rest names {} := ⟨nofun, fun _ _ => rfl⟩

theorem Rest.insert {names : List String} {t : Table Json} (h : Rest names t) {name : String}
    (hname : name ∉ names) {a : Json} (ha : a.WellFormed) : Rest names (t.insert name a) := by
  constructor
  · intro e he
    rcases Entries.mem_put he with rfl | he
    · exact ha
    · exact h.wellFormed e he
  · intro field hfield
    have hne : name ≠ field := fun heq => hname (heq ▸ hfield)
    rw [Table.find?_insert, if_neg hne, h.clear field hfield]

/-- A record that puts each member which is no field beside the others, and does nothing to them
when it reads a field, has nothing else there. -/
theorem yields_rest {take : Origin → σ → String → Node → Except DecodeError σ}
    {rest : σ → Table Json} {names : List String} {start : σ} (hstart : rest start = {})
    (htake : ∀ o s name node t, take o s name node = .ok t →
      rest t = rest s ∨
        name ∉ names ∧ ∃ a, node.toJson o = .ok a ∧ rest t = (rest s).insert name a) :
    Yields (fun o node => node.fold take start o) (fun s => Rest names (rest s)) := by
  have hempty : Rest names (rest start) := hstart ▸ Rest.empty names
  refine yields_fold (P := fun s => Rest names (rest s)) hempty ?_
  intro o s name node t hs ht
  rcases htake o s name node t ht with he | ⟨hname, a, ha, he⟩
  · exact he ▸ hs
  · exact he ▸ hs.insert hname (yields_toJson o node a ha)

end Node

/-! ## tables of values -/

theorem Table.foldl_insert (es : List (Entry Json)) :
    es.foldl (fun t e => t.insert e.1 e.2) {} = Table.ofList es := by
  have hentries : ∀ t : Table Json, (es.foldl (fun t e => t.insert e.1 e.2) t).entries =
      es.foldl (fun acc e => Entries.put e.1 e.2 acc) t.entries := by
    induction es with
    | nil => exact fun _ => rfl
    | cons e es ih => exact fun t => ih (t.insert e.1 e.2)
  exact Table.ext_find? fun name => congrArg (Entries.find? name) (hentries {})

theorem Json.ofTable_injective : Function.Injective Json.ofTable := by
  intro t u h
  cases t
  cases u
  cases Json.obj.inj h
  rfl

namespace Node

/-- what reading a table does with a member -/
def takeMember (o : Origin) (t : Table Json) (m : Option String × Node) :
    Except DecodeError (Table Json) :=
  match m.1 with
  | some name => do
    let a ← toJson o m.2
    pure (t.insert name a)
  | none => .error .malformed

theorem foldlM_takeMember (o : Origin) (members : List (Option String × Node)) (t : Table Json) :
    members.foldlM (takeMember o) t =
      (fun es => es.foldl (fun t e => t.insert e.1 e.2) t) <$> toJsonMembers o members := by
  induction members generalizing t with
  | nil => rfl
  | cons m members ih =>
    obtain ⟨name, node⟩ := m
    cases name with
    | none => rfl
    | some name =>
      rw [List.foldlM_cons, takeMember, toJsonMembers]
      cases toJson o node with
      | error e => rfl
      | ok a =>
        show members.foldlM (takeMember o) (t.insert name a) = _
        rw [ih]
        cases toJsonMembers o members <;> rfl

/-- Read as a table or as a value, an object has the same members. -/
theorem toJson_object (o : Origin) (members : List (Option String × Node)) (closed : Bool) :
    (object members closed).toJson o =
      Json.ofTable <$> (object members closed).toTable toJson o := by
  show _ = Json.ofTable <$> (o.enter >>= fun o =>
    members.foldlM (takeMember o) {} >>= finish closed)
  rw [toJson]
  cases o.enter with
  | error e => rfl
  | ok o =>
    show (toJsonMembers o members >>= fun es => finish closed (Json.obj (Entries.collect es))) =
      Json.ofTable <$> (members.foldlM (takeMember o) {} >>= finish closed)
    rw [foldlM_takeMember]
    cases toJsonMembers o members with
    | error e => rfl
    | ok es =>
      show _ = Json.ofTable <$> finish closed (es.foldl (fun t e => t.insert e.1 e.2) {})
      rw [Table.foldl_insert]
      cases closed <;> rfl

/-- **A table of values is read from what is an object, and has its members.** -/
theorem toTable_toJson_iff (o : Origin) (node : Node) (t : Table Json) :
    node.toTable toJson o = .ok t ↔ node.toJson o = .ok (.ofTable t) := by
  have hother : ∀ {e : DecodeError} {a : Json}, (∀ members, a ≠ .obj members) →
      ((.error e : Except DecodeError (Table Json)) = .ok t ↔
        (.ok a : Except DecodeError Json) = .ok (.ofTable t)) := by
    intro e a ha
    exact iff_of_false nofun fun h => ha _ (Except.ok.inj h)
  cases node with
  | object members closed =>
    rw [toJson_object]
    cases (object members closed).toTable toJson o with
    | error e => exact ⟨nofun, nofun⟩
    | ok u =>
      constructor
      · rintro ⟨⟩
        rfl
      · intro h
        rw [Json.ofTable_injective (Except.ok.inj h)]
  | array items closed =>
    refine iff_of_false nofun fun h => ?_
    rw [toJson] at h
    obtain ⟨_, -, h⟩ := exists_of_bind_ok h
    obtain ⟨_, -, h⟩ := exists_of_bind_ok h
    cases finish_ok h
  | null => exact hother nofun
  | bool b => exact hother nofun
  | number value =>
    cases value with
    | none => exact ⟨nofun, nofun⟩
    | some n => exact hother nofun
  | string value =>
    cases value with
    | none => exact ⟨nofun, nofun⟩
    | some s => exact hother nofun
  | fault => exact ⟨nofun, nofun⟩
end Node

/-- A text is read if nothing follows the value and the value is read. -/
theorem decodeText_eq_ok_iff {text : String} {a : α} :
    decodeText read text = .ok a ↔
      (Node.read text).2 = true ∧ read .wholeText (Node.read text).1 = .ok a := by
  constructor
  · intro h
    obtain ⟨b, hb, h⟩ := exists_of_bind_ok h
    cases hclosed : (Node.read text).2 with
    | false =>
      rw [hclosed] at h
      cases h
    | true => exact ⟨rfl, Node.finish_ok h ▸ hb⟩
  · rintro ⟨hclosed, ha⟩
    show (read .wholeText (Node.read text).1 >>= Node.finish (Node.read text).2) = _
    rw [ha, hclosed]
    rfl

/-- **A table of values is read from the texts of objects.** -/
theorem decodeText_toTable_iff (text : String) (t : Table Json) :
    decodeText (fun o node => node.toTable Node.toJson o) text = .ok t ↔
      decodeText Node.toJson text = .ok (.ofTable t) := by
  rw [decodeText_eq_ok_iff, decodeText_eq_ok_iff, Node.toTable_toJson_iff]

end FeatureFlags
