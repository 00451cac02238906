import FeatureFlags.Proofs.Json.Reading
import Mathlib.Data.List.Nodup

/-!
# Members that were read

What the objects of a tree have under a name, and when they have at most one member of each name.
For the tree that a document is read as, both are told by the document.

* `Node.named`       all values that an object has under a name;
* `Node.Distinct`    no object repeats a name;
* `Json.under`       what a list of members has under a name;
* `Json.named_tree`, `Json.distinct_tree_iff`   an object that was written, read back;
* `Json.WellFormed.distinct`   the text of a value repeats no name.
-/

namespace FeatureFlags

namespace Node

/-- the values of all members with a name, in their order -/
def named (name : String) : Node → List Node
  | object members _ => (members.filter (fun m => m.1 = some name)).map Prod.snd
  | _ => []

mutual

/-- No object repeats a name. -/
def Distinct : Node → Prop
  | array items _ => DistinctItems items
  | object members _ => (members.map Prod.fst).Nodup ∧ DistinctMembers members
  | _ => True

def DistinctItems : List Node → Prop
  | [] => True
  | n :: ns => Distinct n ∧ DistinctItems ns

def DistinctMembers : List (Option String × Node) → Prop
  | [] => True
  | (_, n) :: ns => Distinct n ∧ DistinctMembers ns

end

/-- Where no name is repeated at most one value is found under each. -/
theorem Distinct.length_named_le {n : Node} (h : n.Distinct) (name : String) :
    (n.named name).length ≤ 1 := by
  cases n with
  | object members closed =>
    rw [named, List.length_map]
    have hnames : ((members.filter (fun m => m.1 = some name)).map Prod.fst).Nodup :=
      h.1.sublist (List.filter_sublist.map _)
    have hall : (members.filter (fun m => m.1 = some name)).map Prod.fst =
        List.replicate (members.filter (fun m => m.1 = some name)).length (some name) := by
      rw [List.eq_replicate_iff, List.length_map]
      refine ⟨rfl, fun x hx => ?_⟩
      obtain ⟨m, hm, rfl⟩ := List.mem_map.mp hx
      simpa using (List.mem_filter.mp hm).2
    rwa [hall, List.nodup_replicate] at hnames
  | _ => exact Nat.zero_le 1

end Node

namespace Json

/-! ## members of a document -/

/-- the values of all entries with a name, in their order -/
def under (name : String) (es : List (Entry Json)) : List Json :=
  (es.filter (fun e => e.1 = name)).map Prod.snd

theorem under_cons (name : String) (e : Entry Json) (es : List (Entry Json)) :
    under name (e :: es) = if e.1 = name then e.2 :: under name es else under name es := by
  rw [under, List.filter_cons]
  by_cases h : e.1 = name
  · rw [if_pos (decide_eq_true h), if_pos h]
    rfl
  · rw [if_neg (by simpa using h), if_neg h]
    rfl

theorem under_append (name : String) (es fs : List (Entry Json)) :
    under name (es ++ fs) = under name es ++ under name fs := by
  rw [under, List.filter_append, List.map_append]
  rfl

theorem under_eq_nil {name : String} {es : List (Entry Json)} (h : name ∉ es.map Prod.fst) :
    under name es = [] := by
  induction es with
  | nil => rfl
  | cons e es ih =>
    obtain ⟨he, hes⟩ := not_or.mp (mt List.mem_cons.mpr h)
    rw [under_cons, if_neg (Ne.symm he), ih hes]

/-- Among different names there is one value under each. -/
theorem under_eq_singleton {es : List (Entry Json)} (h : (es.map Prod.fst).Nodup)
    {e : Entry Json} (he : e ∈ es) : under e.1 es = [e.2] := by
  induction es with
  | nil => cases he
  | cons d es ih =>
    obtain ⟨hd, hes⟩ := List.nodup_cons.mp h
    rw [under_cons]
    rcases List.mem_cons.mp he with rfl | he
    · rw [if_pos rfl, under_eq_nil hd]
    · have hne : d.1 ≠ e.1 := fun heq => hd (heq ▸ List.mem_map_of_mem he)
      rw [if_neg hne, ih hes he]

/-! ## documents that are read back -/

theorem treeMembers_eq_map (es : List (Entry Json)) :
    treeMembers es = es.map (fun e => (some e.1, tree e.2)) := by
  induction es with
  | nil => rfl
  | cons e es ih => rw [List.map_cons, treeMembers, ih]

theorem named_tree (name : String) (es : List (Entry Json)) :
    (tree (.obj es)).named name = (under name es).map tree := by
  rw [tree, treeMembers_eq_map, Node.named, under, List.filter_map, List.map_map, List.map_map]
  congr 1
  refine List.filter_congr fun e _ => ?_
  exact decide_eq_decide.mpr Option.some_inj

theorem distinctMembers_treeMembers_iff (es : List (Entry Json)) :
    Node.DistinctMembers (treeMembers es) ↔ ∀ e ∈ es, (tree e.2).Distinct := by
  induction es with
  | nil => exact iff_of_true trivial nofun
  | cons e es ih =>
    rw [List.forall_mem_cons, ← ih]
    rfl

theorem distinct_tree_iff (es : List (Entry Json)) :
    (tree (.obj es)).Distinct ↔ (es.map Prod.fst).Nodup ∧ ∀ e ∈ es, (tree e.2).Distinct := by
  show ((treeMembers es).map Prod.fst).Nodup ∧ Node.DistinctMembers (treeMembers es) ↔ _
  have hnames : (treeMembers es).map Prod.fst = (es.map Prod.fst).map some := by
    rw [treeMembers_eq_map, List.map_map, List.map_map]
    rfl
  rw [hnames, List.nodup_map_iff (Option.some_injective String), distinctMembers_treeMembers_iff]

/-! ## values -/

theorem wellFormedMembers_iff (es : List (Entry Json)) :
    WellFormedMembers es ↔ ∀ e ∈ es, e.2.WellFormed := by
  induction es with
  | nil => exact iff_of_true trivial nofun
  | cons e es ih =>
    rw [List.forall_mem_cons, ← ih]
    rfl

mutual

/-- **The text of a value repeats no name in any object.** -/
theorem WellFormed.distinct : ∀ {a : Json}, a.WellFormed → (tree a).Distinct
  | .null, _ => trivial
  | .bool _, _ => trivial
  | .num _, _ => trivial
  | .str _, _ => trivial
  | .arr _, h => WellFormedItems.distinct h
  | .obj es, h => (distinct_tree_iff es).mpr ⟨h.1.nodup_names,
      (distinctMembers_treeMembers_iff es).mp (WellFormedMembers.distinct h.2)⟩

theorem WellFormedItems.distinct :
    ∀ {as : List Json}, WellFormedItems as → Node.DistinctItems (treeItems as)
  | [], _ => trivial
  | _ :: _, h => ⟨WellFormed.distinct h.1, WellFormedItems.distinct h.2⟩

theorem WellFormedMembers.distinct :
    ∀ {es : List (Entry Json)}, WellFormedMembers es → Node.DistinctMembers (treeMembers es)
  | [], _ => trivial
  | (_, _) :: _, h => ⟨WellFormed.distinct h.1, WellFormedMembers.distinct h.2⟩

end

end Json

end FeatureFlags
