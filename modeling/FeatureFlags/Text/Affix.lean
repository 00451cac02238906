/-!
# Beginnings and ends

* `dropHead?`, `after?`   the rest of a text that begins with a given one;
* `endsWith`    whether a text ends with a given one;
* `lt_of_append_lt`   texts that begin alike are ordered as what follows is.
-/

namespace FeatureFlags.Text

/-- the rest of `cs` after `head`, if `cs` begins with it -/
def dropHead? : List Char → List Char → Option (List Char)
  | [], cs => some cs
  | h :: hs, c :: cs => if h = c then dropHead? hs cs else none
  | _ :: _, [] => none

theorem dropHead?_append (head rest : List Char) : dropHead? head (head ++ rest) = some rest := by
  induction head with
  | nil => rfl
  | cons h hs ih => rw [List.cons_append, dropHead?, if_pos rfl, ih]

theorem eq_append_of_dropHead? {head cs rest : List Char} (h : dropHead? head cs = some rest) :
    cs = head ++ rest := by
  induction head generalizing cs with
  | nil => exact Option.some.inj h
  | cons c hs ih =>
    match cs with
    | [] => cases h
    | d :: ds =>
      rw [dropHead?] at h
      split at h
      next hc => rw [ih h, hc, List.cons_append]
      next => cases h

/-- the rest of a string after `head` -/
def after? (head s : String) : Option String := (dropHead? head.toList s.toList).map String.ofList

theorem after?_eq_some_iff {head s rest : String} :
    after? head s = some rest ↔ s = head ++ rest := by
  rw [after?, Option.map_eq_some_iff]
  constructor
  · rintro ⟨cs, hcs, rfl⟩
    rw [← String.toList_inj, String.toList_append, String.toList_ofList]
    exact eq_append_of_dropHead? hcs
  · rintro rfl
    refine ⟨rest.toList, ?_, String.ofList_toList⟩
    rw [String.toList_append]
    exact dropHead?_append _ _

theorem lt_of_append_lt {head s t : String} (h : head ++ s < head ++ t) : s < t := by
  refine Decidable.byContradiction fun hn => ?_
  by_cases heq : s = t
  · exact String.lt_irrefl _ (heq ▸ h)
  · have hlt : t < s := Decidable.byContradiction fun hn' =>
      heq (String.le_antisymm (String.not_lt.mp hn') (String.not_lt.mp hn))
    refine String.lt_asymm h ?_
    rw [String.lt_iff, String.toList_append, String.toList_append]
    exact List.append_left_lt (String.lt_iff.mp hlt)

def endsWith (tail s : String) : Bool := tail.toList.isSuffixOf s.toList

end FeatureFlags.Text
