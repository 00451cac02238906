/-!
# Pieces of a text

* `pieces`   the parts of a text between the characters of a class; there is one more of them than
             there are such characters.
-/

namespace FeatureFlags.Text

/-- Puts a character in front of the first piece. -/
def extend (c : Char) : List (List Char) → List (List Char)
  | [] => [[c]]
  | piece :: rest => (c :: piece) :: rest

def pieces (ends : Char → Bool) : List Char → List (List Char)
  | [] => [[]]
  | c :: cs => if ends c then [] :: pieces ends cs else extend c (pieces ends cs)

/-- A text without characters of the class is one piece. -/
theorem pieces_of_none {ends : Char → Bool} {cs : List Char} (h : ∀ c ∈ cs, ends c = false) :
    pieces ends cs = [cs] := by
  induction cs with
  | nil => rfl
  | cons c cs ih =>
    rw [pieces, if_neg (Bool.eq_false_iff.mp (h c List.mem_cons_self)),
      ih (fun d hd => h d (List.mem_cons_of_mem _ hd))]
    rfl

end FeatureFlags.Text
