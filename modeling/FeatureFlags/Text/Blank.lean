/-!
# Blank text

Which characters count as white space, and text without the white space around it.  The class is
Unicode's White_Space: every character of core's own class is in it, the no-break space and the
ideographic space are, the zero-width space is not.

* `isBlank`       the class, as a table of code points;
* `trimChars`     drops the blank characters at both ends;
* `isBlankText`   a text of blank characters only, the empty text included.
-/

namespace FeatureFlags.Text

/-- the characters of Unicode's White_Space -/
def isBlank (c : Char) : Bool :=
  let n := c.toNat
  (9 ≤ n && n ≤ 13) || n == 0x20 || n == 0x85 || n == 0xA0 || n == 0x1680 ||
    (0x2000 ≤ n && n ≤ 0x200A) || n == 0x2028 || n == 0x2029 || n == 0x202F || n == 0x205F ||
    n == 0x3000

def dropBlankEnd (cs : List Char) : List Char := (cs.reverse.dropWhile isBlank).reverse

def trimChars (cs : List Char) : List Char := dropBlankEnd (cs.dropWhile isBlank)

def isBlankText (s : String) : Bool := s.toList.all isBlank

theorem trimChars_infix (cs : List Char) : trimChars cs <:+: cs := by
  have hend : dropBlankEnd (cs.dropWhile isBlank) <+: cs.dropWhile isBlank := by
    rw [dropBlankEnd, ← List.reverse_suffix, List.reverse_reverse]
    exact List.dropWhile_suffix _
  exact hend.isInfix.trans (List.dropWhile_suffix _).isInfix

end FeatureFlags.Text
