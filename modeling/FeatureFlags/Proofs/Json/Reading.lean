import FeatureFlags.Json.Node
import FeatureFlags.Proofs.Json.Numerals

/-!
# Reading what was printed

* `Json.tree`        the tree of a document as it is read from the text: names, strings and
                     structure as they are, numbers as their numerals are read;
* `Node.scanString_quoted`   a string is read back;
* `Node.readValue_chars`     so is a document, wherever it stands;
* `Node.read_print`          and as a whole text.
-/

namespace FeatureFlags

namespace Json

/-- the number that the text of a number is read as -/
def reread? (n : Number) : Option Number :=
  (Numeral.scan (numberChars n)).bind (fun r => r.1.number?)

mutual

/-- the tree that the text of a document is read as -/
def tree : Json → Node
  | .null => .null
  | .bool b => .bool b
  | .num n => .number (reread? n)
  | .str s => .string (some s)
  | .arr items => .array (treeItems items) true
  | .obj members => .object (treeMembers members) true

def treeItems : List Json → List Node
  | [] => []
  | a :: as => tree a :: treeItems as

def treeMembers : List (Entry Json) → List (Option String × Node)
  | [] => []
  | (name, a) :: as => (some name, tree a) :: treeMembers as

end

end Json

namespace Node

open Json

/-! ## strings -/

theorem hexQuad?_hexPair : ∀ n < 0x20,
    hexQuad? '0' '0' (Nat.digitChar (n / 16)) (Nat.digitChar (n % 16)) = some n := by
  decide +kernel

/-- A unit is read before others. -/
def more (u : Unit16) (r : List Unit16 × List Char) : List Unit16 × List Char := (u :: r.1, r.2)

theorem scanUnits_short {e c : Char} (he : e ≠ 'u') (h : shortEscape? e = some c)
    (cs : List Char) : scanUnits ('\\' :: e :: cs) = (scanUnits cs).map (more (.char c)) := by
  rw [scanUnits, h]
  · cases scanUnits cs <;> rfl
  · rintro _ _ _ _ _ rfl
    exact absurd rfl he

theorem scanUnits_code {a b c d : Char} {n : Nat} (h : hexQuad? a b c d = some n)
    (cs : List Char) :
    scanUnits ('\\' :: 'u' :: a :: b :: c :: d :: cs) = (scanUnits cs).map (more (.code n)) := by
  rw [scanUnits, h]
  cases scanUnits cs <;> rfl

theorem scanUnits_plain {c : Char} (hq : c ≠ '"') (hb : c ≠ '\\') (hc : 0x20 ≤ c.toNat)
    (cs : List Char) : scanUnits (c :: cs) = (scanUnits cs).map (more (.char c)) := by
  rw [scanUnits, if_neg (not_or.mpr ⟨Nat.not_lt.mpr hc, hb⟩)]
  · cases scanUnits cs <;> rfl
  · exact hq
  · exact fun _ _ _ _ _ hc => absurd hc hb
  · exact fun _ _ hc => absurd hc hb

/-- A number that is no half of a pair stands for its character. -/
theorem joinUnits_code {m : Nat} (hl : isLead m = false) (ht : isTrail m = false)
    (us : List Unit16) : joinUnits (.code m :: us) = (joinUnits us).map (Char.ofNat m :: ·) := by
  rcases us with _ | ⟨_ | _, us⟩ <;>
    simp only [joinUnits, hl, ht, Bool.false_eq_true, if_false]

theorem escapeChar_control : ∀ n < 0x20,
    ['b', 't', 'n', 'f', 'r'].any (fun e => shortEscape? e == some (Char.ofNat n) &&
      escapeChar (Char.ofNat n) == ['\\', e]) = true ∨
    escapeChar (Char.ofNat n) = '\\' :: 'u' :: '0' :: '0' :: hexPair n := by decide +kernel

/-- A character is read as one unit, which stands for it. -/
theorem exists_unit (c : Char) : ∃ u,
    (∀ cs, scanUnits (escapeChar c ++ cs) = (scanUnits cs).map (more u)) ∧
      ∀ us, joinUnits (u :: us) = (joinUnits us).map (c :: ·) := by
  have short : ∀ e, e ≠ 'u' → shortEscape? e = some c → escapeChar c = ['\\', e] → ∃ u,
      (∀ cs, scanUnits (escapeChar c ++ cs) = (scanUnits cs).map (more u)) ∧
        ∀ us, joinUnits (u :: us) = (joinUnits us).map (c :: ·) := by
    intro e he h hc
    exact ⟨.char c, fun cs => hc ▸ scanUnits_short he h cs, fun _ => rfl⟩
  by_cases hq : c = '"'
  · subst hq
    exact short '"' (by decide) rfl rfl
  by_cases hb : c = '\\'
  · subst hb
    exact short '\\' (by decide) rfl rfl
  by_cases hp : 0x20 ≤ c.toNat
  · refine ⟨.char c, fun cs => ?_, fun _ => rfl⟩
    rw [escapeChar, if_neg hq, if_neg hb, if_pos hp]
    exact scanUnits_plain hq hb hp cs
  · have hlt : c.toNat < 0x20 := Nat.not_le.mp hp
    have hc := escapeChar_control c.toNat hlt
    rw [Char.ofNat_toNat] at hc
    rcases hc with hc | hc
    · obtain ⟨e, he, h⟩ := List.any_eq_true.mp hc
      obtain ⟨h, hc⟩ := Bool.and_eq_true_iff.mp h
      rw [beq_iff_eq] at h hc
      exact short e (fun heq => by subst heq; exact absurd he (by decide)) h hc
    · refine ⟨.code c.toNat, fun cs => ?_, fun us => ?_⟩
      · rw [hc]
        exact scanUnits_code (hexQuad?_hexPair c.toNat hlt) cs
      · have hl : isLead c.toNat = false := by
          rw [isLead, decide_eq_false (by omega), Bool.false_and]
        have ht : isTrail c.toNat = false := by
          rw [isTrail, decide_eq_false (by omega), Bool.false_and]
        rw [joinUnits_code hl ht, Char.ofNat_toNat]

theorem exists_units (cs rest : List Char) :
    ∃ us, scanUnits (escapeChars cs ++ '"' :: rest) = some (us, rest) ∧ joinUnits us = some cs := by
  induction cs with
  | nil => exact ⟨[], rfl, rfl⟩
  | cons c cs ih =>
    obtain ⟨u, hu, hj⟩ := exists_unit c
    obtain ⟨us, hus, hjs⟩ := ih
    refine ⟨u :: us, ?_, ?_⟩
    · rw [escapeChars_cons, List.append_assoc, hu, hus]
      rfl
    · rw [hj, hjs]
      rfl

/-- A quoted string is read back. -/
theorem scanString_escapeChars (s : String) (rest : List Char) :
    scanString (escapeChars s.toList ++ '"' :: rest) = some (some s, rest) := by
  obtain ⟨us, hus, hj⟩ := exists_units s.toList rest
  rw [scanString, hus, Option.map_some, hj, Option.map_some, String.ofList_toList]

/-! ## what follows a value -/

/-- What stands after a value in a printed text. -/
def Closes (cs : List Char) : Prop := ∀ c ∈ cs.head?, c = ',' ∨ c = ']' ∨ c = '\x7d'

theorem closes_nil : Closes [] := nofun

theorem Closes.ends {cs : List Char} (h : Closes cs) : Numeral.Ends cs := fun c hc => by
  rcases h c hc with rfl | rfl | rfl <;> decide

theorem skipBlanks_cons {c : Char} (h : isJsonBlank c = false) (cs : List Char) :
    skipBlanks (c :: cs) = c :: cs := by
  rw [skipBlanks, List.dropWhile_cons, if_neg (ne_true_of_eq_false h)]

/-! ## numbers -/

theorem number_head (n : Number) : ∃ c cs, numberChars n = c :: cs ∧
    (c = '-' ∨ (Numeral.digit? c).isSome = true) := by
  obtain ⟨m, hm⟩ := exists_reads_numberChars n
  have hs := hm [] Numeral.ends_nil
  rw [List.append_nil] at hs
  exact Numeral.head_of_scan hs

theorem scanNumber_numberChars (n : Number) {rest : List Char} (h : Closes rest) :
    scanNumber (numberChars n ++ rest) = (number (reread? n), some rest) := by
  obtain ⟨m, hm⟩ := exists_reads_numberChars n
  have hs := hm [] Numeral.ends_nil
  rw [List.append_nil] at hs
  rw [scanNumber, hm rest h.ends, reread?, hs]
  rfl

theorem ne_of_number {c d : Char} (h : c = '-' ∨ (Numeral.digit? c).isSome = true)
    (hd : d ≠ '-' ∧ Numeral.digit? d = none) : c ≠ d := by
  rintro rfl
  rcases h with h | h
  · exact hd.1 h
  · rw [hd.2] at h
    cases h

theorem not_blank_of_number {c : Char} (h : c = '-' ∨ (Numeral.digit? c).isSome = true) :
    isJsonBlank c = false := by
  rw [isJsonBlank, decide_eq_false (ne_of_number h (by decide)),
    decide_eq_false (ne_of_number h (by decide)), decide_eq_false (ne_of_number h (by decide)),
    decide_eq_false (ne_of_number h (by decide))]
  rfl

theorem readValue_number {c : Char} (h : c = '-' ∨ (Numeral.digit? c).isSome = true)
    (fuel : Nat) (cs : List Char) : readValue (fuel + 1) (c :: cs) = scanNumber (c :: cs) := by
  rw [readValue, skipBlanks_cons (not_blank_of_number h)]
  split
  next heq => cases heq
  iterate 6 next heq => exact absurd (List.cons.inj heq).1 (ne_of_number h (by decide))
  next heq =>
    obtain ⟨rfl, rfl⟩ := List.cons.inj heq
    exact if_pos h

/-! ## arrays and objects -/

/-- A text that begins with a character that stands at the beginning of a value. -/
def Opens (cs : List Char) : Prop :=
  ∃ c tail, cs = c :: tail ∧ isJsonBlank c = false ∧ c ≠ ']' ∧ c ≠ '\x7d'

theorem Opens.skipBlanks_eq {cs : List Char} (h : Opens cs) : skipBlanks cs = cs := by
  obtain ⟨c, tail, rfl, hb, -⟩ := h
  exact skipBlanks_cons hb tail

theorem Opens.append {cs : List Char} (h : Opens cs) (rest : List Char) : Opens (cs ++ rest) := by
  obtain ⟨c, tail, rfl, hc⟩ := h
  exact ⟨c, tail ++ rest, rfl, hc⟩

theorem opens_quotedChars (s : String) : Opens (quotedChars s) :=
  ⟨_, _, rfl, rfl, by decide, by decide⟩

theorem opens_chars (a : Json) : Opens (chars a) := by
  cases a with
  | null => exact ⟨_, _, rfl, rfl, by decide, by decide⟩
  | bool b => cases b <;> exact ⟨_, _, rfl, rfl, by decide, by decide⟩
  | num n =>
    obtain ⟨c, cs, hc, h⟩ := number_head n
    exact ⟨c, cs, hc, not_blank_of_number h, ne_of_number h (by decide),
      ne_of_number h (by decide)⟩
  | str s => exact opens_quotedChars s
  | arr items => exact ⟨_, _, rfl, rfl, by decide, by decide⟩
  | obj members => exact ⟨_, _, rfl, rfl, by decide, by decide⟩

theorem readValue_array {cs : List Char} (h : Opens cs) (fuel : Nat) :
    readValue (fuel + 1) ('[' :: cs) =
      (array (readItems fuel cs).1 (readItems fuel cs).2.isSome, (readItems fuel cs).2) := by
  rw [readValue, skipBlanks_cons rfl]
  simp only [h.skipBlanks_eq]
  obtain ⟨c, tail, rfl, -, hn, -⟩ := h
  split
  next heq => exact absurd (List.cons.inj heq).1 hn
  next => rfl

theorem readValue_object {cs : List Char} (h : Opens cs) (fuel : Nat) :
    readValue (fuel + 1) ('\x7b' :: cs) =
      (object (readMembers fuel cs).1 (readMembers fuel cs).2.isSome, (readMembers fuel cs).2) := by
  rw [readValue, skipBlanks_cons rfl]
  simp only [h.skipBlanks_eq]
  obtain ⟨c, tail, rfl, -, -, hn⟩ := h
  split
  next heq => exact absurd (List.cons.inj heq).1 hn
  next => rfl

theorem readItems_last {fuel : Nat} {cs rest : List Char} {item : Node}
    (h : readValue fuel cs = (item, some (']' :: rest))) :
    readItems (fuel + 1) cs = ([item], some rest) := by
  rw [readItems, h]
  rfl

theorem readItems_more {fuel : Nat} {cs rest : List Char} {item : Node} (hr : Opens rest)
    (h : readValue fuel cs = (item, some (',' :: rest))) :
    readItems (fuel + 1) cs = (item :: (readItems fuel rest).1, (readItems fuel rest).2) := by
  rw [readItems, h]
  simp only [skipBlanks_cons (c := ',') rfl, hr.skipBlanks_eq]
  obtain ⟨c, tail, rfl, -, hn, -⟩ := hr
  split
  next heq => exact absurd (List.cons.inj heq).1 hn
  next heq => cases heq
  next => rfl

theorem readMembers_last {fuel : Nat} {cs between rest : List Char} {name : Option String}
    {value : Node} (hs : scanString cs = some (name, ':' :: between))
    (h : readValue fuel between = (value, some ('\x7d' :: rest))) :
    readMembers (fuel + 1) ('"' :: cs) = ([(name, value)], some rest) := by
  rw [readMembers, hs]
  simp only [skipBlanks_cons (c := ':') rfl, h]
  rfl

theorem readMembers_more {fuel : Nat} {cs between rest : List Char} {name : Option String}
    {value : Node} (hr : Opens rest) (hs : scanString cs = some (name, ':' :: between))
    (h : readValue fuel between = (value, some (',' :: rest))) :
    readMembers (fuel + 1) ('"' :: cs) =
      ((name, value) :: (readMembers fuel rest).1, (readMembers fuel rest).2) := by
  rw [readMembers, hs]
  simp only [skipBlanks_cons (c := ':') rfl, h]
  show ((name, value) :: (readMembers fuel (skipBlanks rest)).1, _) = _
  rw [hr.skipBlanks_eq]

/-! ## documents -/

theorem closes_cons {c : Char} (h : c = ',' ∨ c = ']' ∨ c = '\x7d') (cs : List Char) :
    Closes (c :: cs) := fun _ hd => Option.some.inj hd ▸ h

theorem scanString_quoted (name : String) (rest : List Char) :
    ∃ tail, quotedChars name ++ rest = '"' :: tail ∧ scanString tail = some (some name, rest) :=
  ⟨escapeChars name.toList ++ '"' :: rest, by
    rw [quotedChars, List.cons_append, List.append_assoc, List.singleton_append],
    scanString_escapeChars name rest⟩

theorem length_chars_pos (a : Json) : 0 < (chars a).length := by
  obtain ⟨c, tail, hc, -⟩ := opens_chars a
  rw [hc]
  exact Nat.succ_pos _

theorem length_arr (items : List Json) :
    (chars (.arr items)).length = (itemsChars items).length + 2 := by
  show ('[' :: (itemsChars items ++ [']'])).length = _
  rw [List.length_cons, List.length_append]
  rfl

theorem length_obj (members : List (Entry Json)) :
    (chars (.obj members)).length = (membersChars members).length + 2 := by
  show ('\x7b' :: (membersChars members ++ ['\x7d'])).length = _
  rw [List.length_cons, List.length_append]
  rfl

theorem itemsChars_single (a : Json) : itemsChars [a] = chars a := List.append_nil _

theorem itemsChars_more (a b : Json) (as : List Json) :
    itemsChars (a :: b :: as) = chars a ++ ',' :: itemsChars (b :: as) := rfl

theorem membersChars_single (name : String) (a : Json) :
    membersChars [(name, a)] = quotedChars name ++ ':' :: chars a := by
  show quotedChars name ++ ':' :: (chars a ++ []) = _
  rw [List.append_nil]

theorem membersChars_more (name : String) (a : Json) (b : Entry Json) (as : List (Entry Json)) :
    membersChars ((name, a) :: b :: as) =
      quotedChars name ++ ':' :: (chars a ++ ',' :: membersChars (b :: as)) := rfl

mutual

/-- **A document is read back, wherever it stands.** -/
theorem readValue_chars : ∀ (a : Json) (fuel : Nat) (rest : List Char),
    2 * (chars a).length ≤ fuel → Closes rest →
      readValue fuel (chars a ++ rest) = (tree a, some rest)
  | a, 0, rest, hf, _ => by
    have := length_chars_pos a
    omega
  | .null, fuel + 1, rest, _, _ => rfl
  | .bool true, fuel + 1, rest, _, _ => rfl
  | .bool false, fuel + 1, rest, _, _ => rfl
  | .num n, fuel + 1, rest, _, hr => by
    obtain ⟨c, cs, hc, h⟩ := number_head n
    show readValue (fuel + 1) (numberChars n ++ rest) = (number (reread? n), some rest)
    rw [← scanNumber_numberChars n hr, hc, List.cons_append, readValue_number h]
  | .str s, fuel + 1, rest, _, _ => by
    obtain ⟨tail, ht, hs⟩ := scanString_quoted s rest
    show readValue (fuel + 1) (quotedChars s ++ rest) = (string (some s), some rest)
    rw [ht, readValue, skipBlanks_cons rfl]
    show (match scanString tail with | some (s, rest) => _ | none => _) = _
    rw [hs]
  | .arr [], fuel + 1, rest, _, _ => rfl
  | .arr (a :: as), fuel + 1, rest, hf, _ => by
    rw [length_arr] at hf
    have hi := readItems_itemsChars (a :: as) fuel rest (List.cons_ne_nil _ _) (by omega)
    have ho : Opens (itemsChars (a :: as) ++ ']' :: rest) :=
      ((opens_chars a).append (furtherItemsChars as)).append _
    show readValue (fuel + 1) ('[' :: ((itemsChars (a :: as) ++ [']']) ++ rest)) = _
    rw [List.append_assoc, List.singleton_append, readValue_array ho, hi]
    rfl
  | .obj [], fuel + 1, rest, _, _ => rfl
  | .obj ((name, a) :: as), fuel + 1, rest, hf, _ => by
    rw [length_obj] at hf
    have hm := readMembers_membersChars ((name, a) :: as) fuel rest (List.cons_ne_nil _ _)
      (by omega)
    have ho : Opens (membersChars ((name, a) :: as) ++ '\x7d' :: rest) :=
      ((opens_quotedChars name).append (':' :: (chars a ++ furtherMembersChars as))).append _
    show readValue (fuel + 1) ('\x7b' :: ((membersChars ((name, a) :: as) ++ ['\x7d']) ++ rest)) = _
    rw [List.append_assoc, List.singleton_append, readValue_object ho, hm]
    rfl

theorem readItems_itemsChars : ∀ (as : List Json) (fuel : Nat) (rest : List Char), as ≠ [] →
    2 * (itemsChars as).length + 1 ≤ fuel →
      readItems fuel (itemsChars as ++ ']' :: rest) = (treeItems as, some rest)
  | [], _, _, hn, _ => absurd rfl hn
  | _ :: _, 0, _, _, hf => absurd hf (Nat.not_succ_le_zero _)
  | [a], fuel + 1, rest, _, hf => by
    rw [itemsChars_single] at hf ⊢
    exact readItems_last (readValue_chars a fuel _ (by omega) (closes_cons (.inr (.inl rfl)) rest))
  | a :: b :: as, fuel + 1, rest, _, hf => by
    rw [itemsChars_more, List.length_append, List.length_cons] at hf
    have ho : Opens (itemsChars (b :: as) ++ ']' :: rest) :=
      ((opens_chars b).append (furtherItemsChars as)).append _
    have hi := readItems_itemsChars (b :: as) fuel rest (List.cons_ne_nil _ _) (by omega)
    rw [itemsChars_more, List.append_assoc, List.cons_append,
      readItems_more ho (readValue_chars a fuel _ (by omega) (closes_cons (.inl rfl) _)), hi]
    rfl

theorem readMembers_membersChars : ∀ (as : List (Entry Json)) (fuel : Nat) (rest : List Char),
    as ≠ [] → 2 * (membersChars as).length + 1 ≤ fuel →
      readMembers fuel (membersChars as ++ '\x7d' :: rest) = (treeMembers as, some rest)
  | [], _, _, hn, _ => absurd rfl hn
  | _ :: _, 0, _, _, hf => absurd hf (Nat.not_succ_le_zero _)
  | [(name, a)], fuel + 1, rest, _, hf => by
    rw [membersChars_single, List.length_append, List.length_cons] at hf
    obtain ⟨tail, ht, hs⟩ := scanString_quoted name (':' :: (chars a ++ '\x7d' :: rest))
    rw [membersChars_single, List.append_assoc, List.cons_append, ht]
    exact readMembers_last hs
      (readValue_chars a fuel _ (by omega) (closes_cons (.inr (.inr rfl)) rest))
  | (name, a) :: (other, b) :: as, fuel + 1, rest, _, hf => by
    rw [membersChars_more, List.length_append, List.length_cons, List.length_append,
      List.length_cons] at hf
    have ho : Opens (membersChars ((other, b) :: as) ++ '\x7d' :: rest) :=
      ((opens_quotedChars other).append (':' :: (chars b ++ furtherMembersChars as))).append _
    have hm := readMembers_membersChars ((other, b) :: as) fuel rest (List.cons_ne_nil _ _)
      (by omega)
    obtain ⟨tail, ht, hs⟩ := scanString_quoted name
      (':' :: (chars a ++ ',' :: (membersChars ((other, b) :: as) ++ '\x7d' :: rest)))
    rw [membersChars_more, List.append_assoc, List.cons_append, List.append_assoc,
      List.cons_append, ht,
      readMembers_more ho hs (readValue_chars a fuel _ (by omega) (closes_cons (.inl rfl) _)), hm]
    rfl

end

/-- **The text of a document is read back, and nothing follows it.** -/
theorem read_print (a : Json) : Node.read a.print = (tree a, true) := by
  have hr := readValue_chars a (2 * (chars a).length + 2) [] (by omega) closes_nil
  rw [List.append_nil] at hr
  rw [Node.read, Json.print, String.toList_ofList, hr]
  rfl

end Node

end FeatureFlags
