import FeatureFlags.Config
import FeatureFlags.Proofs.Json.Decoding
import Mathlib.Data.List.Induction
import Mathlib.Data.Nat.Digits.Defs

/-!
# What a configuration is read from

Four of the variables can be at fault: the port, which has to be set, two times in milliseconds and
the overwrites.

* `valueOf`                  the value of decimal digits, by their places;
* `readNatural_eq_ok_iff`    a number is read from its digits, however many there are;
* `Text.trimChars_of_clear`, `Text.exists_trimChars`   text without the blanks around it;
* `Denotes`                  a text is a numeral with blanks around it;
* `Setting`                  what a variable comes to;
* `Checked.Accepted`         a variable is not at fault;
* `Outcome`                  what reading a variable answers;
* `load_by_grammar`          when there is a configuration, what its numbers are, and which variable
                             is named where there is none.
-/

namespace FeatureFlags

/-! ## digits -/

def digitValue (c : Char) : Nat := c.toNat - '0'.toNat

/-- the value of decimal digits, the last of which counts ones -/
def valueOf (ds : List Char) : Nat := Nat.ofDigits 10 (ds.reverse.map digitValue)

theorem valueOf_concat (ds : List Char) (d : Char) :
    valueOf (ds ++ [d]) = 10 * valueOf ds + digitValue d := by
  show Nat.ofDigits 10 ((ds ++ [d]).reverse.map digitValue) = _
  rw [List.reverse_concat, List.map_cons, Nat.ofDigits_cons, Nat.add_comm]
  rfl

/-- the value of digits after others with the value `n` -/
def valueFrom (n : Nat) (ds : List Char) : Nat := ds.foldl (fun n d => 10 * n + digitValue d) n

theorem valueFrom_nil (n : Nat) : valueFrom n [] = n := rfl
theorem valueFrom_cons (n : Nat) (d : Char) (ds : List Char) :
    valueFrom n (d :: ds) = valueFrom (10 * n + digitValue d) ds := by
  unfold valueFrom
  rw [List.foldl_cons]

theorem valueFrom_zero (ds : List Char) : valueFrom 0 ds = valueOf ds := by
  induction ds using List.reverseRecOn with
  | nil => rfl
  | append_singleton ds d ih =>
    rw [valueOf_concat, ← ih]
    exact List.foldl_concat _ _ _ _

theorem le_valueFrom (n : Nat) (ds : List Char) : n ≤ valueFrom n ds := by
  induction ds generalizing n with
  | nil => exact Nat.le_refl n
  | cons d ds ih =>
    have h := ih (10 * n + digitValue d)
    rw [valueFrom_cons]
    omega

theorem digit?_eq (c : Char) :
    Numeral.digit? c = if c.isDigit then some (digitValue c) else none := by
  unfold Numeral.digit? digitValue Char.isDigit
  simp only [Bool.and_eq_true, decide_eq_true_eq]
  rfl

/-- Digits are read if the value of all of them is below the limit: the value of the first ones is
not greater, so none of them is refused. -/
theorem readDigits_eq_ok_iff {limit n m : Nat} (hn : n < limit) (ds : List Char) :
    readDigits limit n ds = .ok m ↔
      (∀ d ∈ ds, d.isDigit = true) ∧ valueFrom n ds = m ∧ m < limit := by
  induction ds generalizing n with
  | nil =>
    rw [readDigits, valueFrom_nil]
    constructor
    · intro h
      cases h
      exact ⟨nofun, rfl, hn⟩
    · rintro ⟨-, rfl, -⟩
      rfl
  | cons d ds ih =>
    rw [readDigits, digit?_eq, valueFrom_cons, List.forall_mem_cons]
    by_cases hd : d.isDigit = true
    · rw [if_pos hd]
      show (if 10 * n + digitValue d < limit then _ else _) = _ ↔ _
      by_cases hl : 10 * n + digitValue d < limit
      · rw [if_pos hl, ih hl, and_iff_right hd]
      · rw [if_neg hl]
        refine iff_of_false nofun ?_
        rintro ⟨-, hv, hm⟩
        have := le_valueFrom (10 * n + digitValue d) ds
        omega
    · rw [if_neg hd]
      exact iff_of_false nofun fun h => hd h.1.1

/-- a plus sign, or nothing -/
def IsSign (cs : List Char) : Prop := cs = [] ∨ cs = ['+']

/-- The plus sign is no digit, so it is read as a sign. -/
theorem readNatural_append {limit : Nat} {sign ds : List Char} (hs : IsSign sign) (hne : ds ≠ [])
    (hd : ∀ d ∈ ds, d.isDigit = true) :
    readNatural limit (sign ++ ds) = readDigits limit 0 ds := by
  obtain ⟨d, tail, rfl⟩ := List.exists_cons_of_ne_nil hne
  rcases hs with rfl | rfl
  · have hplus : d ≠ '+' := by
      rintro rfl
      exact absurd (hd _ List.mem_cons_self) (by decide)
    unfold readNatural
    split
    next heq => cases heq
    next heq => exact absurd (List.cons.inj heq).1 hplus
    next heq => exact absurd (List.cons.inj heq).1 hplus
    next => rfl
  · rfl

theorem exists_of_readNatural {limit n : Nat} {cs : List Char} (h : readNatural limit cs = .ok n) :
    ∃ sign ds, cs = sign ++ ds ∧ IsSign sign ∧ ds ≠ [] ∧ readDigits limit 0 ds = .ok n := by
  unfold readNatural at h
  split at h
  next => cases h
  next => cases h
  next ds hne => exact ⟨['+'], ds, rfl, .inr rfl, fun hnil => hne (hnil ▸ rfl), h⟩
  next hnil _ _ => exact ⟨[], cs, rfl, .inl rfl, hnil, h⟩

/-- **A number below a limit is read from its digits, after a plus sign or not.**  There may be any
number of digits. -/
theorem readNatural_eq_ok_iff {limit n : Nat} (hl : 0 < limit) (cs : List Char) :
    readNatural limit cs = .ok n ↔ n < limit ∧ ∃ sign ds, cs = sign ++ ds ∧ IsSign sign ∧
      ds ≠ [] ∧ (∀ d ∈ ds, d.isDigit = true) ∧ valueOf ds = n := by
  constructor
  · intro h
    obtain ⟨sign, ds, hcs, hs, hne, hr⟩ := exists_of_readNatural h
    rw [readDigits_eq_ok_iff hl, valueFrom_zero] at hr
    obtain ⟨hd, hv, hn⟩ := hr
    exact ⟨hn, sign, ds, hcs, hs, hne, hd, hv⟩
  · rintro ⟨hn, sign, ds, rfl, hs, hne, hd, hv⟩
    rw [readNatural_append hs hne hd, readDigits_eq_ok_iff hl, valueFrom_zero]
    exact ⟨hd, hv, hn⟩

/-! ## blanks around a text -/

namespace Text

/-- Blanks around a text without blanks are dropped, and nothing else is. -/
theorem trimChars_of_clear {before core after : List Char} (hb : ∀ c ∈ before, isBlank c = true)
    (hne : core ≠ []) (hc : ∀ c ∈ core, isBlank c = false) (ha : ∀ c ∈ after, isBlank c = true) :
    trimChars (before ++ core ++ after) = core := by
  have hdrop : ∀ {blanks cs : List Char}, (∀ c ∈ blanks, isBlank c = true) → cs ≠ [] →
      (∀ c ∈ cs.head?, isBlank c = false) → (blanks ++ cs).dropWhile isBlank = cs := by
    intro blanks cs hblanks hcs hhead
    obtain ⟨c, tail, rfl⟩ := List.exists_cons_of_ne_nil hcs
    rw [List.dropWhile_append_of_pos hblanks, List.dropWhile_cons_of_neg]
    exact Bool.eq_false_iff.mp (hhead c rfl)
  have hhead : ∀ c ∈ (core ++ after).head?, isBlank c = false := by
    intro c hm
    rw [List.head?_append_of_ne_nil _ hne] at hm
    exact hc c (List.mem_of_mem_head? hm)
  have hlast : ∀ c ∈ core.reverse.head?, isBlank c = false := fun c hm =>
    hc c (List.mem_reverse.mp (List.mem_of_mem_head? hm))
  unfold trimChars dropBlankEnd
  rw [List.append_assoc, hdrop hb (List.append_ne_nil_of_left_ne_nil hne after) hhead,
    List.reverse_append, hdrop (by simpa using ha) (by simpa using hne) hlast, List.reverse_reverse]

/-- What is dropped is blank. -/
theorem exists_trimChars (cs : List Char) : ∃ before after,
    cs = before ++ trimChars cs ++ after ∧ (∀ c ∈ before, isBlank c = true) ∧
      ∀ c ∈ after, isBlank c = true := by
  have hblank : ∀ ds : List Char, ∀ c ∈ ds.takeWhile isBlank, isBlank c = true := fun ds =>
    List.all_eq_true.mp List.all_takeWhile
  refine ⟨cs.takeWhile isBlank, ((cs.dropWhile isBlank).reverse.takeWhile isBlank).reverse, ?_,
    hblank cs, fun c hc => hblank _ c (List.mem_reverse.mp hc)⟩
  unfold trimChars dropBlankEnd
  rw [List.append_assoc, ← List.reverse_append, List.takeWhile_append_dropWhile,
    List.reverse_reverse, List.takeWhile_append_dropWhile]

end Text

namespace Config

open EnvFile (Environment)

/-! ## numerals -/

/-- A text is a numeral: decimal digits, at least one, after a plus sign or not, with blanks around
them or not. -/
def Denotes (text : String) (n : Nat) : Prop :=
  ∃ before sign digits after, text.toList = before ++ (sign ++ digits) ++ after ∧
    (∀ c ∈ before ++ after, Text.isBlank c = true) ∧ IsSign sign ∧ digits ≠ [] ∧
    (∀ d ∈ digits, d.isDigit = true) ∧ valueOf digits = n

theorem not_blank_of_isDigit {c : Char} (h : c.isDigit = true) : Text.isBlank c = false := by
  have hd : 48 ≤ c.toNat ∧ c.toNat ≤ 57 := by
    unfold Char.isDigit at h
    rw [Bool.and_eq_true, decide_eq_true_eq, decide_eq_true_eq] at h
    exact h
  have hn : Text.isBlank c ≠ true := by
    unfold Text.isBlank
    simp
    omega
  exact Bool.eq_false_iff.mpr hn

theorem not_blank_of_numeral {sign digits : List Char} (hs : IsSign sign)
    (hd : ∀ d ∈ digits, d.isDigit = true) : ∀ c ∈ sign ++ digits, Text.isBlank c = false := by
  intro c hc
  rcases List.mem_append.mp hc with hc | hc
  · rcases hs with rfl | rfl
    · cases hc
    · rw [List.mem_singleton.mp hc]
      rfl
  · exact not_blank_of_isDigit (hd c hc)

/-- **A number is read from the texts that denote it, if it is below the limit.** -/
theorem readNatural_trimChars_iff {limit n : Nat} (hl : 0 < limit) (text : String) :
    readNatural limit (Text.trimChars text.toList) = .ok n ↔ Denotes text n ∧ n < limit := by
  rw [readNatural_eq_ok_iff hl]
  constructor
  · rintro ⟨hn, sign, ds, htrim, hs, hne, hd, hv⟩
    obtain ⟨before, after, htext, hb, ha⟩ := Text.exists_trimChars text.toList
    rw [htrim] at htext
    refine ⟨⟨before, sign, ds, after, htext, fun c hc => ?_, hs, hne, hd, hv⟩, hn⟩
    exact (List.mem_append.mp hc).elim (hb c) (ha c)
  · rintro ⟨⟨before, sign, ds, after, htext, hblank, hs, hne, hd, hv⟩, hn⟩
    refine ⟨hn, sign, ds, ?_, hs, hne, hd, hv⟩
    rw [htext]
    exact Text.trimChars_of_clear (fun c hc => hblank c (List.mem_append_left _ hc))
      (List.append_ne_nil_of_right_ne_nil sign hne) (not_blank_of_numeral hs hd)
      (fun c hc => hblank c (List.mem_append_right _ hc))

/-- A text denotes at most one number. -/
theorem Denotes.unique {text : String} {m n : Nat} (h : Denotes text m) (k : Denotes text n) :
    m = n := by
  have hl : 0 < m + n + 1 := by omega
  have hm := (readNatural_trimChars_iff hl text).mpr ⟨h, by omega⟩
  have hn := (readNatural_trimChars_iff hl text).mpr ⟨k, by omega⟩
  exact Except.ok.inj (hm.symm.trans hn)

section Settings

/-! ## settings -/

variable {α : Type} {env : Environment} {name value : String} {Reads : String → α → Prop}
  {default : Option α}

/-- A variable is blank or absent. -/
def Unset (env : Environment) (name : String) : Prop :=
  ∀ value, env.find? name = some value → Text.isBlankText value = true

/-- A variable has a value that is not blank. -/
def Given (env : Environment) (name value : String) : Prop :=
  env.find? name = some value ∧ Text.isBlankText value = false

/-- What a variable comes to: what its value is read as, or, where it is blank or absent, the
default if there is one. -/
inductive Setting (env : Environment) (name : String) (Reads : String → α → Prop)
    (default : Option α) : α → Prop
  | given {value : String} {a : α} : Given env name value → Reads value a →
      Setting env name Reads default a
  | unset {a : α} : Unset env name → default = some a → Setting env name Reads default a

theorem setting?_eq_some_iff : setting? env name = some value ↔ Given env name value := by
  rw [setting?, Option.filter_eq_some_iff, Bool.not_eq_true']
  rfl

theorem setting?_eq_none_iff : setting? env name = none ↔ Unset env name := by
  rw [setting?, Option.filter_eq_none_iff]
  simp only [Bool.not_eq_true', Bool.not_eq_false]
  rfl

theorem unset_or_given (env : Environment) (name : String) :
    Unset env name ∨ ∃ value, Given env name value := by
  cases hs : setting? env name with
  | none => exact .inl (setting?_eq_none_iff.mp hs)
  | some value => exact .inr ⟨value, setting?_eq_some_iff.mp hs⟩

theorem Given.not_unset (h : Given env name value) : ¬Unset env name := fun hu =>
  Bool.false_ne_true (h.2.symm.trans (hu value h.1))

theorem Given.setting_iff (h : Given env name value) {a : α} :
    Setting env name Reads default a ↔ Reads value a := by
  constructor
  · rintro (⟨hg, ha⟩ | ⟨hu, -⟩)
    · exact Option.some.inj (hg.1.symm.trans h.1) ▸ ha
    · exact absurd hu h.not_unset
  · exact .given h

theorem Unset.setting_iff (h : Unset env name) {a : α} :
    Setting env name Reads default a ↔ default = some a := by
  constructor
  · rintro (⟨hg, -⟩ | ⟨-, hd⟩)
    · exact absurd h hg.not_unset
    · exact hd
  · exact .unset h

theorem Setting.imp {Spells : String → α → Prop} (hr : ∀ value a, Reads value a → Spells value a)
    {a : α} (h : Setting env name Reads default a) : Setting env name Spells default a := by
  cases h with
  | given hg ha => exact .given hg (hr _ a ha)
  | unset hu hd => exact .unset hu hd

/-- Without a default the variable has to be given. -/
theorem exists_setting_iff : (∃ a, Setting env name Reads none a) ↔
    ∃ value a, Given env name value ∧ Reads value a := by
  constructor
  · rintro ⟨a, ⟨hg, ha⟩ | ⟨-, hd⟩⟩
    · exact ⟨_, a, hg, ha⟩
    · cases hd
  · rintro ⟨value, a, hg, ha⟩
    exact ⟨a, .given hg ha⟩

/-- With a default it may be absent. -/
theorem exists_setting_default_iff (d : α) : (∃ a, Setting env name Reads (some d) a) ↔
    ∀ value, Given env name value → ∃ a, Reads value a := by
  constructor
  · rintro ⟨a, h⟩ value hg
    exact ⟨a, hg.setting_iff.mp h⟩
  · intro h
    rcases unset_or_given env name with hu | ⟨value, hg⟩
    · exact ⟨d, .unset hu rfl⟩
    · obtain ⟨a, ha⟩ := h value hg
      exact ⟨a, .given hg ha⟩

/-! ## reading a variable -/

section Mapped

variable {ε ε' : Type} {f : ε → ε'} {r : Except ε α}

theorem mapError_eq_ok_iff {a : α} : r.mapError f = .ok a ↔ r = .ok a := by
  cases r with
  | error e => exact ⟨nofun, nofun⟩
  | ok b => exact ⟨fun h => congrArg _ (Except.ok.inj h), fun h => congrArg _ (Except.ok.inj h)⟩

theorem exists_of_mapError_eq_error {e : ε'} (h : r.mapError f = .error e) :
    ∃ cause, e = f cause := by
  cases r with
  | error cause => exact ⟨cause, (Except.error.inj h).symm⟩
  | ok a => cases h

end Mapped

/-- A value that is given is read, and otherwise the default is taken, if there is one. -/
def readOr (env : Environment) (name : String) (read : String → Except ValueError α)
    (default : Option α) : Except ConfigError α :=
  match setting? env name with
  | some value => (read value).mapError (.invalid name)
  | none =>
    match default with
    | some a => .ok a
    | none => .error (.missing name)

/-- What reading a variable answers: what it comes to, and otherwise an error with its name. -/
structure Outcome (env : Environment) (name : String) (Reads : String → α → Prop)
    (default : Option α) (r : Except ConfigError α) : Prop where
  ok_iff : ∀ a, r = .ok a ↔ Setting env name Reads default a
  of_error : ∀ e, r = .error e →
    (default = none ∧ Unset env name ∧ e = .missing name) ∨
      ¬Unset env name ∧ ∃ reason, e = .invalid name reason

variable {read : String → Except ValueError α}

theorem readOr_of_given (h : Given env name value) :
    readOr env name read default = (read value).mapError (.invalid name) := by
  unfold readOr
  rw [setting?_eq_some_iff.mpr h]

theorem readOr_none (h : Unset env name) :
    readOr env name read none = .error (.missing name) := by
  unfold readOr
  rw [setting?_eq_none_iff.mpr h]

theorem readOr_some (h : Unset env name) (d : α) : readOr env name read (some d) = .ok d := by
  unfold readOr
  rw [setting?_eq_none_iff.mpr h]

theorem outcome_readOr (h : ∀ value a, read value = .ok a ↔ Reads value a) :
    Outcome env name Reads default (readOr env name read default) := by
  rcases unset_or_given env name with hu | ⟨value, hg⟩
  · cases default with
    | none =>
      rw [readOr_none hu]
      refine ⟨fun a => ?_, fun e he => .inl ⟨rfl, hu, (Except.error.inj he).symm⟩⟩
      rw [hu.setting_iff]
      exact iff_of_false nofun nofun
    | some d =>
      rw [readOr_some hu]
      refine ⟨fun a => ?_, nofun⟩
      rw [hu.setting_iff, Except.ok.injEq, Option.some.injEq]
  · rw [readOr_of_given hg]
    refine ⟨fun a => ?_, fun e he => .inr ⟨hg.not_unset, exists_of_mapError_eq_error he⟩⟩
    rw [mapError_eq_ok_iff, h, hg.setting_iff]

/-- the error of what has no value -/
def errorOf {ε : Type} : Except ε α → Option ε
  | .error e => some e
  | .ok _ => none

variable {r : Except ConfigError α}

theorem Outcome.errorOf_eq_none_iff (h : Outcome env name Reads default r) :
    errorOf r = none ↔ ∃ a, Setting env name Reads default a := by
  cases r with
  | error e =>
    refine iff_of_false nofun ?_
    rintro ⟨a, ha⟩
    cases (h.ok_iff a).mpr ha
  | ok a => exact iff_of_true rfl ⟨a, (h.ok_iff a).mp rfl⟩

theorem Outcome.of_errorOf {e : ConfigError} (h : Outcome env name Reads default r)
    (he : errorOf r = some e) :
    (default = none ∧ Unset env name ∧ e = .missing name) ∨
      ¬Unset env name ∧ ∃ reason, e = .invalid name reason := by
  cases r with
  | error e' =>
    cases he
    exact h.of_error _ rfl
  | ok a => cases he

/-- a number below a limit -/
def NumberBelow (limit : Nat) (value : String) (n : Nat) : Prop := Denotes value n ∧ n < limit

theorem outcome_requiredNatural {limit : Nat} (hl : 0 < limit) (env : Environment)
    (name : String) :
    Outcome env name (NumberBelow limit) none (requiredNatural env limit name) :=
  outcome_readOr fun value _ => readNatural_trimChars_iff hl value

theorem outcome_naturalOr {limit : Nat} (hl : 0 < limit) (env : Environment) (name : String)
    (d : Nat) : Outcome env name (NumberBelow limit) (some d) (naturalOr env limit name d) :=
  outcome_readOr fun value _ => readNatural_trimChars_iff hl value

/-- the flags of an object -/
def ObjectText (value : String) (flags : FlagSet) : Prop :=
  decodeText Node.toJson value = .ok (.ofTable flags)

theorem outcome_flagSetOr (env : Environment) (name : String) (d : FlagSet) :
    Outcome env name ObjectText (some d) (flagSetOr env name d) := by
  have hread : flagSetOr env name d =
      readOr env name (fun value => (decodeText FlagSet.decode value).mapError .json) (some d) := by
    unfold flagSetOr readOr
    cases setting? env name with
    | none => rfl
    | some value =>
      show (decodeText FlagSet.decode value).mapError _ =
        ((decodeText FlagSet.decode value).mapError _).mapError _
      cases decodeText FlagSet.decode value <;> rfl
  rw [hread]
  refine outcome_readOr fun value flags => ?_
  rw [mapError_eq_ok_iff]
  exact decodeText_toTable_iff value flags

/-- What is read as an object is the object of a flag set. -/
theorem exists_objectText_iff (value : String) :
    (∃ flags, ObjectText value flags) ↔
      ∃ members, decodeText Node.toJson value = .ok (.obj members) := by
  constructor
  · rintro ⟨flags, h⟩
    exact ⟨flags.entries, h⟩
  · rintro ⟨members, h⟩
    have hsorted : Entries.Sorted members := (Node.yields_toJson.decodeText h).1
    exact ⟨⟨members, hsorted⟩, h⟩

end Settings

/-! ## the variables that can be at fault -/

/-- the variables that can be at fault -/
inductive Checked where
  | port
  | initializationTimeout
  | pollInterval
  | overwrites

namespace Checked

def name : Checked → String
  | port => "PORT"
  | initializationTimeout => "FLAG_INIT_TIMEOUT_MS"
  | pollInterval => "FLAG_POLL_INTERVAL_MS"
  | overwrites => "EXPERIMENT_OVERWRITES"

/-- in the order in which they are read -/
def order : List Checked := [port, initializationTimeout, pollInterval, overwrites]

theorem mem_order (v : Checked) : v ∈ order := by
  cases v <;> simp [order]

/-- A variable is not at fault. -/
def Accepted (env : Environment) : Checked → Prop
  | port => ∃ value n, Given env "PORT" value ∧ Denotes value n ∧ n ≤ 65535
  | initializationTimeout => ∀ value, Given env "FLAG_INIT_TIMEOUT_MS" value →
      ∃ n, Denotes value n ∧ n < Nat.pow 2 64
  | pollInterval => ∀ value, Given env "FLAG_POLL_INTERVAL_MS" value →
      ∃ n, Denotes value n ∧ n < Nat.pow 2 64
  | overwrites => ∀ value, Given env "EXPERIMENT_OVERWRITES" value →
      ∃ members, decodeText Node.toJson value = .ok (.obj members)

/-- the error that reading a variable gives -/
def fault? (env : Environment) : Checked → Option ConfigError
  | port => errorOf (requiredNatural env portLimit "PORT")
  | initializationTimeout =>
    errorOf (naturalOr env millisLimit "FLAG_INIT_TIMEOUT_MS" defaultInitializationTimeout)
  | pollInterval => errorOf (naturalOr env millisLimit "FLAG_POLL_INTERVAL_MS" defaultPollInterval)
  | overwrites => errorOf (flagSetOr env "EXPERIMENT_OVERWRITES" {})

variable {env : Environment}

theorem millisLimit_pos : 0 < millisLimit := Nat.pow_pos Nat.zero_lt_two
theorem portLimit_pos : 0 < portLimit := Nat.pow_pos Nat.zero_lt_two

theorem fault?_eq_none_iff (v : Checked) : v.fault? env = none ↔ v.Accepted env := by
  cases v with
  | port =>
    refine (outcome_requiredNatural portLimit_pos env _).errorOf_eq_none_iff.trans ?_
    rw [exists_setting_iff]
    have hle : ∀ n, n < portLimit ↔ n ≤ 65535 := fun n => Nat.lt_succ_iff
    simp only [NumberBelow, hle]
    rfl
  | initializationTimeout =>
    refine (outcome_naturalOr millisLimit_pos env _ _).errorOf_eq_none_iff.trans ?_
    exact exists_setting_default_iff _
  | pollInterval =>
    refine (outcome_naturalOr millisLimit_pos env _ _).errorOf_eq_none_iff.trans ?_
    exact exists_setting_default_iff _
  | overwrites =>
    refine (outcome_flagSetOr env _ _).errorOf_eq_none_iff.trans ?_
    rw [exists_setting_default_iff]
    simp only [exists_objectText_iff]
    rfl

/-- Only the port can be missing. -/
theorem names_of_fault? {v : Checked} {e : ConfigError} (h : v.fault? env = some e) :
    (v = .port ∧ Unset env "PORT" ∧ e = .missing "PORT") ∨
      ¬Unset env v.name ∧ ∃ reason, e = .invalid v.name reason := by
  cases v with
  | port =>
    refine ((outcome_requiredNatural portLimit_pos env _).of_errorOf h).imp ?_ id
    rintro ⟨-, hu, he⟩
    exact ⟨rfl, hu, he⟩
  | initializationTimeout =>
    exact .inr (((outcome_naturalOr millisLimit_pos env _ _).of_errorOf h).resolve_left nofun)
  | pollInterval =>
    exact .inr (((outcome_naturalOr millisLimit_pos env _ _).of_errorOf h).resolve_left nofun)
  | overwrites => exact .inr (((outcome_flagSetOr env _ _).of_errorOf h).resolve_left nofun)

end Checked

/-! ## the configuration -/

variable {env : Environment}

/-- The error of a configuration is that of the first variable at fault. -/
theorem errorOf_ofEnvironment (env : Environment) :
    errorOf (ofEnvironment env) = Checked.order.findSome? (Checked.fault? env) := by
  unfold ofEnvironment Checked.order
  simp only [List.findSome?_cons, List.findSome?_nil, Checked.fault?]
  cases requiredNatural env portLimit "PORT" with
  | error e => rfl
  | ok port =>
    cases naturalOr env millisLimit "FLAG_INIT_TIMEOUT_MS" defaultInitializationTimeout with
    | error e => rfl
    | ok timeout =>
      cases naturalOr env millisLimit "FLAG_POLL_INTERVAL_MS" defaultPollInterval with
      | error e => rfl
      | ok interval =>
        cases flagSetOr env "EXPERIMENT_OVERWRITES" {} with
        | error e => rfl
        | ok overwrites => rfl

theorem reads_of_ofEnvironment {c : Config} (h : ofEnvironment env = .ok c) :
    requiredNatural env portLimit "PORT" = .ok c.port ∧
      naturalOr env millisLimit "FLAG_INIT_TIMEOUT_MS" defaultInitializationTimeout =
        .ok c.initializationTimeout ∧
      naturalOr env millisLimit "FLAG_POLL_INTERVAL_MS" defaultPollInterval =
        .ok c.pollInterval ∧
      flagSetOr env "EXPERIMENT_OVERWRITES" {} = .ok c.overwrites := by
  unfold ofEnvironment at h
  obtain ⟨port, hport, h⟩ := exists_of_bind_ok h
  obtain ⟨timeout, htimeout, h⟩ := exists_of_bind_ok h
  obtain ⟨interval, hinterval, h⟩ := exists_of_bind_ok h
  obtain ⟨overwrites, hoverwrites, h⟩ := exists_of_bind_ok h
  cases h
  exact ⟨hport, htimeout, hinterval, hoverwrites⟩

/-- What a configuration holds is what its variables come to. -/
theorem settings_of_ofEnvironment {c : Config} (h : ofEnvironment env = .ok c) :
    Setting env "PORT" Denotes none c.port ∧
      Setting env "FLAG_INIT_TIMEOUT_MS" Denotes (some 5000) c.initializationTimeout ∧
      Setting env "FLAG_POLL_INTERVAL_MS" Denotes (some 30000) c.pollInterval ∧
      Setting env "EXPERIMENT_OVERWRITES" ObjectText (some {}) c.overwrites := by
  obtain ⟨hport, htimeout, hinterval, hoverwrites⟩ := reads_of_ofEnvironment h
  have number : ∀ {name : String} {limit n : Nat} {default : Option Nat},
      Setting env name (NumberBelow limit) default n → Setting env name Denotes default n :=
    fun hs => hs.imp fun _ _ => And.left
  exact ⟨number (((outcome_requiredNatural Checked.portLimit_pos env _).ok_iff _).mp hport),
    number (((outcome_naturalOr Checked.millisLimit_pos env _ _).ok_iff _).mp htimeout),
    number (((outcome_naturalOr Checked.millisLimit_pos env _ _).ok_iff _).mp hinterval),
    ((outcome_flagSetOr env _ _).ok_iff _).mp hoverwrites⟩

/-- A configuration is there if no variable is at fault. -/
theorem exists_ofEnvironment_iff :
    (∃ c, ofEnvironment env = .ok c) ↔ ∀ v : Checked, v.Accepted env := by
  have hall : Checked.order.findSome? (Checked.fault? env) = none ↔
      ∀ v : Checked, v.Accepted env := by
    simp only [List.findSome?_eq_none_iff, Checked.fault?_eq_none_iff]
    exact forall_congr' fun v => imp_iff_right (Checked.mem_order v)
  rw [← hall, ← errorOf_ofEnvironment]
  cases ofEnvironment env with
  | error e => exact iff_of_false (fun ⟨_, hc⟩ => nomatch hc) nofun
  | ok c => exact iff_of_true ⟨c, rfl⟩ rfl

/-- An error names the first variable at fault. -/
theorem first_fault_of_ofEnvironment {e : ConfigError} (h : ofEnvironment env = .error e) :
    ∃ before v after, Checked.order = before ++ v :: after ∧ (∀ w ∈ before, w.Accepted env) ∧
      ¬v.Accepted env ∧ v.fault? env = some e := by
  have hfirst : Checked.order.findSome? (Checked.fault? env) = some e := by
    rw [← errorOf_ofEnvironment, h]
    rfl
  obtain ⟨before, v, after, horder, hv, hbefore⟩ := List.findSome?_eq_some_iff.mp hfirst
  refine ⟨before, v, after, horder, fun w hw => (w.fault?_eq_none_iff).mp (hbefore w hw), ?_, hv⟩
  rw [← Checked.fault?_eq_none_iff, hv]
  exact nofun

/-- **Without an environment file there is a configuration exactly if the port is set and no
variable is at fault, its numbers are the values of the numerals, and an error names the first
variable at fault.**  Only the port can be missing. -/
theorem load_by_grammar (env : Environment) :
    ((∃ c, load env none = .ok c) ↔ ∀ v : Checked, v.Accepted env) ∧
      (∀ c, load env none = .ok c →
        Setting env "PORT" Denotes none c.port ∧
        Setting env "FLAG_INIT_TIMEOUT_MS" Denotes (some 5000) c.initializationTimeout ∧
        Setting env "FLAG_POLL_INTERVAL_MS" Denotes (some 30000) c.pollInterval ∧
        Setting env "EXPERIMENT_OVERWRITES" ObjectText (some {}) c.overwrites) ∧
      ∀ e, load env none = .error e → ∃ before v after,
        Checked.order = before ++ v :: after ∧ (∀ w ∈ before, w.Accepted env) ∧
        ¬v.Accepted env ∧
        ((v = .port ∧ Unset env "PORT" ∧ e = .missing "PORT") ∨
          ¬Unset env v.name ∧ ∃ reason, e = .invalid v.name reason) := by
  refine ⟨exists_ofEnvironment_iff, fun c hc => settings_of_ofEnvironment hc, fun e he => ?_⟩
  obtain ⟨before, v, after, horder, hbefore, hv, hfault⟩ := first_fault_of_ofEnvironment he
  exact ⟨before, v, after, horder, hbefore, hv, Checked.names_of_fault? hfault⟩

/-- Blanks, a plus sign and zeros in front. -/
example : (load (Table.insert {} "PORT" " +0080 ") none).toOption.map (·.port) = some 80 := by
  decide +kernel

end Config

end FeatureFlags
