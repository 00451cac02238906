import FeatureFlags.Config
import FeatureFlags.Proofs.Config.EnvFile

/-!
# Blank variables

A variable that is blank counts as not set where the configuration is read, but as set where the
environment file is read: the file does not set it again.

* `ofEnvironment_congr`   the configuration depends on the settings of `variableNames` only;
* `load_congr`            with a file, also on the variables that it refers to, and on no other;
* `ofEnvironment_erase`   without a file, a blank variable may as well be absent;
* `load_of_blank`         with a file, it also hides what the file sets it to;
* `blank_hides_file`      so a port that the file sets is missing.
-/

namespace FeatureFlags.Config

open EnvFile (Environment Refers)

variable {env other : Environment} {name value : String}

theorem setting?_of_blank (h : env.find? name = some value)
    (hblank : Text.isBlankText value = true) : setting? env name = none := by
  rw [setting?, h, Option.filter_some, hblank]
  rfl

theorem setting?_erase (env : Environment) (name : String) :
    setting? (env.erase name) name = none := by
  rw [setting?, Table.find?_erase, if_pos rfl]
  rfl

/-- The configuration depends on the settings that are read only. -/
theorem ofEnvironment_congr (h : ∀ n ∈ variableNames, setting? env n = setting? other n) :
    ofEnvironment env = ofEnvironment other := by
  simp only [variableNames, List.forall_mem_cons] at h
  obtain ⟨hport, hkey, hurl, henvironment, hpath, htimeout, hpoll, hlocale, hoverwrites,
    horigin, -⟩ := h
  simp only [ofEnvironment, requiredNatural, naturalOr, flagSetOr, hport, hkey, hurl, henvironment,
    hpath, htimeout, hpoll, hlocale, hoverwrites, horigin]

/-- **The configuration depends on the variables that count only**, and on what an empty name is
looked up to, which stands for no variable. -/
theorem load_congr (file : Option String)
    (h : ∀ n ∈ "" :: names file, env.find? n = other.find? n) :
    load env file = load other file := by
  have hread : ∀ {env other : Environment}, EnvFile.AgreeOn (· ∈ "" :: names file) env other →
      ofEnvironment env = ofEnvironment other := by
    intro env other hagree
    refine ofEnvironment_congr fun n hn => ?_
    rw [setting?, setting?, hagree n (List.mem_cons_of_mem _ (List.mem_append_left _ hn))]
  cases file with
  | none => exact hread h
  | some text =>
    refine hread (EnvFile.AgreeOn.load List.mem_cons_self (fun n hn => ?_) h)
    exact List.mem_cons_of_mem _ (List.mem_append_right _ hn)

theorem ofEnvironment_of_agreeOff (h : EnvFile.AgreeOff name env other)
    (hname : setting? env name = setting? other name) :
    ofEnvironment env = ofEnvironment other := by
  refine ofEnvironment_congr fun n _ => ?_
  by_cases hn : n = name
  · rw [hn, hname]
  · rw [setting?, setting?, h n hn]

/-- A variable that is blank may as well be absent. -/
theorem ofEnvironment_erase (h : setting? env name = none) :
    ofEnvironment (env.erase name) = ofEnvironment env :=
  (ofEnvironment_of_agreeOff (.erase name env) (h.trans (setting?_erase env name).symm)).symm

theorem ne_empty_of_mem (h : name ∈ variableNames) : name ≠ "" := by
  rintro rfl
  revert h
  decide

/-- **A blank variable is absent, and hides what the file sets it to.**  Without an environment
file, removing a variable that is blank does not change the configuration or the error.  With one
that does not refer to it, or that does not set it while it is empty, the result is that of the
variables without it, less what the file sets it to; so removing it changes nothing unless the file
sets it to a text that is not blank. -/
theorem load_of_blank (hname : name ∈ variableNames) (henv : env.find? name = some value)
    (hblank : Text.isBlankText value = true) :
    load (env.erase name) none = load env none ∧
    ∀ text : String,
      (Refers name text.toList →
        value = "" ∧ (EnvFile.load (env.erase name) text).find? name = none) →
      load env (some text) = ofEnvironment ((EnvFile.load (env.erase name) text).erase name) ∧
      (setting? (EnvFile.load (env.erase name) text) name = none →
        load (env.erase name) (some text) = load env (some text)) := by
  refine ⟨ofEnvironment_erase (setting?_of_blank henv hblank), fun text hr => ?_⟩
  obtain ⟨hkept, hagree⟩ := EnvFile.load_agree (ne_empty_of_mem hname) env text henv hr
  have hnone : setting? (EnvFile.load env text) name = none := setting?_of_blank hkept hblank
  constructor
  · have herased : EnvFile.AgreeOff name (EnvFile.load env text)
        ((EnvFile.load (env.erase name) text).erase name) := hagree.trans (.erase name _)
    exact ofEnvironment_of_agreeOff herased (hnone.trans (setting?_erase _ name).symm)
  · intro hunset
    exact (ofEnvironment_of_agreeOff hagree (hnone.trans hunset.symm)).symm

/-- a blank locale, and a port -/
def blankLocale : Environment := .ofList [("PORT", "9"), ("DEFAULT_LOCALE", " ")]

/-- a file that sets the locale to nothing, and a key -/
def keyFile : String := "DEFAULT_LOCALE=\nFLAG_BACKEND_KEY=a$PORT\n"

/-- The blank locale may as well be absent when this file is read. -/
theorem load_of_blankLocale :
    load (blankLocale.erase "DEFAULT_LOCALE") (some keyFile) = load blankLocale (some keyFile) := by
  have hlocale : blankLocale.find? "DEFAULT_LOCALE" = some " " := by decide +kernel
  have hrefers : ¬ Refers "DEFAULT_LOCALE" keyFile.toList := by
    rw [EnvFile.refers_iff]
    decide +kernel
  obtain ⟨-, hfile⟩ := load_of_blank (by decide +kernel) hlocale (by decide +kernel)
  exact (hfile keyFile fun hr => absurd hr hrefers).2 (by decide +kernel)

/-- a port that is empty -/
def emptyPort : Environment := .ofList [("PORT", "")]

/-- A port that is empty is missing although the file sets it; once it is removed, the file does. -/
theorem blank_hides_file :
    ("PORT" ∈ variableNames ∧ emptyPort.find? "PORT" = some "" ∧ Text.isBlankText "" = true) ∧
    load emptyPort (some "PORT=4000\n") = .error (.missing "PORT") ∧
    (load (emptyPort.erase "PORT") (some "PORT=4000\n")).toOption.map port = some 4000 ∧
    load (emptyPort.erase "PORT") (some "PORT=4000\n") ≠ load emptyPort (some "PORT=4000\n") := by
  have hnone : setting? (EnvFile.load emptyPort "PORT=4000\n") "PORT" = none := by decide +kernel
  have hmissing : load emptyPort (some "PORT=4000\n") = .error (.missing "PORT") := by
    rw [load, ofEnvironment, requiredNatural, hnone]
    rfl
  have hset : (load (emptyPort.erase "PORT") (some "PORT=4000\n")).toOption.map port = some 4000 :=
    by decide +kernel
  refine ⟨by decide +kernel, hmissing, hset, fun heq => ?_⟩
  rw [heq, hmissing] at hset
  cases hset

end FeatureFlags.Config
