import FeatureFlags.Config.EnvFile

/-!
# Environment files in two environments

What a variable was set to before a file is read matters in two ways: the file does not set the
variable again, and puts the value wherever it refers to the variable.  A file that does not refer
to it sets the other variables alike, whether it was set or not.

* `AgreeOn`        two environments in which the same is found under names with a property;
* `Refers`         a dollar sign stands before the name, with a brace between them or not;
* `Alike`          names that are looked up alike in two environments;
* `ValueState.pending`   the names that are looked up while the rest of a value is read: each step
                         leaves fewer of them;
* `parseLine_congr`      a line whose names are looked up alike assigns alike;
* `infix_of_mem_assemble`   no line refers to what the file does not refer to;
* `AgreeOn.load`   a file sets alike what it refers to, and what is alike already;
* `load_agree`     the file in an environment with a variable and in the one without it.
-/

namespace FeatureFlags.EnvFile

/-! ## environments that agree on some names -/

/-- the same is found in both, under names with a property -/
def AgreeOn (P : String → Prop) (env other : Environment) : Prop :=
  ∀ n, P n → env.find? n = other.find? n

/-- the same is found in both, except under one name -/
def AgreeOff (name : String) (env other : Environment) : Prop := AgreeOn (· ≠ name) env other

theorem find?_setIfAbsent (env : Environment) (n value m : String) :
    (setIfAbsent env n value).find? m =
      if n = m then some ((env.find? n).getD value) else env.find? m := by
  rw [setIfAbsent, Table.contains]
  cases hn : env.find? n with
  | none => exact Table.find?_insert env n m value
  | some w =>
    show env.find? m = if n = m then some w else env.find? m
    split
    next h => exact h ▸ hn
    next => rfl

variable {name : String} {env other : Environment}

theorem AgreeOn.setIfAbsent {P : String → Prop} (h : AgreeOn P env other) (n value : String) :
    AgreeOn P (setIfAbsent env n value) (setIfAbsent other n value) := by
  intro m hm
  rw [find?_setIfAbsent, find?_setIfAbsent]
  split
  next hn => rw [h n (hn ▸ hm)]
  next => exact h m hm

theorem AgreeOff.erase (name : String) (env : Environment) :
    AgreeOff name env (env.erase name) := by
  intro n hn
  rw [Table.find?_erase, if_neg (Ne.symm hn)]

theorem AgreeOff.trans {another : Environment} (h : AgreeOff name env other)
    (k : AgreeOff name other another) : AgreeOff name env another :=
  fun n hn => (h n hn).trans (k n hn)

theorem find?_setIfAbsent_of_some {m w : String} (h : env.find? m = some w) (n value : String) :
    (setIfAbsent env n value).find? m = some w := by
  rw [find?_setIfAbsent]
  split
  next hn => rw [hn, h, Option.getD_some]
  next => exact h

/-- What is set stays as it is. -/
theorem find?_loadLines_of_some {m w : String} (env : Environment)
    (lines : List (Option (List Char))) (h : env.find? m = some w) :
    (loadLines env lines).find? m = some w := by
  induction env, lines using loadLines.induct with
  | case1 env => exact h
  | case2 env rest => exact h
  | case3 env line rest hline ih => rw [loadLines, hline]; exact ih h
  | case4 env line rest hline => rw [loadLines, hline]; exact h
  | case5 env line rest n value hline ih =>
    rw [loadLines, hline]
    exact ih (find?_setIfAbsent_of_some h n value)

/-! ## references -/

/-- what a reference begins with -/
def Reference.mark : Reference → List Char
  | .bare => ['$']
  | .braced => ['$', '\x7b']

/-- The name stands behind the mark of a reference. -/
def Refers (name : String) (cs : List Char) : Prop :=
  ∃ r : Reference, r.mark ++ name.toList <:+: cs

theorem refers_iff (name : String) (cs : List Char) : Refers name cs ↔
    Reference.bare.mark ++ name.toList <:+: cs ∨ Reference.braced.mark ++ name.toList <:+: cs := by
  constructor
  · rintro ⟨r | r, h⟩
    · exact .inl h
    · exact .inr h
  · rintro (h | h)
    all_goals exact ⟨_, h⟩

theorem Refers.mono {cs ds : List Char} (h : Refers name cs) (hcs : cs <:+: ds) :
    Refers name ds := by
  obtain ⟨r, hr⟩ := h
  exact ⟨r, hr.trans hcs⟩

/-- A text refers to the names that stand behind its dollar signs. -/
theorem refers_of_mem_namesIn {cs : List Char} (h : name.toList ∈ namesIn cs) : Refers name cs := by
  induction cs with
  | nil => cases h
  | cons c cs ih =>
    rw [namesIn] at h
    split at h
    next hc =>
      subst hc
      rcases List.mem_cons.mp h with h | h
      · rw [Refers, h, nameBehind.eq_def]
        split
        next ds => exact ⟨.braced, (List.prefix_append_right_inj ['$', '\x7b']).mpr
            (List.takeWhile_prefix _) |>.isInfix⟩
        next => exact ⟨.bare, (List.prefix_append_right_inj ['$']).mpr
            (List.takeWhile_prefix _) |>.isInfix⟩
      · exact (ih h).mono (List.suffix_cons _ _).isInfix
    next => exact (ih h).mono (List.suffix_cons _ _).isInfix

/-- The names are looked up alike in two environments. -/
def Alike (env other : Environment) (names : List (List Char)) : Prop :=
  ∀ n ∈ names, lookUp env n = lookUp other n

theorem Alike.mono {names more : List (List Char)} (h : Alike env other more)
    (hn : names ⊆ more) : Alike env other names := fun n hm => h n (hn hm)

/-! ## values -/

theorem namesIn_subset (c : Char) (cs : List Char) : namesIn cs ⊆ namesIn (c :: cs) := by
  rw [namesIn]
  split
  · exact List.subset_cons_self _ _
  · exact List.Subset.refl _

namespace ValueState

variable {s s' : ValueState} {c : Char}

/-- the names that are looked up while the rest of a value is read -/
def pending (s : ValueState) (cs : List Char) : List (List Char) :=
  match s.reference with
  | none => namesIn cs
  | some .bare =>
    (if s.name = [] then nameBehind cs else s.name ++ cs.takeWhile Text.isWordChar) :: namesIn cs
  | some .braced => (s.name ++ cs.takeWhile (· ≠ '\x7d')) :: namesIn cs

/-- What is known after a part of a value: a name is only read inside of a reference, and there
nothing is escaped, quoted once or at its end. -/
structure Orderly (s : ValueState) : Prop where
  name_nil : s.reference = none → s.name = []
  unescaped : s.reference ≠ none → s.escaped = false ∧ s.single = false ∧ s.ended = false

theorem Orderly.of_none (h : s.reference = none) (hname : s.name = []) : Orderly s :=
  ⟨fun _ => hname, fun hr => absurd h hr⟩

theorem Orderly.of_open (h : s.reference ≠ none)
    (hopen : s.escaped = false ∧ s.single = false ∧ s.ended = false) : Orderly s :=
  ⟨fun hr => absurd hr h, fun _ => hopen⟩

theorem pending_of_none (h : s.reference = none) (cs : List Char) : s.pending cs = namesIn cs := by
  rw [pending, h]

theorem pending_of_braced (h : s.reference = some .braced) (cs : List Char) :
    s.pending cs = (s.name ++ cs.takeWhile (· ≠ '\x7d')) :: namesIn cs := by
  rw [pending, h]

/-- Unless a brace opens, a bare name goes on with letters and digits. -/
theorem pending_of_bare (h : s.reference = some .bare) {cs : List Char}
    (hb : s.name = [] → cs.head? ≠ some '\x7b') :
    s.pending cs = (s.name ++ cs.takeWhile Text.isWordChar) :: namesIn cs := by
  rw [pending, h]
  show (if _ then _ else _) :: _ = _
  split
  next hn =>
    have hcs : nameBehind cs = cs.takeWhile Text.isWordChar := by
      rw [nameBehind.eq_def]
      split
      next => exact absurd rfl (hb hn)
      next => rfl
    rw [hcs, hn, List.nil_append]
  next => rfl

/-- Once a reference is over, only names further on are looked up. -/
theorem pending_of_over (h : s'.reference = none) (c : Char) (n cs : List Char) :
    s'.pending cs ⊆ n :: namesIn (c :: cs) := by
  rw [pending_of_none h]
  exact List.subset_cons_of_subset _ (namesIn_subset c cs)

/-- In braces a name goes on up to the closing one. -/
theorem pending_longer_of_braced (h : s.reference = some .braced) (hc : c ≠ '\x7d')
    (cs : List Char) :
    ({ s with name := s.name ++ [c] } : ValueState).pending cs ⊆ s.pending (c :: cs) := by
  have hread : ({ s with name := s.name ++ [c] } : ValueState).pending cs =
      (s.name ++ [c] ++ cs.takeWhile (· ≠ '\x7d')) :: namesIn cs := by
    rw [pending, h]
  rw [hread, pending_of_braced h, List.takeWhile_cons_of_pos (by simpa using hc),
    ← List.append_cons]
  exact List.cons_subset_cons _ (namesIn_subset c cs)

theorem not_brace_of_isWordChar (h : Text.isWordChar c = true) : c ≠ '\x7b' ∧ c ≠ '\x7d' := by
  refine ⟨?_, ?_⟩
  all_goals
    rintro rfl
    revert h
    decide +kernel

theorem pending_longer_of_bare (h : s.reference = some .bare) (hc : Text.isWordChar c = true)
    (cs : List Char) :
    ({ s with name := s.name ++ [c] } : ValueState).pending cs ⊆ s.pending (c :: cs) := by
  have hread : ({ s with name := s.name ++ [c] } : ValueState).pending cs =
      (s.name ++ [c] ++ cs.takeWhile Text.isWordChar) :: namesIn cs := by
    rw [pending, h]
    exact congrArg (· :: namesIn cs) (if_neg (by simp))
  rw [hread, pending_of_bare h fun _ => by simpa using (not_brace_of_isWordChar hc).1,
    List.takeWhile_cons_of_pos hc, ← List.append_cons]
  exact List.cons_subset_cons _ (namesIn_subset c cs)

theorem substitute_congr (h : lookUp env s.name = lookUp other s.name) :
    s.substitute env = s.substitute other := by
  rw [substitute, substitute, h]

/-- In braces a character continues the name or ends the reference. -/
theorem Orderly.step_braced (h : s.Orderly) (hr : s.reference = some .braced) (env : Environment)
    (c : Char) : (s.stepReference env .braced c).Orderly ∧
      ∀ cs, (s.stepReference env .braced c).pending cs ⊆ s.pending (c :: cs) := by
  have hopen := h.unescaped (by simp [hr])
  rw [stepReference]
  split
  next hword =>
    exact ⟨.of_open (by simp [hr]) hopen,
      pending_longer_of_braced hr (not_brace_of_isWordChar hword).2⟩
  next =>
    split
    next =>
      refine ⟨.of_none rfl rfl, fun cs => ?_⟩
      rw [pending_of_braced hr]
      exact pending_of_over rfl c _ cs
    next hc => exact ⟨.of_open (by simp [hr]) hopen, pending_longer_of_braced hr hc⟩

/-- A bare reference goes on with a letter or a digit, or with a brace at its beginning; another
character ends it, and may begin the next. -/
theorem Orderly.step_bare (h : s.Orderly) (hr : s.reference = some .bare) (env : Environment)
    (c : Char) : (s.stepReference env .bare c).Orderly ∧
      ∀ cs, (s.stepReference env .bare c).pending cs ⊆ s.pending (c :: cs) := by
  have hopen := h.unescaped (by simp [hr])
  rw [stepReference]
  split
  next hword => exact ⟨.of_open (by simp [hr]) hopen, pending_longer_of_bare hr hword⟩
  next =>
    split
    next hbrace =>
      rw [Bool.and_eq_true, decide_eq_true_eq, List.isEmpty_iff] at hbrace
      obtain ⟨rfl, hnil⟩ := hbrace
      refine ⟨.of_open nofun hopen, fun cs => ?_⟩
      rw [pending_of_braced rfl, pending, hr]
      show _ ⊆ (if s.name = [] then _ else _) :: _
      rw [if_pos hnil, hnil]
      exact List.cons_subset_cons _ (namesIn_subset _ cs)
    next hbrace =>
      have hpending : ∀ cs, s.pending (c :: cs) =
          (s.name ++ (c :: cs).takeWhile Text.isWordChar) :: namesIn (c :: cs) := by
        intro cs
        refine pending_of_bare hr fun hn hc => hbrace ?_
        cases hc
        simp [hn]
      split
      next hc =>
        subst hc
        refine ⟨.of_open nofun hopen, fun cs => ?_⟩
        rw [hpending]
        exact List.subset_cons_self _ _
      next =>
        refine ⟨.of_none rfl rfl, fun cs => ?_⟩
        rw [hpending]
        exact pending_of_over rfl c _ cs

/-- Outside of a reference only a dollar sign begins one, if it is neither escaped nor in single
quotes. -/
theorem step?_cases (hr : s.reference = none) (hs : s.step? env c = some s') :
    (s'.reference = none ∧ s'.name = s.name) ∨
      c = '$' ∧ s.escaped = false ∧ s.single = false ∧
        s' = { s with reference := some .bare } := by
  cases s
  cases hr
  rw [step?] at hs
  split at hs
  next =>
    obtain ⟨d, -, rfl⟩ := Option.map_eq_some_iff.mp hs
    exact .inl ⟨rfl, rfl⟩
  next hescaped =>
    split at hs
    next =>
      cases hs
      left
      split
      all_goals exact ⟨rfl, rfl⟩
    next hsingle =>
      by_cases hc : c = '$'
      · subst hc
        cases hs
        exact .inr ⟨rfl, eq_false_of_ne_true hescaped, eq_false_of_ne_true hsingle, rfl⟩
      · -- every other character is kept, or changes a mark of the state
        left
        simp only [if_neg hc] at hs
        repeat' split at hs
        all_goals
          cases hs
          exact ⟨rfl, rfl⟩

theorem Orderly.step (h : s.Orderly) (hended : s.ended = false) (hs : s.step? env c = some s') :
    s'.Orderly ∧ ∀ cs, s'.pending cs ⊆ s.pending (c :: cs) := by
  cases hr : s.reference with
  | some r =>
    obtain ⟨hescaped, hsingle, -⟩ := h.unescaped (by simp [hr])
    rw [step?, hescaped, hsingle, hr] at hs
    cases hs
    cases r with
    | bare => exact h.step_bare hr env c
    | braced => exact h.step_braced hr env c
  | none =>
    have hname := h.name_nil hr
    rcases step?_cases hr hs with ⟨hr', hname'⟩ | ⟨rfl, hescaped, hsingle, rfl⟩
    · refine ⟨.of_none hr' (hname'.trans hname), fun cs => ?_⟩
      rw [pending_of_none hr, pending_of_none hr']
      exact namesIn_subset c cs
    · refine ⟨.of_open nofun ⟨hescaped, hsingle, hended⟩, fun cs => ?_⟩
      rw [pending_of_none hr, pending]
      show (if s.name = [] then _ else _) :: _ ⊆ nameBehind cs :: namesIn cs
      rw [if_pos hname]
      exact List.Subset.refl _

/-- A character is read alike where the name that it may end is looked up alike. -/
theorem Orderly.step?_congr (h : s.Orderly) {cs : List Char}
    (ha : Alike env other (s.pending (c :: cs))) : s.step? env c = s.step? other c := by
  cases hr : s.reference with
  | none =>
    rw [step?, step?, hr]
  | some r =>
    obtain ⟨hescaped, hsingle, -⟩ := h.unescaped (by simp [hr])
    rw [step?, step?, hescaped, hsingle, hr]
    refine congrArg some ?_
    cases r with
    | braced =>
      rw [ValueState.stepReference, ValueState.stepReference]
      split
      next => rfl
      next =>
        split
        next hc =>
          rw [pending_of_braced hr, List.takeWhile_cons_of_neg (by simp [hc]),
            List.append_nil] at ha
          exact substitute_congr (ha _ List.mem_cons_self)
        next => rfl
    | bare =>
      rw [ValueState.stepReference, ValueState.stepReference]
      split
      next => rfl
      next hword =>
        dsimp only
        split
        next => rfl
        next hbrace =>
          rw [pending_of_bare hr (fun hn hc => hbrace (by cases hc; simp [hn])),
            List.takeWhile_cons_of_neg hword, List.append_nil] at ha
          rw [substitute_congr (ha _ List.mem_cons_self)]

theorem Orderly.finish?_congr (h : s.Orderly) (hnone : lookUp env [] = lookUp other [])
    (ha : Alike env other (s.pending [])) : s.finish? env = s.finish? other := by
  rw [finish?, finish?]
  cases hr : s.reference with
  | none =>
    have hs : s.substitute env = s.substitute other :=
      substitute_congr (by rw [h.name_nil hr]; exact hnone)
    rw [hs]
  | some r =>
    cases r with
    | braced => rfl
    | bare =>
      rw [pending_of_bare hr (fun _ => by simp), List.takeWhile_nil, List.append_nil] at ha
      rw [substitute_congr (ha _ List.mem_cons_self)]

end ValueState

/-- A value reads alike where the names that it refers to are looked up alike. -/
theorem parseValue_congr (hnone : lookUp env [] = lookUp other []) (cs : List Char)
    {s : ValueState} (h : s.Orderly) (ha : Alike env other (s.pending cs)) :
    parseValue env s cs = parseValue other s cs := by
  induction cs generalizing s with
  | nil => exact h.finish?_congr hnone ha
  | cons c cs ih =>
    rw [parseValue, parseValue]
    cases hended : s.ended with
    | true =>
      have hr : s.reference = none := by
        refine Decidable.byContradiction fun hr => ?_
        rw [(h.unescaped hr).2.2] at hended
        cases hended
      have hrest : Alike env other (s.pending cs) := by
        rw [ValueState.pending_of_none hr] at ha ⊢
        exact ha.mono (namesIn_subset c cs)
      have hfinish : s.finish? env = s.finish? other :=
        h.finish?_congr hnone (by
          rw [ValueState.pending_of_none hr]
          exact fun n hn => absurd hn List.not_mem_nil)
      rw [if_pos rfl, if_pos rfl, ih h hrest, hfinish]
    | false =>
      rw [h.step?_congr ha]
      cases hs : s.step? other c with
      | none => rfl
      | some s' =>
        obtain ⟨hs', hpending⟩ := h.step hended hs
        exact ih hs' (ha.mono (hpending cs))

/-! ## lines -/

theorem suffix_of_parseKey {cs key rest : List Char} (h : parseKey cs = some (key, rest)) :
    rest <:+ cs := by
  cases cs with
  | nil => cases h
  | cons c cs =>
    rw [parseKey] at h
    split at h
    next =>
      cases h
      exact (List.dropWhile_suffix _).trans (List.dropWhile_suffix _)
    next => cases h

theorem suffix_of_parseAssignment {cs key text : List Char}
    (h : parseAssignment cs = some (key, text)) : text <:+ cs := by
  have hvalue : ∀ {ds k rest : List Char}, parseKey ds = some (k, '=' :: rest) →
      skipBlanks rest <:+ ds := fun hk =>
    (List.dropWhile_suffix _).trans ((List.suffix_cons _ _).trans (suffix_of_parseKey hk))
  rw [parseAssignment] at h
  split at h
  next k rest hk =>
    cases h
    exact hvalue hk
  next k rest _ hk =>
    split at h
    next =>
      split at h
      next k' rest' hk' =>
        cases h
        exact (hvalue hk').trans (suffix_of_parseKey hk)
      next => cases h
    next => cases h
  next => cases h

theorem namesIn_subset_of_suffix {cs ds : List Char} (h : cs <:+ ds) : namesIn cs ⊆ namesIn ds := by
  obtain ⟨before, rfl⟩ := h
  induction before with
  | nil => exact List.Subset.refl _
  | cons c before ih => exact List.Subset.trans ih (namesIn_subset c _)

/-- A line assigns alike where the names that it refers to are looked up alike. -/
theorem parseLine_congr (hnone : lookUp env [] = lookUp other []) {line : List Char}
    (h : Alike env other (namesIn (Text.trimChars line))) :
    parseLine env line = parseLine other line := by
  rw [parseLine, parseLine]
  cases hassign : parseAssignment (Text.trimChars line) with
  | none => rfl
  | some assignment =>
    obtain ⟨key, text⟩ := assignment
    have htext : Alike env other (namesIn text) :=
      h.mono (namesIn_subset_of_suffix (suffix_of_parseAssignment hassign))
    have hvalue : parseValue env {} text = parseValue other {} text :=
      parseValue_congr hnone text (.of_none rfl rfl) htext
    simp only [hvalue]

theorem prefix_of_follow {p : Place} {cs before : List Char} (h : follow p cs = .inr before) :
    before <+: cs := by
  induction cs generalizing p before with
  | nil => cases h
  | cons c cs ih =>
    rw [follow] at h
    split at h
    next =>
      cases h
      exact List.nil_prefix
    next q hq =>
      split at h
      next => cases h
      next rest hrest =>
        cases h
        exact (List.cons_prefix_cons).mpr ⟨rfl, ih hrest⟩

theorem prefix_dropLineBreak (line : List Char) : dropLineBreak line <+: line := by
  rw [dropLineBreak]
  split
  next cs hcs =>
    exact ⟨['\r', '\n'], by rw [← List.reverse_reverse line, hcs]; simp⟩
  next cs _ hcs =>
    exact ⟨['\n'], by rw [← List.reverse_reverse line, hcs]; simp⟩
  next => exact List.prefix_refl _

theorem flatten_splitLines (cs : List Char) : (splitLines cs).flatten = cs := by
  induction cs using splitLines.induct with
  | case1 => rfl
  | case2 cs ih => rw [splitLines, if_pos rfl, List.flatten_cons, ih]; rfl
  | case3 c cs hc hnil ih =>
    rw [splitLines, if_neg hc, hnil]
    rw [hnil] at ih
    rw [← ih]
    rfl
  | case4 c cs hc l ls hcons ih =>
    rw [splitLines, if_neg hc, hcons]
    rw [hcons] at ih
    rw [← ih]
    rfl

/-- Lines that were put together are a part of the text. -/
theorem infix_of_mem_assemble {pending line : List Char} {p : Place} {ls : List (List Char)}
    (h : some line ∈ assemble pending p ls) : line <:+: pending ++ ls.flatten := by
  -- what was put together up to a line, and what is put together after it
  have hbegin : ∀ {pending l part : List Char} {ls : List (List Char)},
      part <+: pending ++ l → part <:+: pending ++ (l :: ls).flatten := by
    intro pending l part ls hpart
    rw [List.flatten_cons, ← List.append_assoc]
    exact (hpart.trans (List.prefix_append _ _)).isInfix
  have hrest : ∀ {pending l part : List Char} {ls : List (List Char)},
      part <:+: [] ++ ls.flatten → part <:+: pending ++ (l :: ls).flatten := by
    intro pending l part ls hpart
    rw [List.flatten_cons, ← List.append_assoc]
    exact hpart.trans (List.suffix_append _ _).isInfix
  induction pending, p, ls using assemble.induct with
  | case1 pending => cases h
  | case2 pending p hp =>
    rw [assemble, if_neg hp, List.mem_singleton] at h
    cases h
  | case3 pending p l ls text hcomment ih =>
    rw [assemble, if_pos hcomment] at h
    rcases List.mem_cons.mp h with h | h
    · cases h
      exact List.nil_infix
    · exact hrest (ih h)
  | case4 pending p l ls text hcomment before hfollow ih =>
    rw [assemble, if_neg hcomment, hfollow] at h
    rcases List.mem_cons.mp h with h | h
    · cases h
      exact hbegin ((List.prefix_append_right_inj _).mpr (prefix_of_follow hfollow))
    · exact hrest (ih h)
  | case5 pending p l ls text hcomment hfollow ih =>
    rw [assemble, if_neg hcomment, hfollow] at h
    rcases List.mem_cons.mp h with h | h
    · cases h
      exact hbegin (prefix_dropLineBreak _)
    · exact hrest (ih h)
  | case6 pending p l ls text hcomment q hq hfollow ih =>
    have hgo : some line ∈ assemble text q ls := by
      rw [assemble, if_neg hcomment, hfollow] at h
      cases q
      case plain => exact absurd rfl hq
      all_goals exact h
    rw [List.flatten_cons, ← List.append_assoc]
    exact ih hgo

/-! ## files -/

theorem suffix_dropByteOrderMark (cs : List Char) : dropByteOrderMark cs <:+ cs := by
  rw [dropByteOrderMark.eq_def]
  split
  · exact List.suffix_cons _ _
  · exact List.suffix_refl _

/-- **Line by line, names with a property are set alike.**  The lines refer to such names only, or
to names that are empty in the one environment and that the lines do not set in the other. -/
theorem AgreeOn.loadLines {P : String → Prop} (hempty : P "") (lines : List (Option (List Char)))
    (h : AgreeOn P env other)
    (hr : ∀ line, some line ∈ lines → ∀ n ∈ namesIn (Text.trimChars line), P (String.ofList n) ∨
      env.find? (String.ofList n) = some "" ∧
        (loadLines other lines).find? (String.ofList n) = none) :
    AgreeOn P (loadLines env lines) (loadLines other lines) := by
  induction lines generalizing env other with
  | nil => exact h
  | cons l rest ih =>
    cases l with
    | none => exact h
    | some line =>
      have halike : Alike env other (namesIn (Text.trimChars line)) := by
        intro n hn
        rw [lookUp, lookUp]
        rcases hr line List.mem_cons_self n hn with hP | ⟨henv, hnone⟩
        · rw [h _ hP]
        · have hother : other.find? (String.ofList n) = none := by
            refine Option.eq_none_iff_forall_ne_some.mpr fun v hv => ?_
            rw [find?_loadLines_of_some _ _ hv] at hnone
            cases hnone
          rw [henv, hother]
          rfl
      have hnone : lookUp env [] = lookUp other [] := by
        rw [lookUp, lookUp, h (String.ofList []) hempty]
      rw [EnvFile.loadLines] at hr
      rw [EnvFile.loadLines, EnvFile.loadLines, parseLine_congr hnone halike]
      cases hline : parseLine other line with
      | empty =>
        rw [hline] at hr
        exact ih h fun l hl => hr l (List.mem_cons_of_mem _ hl)
      | malformed => exact h
      | assignment m v =>
        rw [hline] at hr
        refine ih (h.setIfAbsent m v) fun l hl n hn => ?_
        exact (hr l (List.mem_cons_of_mem _ hl) n hn).imp_right
          (And.imp_left (find?_setIfAbsent_of_some · m v))

/-- A file sets alike the names with a property, if it refers to such names only. -/
theorem AgreeOn.load {P : String → Prop} (hempty : P "") {text : String}
    (hP : ∀ n ∈ references text, P n) (h : AgreeOn P env other) :
    AgreeOn P (load env text) (load other text) :=
  h.loadLines hempty _ fun _ hline _ hn =>
    .inl (hP _ (List.mem_flatMap.mpr ⟨_, hline, List.mem_map_of_mem hn⟩))

/-- The names in a line stand in the file behind a reference. -/
theorem refers_of_mem_linesOf {text : String} {line : List Char} (hline : some line ∈ linesOf text)
    (h : name.toList ∈ namesIn (Text.trimChars line)) : Refers name text.toList := by
  have hpart := infix_of_mem_assemble hline
  rw [List.nil_append, flatten_splitLines] at hpart
  exact (refers_of_mem_namesIn h).mono ((Text.trimChars_infix line).trans
    (hpart.trans (suffix_dropByteOrderMark _).isInfix))

/-- **A file does not set a variable again, and sets the others alike without it.**  The others
depend on the variable only where the file refers to it; an empty variable is not seen there either
if the file does not set it. -/
theorem load_agree (hne : name ≠ "") {value : String} (env : Environment) (text : String)
    (henv : env.find? name = some value)
    (hr : Refers name text.toList → value = "" ∧ (load (env.erase name) text).find? name = none) :
    (load env text).find? name = some value ∧
      AgreeOff name (load env text) (load (env.erase name) text) := by
  refine ⟨find?_loadLines_of_some _ _ henv, ?_⟩
  refine AgreeOn.loadLines hne.symm _ (AgreeOff.erase name env) fun line hline n hn => ?_
  by_cases hname : String.ofList n = name
  · subst hname
    obtain ⟨rfl, hnone⟩ := hr (refers_of_mem_linesOf hline (by rwa [String.toList_ofList]))
    exact .inr ⟨henv, hnone⟩
  · exact .inl hname

end FeatureFlags.EnvFile
