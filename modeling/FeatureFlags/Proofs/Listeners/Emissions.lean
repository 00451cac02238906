import FeatureFlags.Listener.Script
import FeatureFlags.Proofs.Registry.Wiring

/-!
# What an emission calls

Listeners do what they like while they are called, and so the set may look quite different in the
middle of an emission.  Still the emission calls those who were there when it began, and nobody
else.

* `ListenerSet.summons`   the calls that an emission ought to make;
* `ListenerSet.replay`    the set after some moments of a run;
* `Told s ms t`           the moments `ms` lead from `s` to `t`, and all they say is right: whom an
                          emission calls, whether a removal found somebody, how many were counted;
* `Conduct.told_run`, `told_emission`   such are the moments of every run;
* `emission_mono`         what ends within some depth ends in the same way within every larger one;
* `ListenerSet.Retired`   a listener that was there and is there no more; it never comes back;
* `Conduct.run_tells`     all of this for any conduct of everybody.
-/

namespace FeatureFlags

variable {σ ρ : Type}

/-! ## the set through time -/

namespace ListenerSet

/-- For each change those who listen on its flag, with this change alone; then those who listen on
any change, with all changes.  Nobody if there are no changes. -/
def summons (s : ListenerSet ρ) (changes : List Change) : List (Listener ρ × List Change) :=
  if changes = [] then []
  else
    changes.flatMap (fun c =>
        (s.listeners.filter (fun l => l.topic = .flag c.name)).map (fun l => (l, [c]))) ++
      (s.listeners.filter (fun l => l.topic = .anyChange)).map (fun l => (l, changes))

/-- the set after a moment -/
def after (s : ListenerSet ρ) : Moment ρ → ListenerSet ρ
  | .added l => ⟨s.listeners ++ [l], l.id + 1⟩
  | .removed id _ => s.remove id
  | .cleared => s.clear
  | .counted _ _ => s
  | .emitted _ _ => s
  | .called _ _ => s

def replay (s : ListenerSet ρ) (ms : List (Moment ρ)) : ListenerSet ρ := ms.foldl after s

theorem calls_eq_summons (s : ListenerSet ρ) (changes : List Change) :
    s.calls changes = (s.summons changes).map (fun k => ⟨k.1.role, k.2⟩) := by
  rw [calls, summons]
  by_cases h : changes = []
  · rw [if_pos h, if_pos (List.isEmpty_iff.mpr h), List.map_nil]
  · rw [if_neg h, if_neg (fun he => h (List.isEmpty_iff.mp he)), List.map_append,
      List.map_flatMap]
    simp only [onTopic, List.map_map, Function.comp_def]

theorem mem_of_mem_summons {s : ListenerSet ρ} {changes : List Change}
    {k : Listener ρ × List Change} (h : k ∈ s.summons changes) : k.1 ∈ s.listeners := by
  rw [summons] at h
  split at h
  · cases h
  · rcases List.mem_append.mp h with h | h
    · obtain ⟨c, _, h⟩ := List.mem_flatMap.mp h
      obtain ⟨l, hl, rfl⟩ := List.mem_map.mp h
      exact (List.mem_filter.mp hl).1
    · obtain ⟨l, hl, rfl⟩ := List.mem_map.mp h
      exact (List.mem_filter.mp hl).1

theorem has_iff {s : ListenerSet ρ} {id : ListenerId} :
    s.has id = true ↔ ∃ l ∈ s.listeners, l.id = id := by
  simp [has]

/-- A list that has lost something had something to lose. -/
theorem removes_eq_has (s : ListenerSet ρ) (id : ListenerId) : s.removes id = s.has id := by
  rw [Bool.eq_iff_iff, has_iff, removes, decide_eq_true_iff, remove, Ne,
    List.length_filter_eq_length_iff]
  simp

end ListenerSet

/-- What is said of a moment is right for the set as it is then. -/
def Moment.Fits (s : ListenerSet ρ) : Moment ρ → Prop
  | .added l => l.id = s.next
  | .removed id was => was = s.has id
  | .counted topic n => n = s.count topic
  | .cleared => True
  | .emitted changes own => own = s.summons changes
  | .called _ _ => True

/-- Moments that lead from one set to another and are told as they were. -/
inductive Told : ListenerSet ρ → List (Moment ρ) → ListenerSet ρ → Prop where
  | nil (s : ListenerSet ρ) : Told s [] s
  | cons {s t : ListenerSet ρ} {m : Moment ρ} {ms : List (Moment ρ)} (fits : m.Fits s)
      (rest : Told (s.after m) ms t) : Told s (m :: ms) t

namespace Told

variable {s t u : ListenerSet ρ} {ms ns : List (Moment ρ)}

theorem append (h : Told s ms t) (k : Told t ns u) : Told s (ms ++ ns) u := by
  induction h with
  | nil => exact k
  | cons fits _ ih => exact .cons fits (ih k)

theorem replay_eq (h : Told s ms t) : s.replay ms = t := by
  induction h with
  | nil => rfl
  | cons _ _ ih => exact ih

theorem of_append (h : Told s (ms ++ ns) u) :
    Told s ms (s.replay ms) ∧ Told (s.replay ms) ns u := by
  induction ms generalizing s with
  | nil => exact ⟨.nil s, h⟩
  | cons m ms ih =>
    cases h with
    | cons fits rest => exact ⟨.cons fits (ih rest).1, (ih rest).2⟩

theorem fits {m : Moment ρ} (h : Told s (ms ++ m :: ns) u) : m.Fits (s.replay ms) := by
  cases h.of_append.2 with
  | cons fits _ => exact fits

end Told

/-! ## what the steps of a run give -/

/-- A step that ends is followed by steps that end, and what is told of it comes first. -/
theorem of_bind_cons {α : Type} {p : Option (Stage σ ρ × List α)} {a : α} {s : Stage σ ρ}
    {as : List α} (h : (do let rest ← p; some (rest.1, a :: rest.2)) = some (s, as)) :
    ∃ rest, p = some (s, rest) ∧ as = a :: rest := by
  obtain ⟨⟨s', rest⟩, hp, h⟩ := Option.bind_eq_some_iff.mp h
  cases h
  exact ⟨rest, hp, rfl⟩

section

variable {call : Listener ρ → List Change → Stage σ ρ → Option (Stage σ ρ × List (Deed ρ))}
  {topic : Topic} {changes : List Change} {s s' : Stage σ ρ} {ks : List (Calling ρ)}

theorem of_callOn_cons {l : Listener ρ} {ls : List (Listener ρ)}
    (h : callOn call topic changes (l :: ls) s = some (s', ks)) :
    (l.topic = topic ∧ ∃ s₁ ds rest, call l changes s = some (s₁, ds) ∧
        callOn call topic changes ls s₁ = some (s', rest) ∧ ks = .node l changes ds :: rest) ∨
      (l.topic ≠ topic ∧ callOn call topic changes ls s = some (s', ks)) := by
  rw [callOn] at h
  split at h
  case isTrue ht =>
    obtain ⟨⟨s₁, ds⟩, hc, h⟩ := Option.bind_eq_some_iff.mp h
    obtain ⟨rest, hr, hk⟩ := of_bind_cons h
    exact .inl ⟨ht, s₁, ds, rest, hc, hr, hk⟩
  case isFalse ht => exact .inr ⟨ht, h⟩

theorem of_callEach_cons {c : Change} {cs : List Change} {ls : List (Listener ρ)}
    (h : callEach call ls (c :: cs) s = some (s', ks)) :
    ∃ s₁ first rest, callOn call (.flag c.name) [c] ls s = some (s₁, first) ∧
      callEach call ls cs s₁ = some (s', rest) ∧ ks = first ++ rest := by
  obtain ⟨⟨s₁, first⟩, hf, h⟩ := Option.bind_eq_some_iff.mp h
  obtain ⟨⟨s₂, rest⟩, hr, h⟩ := Option.bind_eq_some_iff.mp h
  cases h
  exact ⟨s₁, first, rest, hf, hr, rfl⟩

theorem of_emission_succ {react : ρ → List Change → Conduct σ ρ} {depth : Nat}
    (h : emission react (depth + 1) s changes = some (s', ks)) :
    let call := fun (l : Listener ρ) told s => (react l.role told).run (emission react depth) s
    (changes = [] ∧ s' = s ∧ ks = []) ∨
      (changes ≠ [] ∧ ∃ s₁ each every,
        callEach call s.set.listeners changes s = some (s₁, each) ∧
        callOn call .anyChange changes s.set.listeners s₁ = some (s', every) ∧
        ks = each ++ every) := by
  rw [emission] at h
  split at h
  case isTrue hn =>
    cases h
    exact .inl ⟨hn, rfl, rfl⟩
  case isFalse hn =>
    obtain ⟨⟨s₁, each⟩, he, h⟩ := Option.bind_eq_some_iff.mp h
    obtain ⟨⟨s₂, every⟩, ha, h⟩ := Option.bind_eq_some_iff.mp h
    cases h
    exact .inr ⟨hn, s₁, each, every, he, ha, rfl⟩

/-! ## who is called -/

theorem own_callOn {ls : List (Listener ρ)}
    (h : callOn call topic changes ls s = some (s', ks)) :
    ks.map Calling.own =
      (ls.filter (fun l => l.topic = topic)).map (fun l => (l, changes)) := by
  induction ls generalizing s ks with
  | nil =>
    cases h
    rfl
  | cons l ls ih =>
    rcases of_callOn_cons h with ⟨ht, s₁, ds, rest, _, hr, rfl⟩ | ⟨ht, hr⟩
    · rw [List.map_cons, ih hr, List.filter_cons_of_pos (by simpa using ht)]
      rfl
    · rw [ih hr, List.filter_cons_of_neg (by simpa using ht)]

theorem own_callEach {ls : List (Listener ρ)}
    (h : callEach call ls changes s = some (s', ks)) :
    ks.map Calling.own = changes.flatMap (fun c =>
      (ls.filter (fun l => l.topic = .flag c.name)).map (fun l => (l, [c]))) := by
  induction changes generalizing s ks with
  | nil =>
    cases h
    rfl
  | cons c cs ih =>
    obtain ⟨s₁, first, rest, hf, hr, rfl⟩ := of_callEach_cons h
    rw [List.map_append, own_callOn hf, ih hr, List.flatMap_cons]

/-- The calls of an emission are settled by the set as it is when the emission begins: the loops go
over the list that was taken then, and what the listeners do is only in the states between. -/
theorem own_emission {react : ρ → List Change → Conduct σ ρ} {depth : Nat}
    (h : emission react depth s changes = some (s', ks)) :
    ks.map Calling.own = s.set.summons changes := by
  cases depth with
  | zero => cases h
  | succ depth =>
    rw [ListenerSet.summons]
    rcases of_emission_succ h with ⟨hn, _, rfl⟩ | ⟨hn, s₁, each, every, he, ha, rfl⟩
    · rw [if_pos hn, List.map_nil]
    · rw [if_neg hn, List.map_append, own_callEach he, own_callOn ha]

/-- Where only the roles matter, an emission is the list of its calls. -/
theorem calls_emission {react : ρ → List Change → Conduct σ ρ} {depth : Nat}
    (h : emission react depth s changes = some (s', ks)) :
    ks.map (fun k => ⟨k.own.1.role, k.own.2⟩) = s.set.calls changes := by
  rw [ListenerSet.calls_eq_summons, ← own_emission h, List.map_map]
  rfl

end

/-! ## runs tell the truth -/

/-- What is told of emissions is right. -/
def Truthful (emitting : Stage σ ρ → List Change → Option (Stage σ ρ × List (Calling ρ))) : Prop :=
  ∀ {s s' changes ks}, emitting s changes = some (s', ks) →
    Told s.set (.emitted changes (ks.map Calling.own) :: Calling.allMoments ks) s'.set

theorem Conduct.told_run
    {emitting : Stage σ ρ → List Change → Option (Stage σ ρ × List (Calling ρ))}
    (he : Truthful emitting) (c : Conduct σ ρ) {s s' : Stage σ ρ} {ds : List (Deed ρ)}
    (h : c.run emitting s = some (s', ds)) : Told s.set (Deed.allMoments ds) s'.set := by
  induction c generalizing s ds with
  | done =>
    cases h
    exact .nil _
  | add topic role next ih =>
    obtain ⟨rest, hr, rfl⟩ := of_bind_cons h
    exact .cons rfl (ih _ hr)
  | remove id next ih =>
    obtain ⟨rest, hr, rfl⟩ := of_bind_cons h
    exact .cons (s.set.removes_eq_has id) (ih _ hr)
  | count topic next ih =>
    obtain ⟨rest, hr, rfl⟩ := of_bind_cons h
    exact .cons rfl (ih _ hr)
  | clear next ih =>
    obtain ⟨rest, hr, rfl⟩ := of_bind_cons h
    exact .cons trivial (ih hr)
  | emit changes next ih =>
    obtain ⟨⟨s₁, ks⟩, hk, h⟩ := Option.bind_eq_some_iff.mp h
    obtain ⟨rest, hr, rfl⟩ := of_bind_cons h
    exact (he hk).append (ih hr)
  | look next ih => exact ih _ h
  | note known next ih => exact ih (s := ⟨s.set, known⟩) h

section

variable {call : Listener ρ → List Change → Stage σ ρ → Option (Stage σ ρ × List (Deed ρ))}
  (hc : ∀ {l told s s' ds}, call l told s = some (s', ds) →
    Told s.set (Deed.allMoments ds) s'.set)

include hc

theorem told_callOn {topic : Topic} {changes : List Change} {ls : List (Listener ρ)}
    {s s' : Stage σ ρ} {ks : List (Calling ρ)}
    (h : callOn call topic changes ls s = some (s', ks)) :
    Told s.set (Calling.allMoments ks) s'.set := by
  induction ls generalizing s ks with
  | nil =>
    cases h
    exact .nil _
  | cons l ls ih =>
    rcases of_callOn_cons h with ⟨_, s₁, ds, rest, hl, hr, rfl⟩ | ⟨_, hr⟩
    · have during : Told s.set (.called l changes :: Deed.allMoments ds) s₁.set :=
        .cons trivial (hc hl)
      exact during.append (ih hr)
    · exact ih hr

theorem told_callEach {changes : List Change} {ls : List (Listener ρ)} {s s' : Stage σ ρ}
    {ks : List (Calling ρ)} (h : callEach call ls changes s = some (s', ks)) :
    Told s.set (Calling.allMoments ks) s'.set := by
  induction changes generalizing s ks with
  | nil =>
    cases h
    exact .nil _
  | cons c cs ih =>
    obtain ⟨s₁, first, rest, hf, hr, rfl⟩ := of_callEach_cons h
    rw [Calling.allMoments_append]
    exact (told_callOn hc hf).append (ih hr)

end

/-- By induction on the depth: the emissions within one are less deep. -/
theorem told_emission (react : ρ → List Change → Conduct σ ρ) (depth : Nat) :
    Truthful (emission react depth) := by
  induction depth with
  | zero =>
    intro s s' changes ks h
    cases h
  | succ depth ih =>
    intro s s' changes ks h
    refine .cons (own_emission h) ?_
    have hc {l : Listener ρ} {told : List Change} {s s' : Stage σ ρ} {ds : List (Deed ρ)}
        (h : (react l.role told).run (emission react depth) s = some (s', ds)) :
        Told s.set (Deed.allMoments ds) s'.set := Conduct.told_run ih _ h
    rcases of_emission_succ h with ⟨_, rfl, rfl⟩ | ⟨_, s₁, each, every, he, ha, rfl⟩
    · exact .nil _
    · rw [Calling.allMoments_append]
      exact (told_callEach hc he).append (told_callOn hc ha)

/-! ## listeners that are gone -/

namespace ListenerSet

/-- The number of a listener was given out, and nobody has it any more. -/
structure Retired (s : ListenerSet ρ) (id : ListenerId) : Prop where
  absent : ∀ l ∈ s.listeners, l.id ≠ id
  issued : id < s.next

variable {s t : ListenerSet ρ} {id : ListenerId} {ms : List (Moment ρ)}

theorem Numbered.after (h : s.Numbered) {m : Moment ρ} (hm : m.Fits s) : (s.after m).Numbered := by
  cases m with
  | added l =>
    obtain ⟨lid, topic, role⟩ := l
    have hid : lid = s.next := hm
    subst hid
    exact h.add topic role
  | removed id was => exact h.remove id
  | counted topic n => exact h
  | cleared => exact h.of_sublist (List.nil_sublist _) rfl
  | emitted changes own => exact h
  | called l changes => exact h

theorem Numbered.told (h : s.Numbered) (ht : Told s ms t) : t.Numbered := by
  induction ht with
  | nil => exact h
  | cons fits _ ih => exact ih (h.after fits)

/-- A new listener has a new number. -/
theorem Retired.after (h : s.Retired id) {m : Moment ρ} (hm : m.Fits s) :
    (s.after m).Retired id := by
  cases m with
  | added l =>
    have hnew : l.id = s.next := hm
    have hlt : id < l.id := hnew ▸ h.issued
    refine ⟨fun k hk => ?_, Nat.lt_succ_of_lt hlt⟩
    rcases List.mem_append.mp hk with hk | hk
    · exact h.absent k hk
    · rw [List.mem_singleton.mp hk]
      exact Nat.ne_of_gt hlt
  | removed _ _ => exact ⟨fun l hl => h.absent l (List.mem_of_mem_filter hl), h.issued⟩
  | counted topic n => exact h
  | cleared => exact ⟨fun _ hl => (nomatch hl), h.issued⟩
  | emitted changes own => exact h
  | called l changes => exact h

theorem Retired.told (h : s.Retired id) (ht : Told s ms t) : t.Retired id := by
  induction ht with
  | nil => exact h
  | cons fits _ ih => exact ih (h.after fits)

theorem Numbered.lt_of_has (h : s.Numbered) (hid : s.has id = true) : id < s.next := by
  obtain ⟨l, hl, rfl⟩ := has_iff.mp hid
  exact h.lt_next l hl

theorem Numbered.retired_remove (h : s.Numbered) (hid : s.has id = true) :
    (s.remove id).Retired id :=
  ⟨fun _ hl => of_decide_eq_true (List.mem_filter.mp hl).2, h.lt_of_has hid⟩

theorem Numbered.retired_clear (h : s.Numbered) (hid : s.has id = true) : s.clear.Retired id :=
  ⟨fun _ hl => (nomatch hl), h.lt_of_has hid⟩

end ListenerSet

/-- Who is gone after a moment is in no emission that begins later. -/
theorem Told.not_called {s t : ListenerSet ρ} {before later rest : List (Moment ρ)} {m : Moment ρ}
    {changes : List Change} {own : List (Listener ρ × List Change)} {id : ListenerId}
    (h : Told s (before ++ m :: (later ++ .emitted changes own :: rest)) t)
    (hid : ((s.replay before).after m).Retired id) {k : Listener ρ × List Change} (hk : k ∈ own) :
    k.1.id ≠ id := by
  cases h.of_append.2 with
  | cons _ h =>
    have gone := hid.told h.of_append.1
    have hown := h.fits
    rw [hown] at hk
    exact gone.absent _ (ListenerSet.mem_of_mem_summons hk)

/-! ## depth -/

/-- Where both parts of a computation that ends may be put in place of others. -/
theorem bind_mono {α β : Type} {p q : Option α} {f g : α → Option β} {b : β}
    (h : p.bind f = some b) (hp : ∀ a, p = some a → q = some a)
    (hf : ∀ a, f a = some b → g a = some b) : q.bind g = some b := by
  obtain ⟨a, ha, h⟩ := Option.bind_eq_some_iff.mp h
  exact Option.bind_eq_some_iff.mpr ⟨a, hp a ha, hf a h⟩

theorem Conduct.run_mono
    {emitting emitting' : Stage σ ρ → List Change → Option (Stage σ ρ × List (Calling ρ))}
    (he : ∀ {s changes r}, emitting s changes = some r → emitting' s changes = some r)
    (c : Conduct σ ρ) {s : Stage σ ρ} {r : Stage σ ρ × List (Deed ρ)}
    (h : c.run emitting s = some r) : c.run emitting' s = some r := by
  induction c generalizing s r with
  | done => exact h
  | add topic role next ih => exact bind_mono h (fun _ => ih _) (fun _ => id)
  | remove _ next ih => exact bind_mono h (fun _ => ih _) (fun _ => id)
  | count topic next ih => exact bind_mono h (fun _ => ih _) (fun _ => id)
  | clear next ih => exact bind_mono h (fun _ => ih) (fun _ => id)
  | emit changes next ih =>
    exact bind_mono h (fun _ => he) (fun _ h => bind_mono h (fun _ => ih) (fun _ => id))
  | look next ih => exact ih _ h
  | note known next ih => exact ih (s := ⟨s.set, known⟩) h

section

variable {call call' : Listener ρ → List Change → Stage σ ρ → Option (Stage σ ρ × List (Deed ρ))}
  (hc : ∀ {l told s r}, call l told s = some r → call' l told s = some r)

include hc

theorem callOn_mono {topic : Topic} {changes : List Change} {ls : List (Listener ρ)}
    {s : Stage σ ρ} {r : Stage σ ρ × List (Calling ρ)}
    (h : callOn call topic changes ls s = some r) : callOn call' topic changes ls s = some r := by
  induction ls generalizing s r with
  | nil => exact h
  | cons l ls ih =>
    rw [callOn] at h ⊢
    split at h
    case isTrue ht =>
      rw [if_pos ht]
      exact bind_mono h (fun _ => hc) (fun _ h => bind_mono h (fun _ => ih) (fun _ => id))
    case isFalse ht =>
      rw [if_neg ht]
      exact ih h

theorem callEach_mono {changes : List Change} {ls : List (Listener ρ)} {s : Stage σ ρ}
    {r : Stage σ ρ × List (Calling ρ)} (h : callEach call ls changes s = some r) :
    callEach call' ls changes s = some r := by
  induction changes generalizing s r with
  | nil => exact h
  | cons c cs ih =>
    exact bind_mono h (fun _ => callOn_mono hc) (fun _ h => bind_mono h (fun _ => ih) (fun _ => id))

end

/-- An emission that ends within some depth ends in the same way within every larger one. -/
theorem emission_mono (react : ρ → List Change → Conduct σ ρ) {depth more : Nat}
    (hd : depth ≤ more) {s : Stage σ ρ} {changes : List Change}
    {r : Stage σ ρ × List (Calling ρ)} (h : emission react depth s changes = some r) :
    emission react more s changes = some r := by
  induction depth generalizing more s changes r with
  | zero => cases h
  | succ depth ih =>
    obtain ⟨more, rfl⟩ : ∃ n, more = n + 1 := ⟨more - 1, by omega⟩
    have hc {l : Listener ρ} {told : List Change} {s : Stage σ ρ} {r : Stage σ ρ × List (Deed ρ)}
        (h : (react l.role told).run (emission react depth) s = some r) :
        (react l.role told).run (emission react more) s = some r :=
      Conduct.run_mono (ih (Nat.le_of_succ_le_succ hd)) _ h
    rw [emission] at h ⊢
    split at h
    case isTrue hn =>
      rw [if_pos hn]
      exact h
    case isFalse hn =>
      rw [if_neg hn]
      exact bind_mono h (fun _ => callEach_mono hc)
        (fun _ h => bind_mono h (fun _ => callOn_mono hc) (fun _ => id))

/-! ## whatever everybody does -/

/-- Somebody does what he likes with a set of listeners, and so does each listener when it is
called.  Then every emission, also one that a listener begins, makes exactly the calls that the set
calls for as it is when the emission begins.  A removal says whether there was such a listener, and
who was removed, or was there when the set was cleared, is in no emission that begins later.  The
moments account for the set that is left, and all this does not depend on the depth. -/
theorem Conduct.emissions_settled (react : ρ → List Change → Conduct σ ρ) (depth : Nat)
    (c : Conduct σ ρ) (s s' : Stage σ ρ) (ds : List (Deed ρ))
    (h : c.run (emission react depth) s = some (s', ds)) :
    (∀ before changes own after,
      Deed.allMoments ds = before ++ .emitted changes own :: after →
        own = (s.set.replay before).summons changes) ∧
    (∀ before id was after, Deed.allMoments ds = before ++ .removed id was :: after →
      (was = true ↔ ∃ l ∈ (s.set.replay before).listeners, l.id = id)) ∧
    (s.set.Numbered → ∀ before id later changes own after,
      Deed.allMoments ds =
          before ++ .removed id true :: (later ++ .emitted changes own :: after) →
        ∀ k ∈ own, k.1.id ≠ id) ∧
    (s.set.Numbered → ∀ before later changes own after,
      Deed.allMoments ds = before ++ .cleared :: (later ++ .emitted changes own :: after) →
        ∀ k ∈ own, ∀ l ∈ (s.set.replay before).listeners, k.1.id ≠ l.id) ∧
    s'.set = s.set.replay (Deed.allMoments ds) ∧
    ∀ more, depth ≤ more → c.run (emission react more) s = some (s', ds) := by
  have told := Conduct.told_run (told_emission react depth) c h
  refine ⟨?_, ?_, ?_, ?_, told.replay_eq.symm,
    fun more hd => Conduct.run_mono (emission_mono react hd) c h⟩
  · intro before changes own after he
    rw [he] at told
    exact told.fits
  · intro before id was after he
    rw [he] at told
    have hwas : was = (s.set.replay before).has id := told.fits
    rw [hwas, ListenerSet.has_iff]
  · intro hn before id later changes own after he k hk
    rw [he] at told
    have hid : true = (s.set.replay before).has id := told.fits
    have numbered := hn.told told.of_append.1
    exact told.not_called (numbered.retired_remove hid.symm) hk
  · intro hn before later changes own after he k hk l hl
    rw [he] at told
    have numbered := hn.told told.of_append.1
    have hid : (s.set.replay before).has l.id = true := ListenerSet.has_iff.mpr ⟨l, hl, rfl⟩
    exact told.not_called (numbered.retired_clear hid) hk

/-- The first listener takes itself away when it is called, adds another one and emits. -/
def leaving : Conduct Labels Actor :=
  [Action.add "once" (.flag "a")
      [.remove "once", .add "late" .anyChange [], .emit [⟨"b", none, none⟩]],
    .add "friend" (.flag "b") [], .emit [⟨"a", none, none⟩], .emit [⟨"a", none, none⟩]].foldr
    Action.conduct .done

/-- the labels of those that an emission calls itself -/
def Moment.summoned? : Moment Actor → Option (List String)
  | .emitted _ own => some (own.map (fun k => k.1.role.label))
  | _ => none

/-- The emission within the first one calls the listener that was added meanwhile, the first one
does not; the one that left is called once. -/
theorem emissions_settled_of_leaving :
    ∃ s ds, leaving.run (emission Actor.conduct 2) Troupe.empty = some (s, ds) ∧
      (Deed.allMoments ds).filterMap Moment.summoned? = [["once"], ["friend", "late"], ["late"]] ∧
      (∀ before changes own after,
        Deed.allMoments ds = before ++ .emitted changes own :: after →
          own = (Troupe.empty.set.replay before).summons changes) ∧
      (∀ before id later changes own after,
        Deed.allMoments ds =
            before ++ .removed id true :: (later ++ .emitted changes own :: after) →
          ∀ k ∈ own, k.1.id ≠ id) ∧
      ∀ more, 2 ≤ more → leaving.run (emission Actor.conduct more) Troupe.empty = some (s, ds) := by
  have run : (leaving.run (emission Actor.conduct 2) Troupe.empty).map
      (fun r => (Deed.allMoments r.2).filterMap Moment.summoned?) =
        some [["once"], ["friend", "late"], ["late"]] := by decide +kernel
  obtain ⟨⟨s, ds⟩, hrun, hsummoned⟩ := Option.map_eq_some_iff.mp run
  obtain ⟨hown, _, hgone, _, _, hmore⟩ :=
    Conduct.emissions_settled Actor.conduct 2 leaving Troupe.empty s ds hrun
  exact ⟨s, ds, hrun, hsummoned, hown, hgone ListenerSet.numbered_empty, hmore⟩

end FeatureFlags
