/-!
# Tables

Finite maps from names to values, kept in the order of the names.  Names are compared by code
point, which is also the order of their UTF-8 bytes.

* `put`, `drop`   on plain lists of entries: the last value put under a name wins, and a list
                  sorted by name stays sorted (`Sorted.put`, `Sorted.drop`);
* `Table`         a list of entries together with the proof that it is sorted;
* `find?_put`     what is found after an entry was put;
* `Table.ext_find?`   two tables in which the same is found are equal.
-/

namespace FeatureFlags

variable {α β : Type}

abbrev Entry (α : Type) := String × α

namespace Entries

/-- entries in strictly ascending order of their names -/
def Sorted (es : List (Entry α)) : Prop := es.Pairwise (fun a b => a.1 < b.1)

/-- the entries with `value` under `name`, in place of what was there -/
def put (name : String) (value : α) : List (Entry α) → List (Entry α)
  | [] => [(name, value)]
  | e :: es =>
    if name < e.1 then (name, value) :: e :: es
    else if name = e.1 then (name, value) :: es
    else e :: put name value es

def drop (name : String) (es : List (Entry α)) : List (Entry α) :=
  es.filter (fun e => e.1 ≠ name)

def find? (name : String) : List (Entry α) → Option α
  | [] => none
  | e :: es => if e.1 = name then some e.2 else find? name es

/-- sorted entries from entries in any order; of several with one name the last is kept -/
def collect (es : List (Entry α)) : List (Entry α) :=
  es.foldl (fun acc e => put e.1 e.2 acc) []

theorem find?_nil (name : String) : find? name ([] : List (Entry α)) = none := rfl
theorem find?_cons (name : String) (e : Entry α) (es : List (Entry α)) :
    find? name (e :: es) = if e.1 = name then some e.2 else find? name es := rfl

theorem Sorted.nil : Sorted ([] : List (Entry α)) := List.Pairwise.nil

theorem mem_put {name : String} {value : α} {es : List (Entry α)} {e : Entry α}
    (h : e ∈ put name value es) : e = (name, value) ∨ e ∈ es := by
  induction es with
  | nil => exact .inl (List.mem_singleton.mp h)
  | cons x es ih =>
    rw [put] at h
    split at h
    · rcases List.mem_cons.mp h with h | h
      · exact .inl h
      · exact .inr h
    · split at h
      · rcases List.mem_cons.mp h with h | h
        · exact .inl h
        · exact .inr (List.mem_cons_of_mem _ h)
      · rcases List.mem_cons.mp h with h | h
        · exact .inr (h ▸ List.mem_cons_self)
        · rcases ih h with h | h
          · exact .inl h
          · exact .inr (List.mem_cons_of_mem _ h)

theorem lt_of_not_lt_of_ne {a b : String} (h : ¬ a < b) (h' : a ≠ b) : b < a :=
  Decidable.byContradiction fun hn =>
    h' (String.le_antisymm (String.not_lt.mp hn) (String.not_lt.mp h))

theorem Sorted.put {es : List (Entry α)} (h : Sorted es) (name : String) (value : α) :
    Sorted (put name value es) := by
  induction es with
  | nil => exact List.pairwise_singleton _ _
  | cons e es ih =>
    have he := List.pairwise_cons.mp h
    rw [Entries.put]
    split
    next hlt =>
      refine List.pairwise_cons.mpr ⟨fun x hx => ?_, h⟩
      rcases List.mem_cons.mp hx with hx | hx
      · exact hx ▸ hlt
      · exact String.lt_trans hlt (he.1 x hx)
    next hlt =>
      split
      next heq => exact List.pairwise_cons.mpr ⟨fun x hx => heq ▸ he.1 x hx, he.2⟩
      next hne =>
        refine List.pairwise_cons.mpr ⟨fun x hx => ?_, ih he.2⟩
        rcases mem_put hx with hx | hx
        · exact hx ▸ lt_of_not_lt_of_ne hlt hne
        · exact he.1 x hx

theorem Sorted.drop {es : List (Entry α)} (h : Sorted es) (name : String) :
    Sorted (drop name es) := List.Pairwise.filter _ h

theorem Sorted.collect (es : List (Entry α)) : Sorted (collect es) := by
  suffices ∀ acc : List (Entry α), Sorted acc →
      Sorted (es.foldl (fun acc e => Entries.put e.1 e.2 acc) acc) from this [] Sorted.nil
  induction es with
  | nil => exact fun _ h => h
  | cons e es ih => exact fun acc h => ih _ (h.put e.1 e.2)

theorem find?_put (name other : String) (value : α) (es : List (Entry α)) :
    find? other (put name value es) = if name = other then some value else find? other es := by
  induction es with
  | nil => rfl
  | cons e es ih =>
    rw [put]
    split
    · rfl
    · split
      next h =>
        rw [find?_cons, find?_cons]
        by_cases ho : name = other
        · rw [if_pos ho, if_pos ho]
        · rw [if_neg ho, if_neg ho, if_neg (fun hc => ho (h.trans hc))]
      next h =>
        rw [find?_cons, ih, find?_cons]
        by_cases ho : e.1 = other
        · rw [if_pos ho, if_pos ho, if_neg (fun hc => h (hc.trans ho.symm))]
        · rw [if_neg ho, if_neg ho]

theorem find?_foldl_put (name : String) (es acc : List (Entry α)) :
    find? name (es.foldl (fun acc e => put e.1 e.2 acc) acc) =
      ((es.filter (fun e => e.1 = name)).getLast?.map Prod.snd).or (find? name acc) := by
  induction es generalizing acc with
  | nil => rfl
  | cons e es ih =>
    rw [List.foldl_cons, ih, find?_put, List.filter_cons]
    by_cases h : e.1 = name
    · rw [if_pos h, if_pos (by simpa using h), List.getLast?_cons]
      cases (es.filter (fun e => e.1 = name)).getLast? <;> rfl
    · rw [if_neg h, if_neg (by simpa using h)]

theorem find?_drop (name other : String) (es : List (Entry α)) :
    find? other (drop name es) = if name = other then none else find? other es := by
  induction es with
  | nil => split <;> rfl
  | cons e es ih =>
    rw [drop, List.filter_cons]
    by_cases h : e.1 = name
    · rw [if_neg (by simpa using h)]
      rw [show List.filter (fun e : Entry α => e.1 ≠ name) es = drop name es from rfl, ih,
        find?_cons]
      by_cases ho : name = other
      · rw [if_pos ho, if_pos ho]
      · rw [if_neg ho, if_neg ho, if_neg (fun hc => ho (h.symm.trans hc))]
    · rw [if_pos (by simpa using h), find?_cons]
      rw [show List.filter (fun e : Entry α => e.1 ≠ name) es = drop name es from rfl, ih,
        find?_cons]
      by_cases ho : e.1 = other
      · rw [if_pos ho, if_pos ho, if_neg (fun hc => h (ho.trans hc.symm))]
      · rw [if_neg ho, if_neg ho]

theorem find?_eq_none_of_lt {name : String} {es : List (Entry α)}
    (h : ∀ e ∈ es, name < e.1) : find? name es = none := by
  induction es with
  | nil => rfl
  | cons e es ih =>
    rw [find?_cons, if_neg, ih (fun x hx => h x (List.mem_cons_of_mem _ hx))]
    intro hc
    exact String.lt_irrefl _ (hc ▸ h e List.mem_cons_self)

theorem find?_of_mem {es : List (Entry α)} (h : Sorted es) {e : Entry α} (he : e ∈ es) :
    find? e.1 es = some e.2 := by
  induction es with
  | nil => cases he
  | cons x es ih =>
    have hx := List.pairwise_cons.mp h
    rw [find?_cons]
    rcases List.mem_cons.mp he with he | he
    · rw [he, if_pos rfl]
    · rw [if_neg, ih hx.2 he]
      intro hc
      exact String.lt_irrefl _ (hc ▸ hx.1 e he)

theorem Sorted.nodup_names {es : List (Entry α)} (h : Sorted es) : (es.map Prod.fst).Nodup := by
  rw [List.Nodup, List.pairwise_map]
  refine h.imp fun hlt heq => ?_
  exact String.lt_irrefl _ (heq ▸ hlt)

theorem mem_of_mem_collect {es : List (Entry α)} {e : Entry α} (h : e ∈ collect es) : e ∈ es := by
  suffices ∀ acc : List (Entry α), e ∈ es.foldl (fun acc e => put e.1 e.2 acc) acc →
      e ∈ acc ∨ e ∈ es from (this [] h).resolve_left List.not_mem_nil
  clear h
  induction es with
  | nil => exact fun _ h => .inl h
  | cons x es ih =>
    intro acc h
    rcases ih _ h with h | h
    · rcases mem_put h with h | h
      · exact .inr (h ▸ List.mem_cons_self)
      · exact .inl h
    · exact .inr (List.mem_cons_of_mem _ h)

theorem find?_eq_none_iff {name : String} {es : List (Entry α)} :
    find? name es = none ↔ name ∉ es.map Prod.fst := by
  induction es with
  | nil => exact iff_of_true rfl List.not_mem_nil
  | cons e es ih =>
    rw [find?_cons, List.map_cons, List.mem_cons, not_or]
    by_cases h : e.1 = name
    · rw [if_pos h]
      exact iff_of_false nofun fun hn => hn.1 h.symm
    · rw [if_neg h, ih]
      exact (and_iff_right (fun hn => h hn.symm)).symm

theorem mem_of_find? {es : List (Entry α)} {name : String} {value : α}
    (h : find? name es = some value) : (name, value) ∈ es := by
  induction es with
  | nil => cases h
  | cons e es ih =>
    rw [find?_cons] at h
    split at h
    next hn =>
      cases h
      subst hn
      exact List.mem_cons_self
    next => exact List.mem_cons_of_mem _ (ih h)

/-- Sorted entries are determined by what is found in them. -/
theorem eq_of_find? {es fs : List (Entry α)} (he : Sorted es) (hf : Sorted fs)
    (h : ∀ name, find? name es = find? name fs) : es = fs := by
  induction es generalizing fs with
  | nil =>
    cases fs with
    | nil => rfl
    | cons f fs =>
      have := h f.1
      rw [find?_nil, find?_cons, if_pos rfl] at this
      cases this
  | cons e es ih =>
    cases fs with
    | nil =>
      have := h e.1
      rw [find?_nil, find?_cons, if_pos rfl] at this
      cases this
    | cons f fs =>
      have he' := List.pairwise_cons.mp he
      have hf' := List.pairwise_cons.mp hf
      have hname : e.1 = f.1 := by
        have h1 := mem_of_find? ((h e.1).symm.trans (find?_of_mem he List.mem_cons_self))
        have h2 := mem_of_find? ((h f.1).trans (find?_of_mem hf List.mem_cons_self))
        rcases List.mem_cons.mp h1 with h1 | h1
        · exact congrArg Prod.fst h1
        · rcases List.mem_cons.mp h2 with h2 | h2
          · exact (congrArg Prod.fst h2).symm
          · exact absurd (String.lt_trans (hf'.1 _ h1) (he'.1 _ h2)) (String.lt_irrefl _)
      have hvalue : e.2 = f.2 := by
        have := h e.1
        rw [find?_cons, if_pos rfl, find?_cons, if_pos hname.symm] at this
        exact Option.some.inj this
      have hhead : e = f := Prod.ext hname hvalue
      subst hhead
      congr 1
      refine ih he'.2 hf'.2 fun name => ?_
      by_cases hn : e.1 = name
      · subst hn
        rw [find?_eq_none_of_lt he'.1, find?_eq_none_of_lt hf'.1]
      · have := h name
        rw [find?_cons, if_neg hn, find?_cons, if_neg hn] at this
        exact this

end Entries

/-- A finite map from names to values, in the order of the names. -/
structure Table (α : Type) where
  entries : List (Entry α)
  sorted : Entries.Sorted entries

namespace Table

def empty : Table α := ⟨[], Entries.Sorted.nil⟩

instance : EmptyCollection (Table α) := ⟨empty⟩
instance : Inhabited (Table α) := ⟨empty⟩

instance [DecidableEq α] : DecidableEq (Table α) := fun a b =>
  if h : a.entries = b.entries then
    isTrue (by cases a; cases b; cases h; rfl)
  else
    isFalse (fun hc => h (congrArg entries hc))

def find? (t : Table α) (name : String) : Option α := Entries.find? name t.entries

def contains (t : Table α) (name : String) : Bool := (t.find? name).isSome

def insert (t : Table α) (name : String) (value : α) : Table α :=
  ⟨Entries.put name value t.entries, t.sorted.put name value⟩

def erase (t : Table α) (name : String) : Table α :=
  ⟨Entries.drop name t.entries, t.sorted.drop name⟩

/-- of several entries with one name the last is kept -/
def ofList (es : List (Entry α)) : Table α := ⟨Entries.collect es, Entries.Sorted.collect es⟩

def names (t : Table α) : List String := t.entries.map Prod.fst

def map (f : String → α → β) (t : Table α) : Table β :=
  ⟨t.entries.map (fun e => (e.1, f e.1 e.2)), by
    rw [Entries.Sorted, List.pairwise_map]
    exact t.sorted⟩

/-- the union of two tables; where both have a name, `u` decides -/
def union (t u : Table α) : Table α := u.entries.foldl (fun acc e => acc.insert e.1 e.2) t

@[simp] theorem find?_insert (t : Table α) (name other : String) (value : α) :
    (t.insert name value).find? other = if name = other then some value else t.find? other :=
  Entries.find?_put name other value t.entries

@[simp] theorem find?_erase (t : Table α) (name other : String) :
    (t.erase name).find? other = if name = other then none else t.find? other :=
  Entries.find?_drop name other t.entries

theorem find?_map (f : String → α → β) (t : Table α) (name : String) :
    (t.map f).find? name = (t.find? name).map (f name) := by
  show Entries.find? name (t.entries.map (fun e => (e.1, f e.1 e.2))) =
    (Entries.find? name t.entries).map (f name)
  induction t.entries with
  | nil => rfl
  | cons e es ih =>
    rw [List.map_cons, Entries.find?_cons, Entries.find?_cons, ih]
    by_cases hn : e.1 = name
    · rw [if_pos hn, if_pos hn, ← hn]
      rfl
    · rw [if_neg hn, if_neg hn]

theorem names_map (f : String → α → β) (t : Table α) : (t.map f).names = t.names := by
  rw [names, map, List.map_map]
  rfl

/-- Of several entries with one name the last is found. -/
theorem find?_ofList (es : List (Entry α)) (name : String) :
    (ofList es).find? name = (es.filter (fun e => e.1 = name)).getLast?.map Prod.snd :=
  (Entries.find?_foldl_put name es []).trans (Option.or_none)

theorem ext_find? {t u : Table α} (h : ∀ name, t.find? name = u.find? name) : t = u := by
  have : t.entries = u.entries := Entries.eq_of_find? t.sorted u.sorted h
  cases t
  cases u
  cases this
  rfl

theorem mem_entries_iff (t : Table α) (name : String) (value : α) :
    (name, value) ∈ t.entries ↔ t.find? name = some value :=
  ⟨fun h => Entries.find?_of_mem t.sorted h, fun h => Entries.mem_of_find? h⟩

end Table

end FeatureFlags
