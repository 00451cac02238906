import FeatureFlags.Connection.Memory
import FeatureFlags.Identity
import FeatureFlags.Proofs.Differences

/-!
# A service in process and its connections

Connections are opened, switched to other contexts, closed and forgotten, definitions come and go,
and listeners too, in any order.

* `Memory.Operation`, `Service.step`, `Service.run`, `Service.trace`   runs, and what is seen of
                            them;
* `Memory.current?`         the definition under a key, read off the operations alone;
* `Connection.undergo`      what an operation does to one connection;
* `Service.connection?_step`, `Service.batches_step`   so it does, whatever other connections there
                            are;
* `Service.Sound`           every connection has the flags of the context that it was last told;
* `Service.connections_follow`   what holds of every connection after any run.
-/

namespace FeatureFlags.Memory

/-- A listener, known by the number of its connection and its own. -/
abbrev Tag := Nat × ListenerId

inductive Operation where
  | connect (key : String) (context : Context)
  | identify (id : Nat) (context : Context)
  | upsert (d : Definition)
  | removeFlag (key : String)
  | close (id : Nat)
  | forget (id : Nat)
  | listen (id : Nat) (topic : Topic)
  | ignore (id : Nat) (listener : ListenerId)

/-- What is seen of a service from outside. -/
inductive Mark where
  | opened (id : Nat) (context : Context)
  | answered (id : Nat) (context : Context) (answer : Except BackendError FlagSet)
  | closed (id : Nat)
  | called (call : Call Tag)

namespace Mark

/-- the context that a connection has from now on -/
def context? (id : Nat) : Mark → Option Context
  | opened other context => if other = id then some context else none
  | answered other context (.ok _) => if other = id then some context else none
  | _ => none

def call? : Mark → Option (Call Tag)
  | called call => some call
  | _ => none

end Mark

/-- the contexts that a connection was given, the one that it was opened with being the first -/
def contexts (id : Nat) (ms : List Mark) : List Context := ms.filterMap (Mark.context? id)

/-- what the listener on any change of a connection was handed -/
def batches (id : Nat) (l : ListenerId) (ms : List Mark) : List (List Change) :=
  Call.batches (id, l) (ms.filterMap Mark.call?)

theorem contexts_append (id : Nat) (ms ns : List Mark) :
    contexts id (ms ++ ns) = contexts id ms ++ contexts id ns := List.filterMap_append

theorem batches_append (id : Nat) (l : ListenerId) (ms ns : List Mark) :
    batches id l (ms ++ ns) = batches id l ms ++ batches id l ns := by
  rw [batches, List.filterMap_append, Call.batches_append]
  rfl

theorem contexts_called (id : Nat) (calls : List (Call Tag)) :
    contexts id (calls.map .called) = [] := by
  rw [contexts, List.filterMap_map]
  exact List.filterMap_eq_nil_iff.mpr fun _ _ => rfl

theorem batches_called (id : Nat) (l : ListenerId) (calls : List (Call Tag)) :
    batches id l (calls.map .called) = Call.batches (id, l) calls := by
  rw [batches, List.filterMap_map, show Mark.call? ∘ Mark.called = some from rfl,
    List.filterMap_some]

theorem contexts_answered_of_ne {id other : Nat} (h : other ≠ id) (context : Context)
    (answer : Except BackendError FlagSet) : contexts id [.answered other context answer] = [] := by
  cases answer with
  | error e => rfl
  | ok flags =>
    show (if other = id then some context else none).toList = []
    rw [if_neg h]
    rfl

/-- The context that a connection is given is the last one that it was given. -/
theorem getLast?_contexts_concat {id : Nat} {m : Mark} {context : Context}
    (h : m.context? id = some context) (ms : List Mark) :
    (contexts id (ms ++ [m])).getLast? = some context := by
  rw [contexts, List.filterMap_append, List.filterMap_cons_some h]
  exact List.getLast?_concat

theorem not_closed_called (id : Nat) (calls : List (Call Tag)) :
    Mark.closed id ∉ calls.map .called := by
  intro h
  obtain ⟨_, _, h⟩ := List.mem_map.mp h
  cases h

/-! ## definitions -/

/-- the definition under a key after an operation -/
def Operation.define (key : String) (d? : Option Definition) : Operation → Option Definition
  | upsert d => if d.key = key then some d else d?
  | removeFlag other => if other = key then none else d?
  | _ => d?

/-- The definition under a key: the last one given, unless it was removed after that. -/
def current? (ds : List Definition) (ops : List Operation) (key : String) : Option Definition :=
  ops.foldl (Operation.define key) (ds.filter (fun d => d.key = key)).getLast?

/-- all definitions after an operation -/
def Operation.redefine (ds : Definitions) : Operation → Definitions
  | upsert d => ds.insert d.key d
  | removeFlag key => ds.erase key
  | _ => ds

theorem find?_redefine (ds : Definitions) (op : Operation) (key : String) :
    (op.redefine ds).find? key = op.define key (ds.find? key) := by
  cases op with
  | upsert d => exact Table.find?_insert ds d.key key d
  | removeFlag other => exact Table.find?_erase ds other key
  | _ => rfl

theorem find?_ofList (ds : List Definition) (key : String) :
    (Definitions.ofList ds).find? key = (ds.filter (fun d => d.key = key)).getLast? := by
  rw [Definitions.ofList, Table.find?_ofList, List.filter_map, List.getLast?_map, Option.map_map]
  exact congrFun Option.map_id _

/-! ## runs -/

/-- A new listener on a connection, whose number is known. -/
def Connection.listen (c : Connection Tag) (id : Nat) (topic : Topic) : Connection Tag :=
  { c with feed := (c.feed.listen topic (id, c.feed.listeners.next)).1 }

namespace Service

/-- Changes a connection, if it is there. -/
def alter (s : Service Tag) (id : Nat) (f : Connection Tag → Connection Tag) : Service Tag :=
  match s.connection? id with
  | some c => s.update id (f c)
  | none => s

def step (s : Service Tag) : Operation → Service Tag × List Mark
  | .connect key context => (s.connect key context, [.opened s.next context])
  | .identify id context =>
    let r := s.identify id context
    (r.1, r.2.1.map .called ++ [.answered id context r.2.2])
  | .upsert d =>
    let r := s.upsert d
    (r.1, r.2.map .called)
  | .removeFlag key =>
    let r := s.removeFlag key
    (r.1, r.2.map .called)
  | .close id => (s.close id, (s.connection? id).toList.map (fun _ => .closed id))
  | .forget id => (s.forget id, [])
  | .listen id topic => (s.alter id (fun c => c.listen id topic), [])
  | .ignore id l => (s.alter id (fun c => { c with feed := c.feed.ignore l }), [])

def run (s : Service Tag) (ops : List Operation) : Service Tag :=
  ops.foldl (fun s op => (s.step op).1) s

/-- all that is seen during a run -/
def trace (s : Service Tag) : List Operation → List Mark
  | [] => []
  | op :: ops => (s.step op).2 ++ trace (s.step op).1 ops

theorem run_cons (s : Service Tag) (op : Operation) (ops : List Operation) :
    s.run (op :: ops) = (s.step op).1.run ops := rfl
theorem trace_nil (s : Service Tag) : s.trace [] = [] := rfl
theorem trace_cons (s : Service Tag) (op : Operation) (ops : List Operation) :
    s.trace (op :: ops) = (s.step op).2 ++ (s.step op).1.trace ops := rfl

end Service

/-! ## one connection -/

/-- What an operation does to the connection with a number, and whom it calls.  The definitions are
those after the operation. -/
def Connection.undergo (ds : Definitions) (id : Nat) (c : Connection Tag) :
    Operation → Connection Tag × List (Call Tag)
  | .identify other context =>
    if other = id then ((c.identify ds context).1, (c.identify ds context).2.1) else (c, [])
  | .upsert _ | .removeFlag _ => c.reevaluate ds
  | .close other => if other = id then (c.close, []) else (c, [])
  | .listen other topic => if other = id then (c.listen id topic, []) else (c, [])
  | .ignore other l => if other = id then ({ c with feed := c.feed.ignore l }, []) else (c, [])
  | .connect _ _ | .forget _ => (c, [])

namespace Connection

theorem identify_closed {c : Connection Tag} (h : c.seat.closed = true) (ds : Definitions)
    (context : Context) : c.identify ds context = (c, [], .error .closed) := by
  rw [identify, Seat.identify, if_pos h]

theorem identify_open {c : Connection Tag} (h : c.seat.closed = false) (ds : Definitions)
    (context : Context) :
    c.identify ds context =
      ((reevaluate ds { c with seat := { c.seat with context } }).1,
        (reevaluate ds { c with seat := { c.seat with context } }).2,
        .ok (ds.flagSet context)) := by
  rw [identify, Seat.identify, if_neg (Bool.eq_false_iff.mp h)]
  rfl

end Connection

/-! ## connections by number -/

/-- The connections have different numbers, all below the next one. -/
structure Service.Numbered (s : Service Tag) : Prop where
  nodup : (s.connections.map Prod.fst).Nodup
  lt_next : ∀ e ∈ s.connections, e.1 < s.next

namespace Service

variable {s : Service Tag}

theorem mem_of_connection? {id : Nat} {c : Connection Tag} (h : s.connection? id = some c) :
    (id, c) ∈ s.connections := by
  obtain ⟨e, he, rfl⟩ := Option.map_eq_some_iff.mp h
  have hid : e.1 = id := by simpa using List.find?_some he
  exact hid ▸ List.mem_of_find?_eq_some he

theorem Numbered.eq_of_mem (h : s.Numbered) {id : Nat} {c : Connection Tag}
    (hc : s.connection? id = some c) {e : Nat × Connection Tag} (he : e ∈ s.connections)
    (hid : e.1 = id) : e.2 = c :=
  congrArg Prod.snd (List.inj_on_of_nodup_map h.nodup he (mem_of_connection? hc) hid)

theorem not_mem_of_connection? {id : Nat} (h : s.connection? id = none)
    {e : Nat × Connection Tag} (he : e ∈ s.connections) : e.1 ≠ id := by
  intro hid
  have := List.find?_eq_none.mp (Option.map_eq_none_iff.mp h) e he
  exact this (decide_eq_true hid)

/-- Connections that are changed one by one are found under the numbers they had. -/
theorem connection?_map (g : Nat → Connection Tag → Connection Tag) {t : Service Tag}
    (h : t.connections = s.connections.map (fun e => (e.1, g e.1 e.2))) (id : Nat) :
    t.connection? id = (s.connection? id).map (g id) := by
  rw [connection?, connection?, h, List.find?_map, Option.map_map, Option.map_map]
  show Option.map _ (s.connections.find? (fun e => e.1 = id)) = _
  cases he : s.connections.find? (fun e => e.1 = id) with
  | none => rfl
  | some e =>
    have hid : e.1 = id := by simpa using List.find?_some he
    rw [← hid]
    rfl

theorem Numbered.map (h : s.Numbered) (g : Nat → Connection Tag → Connection Tag) {t : Service Tag}
    (hc : t.connections = s.connections.map (fun e => (e.1, g e.1 e.2))) (hn : t.next = s.next) :
    t.Numbered := by
  have hids : t.connections.map Prod.fst = s.connections.map Prod.fst := by
    rw [hc, List.map_map]
    rfl
  refine ⟨hids ▸ h.nodup, fun e he => ?_⟩
  obtain ⟨f, hf, hfe⟩ := List.mem_map.mp (hids ▸ List.mem_map_of_mem he)
  rw [hn, ← hfe]
  exact h.lt_next f hf

/-! ## what operations do to connections -/

theorem Numbered.connections_alter (h : s.Numbered) (id : Nat)
    (f : Connection Tag → Connection Tag) :
    (s.alter id f).connections =
      s.connections.map (fun e => (e.1, if e.1 = id then f e.2 else e.2)) := by
  rw [alter]
  split
  next c hc =>
    refine List.map_congr_left fun e he => ?_
    split
    next hid => rw [h.eq_of_mem hc he hid, hid]
    next => rfl
  next hn =>
    refine (List.map_id' _).symm.trans (List.map_congr_left fun e he => ?_)
    rw [if_neg (not_mem_of_connection? hn he)]

theorem identify_fst (s : Service Tag) (id : Nat) (context : Context) :
    (s.identify id context).1 = s.alter id (fun c => (c.identify s.definitions context).1) := by
  rw [identify, alter]
  cases s.connection? id <;> rfl

theorem close_eq (s : Service Tag) (id : Nat) : s.close id = s.alter id Connection.close := by
  rw [close, alter]
  cases s.connection? id <;> rfl

theorem reevaluateAll_fst (ds : Definitions) (cs : List (Nat × Connection Tag)) :
    (reevaluateAll ds cs).1 = cs.map (fun e => (e.1, (e.2.reevaluate ds).1)) := by
  induction cs with
  | nil => rfl
  | cons e cs ih => rw [reevaluateAll, ih, List.map_cons]

theorem reevaluateAll_snd (ds : Definitions) (cs : List (Nat × Connection Tag)) :
    (reevaluateAll ds cs).2 = cs.flatMap (fun e => (e.2.reevaluate ds).2) := by
  induction cs with
  | nil => rfl
  | cons e cs ih => rw [reevaluateAll, ih, List.flatMap_cons]

end Service

/-- No connection is opened or forgotten. -/
def Operation.Keeps : Operation → Prop
  | connect _ _ | forget _ => False
  | _ => True

namespace Service

variable {s : Service Tag}

theorem definitions_alter (s : Service Tag) (id : Nat) (f : Connection Tag → Connection Tag) :
    (s.alter id f).definitions = s.definitions := by
  rw [alter]
  split <;> rfl

theorem next_alter (s : Service Tag) (id : Nat) (f : Connection Tag → Connection Tag) :
    (s.alter id f).next = s.next := by
  rw [alter]
  split <;> rfl

theorem definitions_step (s : Service Tag) (op : Operation) :
    (s.step op).1.definitions = op.redefine s.definitions := by
  cases op with
  | identify id context =>
    exact (congrArg definitions (identify_fst s id context)).trans (definitions_alter ..)
  | close id => exact (congrArg definitions (close_eq s id)).trans (definitions_alter ..)
  | listen id topic => exact definitions_alter ..
  | ignore id l => exact definitions_alter ..
  | _ => rfl

theorem next_step_of_keeps (s : Service Tag) {op : Operation} (hk : op.Keeps) :
    (s.step op).1.next = s.next := by
  cases op with
  | connect key context => cases hk
  | forget id => cases hk
  | identify id context => exact (congrArg next (identify_fst s id context)).trans (next_alter ..)
  | close id => exact (congrArg next (close_eq s id)).trans (next_alter ..)
  | listen id topic => exact next_alter ..
  | ignore id l => exact next_alter ..
  | upsert d => rfl
  | removeFlag key => rfl

/-- What an operation does to the connections, it does to each of them by itself. -/
theorem Numbered.connections_step (h : s.Numbered) {op : Operation} (hk : op.Keeps) :
    (s.step op).1.connections =
      s.connections.map (fun e => (e.1, (e.2.undergo (op.redefine s.definitions) e.1 op).1)) := by
  cases op with
  | connect key context => cases hk
  | forget id => cases hk
  | identify id context =>
    show (s.identify id context).1.connections = _
    rw [identify_fst, h.connections_alter]
    refine List.map_congr_left fun e _ => ?_
    simp only [Connection.undergo, eq_comm]
    split <;> rfl
  | close id =>
    show (s.close id).connections = _
    rw [close_eq, h.connections_alter]
    refine List.map_congr_left fun e _ => ?_
    simp only [Connection.undergo, eq_comm]
    split <;> rfl
  | listen id topic =>
    show (s.alter id _).connections = _
    rw [h.connections_alter]
    refine List.map_congr_left fun e _ => ?_
    by_cases hid : e.1 = id
    · simp only [Connection.undergo, hid, if_true]
    · simp only [Connection.undergo, hid, Ne.symm hid, if_false]
  | ignore id l =>
    show (s.alter id _).connections = _
    rw [h.connections_alter]
    refine List.map_congr_left fun e _ => ?_
    simp only [Connection.undergo, eq_comm]
    split <;> rfl
  | upsert d => exact reevaluateAll_fst _ _
  | removeFlag key => exact reevaluateAll_fst _ _

end Service

/-! ## who is called -/

/-- Every listener of a connection is known by its number and that of the connection. -/
def Service.Tagged (s : Service Tag) : Prop :=
  ∀ e ∈ s.connections, e.2.feed.listeners.Tagged (fun l => (e.1, l))

namespace Connection

variable {ds : Definitions} {id : Nat} {c : Connection Tag}

theorem listeners_identify (ds : Definitions) (context : Context) (c : Connection Tag) :
    (c.identify ds context).1.feed.listeners = c.feed.listeners := by
  rw [identify]
  cases c.seat.identify context <;> rfl

theorem calls_identify (ht : c.feed.listeners.Tagged (fun l => (id, l))) (context : Context)
    {k : Call Tag} (hk : k ∈ (c.identify ds context).2.1) : k.role.1 = id := by
  rw [identify] at hk
  cases hs : c.seat.identify context with
  | error e => rw [hs] at hk; cases hk
  | ok seat =>
    rw [hs] at hk
    obtain ⟨l, hl⟩ := ht.role_of_mem_calls hk
    rw [hl]

theorem calls_reevaluate (ht : c.feed.listeners.Tagged (fun l => (id, l))) {k : Call Tag}
    (hk : k ∈ (c.reevaluate ds).2) : k.role.1 = id := by
  obtain ⟨l, hl⟩ := ht.role_of_mem_calls hk
  rw [hl]

theorem tagged_undergo (ht : c.feed.listeners.Tagged (fun l => (id, l))) (op : Operation) :
    (c.undergo ds id op).1.feed.listeners.Tagged (fun l => (id, l)) := by
  cases op with
  | identify other context =>
    rw [undergo]
    split
    · exact (listeners_identify ds context c).symm ▸ ht
    · exact ht
  | close other =>
    rw [undergo]
    split
    · exact .clear _
    · exact ht
  | listen other topic =>
    rw [undergo]
    split
    · exact ht.add topic
    · exact ht
  | ignore other l =>
    rw [undergo]
    split
    · exact ht.remove l
    · exact ht
  | _ => exact ht

end Connection

namespace Service

variable {s : Service Tag}

theorem Numbered.connect (h : s.Numbered) (key : String) (context : Context) :
    (s.connect key context).Numbered := by
  constructor
  · show ((s.connections ++ [_]).map Prod.fst).Nodup
    rw [List.map_append, List.nodup_append]
    refine ⟨h.nodup, List.nodup_singleton _, fun a ha b hb hab => ?_⟩
    obtain ⟨e, he, rfl⟩ := List.mem_map.mp ha
    have hb : b = s.next := List.mem_singleton.mp hb
    exact Nat.lt_irrefl _ (hb ▸ hab ▸ h.lt_next e he)
  · intro e he
    rcases List.mem_append.mp he with he | he
    · exact Nat.lt_succ_of_lt (h.lt_next e he)
    · rw [List.mem_singleton.mp he]
      exact Nat.lt_succ_self _

theorem Numbered.forget (h : s.Numbered) (id : Nat) : (s.forget id).Numbered :=
  ⟨h.nodup.sublist (List.filter_sublist.map _),
    fun e he => h.lt_next e (List.mem_filter.mp he).1⟩

theorem Numbered.step (h : s.Numbered) (op : Operation) : (s.step op).1.Numbered := by
  by_cases hk : op.Keeps
  · exact h.map (fun id c => (c.undergo (op.redefine s.definitions) id op).1)
      (h.connections_step hk) (next_step_of_keeps s hk)
  · cases op with
    | connect key context => exact h.connect key context
    | forget id => exact h.forget id
    | _ => exact absurd trivial hk

theorem Tagged.step (ht : s.Tagged) (h : s.Numbered) (op : Operation) : (s.step op).1.Tagged := by
  intro e he
  by_cases hk : op.Keeps
  · rw [h.connections_step hk] at he
    obtain ⟨f, hf, rfl⟩ := List.mem_map.mp he
    exact Connection.tagged_undergo (ht f hf) op
  · cases op with
    | connect key context =>
      rcases List.mem_append.mp he with he | he
      · exact ht e he
      · rw [List.mem_singleton.mp he]
        exact ListenerSet.tagged_empty _
    | forget id => exact ht e (List.mem_filter.mp he).1
    | _ => exact absurd trivial hk

/-- Who changes all connections calls each listener for its own connection alone. -/
theorem batches_flatMap {cs : List (Nat × Connection Tag)} (hn : (cs.map Prod.fst).Nodup)
    {g : Connection Tag → List (Call Tag)} (hg : ∀ e ∈ cs, ∀ k ∈ g e.2, k.role.1 = e.1) {id : Nat}
    {c : Connection Tag} (hc : (id, c) ∈ cs) (l : ListenerId) :
    Call.batches (id, l) (cs.flatMap (fun e => g e.2)) = Call.batches (id, l) (g c) := by
  have hother : ∀ e ∈ cs, e.1 ≠ id → Call.batches (id, l) (g e.2) = [] := fun e he hid =>
    Call.batches_eq_nil fun k hk heq => hid ((hg e he k hk).symm.trans (congrArg Prod.fst heq))
  induction cs with
  | nil => cases hc
  | cons e cs ih =>
    rw [List.map_cons, List.nodup_cons] at hn
    rw [List.flatMap_cons, Call.batches_append]
    rcases List.mem_cons.mp hc with rfl | hc
    · have hrest : Call.batches (id, l) (cs.flatMap (fun e => g e.2)) = [] := by
        refine Call.batches_eq_nil fun k hk heq => ?_
        obtain ⟨f, hf, hk⟩ := List.mem_flatMap.mp hk
        have : f.1 = id :=
          (hg f (List.mem_cons_of_mem _ hf) k hk).symm.trans (congrArg Prod.fst heq)
        exact hn.1 (List.mem_map.mpr ⟨f, hf, this⟩)
      rw [hrest, List.append_nil]
    · have hid : e.1 ≠ id := fun hid => hn.1 (hid ▸ List.mem_map_of_mem hc)
      rw [hother e List.mem_cons_self hid, List.nil_append]
      exact ih hn.2 (fun f hf => hg f (List.mem_cons_of_mem _ hf)) hc
        (fun f hf => hother f (List.mem_cons_of_mem _ hf))

/-- **An operation calls the listeners of a connection for what it does to that connection.** -/
theorem Numbered.batches_step (h : s.Numbered) (ht : s.Tagged) {id : Nat} {c : Connection Tag}
    (hc : s.connection? id = some c) (op : Operation) (l : ListenerId) :
    batches id l (s.step op).2 =
      Call.batches (id, l) (c.undergo (op.redefine s.definitions) id op).2 := by
  have hmem := mem_of_connection? hc
  have hall (ds : Definitions) : batches id l ((reevaluateAll ds s.connections).2.map .called) =
      Call.batches (id, l) (c.reevaluate ds).2 := by
    rw [batches_called, reevaluateAll_snd]
    exact batches_flatMap h.nodup (g := fun c => (c.reevaluate ds).2)
      (fun e he _ hk => Connection.calls_reevaluate (ht e he) hk) hmem l
  cases op with
  | upsert d => exact hall _
  | removeFlag key => exact hall _
  | identify other context =>
    show batches id l ((s.identify other context).2.1.map .called ++ [_]) = _
    rw [batches_append, batches_called, Connection.undergo]
    show Call.batches (id, l) (s.identify other context).2.1 ++ [] = _
    rw [List.append_nil, identify]
    split
    next hn =>
      rw [if_neg]
      rintro rfl
      cases hn.symm.trans hc
    next d hd =>
      split
      next hid =>
        subst hid
        cases hd.symm.trans hc
        rfl
      next hid =>
        refine Call.batches_eq_nil fun k hk heq => hid ?_
        have hk := Connection.calls_identify (ht _ (mem_of_connection? hd)) context hk
        exact hk.symm.trans (congrArg Prod.fst heq)
  | close other =>
    show batches id l ((s.connection? other).toList.map (fun _ => .closed other)) = _
    rw [Connection.undergo]
    cases s.connection? other <;> split <;> rfl
  | listen other topic => rw [Connection.undergo]; split <;> rfl
  | ignore other l => rw [Connection.undergo]; split <;> rfl
  | connect key context => rfl
  | forget other => rfl

/-! ## a connection during a run -/

theorem connection?_connect (s : Service Tag) (key : String) (context : Context) (id : Nat) :
    (s.connect key context).connection? id =
      (s.connection? id).or (if s.next = id then
          some ⟨.new key context, ⟨(Seat.new key context).flags s.definitions, .empty⟩⟩
        else none) := by
  show ((s.connections ++ [_]).find? _).map _ = _
  rw [List.find?_append, Option.map_or]
  congr 1
  by_cases hid : s.next = id
  · simp [hid]
  · simp [hid]

theorem connection?_forget (s : Service Tag) (other id : Nat) :
    (s.forget other).connection? id = if other = id then none else s.connection? id := by
  show ((s.connections.filter _).find? _).map _ = _
  rw [List.find?_filter]
  split
  next hid =>
    subst hid
    simp
  next hid =>
    rw [connection?]
    congr 2
    funext e
    by_cases he : e.1 = id
    · simp [he, Ne.symm hid]
    · simp [he]

theorem Numbered.connection?_step (h : s.Numbered) {id : Nat} {c : Connection Tag}
    (hc : s.connection? id = some c) {op : Operation} (hf : op ≠ .forget id) :
    (s.step op).1.connection? id = some (c.undergo (op.redefine s.definitions) id op).1 := by
  by_cases hk : op.Keeps
  · rw [connection?_map (fun id c => (c.undergo (op.redefine s.definitions) id op).1)
      (h.connections_step hk), hc]
    rfl
  · cases op with
    | connect key context => exact (connection?_connect s key context id).trans (by rw [hc]; rfl)
    | forget other =>
      refine (connection?_forget s other id).trans ?_
      rw [if_neg (fun hid => hf (congrArg Operation.forget hid)), hc]
      rfl
    | _ => exact absurd trivial hk

/-- A connection was there before an operation, or is opened by it. -/
theorem Numbered.connection?_step_cases (h : s.Numbered) {op : Operation} {id : Nat}
    {c : Connection Tag} (hc : (s.step op).1.connection? id = some c) :
    (∃ b, s.connection? id = some b ∧ c = (b.undergo (op.redefine s.definitions) id op).1) ∨
      ∃ key context, op = .connect key context ∧ id = s.next ∧
        c = ⟨.new key context, ⟨(Seat.new key context).flags s.definitions, .empty⟩⟩ := by
  cases hb : s.connection? id with
  | some b =>
    by_cases hf : op = .forget id
    · subst hf
      have := (connection?_forget s id id).symm.trans hc
      rw [if_pos rfl] at this
      cases this
    · rw [h.connection?_step hb hf] at hc
      exact .inl ⟨b, rfl, (Option.some.inj hc).symm⟩
  | none =>
    by_cases hk : op.Keeps
    · rw [connection?_map (fun id c => (c.undergo (op.redefine s.definitions) id op).1)
        (h.connections_step hk), hb] at hc
      cases hc
    · cases op with
      | connect key context =>
        have hc := (connection?_connect s key context id).symm.trans hc
        rw [hb, Option.none_or] at hc
        split at hc
        next hid => exact .inr ⟨key, context, rfl, hid.symm, (Option.some.inj hc).symm⟩
        next => cases hc
      | forget other =>
        have := (connection?_forget s other id).symm.trans hc
        rw [hb] at this
        split at this <;> cases this
      | _ => exact absurd trivial hk

end Service

/-- A connection is what was seen of it: it has the context that it was given last, the flags of
that context, and it is closed once it was seen to be closed. -/
structure Connection.Told (ds : Definitions) (id : Nat) (ms : List Mark) (c : Connection Tag) :
    Prop where
  flags_eq : c.feed.flags = c.seat.flags ds
  context_eq : (contexts id ms).getLast? = some c.seat.context
  closed_iff : c.seat.closed = true ↔ .closed id ∈ ms

namespace Connection.Told

variable {ds es : Definitions} {id : Nat} {ms ns : List Mark} {c : Connection Tag}

/-- Nothing was seen of the connection, and it has the flags of other definitions. -/
theorem replace (h : c.Told ds id ms) {flags : FlagSet} (hf : flags = c.seat.flags es)
    (hn : contexts id ns = []) (hc : .closed id ∉ ns) {listeners : ListenerSet Tag} :
    Connection.Told es id (ms ++ ns) ⟨c.seat, ⟨flags, listeners⟩⟩ := by
  refine ⟨hf, ?_, ?_⟩
  · rw [contexts_append, hn, List.append_nil]
    exact h.context_eq
  · rw [List.mem_append]
    exact h.closed_iff.trans ⟨.inl, fun hm => hm.resolve_right hc⟩

theorem keep (h : c.Told ds id ms) (hn : contexts id ns = []) (hc : .closed id ∉ ns)
    {listeners : ListenerSet Tag} :
    Connection.Told ds id (ms ++ ns) ⟨c.seat, ⟨c.feed.flags, listeners⟩⟩ :=
  h.replace h.flags_eq hn hc

theorem close (h : c.Told ds id ms) : Connection.Told ds id (ms ++ [.closed id]) c.close where
  flags_eq := h.flags_eq
  context_eq := by
    rw [contexts_append]
    exact (List.append_nil _).symm ▸ h.context_eq
  closed_iff := ⟨fun _ => List.mem_append_right _ (List.mem_singleton_self _), fun _ => rfl⟩

/-- An open connection is given another context. -/
theorem identify (h : c.Told ds id ms) (ho : c.seat.closed = false) (context : Context) :
    Connection.Told ds id
      (ms ++ ((c.identify ds context).2.1.map .called ++
        [.answered id context (c.identify ds context).2.2]))
      (c.identify ds context).1 := by
  rw [identify_open ho]
  refine ⟨rfl, ?_, ?_⟩
  · rw [← List.append_assoc]
    exact getLast?_contexts_concat (by exact if_pos rfl) _
  · rw [List.mem_append, List.mem_append]
    refine h.closed_iff.trans ⟨.inl, ?_⟩
    rintro (hm | hm | hm)
    · exact hm
    · exact absurd hm (not_closed_called id _)
    · cases List.mem_singleton.mp hm

end Connection.Told

namespace Service

variable {s : Service Tag} {ms : List Mark}

theorem step_identify {id : Nat} {c : Connection Tag} (hc : s.connection? id = some c)
    (context : Context) :
    s.step (.identify id context) =
      (s.update id (c.identify s.definitions context).1,
        (c.identify s.definitions context).2.1.map .called ++
          [.answered id context (c.identify s.definitions context).2.2]) := by
  have h : s.identify id context = (s.update id (c.identify s.definitions context).1,
      (c.identify s.definitions context).2.1, (c.identify s.definitions context).2.2) := by
    rw [identify, hc]
  rw [step, h]

theorem Numbered.update_self (h : s.Numbered) {id : Nat} {c : Connection Tag}
    (hc : s.connection? id = some c) : s.update id c = s := by
  have : (s.update id c).connections = s.connections := by
    refine (List.map_congr_left fun e he => ?_).trans (List.map_id' _)
    split
    next hid => rw [← h.eq_of_mem hc he hid, ← hid]
    next => rfl
  cases s
  exact congrArg (fun cs => Service.mk _ cs _) this

/-- A connection that is closed refuses another context, and nothing is changed by that. -/
theorem Numbered.step_identify_closed (h : s.Numbered) {id : Nat} {c : Connection Tag}
    (hc : s.connection? id = some c) (hclosed : c.seat.closed = true) (context : Context) :
    s.step (.identify id context) = (s, [.answered id context (.error .closed)]) := by
  rw [step_identify hc, Connection.identify_closed hclosed, h.update_self hc]
  rfl

theorem Numbered.told_step (h : s.Numbered) {id : Nat} {c : Connection Tag}
    (hc : s.connection? id = some c) (ht : c.Told s.definitions id ms) (op : Operation) :
    ((c.undergo (op.redefine s.definitions) id op).1).Told (op.redefine s.definitions) id
      (ms ++ (s.step op).2) := by
  have hlt : id ≠ s.next := Nat.ne_of_lt (h.lt_next _ (mem_of_connection? hc))
  cases op with
  | connect key context =>
    refine ht.keep ?_ ?_
    · show (if s.next = id then some context else none).toList = []
      rw [if_neg hlt.symm]
      rfl
    · exact fun hm => nomatch List.mem_singleton.mp hm
  | upsert d => exact ht.replace rfl (contexts_called id _) (not_closed_called id _)
  | removeFlag key => exact ht.replace rfl (contexts_called id _) (not_closed_called id _)
  | forget other => exact ht.keep rfl List.not_mem_nil
  | listen other topic =>
    rw [Connection.undergo]
    split <;> exact ht.keep rfl List.not_mem_nil
  | ignore other l =>
    rw [Connection.undergo]
    split <;> exact ht.keep rfl List.not_mem_nil
  | close other =>
    rw [Connection.undergo]
    split
    next hid =>
      subst hid
      show Connection.Told _ _ (ms ++ (s.connection? other).toList.map _) _
      rw [hc]
      exact ht.close
    next hid =>
      refine ht.keep ?_ ?_
      · show contexts id ((s.connection? other).toList.map _) = []
        cases s.connection? other <;> rfl
      · show Mark.closed id ∉ (s.connection? other).toList.map _
        cases s.connection? other with
        | none => exact List.not_mem_nil
        | some d => simpa using Ne.symm hid
  | identify other context =>
    rw [Connection.undergo]
    split
    next hid =>
      subst hid
      by_cases hclosed : c.seat.closed = true
      · rw [h.step_identify_closed hc hclosed, Connection.identify_closed hclosed]
        exact ht.keep rfl (by simp)
      · rw [step_identify hc]
        exact ht.identify (Bool.eq_false_iff.mpr hclosed) context
    next hid =>
      refine ht.keep ?_ ?_
      · show contexts id ((s.identify other context).2.1.map .called ++ [_]) = []
        rw [contexts_append, contexts_called, List.nil_append, contexts_answered_of_ne hid]
      · intro hm
        rcases List.mem_append.mp hm with hm | hm
        · exact not_closed_called id _ hm
        · cases List.mem_singleton.mp hm

/-! ## all connections during a run -/

/-- All connections are what was seen of them, and those that are still to come were not seen. -/
structure Sound (s : Service Tag) (ms : List Mark) : Prop where
  numbered : s.Numbered
  tagged : s.Tagged
  told : ∀ id c, s.connection? id = some c → c.Told s.definitions id ms
  not_closed : ∀ id, .closed id ∈ ms → id < s.next

theorem Sound.start (ds : List Definition) : Sound (.start ds) [] where
  numbered := ⟨List.nodup_nil, fun _ he => absurd he List.not_mem_nil⟩
  tagged := fun _ he => absurd he List.not_mem_nil
  told := fun _ _ hc => absurd (mem_of_connection? hc) List.not_mem_nil
  not_closed := fun _ hm => absurd hm List.not_mem_nil

theorem next_le_step (s : Service Tag) (op : Operation) : s.next ≤ (s.step op).1.next := by
  by_cases hk : op.Keeps
  · exact Nat.le_of_eq (next_step_of_keeps s hk).symm
  · cases op with
    | connect key context => exact Nat.le_succ _
    | forget id => exact Nat.le_refl _
    | _ => exact absurd trivial hk

theorem closed_mem_step {op : Operation} {id : Nat} (h : .closed id ∈ (s.step op).2) :
    ∃ c, s.connection? id = some c := by
  cases op with
  | connect key context => cases List.mem_singleton.mp h
  | upsert d => exact absurd h (not_closed_called id _)
  | removeFlag key => exact absurd h (not_closed_called id _)
  | identify other context =>
    rcases List.mem_append.mp h with h | h
    · exact absurd h (not_closed_called id _)
    · cases List.mem_singleton.mp h
  | close other =>
    obtain ⟨c, hc, hid⟩ := List.mem_map.mp h
    cases hid
    exact ⟨c, Option.mem_toList.mp hc⟩
  | _ => cases h

theorem Sound.step (h : s.Sound ms) (op : Operation) :
    (s.step op).1.Sound (ms ++ (s.step op).2) := by
  refine ⟨h.numbered.step op, h.tagged.step h.numbered op, fun id c hc => ?_, fun id hm => ?_⟩
  · rw [definitions_step]
    rcases h.numbered.connection?_step_cases hc with ⟨b, hb, rfl⟩ | ⟨key, context, rfl, rfl, rfl⟩
    · exact h.numbered.told_step hb (h.told id b hb) op
    · refine ⟨rfl, getLast?_contexts_concat (by exact if_pos rfl) ms, nofun, fun hm => ?_⟩
      rcases List.mem_append.mp hm with hm | hm
      · exact absurd (h.not_closed _ hm) (Nat.lt_irrefl _)
      · cases List.mem_singleton.mp hm
  · refine Nat.lt_of_lt_of_le ?_ (next_le_step s op)
    rcases List.mem_append.mp hm with hm | hm
    · exact h.not_closed id hm
    · obtain ⟨c, hc⟩ := closed_mem_step hm
      exact h.numbered.lt_next _ (mem_of_connection? hc)

theorem Sound.run (h : s.Sound ms) (ops : List Operation) :
    (s.run ops).Sound (ms ++ s.trace ops) := by
  induction ops generalizing s ms with
  | nil =>
    rw [trace_nil, List.append_nil]
    exact h
  | cons op ops ih =>
    rw [trace_cons, ← List.append_assoc]
    exact ih (h.step op)

theorem find?_run (s : Service Tag) (ops : List Operation) (key : String) :
    (s.run ops).definitions.find? key =
      ops.foldl (Operation.define key) (s.definitions.find? key) := by
  induction ops generalizing s with
  | nil => rfl
  | cons op ops ih => rw [run_cons, ih, definitions_step, find?_redefine, List.foldl_cons]

end Service

/-! ## listeners on any change -/

/-- An operation that leaves the listener with a number in its place. -/
def Operation.Spares (id : Nat) (l : ListenerId) (op : Operation) : Prop :=
  op ≠ .close id ∧ op ≠ .forget id ∧ op ≠ .ignore id l

namespace Connection

variable {ds : Definitions} {id : Nat} {l : ListenerId} {c : Connection Tag}

/-- **An operation hands a listener on any change the batch that leads to the new flags.** -/
theorem batches_undergo (h : c.feed.listeners.Sole l (id, l)) (op : Operation) :
    Call.batches (id, l) (c.undergo ds id op).2 =
      c.feed.flags.batchTo (c.undergo ds id op).1.feed.flags := by
  have hself : [] = c.feed.flags.batchTo c.feed.flags :=
    (FlagSet.batchTo_of_same (FlagSet.same_refl _)).symm
  cases op with
  | upsert d => exact Feed.batches_replace h _
  | removeFlag key => exact Feed.batches_replace h _
  | connect key context => exact hself
  | forget other => exact hself
  | close other => rw [undergo]; split <;> exact hself
  | listen other topic => rw [undergo]; split <;> exact hself
  | ignore other l => rw [undergo]; split <;> exact hself
  | identify other context =>
    rw [undergo]
    split
    · by_cases hclosed : c.seat.closed = true
      · rw [identify_closed hclosed]
        exact hself
      · rw [identify_open (Bool.eq_false_iff.mpr hclosed)]
        exact Feed.batches_replace (f := c.feed) h _
    · exact hself

theorem sole_undergo (h : c.feed.listeners.Sole l (id, l)) {op : Operation}
    (ho : op.Spares id l) : (c.undergo ds id op).1.feed.listeners.Sole l (id, l) := by
  cases op with
  | close other =>
    rw [undergo, if_neg (fun hid => ho.1 (congrArg Operation.close hid))]
    exact h
  | listen other topic =>
    rw [undergo]
    split
    · exact h.add topic (fun heq => Nat.ne_of_gt h.lt_next (congrArg Prod.snd heq))
    · exact h
  | ignore other k =>
    rw [undergo]
    split
    next hid =>
      refine h.remove (fun hk => ho.2.2 ?_)
      rw [hid, hk]
    next => exact h
  | identify other context =>
    rw [undergo]
    split
    · rw [listeners_identify]
      exact h
    · exact h
  | _ => exact h

end Connection

namespace Service

variable {s : Service Tag}

theorem Numbered.follows_run (h : s.Numbered) (ht : s.Tagged) {id : Nat} {l : ListenerId}
    {c : Connection Tag} (hc : s.connection? id = some c) (hl : c.feed.listeners.Sole l (id, l))
    {old : FlagSet} {bs : List (List Change)} (hf : old.Follows bs c.feed.flags)
    {ops : List Operation} (ho : ∀ op ∈ ops, op.Spares id l) :
    ∃ d, (s.run ops).connection? id = some d ∧ d.feed.listeners.Sole l (id, l) ∧
      old.Follows (bs ++ batches id l (s.trace ops)) d.feed.flags := by
  induction ops generalizing s c bs with
  | nil =>
    refine ⟨c, hc, hl, ?_⟩
    rw [trace_nil]
    exact (List.append_nil bs).symm ▸ hf
  | cons op ops ih =>
    have hop := ho op List.mem_cons_self
    rw [run_cons, trace_cons, batches_append, h.batches_step ht hc, Connection.batches_undergo hl,
      ← List.append_assoc]
    exact ih (h.step op) (ht.step h op) (h.connection?_step hc hop.2.1)
      (Connection.sole_undergo hl hop) (hf.next _) (fun p hp => ho p (List.mem_cons_of_mem _ hp))

/-! ## what holds after any run -/

/-- **After any run every connection has one value for each definition there is, the one that it has
in the context that the connection was given last; once closed it refuses another context, and
nothing is changed by that; and a listener on any change that is registered now, as long as it
stays, gets at most one batch from an operation, none if no value changed, and by all of them can
follow the flags.** -/
theorem connections_follow (ds : List Definition) (ops : List Operation) (id : Nat)
    (c : Connection Tag) (hc : ((start ds).run ops).connection? id = some c) :
    let s := (start ds).run ops
    let ms := (start ds).trace ops
    (∃ context, (contexts id ms).getLast? = some context ∧
      ∀ key, c.feed.flags.find? key =
        (current? ds ops key).map (fun d => (d.evaluate context).value)) ∧
    (.closed id ∈ ms → ∀ context,
      s.step (.identify id context) = (s, [.answered id context (.error .closed)])) ∧
    (.closed id ∉ ms → ∀ context, ∃ d,
      (s.step (.identify id context)).1.connection? id = some d ∧
        .answered id context (.ok d.feed.flags) ∈ (s.step (.identify id context)).2) ∧
    ∀ later : List Operation, (∀ op ∈ later, op.Spares id c.feed.listeners.next) →
      let t := (s.step (.listen id .anyChange)).1
      let l := c.feed.listeners.next
      ∃ d, (t.run later).connection? id = some d ∧
        c.feed.flags.Follows (batches id l (t.trace later)) d.feed.flags ∧
        ∀ op, (batches id l ((t.run later).step op).2).length ≤ 1 ∧
          ∀ e, ((t.run later).step op).1.connection? id = some e →
            d.feed.flags.same e.feed.flags = true → batches id l ((t.run later).step op).2 = [] := by
  intro s ms
  have hs : s.Sound ms := (Sound.start ds).run ops
  have ht := hs.told id c hc
  refine ⟨⟨_, ht.context_eq, fun key => ?_⟩, fun hm context => ?_, fun hm context => ?_,
    fun later hlater => ?_⟩
  · rw [ht.flags_eq, Seat.flags, Definitions.flagSet, Table.find?_map, find?_run, current?]
    rw [show (start ds : Service Tag).definitions = .ofList ds from rfl, find?_ofList]
  · exact hs.numbered.step_identify_closed hc (ht.closed_iff.mpr hm) context
  · have hopen : c.seat.closed = false := Bool.eq_false_iff.mpr (hm ∘ ht.closed_iff.mp)
    have hi := Connection.identify_open hopen s.definitions context
    refine ⟨_, hs.numbered.connection?_step hc (fun h => nomatch h), ?_⟩
    rw [step_identify hc, Connection.undergo, if_pos rfl,
      show Operation.redefine s.definitions (.identify id context) = s.definitions from rfl, hi]
    exact List.mem_append_right _ (List.mem_singleton_self _)
  · intro t l
    have hn : t.Numbered := hs.numbered.step _
    have hg : t.Tagged := hs.tagged.step hs.numbered _
    have htc : t.connection? id = some (c.listen id .anyChange) := by
      have := hs.numbered.connection?_step hc
        (show Operation.listen id .anyChange ≠ .forget id from nofun)
      rw [Connection.undergo, if_pos rfl] at this
      exact this
    have hsole : (c.listen id .anyChange).feed.listeners.Sole l (id, l) :=
      (hs.tagged _ (mem_of_connection? hc)).sole (fun _ _ heq => congrArg Prod.snd heq)
    obtain ⟨d, hd, hdl, hdf⟩ :=
      hn.follows_run hg htc hsole (FlagSet.Follows.refl c.feed.flags) hlater
    have hsound : (t.run later).Sound ((ms ++ _) ++ t.trace later) := (hs.step _).run later
    refine ⟨d, hd, hdf, fun op => ?_⟩
    rw [hsound.numbered.batches_step hsound.tagged hd, Connection.batches_undergo hdl]
    refine ⟨FlagSet.length_batchTo_le _ _, fun e he hsame => ?_⟩
    by_cases hf : op = .forget id
    · subst hf
      exact FlagSet.batchTo_of_same (FlagSet.same_refl _)
    · rw [hsound.numbered.connection?_step hd hf] at he
      rw [Option.some.inj he]
      exact FlagSet.batchTo_of_same hsame

/-- a flag that is turned on, and one that is turned on again -/
def turnedOn : List Operation :=
  [.upsert (.shared "alpha" 100), .upsert (.shared "alpha" 100)]

theorem follows_of_upsert :
    let s := (start [.shared "alpha" 0]).run [.connect "key" (Identity.anonymous "en").context]
    let t := (s.step (.listen 0 .anyChange)).1
    (batches 0 0 (t.trace turnedOn)).length = 1 ∧
      ∃ c d, s.connection? 0 = some c ∧ (t.run turnedOn).connection? 0 = some d ∧
        c.feed.flags.text = "\x7b\"alpha\":false\x7d" ∧ d.feed.flags.text = "\x7b\"alpha\":true\x7d" ∧
        c.feed.flags.Follows (batches 0 0 (t.trace turnedOn)) d.feed.flags := by
  intro s t
  have htext : (s.connection? 0).map (fun c => (c.feed.flags.text, c.feed.listeners.next)) =
      some ("\x7b\"alpha\":false\x7d", 0) := by decide +kernel
  have htext' : ((t.run turnedOn).connection? 0).map (fun d => d.feed.flags.text) =
      some "\x7b\"alpha\":true\x7d" := by decide +kernel
  obtain ⟨c, hc, hct⟩ := Option.map_eq_some_iff.mp htext
  have hl : c.feed.listeners.next = 0 := congrArg Prod.snd hct
  have hspared : ∀ op ∈ turnedOn, op.Spares 0 c.feed.listeners.next := by
    simp [turnedOn, Operation.Spares]
  obtain ⟨d, hd, hf, -⟩ := (connections_follow _ _ 0 c hc).2.2.2 turnedOn hspared
  rw [hl] at hf
  have hdt : d.feed.flags.text = _ := Option.some.inj ((congrArg _ hd).symm.trans htext')
  exact ⟨by decide +kernel, c, d, hc, hd, congrArg Prod.fst hct, hdt, hf⟩

end Service

end FeatureFlags.Memory
