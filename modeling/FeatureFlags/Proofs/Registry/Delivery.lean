import FeatureFlags.Proofs.Registry.Streams

/-!
# What a stream is given

A registry on a connection, while streams are opened, read and dropped, the registry is enabled and
cleared, and changes are emitted, in any order.

* `Board`, `Board.step`, `Board.run`   the registry with the listeners on its connection;
* `Board.taken`      what was taken from a stream during a run;
* `Op.heard`         what a stream ought to be given, read off the operations alone: the values of
                     its flag that are emitted while the registry is enabled, until the stream is
                     dropped or the registry cleared;
* `Board.tracks_step`   what one operation does to a stream;
* `Board.items_of_subscribe`   exactly these values are handed out, each once and in their order.
-/

namespace FeatureFlags.Registry

variable {κ : Type}

/-! ## runs -/

/-- A registry, and the listeners on its connection. -/
structure Board (κ : Type) where
  registry : Registry
  listeners : ListenerSet (Role κ)

inductive Op (κ : Type) where
  | subscribe (flag : String)
  | drop (id : StreamId)
  | take (id : StreamId)
  | enable
  | clear
  | emit (changes : List Change)
  /-- somebody else listens on the connection -/
  | listen (topic : Topic) (role : κ)

namespace Board

def start : Board κ := ⟨.empty, .empty⟩

def step (b : Board κ) : Op κ → Board κ
  | .subscribe flag =>
    let r := b.registry.subscribe b.listeners flag
    ⟨r.1, r.2.1⟩
  | .drop id =>
    let r := b.registry.unsubscribe b.listeners id
    ⟨r.1, r.2⟩
  | .take id => ⟨(b.registry.take id).1, b.listeners⟩
  | .enable => ⟨b.registry.enable, b.listeners⟩
  | .clear =>
    let r := b.registry.clear b.listeners
    ⟨r.1, r.2⟩
  | .emit changes => ⟨b.registry.hear (b.listeners.calls changes), b.listeners⟩
  | .listen topic role => ⟨b.registry, (b.listeners.add topic (.other role)).1⟩

def run (b : Board κ) (ops : List (Op κ)) : Board κ := ops.foldl step b

/-- what an operation hands out of a stream -/
def output (b : Board κ) (id : StreamId) : Op κ → List Json
  | .take i => if i = id then (b.registry.take id).2 else []
  | _ => []

/-- all that is handed out of a stream, one operation after the other -/
def taken (id : StreamId) : Board κ → List (Op κ) → List Json
  | _, [] => []
  | b, op :: ops => b.output id op ++ taken id (b.step op) ops

theorem run_nil (b : Board κ) : b.run [] = b := rfl
theorem run_cons (b : Board κ) (op : Op κ) (ops : List (Op κ)) :
    b.run (op :: ops) = (b.step op).run ops := rfl
theorem taken_nil (id : StreamId) (b : Board κ) : taken id b [] = [] := rfl
theorem taken_cons (id : StreamId) (b : Board κ) (op : Op κ) (ops : List (Op κ)) :
    taken id b (op :: ops) = b.output id op ++ taken id (b.step op) ops := rfl

end Board

/-! ## what ought to be given -/

namespace Op

def isEnable : Op κ → Bool
  | .enable => true
  | _ => false

/-- whether a stream gets nothing any more after an operation -/
def ends (id : StreamId) : Op κ → Bool
  | .drop i => i = id
  | .clear => true
  | _ => false

/-- the values of a flag that an operation emits; `on` says whether the registry is enabled -/
def gives (flag : String) (on : Bool) : Op κ → List Json
  | .emit changes => if on then news flag changes else []
  | _ => []

theorem gives_of_ends {id : StreamId} {op : Op κ} (h : op.ends id = true) (flag : String)
    (on : Bool) : op.gives flag on = [] := by
  cases op with
  | emit changes => cases h
  | _ => rfl

/-- What a stream on a flag ought to be given while the operations happen; `on` says whether the
registry is enabled before them. -/
def heard (flag : String) (id : StreamId) : Bool → List (Op κ) → List Json
  | _, [] => []
  | on, op :: ops =>
    if op.ends id then [] else op.gives flag on ++ heard flag id (on || op.isEnable) ops

theorem heard_nil (flag : String) (id : StreamId) (on : Bool) :
    heard flag id on ([] : List (Op κ)) = [] := rfl
theorem heard_cons (flag : String) (id : StreamId) (on : Bool) (op : Op κ) (ops : List (Op κ)) :
    heard flag id on (op :: ops) =
      if op.ends id then [] else op.gives flag on ++ heard flag id (on || op.isEnable) ops := rfl

end Op

/-! ## one operation -/

namespace Board

theorem wired_step {b : Board κ} (h : Wired b.registry b.listeners) (op : Op κ) :
    Wired (b.step op).registry (b.step op).listeners := by
  cases op with
  | subscribe flag => exact h.subscribe flag
  | drop id => exact h.unsubscribe id
  | take id => exact h.of_groups_eq (groups_take b.registry id)
  | enable => exact h.of_groups_eq rfl
  | clear => exact h.clear
  | emit changes =>
    refine h.of_groups_eq ?_
    rw [step, h.hear_calls, groups_announce]
  | listen topic role => exact h.listen topic role

theorem wired_run {b : Board κ} (h : Wired b.registry b.listeners) (ops : List (Op κ)) :
    Wired (b.run ops).registry (b.run ops).listeners := by
  induction ops generalizing b with
  | nil => exact h
  | cons op ops ih => exact ih (wired_step h op)

theorem enabled_step {b : Board κ} (h : Wired b.registry b.listeners) (op : Op κ) :
    (b.step op).registry.enabled = (b.registry.enabled || op.isEnable) := by
  cases op with
  | subscribe flag => exact (enabled_subscribe _ _ flag).trans (Bool.or_false _).symm
  | drop id => exact (enabled_unsubscribe _ _ id).trans (Bool.or_false _).symm
  | take id => exact (enabled_take _ id).trans (Bool.or_false _).symm
  | enable => exact (Bool.or_true _).symm
  | clear => exact (Bool.or_false _).symm
  | emit changes =>
    rw [step, h.hear_calls, enabled_announce]
    exact (Bool.or_false _).symm
  | listen topic role => exact (Bool.or_false _).symm

theorem enabled_run {b : Board κ} (h : Wired b.registry b.listeners) (ops : List (Op κ)) :
    (b.run ops).registry.enabled = (b.registry.enabled || ops.any Op.isEnable) := by
  induction ops generalizing b with
  | nil => rw [run_nil, List.any_nil, Bool.or_false]
  | cons op ops ih =>
    rw [run_cons, ih (wired_step h op), enabled_step h, List.any_cons, Bool.or_assoc]

/-- What an operation makes of a stream that it does not drop: what is handed out comes off its
front, what is emitted is added at its end. -/
theorem tracks_step {b : Board κ} (hw : Wired b.registry b.listeners) {s : Stream}
    (h : Tracks b.registry s) {op : Op κ} (hop : op ≠ .drop s.id) :
    ∃ t, t.id = s.id ∧ t.flag = s.flag ∧ Tracks (b.step op).registry t ∧
      (b.step op).registry.attached s.id = (b.registry.attached s.id && !op.ends s.id) ∧
      b.output s.id op ++ t.waiting = s.waiting ++
        if b.registry.attached s.id then op.gives s.flag b.registry.enabled else [] := by
  -- all operations but one give nothing, whether the stream is in its group or not
  have hnil : ∀ (p : Bool), s.waiting ++ (if p then ([] : List Json) else []) = s.waiting :=
    fun p => by rw [ite_self, List.append_nil]
  cases op with
  | subscribe flag =>
    refine ⟨s, rfl, rfl, h.subscribe flag, ?_, (hnil _).symm⟩
    exact (attached_congr (h.member_of_subscribe flag)).trans (Bool.and_true _).symm
  | drop id =>
    have hi : s.id ≠ id := fun e => hop (e ▸ rfl)
    refine ⟨s, rfl, rfl, h.unsubscribe hw hi, ?_, (hnil _).symm⟩
    rw [Op.ends, decide_eq_false (Ne.symm hi), Bool.not_false, Bool.and_true]
    exact attached_congr (Tracks.member_of_unsubscribe hw hi)
  | take id =>
    have ha : ((b.step (.take id)).registry.attached s.id) =
        (b.registry.attached s.id && !(Op.take id : Op κ).ends s.id) :=
      (attached_congr fun f => member_congr (groups_take _ id) f s.id).trans (Bool.and_true _).symm
    by_cases hi : id = s.id
    · subst hi
      refine ⟨s.takeAll s.id, id_takeAll _ s, ?_, h.take_self, ha, ?_⟩
      · rw [Stream.takeAll, if_pos rfl]
      · rw [output, if_pos rfl, h.take_output, waiting_takeAll, List.append_nil]
        exact (hnil _).symm
    · refine ⟨s, rfl, rfl, h.take_other hi, ha, ?_⟩
      rw [output, if_neg hi]
      exact (hnil _).symm
  | enable =>
    exact ⟨s, rfl, rfl, ⟨h.stream?_eq, h.id_lt, h.taken_le, h.flag_eq⟩, (Bool.and_true _).symm,
      (hnil _).symm⟩
  | clear =>
    have hc : Tracks (b.registry.clear b.listeners).1 s := h.clear
    exact ⟨s, rfl, rfl, hc, (Bool.and_false _).symm, (hnil _).symm⟩
  | emit changes =>
    have ht := h.announce hw.flags_nodup changes
    rw [← hw.hear_calls] at ht
    refine ⟨s.push _, id_push s _, flag_push s _, ht, ?_, ?_⟩
    · rw [step, hw.hear_calls]
      exact (attached_congr fun f => member_congr (groups_announce _ changes) f s.id).trans
        (Bool.and_true _).symm
    · rw [h.waiting_push, Op.gives]
      by_cases ha : b.registry.attached s.id <;> by_cases he : b.registry.enabled <;>
        simp [ha, he, output]
  | listen topic role => exact ⟨s, rfl, rfl, h, (Bool.and_true _).symm, (hnil _).symm⟩

theorem fresh_step {b : Board κ} (hw : Wired b.registry b.listeners) (h : Fresh b.registry)
    (op : Op κ) : Fresh (b.step op).registry := by
  cases op with
  | subscribe flag => exact h.subscribe b.listeners flag
  | drop id => exact h.unsubscribe hw id
  | take id => exact h.take id
  | enable => exact ⟨h.stream_lt, h.member_lt⟩
  | clear => exact ⟨h.stream_lt, fun _ _ ⟨_, hg, _⟩ => nomatch hg⟩
  | emit changes =>
    rw [step, hw.hear_calls]
    exact h.announce changes
  | listen topic role => exact h

theorem fresh_run {b : Board κ} (hw : Wired b.registry b.listeners) (h : Fresh b.registry)
    (ops : List (Op κ)) : Fresh (b.run ops).registry := by
  induction ops generalizing b with
  | nil => exact h
  | cons op ops ih => exact ih (wired_step hw op) (fresh_step hw h op)

/-- Once it is dropped a stream stays dropped. -/
theorem dropped_step {b : Board κ} (hw : Wired b.registry b.listeners) {id : StreamId}
    (h : Dropped b.registry id) (op : Op κ) : Dropped (b.step op).registry id := by
  cases op with
  | subscribe flag => exact h.subscribe b.listeners flag
  | drop i => exact h.unsubscribe b.listeners i
  | take i => exact h.take i
  | enable => exact ⟨h.stream?_eq, h.id_lt⟩
  | clear => exact ⟨h.stream?_eq, h.id_lt⟩
  | emit changes =>
    rw [step, hw.hear_calls]
    exact h.announce changes
  | listen topic role => exact h

theorem taken_of_dropped {b : Board κ} (hw : Wired b.registry b.listeners) {id : StreamId}
    (h : Dropped b.registry id) (ops : List (Op κ)) : taken id b ops = [] := by
  induction ops generalizing b with
  | nil => rfl
  | cons op ops ih =>
    have ho : b.output id op = [] := by
      cases op with
      | take i =>
        rw [output, ite_eq_right_iff]
        rintro rfl
        exact h.take_output
      | _ => rfl
    rw [taken_cons, ho, ih (wired_step hw op) (dropped_step hw h op), List.append_nil]

/-! ## whole runs -/

/-- What is handed out of a stream in a run, followed by some rest, is what waited in it before and
what it ought to be given.  If it is not dropped the rest is what waits in it afterwards. -/
theorem taken_append_rest {b : Board κ} (hw : Wired b.registry b.listeners) {s : Stream}
    (h : Tracks b.registry s) (ops : List (Op κ)) :
    ∃ rest, taken s.id b ops ++ rest = s.waiting ++
        (if b.registry.attached s.id then Op.heard s.flag s.id b.registry.enabled ops else []) ∧
      (.drop s.id ∉ ops → ((b.run ops).registry.take s.id).2 = rest ∧
        (b.run ops).registry.attached s.id =
          (b.registry.attached s.id && ops.all (fun op => !op.ends s.id))) := by
  induction ops generalizing b s with
  | nil =>
    refine ⟨s.waiting, ?_, fun _ => ⟨h.take_output, (Bool.and_true _).symm⟩⟩
    rw [taken_nil, Op.heard_nil, ite_self, List.append_nil, List.nil_append]
  | cons op ops ih =>
    have hcases : op = .drop s.id ∨ op ≠ .drop s.id := Classical.em _
    rcases hcases with rfl | hop
    -- what waits in a stream that is dropped is the rest: nobody will take it
    · refine ⟨s.waiting, ?_, fun hd => absurd (List.mem_cons_self) hd⟩
      have hd : Dropped (b.step (.drop s.id)).registry s.id := .of_unsubscribe h.id_lt b.listeners
      have he : (Op.drop s.id : Op κ).ends s.id = true := decide_eq_true rfl
      rw [taken_cons, taken_of_dropped (wired_step hw _) hd, Op.heard_cons, if_pos he, ite_self,
        List.append_nil, List.append_nil]
      rfl
    · obtain ⟨t, hid, hflag, ht, ha, ho⟩ := tracks_step hw h hop
      obtain ⟨rest, hrest, hend⟩ := ih (wired_step hw op) ht
      rw [hid, hflag, enabled_step hw] at hrest
      rw [hid] at hend
      refine ⟨rest, ?_, fun hd => ?_⟩
      · rw [taken_cons, List.append_assoc, hrest, ← List.append_assoc, ho, List.append_assoc, ha,
          Op.heard_cons]
        cases b.registry.attached s.id with
        | false => rfl
        | true =>
          by_cases he : op.ends s.id = true
          · rw [he, Op.gives_of_ends he]
            rfl
          · rw [if_neg he, Bool.eq_false_iff.mpr he]
            rfl
      · obtain ⟨hw', ha'⟩ := hend fun hm => hd (List.mem_cons_of_mem _ hm)
        refine ⟨hw', ?_⟩
        rw [run_cons, ha', ha, List.all_cons, Bool.and_assoc]

/-- What a new stream hands out, followed by what waits in it if it is not dropped, is what it ought
to be given. -/
theorem taken_of_subscribe {b : Board κ} (hw : Wired b.registry b.listeners)
    (hf : Fresh b.registry) (flag : String) (ops : List (Op κ)) :
    ∃ rest, taken b.registry.next (b.step (.subscribe flag)) ops ++ rest =
        Op.heard flag b.registry.next b.registry.enabled ops ∧
      (.drop b.registry.next ∉ ops →
        (((b.step (.subscribe flag)).run ops).registry.take b.registry.next).2 = rest ∧
          ((b.step (.subscribe flag)).run ops).registry.attached b.registry.next =
            ops.all (fun op => !op.ends b.registry.next)) := by
  obtain ⟨ht, ha⟩ := hf.tracks_subscribe b.listeners flag
  have ha : (b.step (.subscribe flag)).registry.attached b.registry.next = true := ha
  have he : (b.step (.subscribe flag)).registry.enabled = b.registry.enabled :=
    enabled_subscribe b.registry b.listeners flag
  have h := taken_append_rest (wired_step hw (.subscribe flag)) ht ops
  dsimp only at h
  rw [ha, he, if_pos rfl, Stream.waiting, List.drop_nil, List.nil_append, Bool.true_and] at h
  exact h

/-- A stream that is not dropped ends only when the registry is cleared. -/
theorem all_not_ends_iff {id : StreamId} {ops : List (Op κ)} (h : .drop id ∉ ops) :
    ops.all (fun op => !op.ends id) = true ↔ .clear ∉ ops := by
  rw [List.all_eq_true]
  constructor
  · intro ha hc
    cases ha _ hc
  · intro hc op hm
    cases op with
    | drop i =>
      have hi : i ≠ id := fun e => h (e ▸ hm)
      rw [Op.ends, decide_eq_false hi, Bool.not_false]
    | clear => exact absurd hm hc
    | _ => rfl

/-- **A stream on a flag hands out the values of the flag that are emitted after it was opened,
after the registry was enabled and before the stream is dropped or the registry cleared: those that
can be read, each once, in the order of the emissions.  What was not handed out waits, also after
the registry is cleared and the stream ends.** -/
theorem items_of_subscribe {α : Type} (before after : List (Op κ)) (flag : String)
    (read : Json → Option α) :
    let b := (start : Board κ).run before
    let id := (b.registry.subscribe b.listeners flag).2.2
    let due := (Op.heard flag id (before.any Op.isEnable) after).filterMap read
    let items := (taken id (b.step (.subscribe flag)) after).filterMap read
    let final := (b.step (.subscribe flag)).run after
    items <+: due ∧
      (.drop id ∉ after →
        items ++ (final.registry.take id).2.filterMap read = due ∧
          (final.registry.attached id = true ↔ .clear ∉ after)) := by
  intro b id due items final
  have hw : Wired b.registry b.listeners := wired_run wired_empty before
  have hf : Fresh b.registry := fresh_run wired_empty fresh_empty before
  have hid : b.registry.next = id := (id_subscribe b.registry b.listeners flag).symm
  have he : b.registry.enabled = before.any Op.isEnable := enabled_run wired_empty before
  obtain ⟨rest, hrest, hend⟩ := taken_of_subscribe hw hf flag after
  rw [hid, he] at hrest
  rw [hid] at hend
  have hdue : due = items ++ rest.filterMap read := by
    show (Op.heard flag id _ after).filterMap read = _
    rw [← hrest, List.filterMap_append]
  refine ⟨hdue ▸ List.prefix_append _ _, fun hd => ?_⟩
  obtain ⟨hrest', ha⟩ := hend hd
  refine ⟨by rw [hrest', hdue], ?_⟩
  rw [ha, all_not_ends_iff hd]

end Board

end FeatureFlags.Registry
