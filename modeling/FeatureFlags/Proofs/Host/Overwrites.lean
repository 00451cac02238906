import FeatureFlags.Proofs.Client.Overwrites
import FeatureFlags.Proofs.Host.Contexts
import FeatureFlags.Proofs.Session.Guises

/-!
# Overwrites and what a host answers

Two hosts whose clients only differ in their overwrites, while requests come, people sign in, and
the clients go on in between in any way.

* `Session.overlaid`, `Host.overlaid`   a session and a host with other overwrites;
* `Host.respond_overlaid`    a request does the same to both, and only who asks for the listing is
                             told of a difference;
* `Host.Happening`, `Host.undergo`   runs;
* `Host.overwrites_only_listed`   nobody else ever sees the overwrites.
-/

namespace FeatureFlags

namespace Session

/-- the session with other overwrites -/
def overlaid (o : FlagSet) (s : Session) : Session := s.disguised (Client.overlaid o) id

/-- Neither the client nor its tasks read the overwrites. -/
theorem unseen_overwrites (o : FlagSet) : Unseen (Client.overlaid o) id where
  step_eq := Client.overlaid_step o
  cancelled_eq _ := rfl
  waiting_eq _ := rfl
  worker_eq _ := rfl
  requests_eq _ := rfl
  following_eq _ := rfl
  inbox_eq _ := rfl
  flags_eq _ := rfl
  identify_eq _ _ := rfl

theorem apply_overlaid (o : FlagSet) (s : Session) (e : Client.Event) :
    (s.overlaid o).apply e = (s.apply e).overlaid o :=
  (disguised_apply (unseen_overwrites o) s e).symm

theorem meet_overlaid (o : FlagSet) (s : Session) (i : Incident) :
    (s.overlaid o).meet i = (s.meet i).overlaid o := by
  refine (disguised_meet (unseen_overwrites o) s (fun _ _ => ?_) fun _ _ _ => rfl).symm
  refine outcome?_disguised (unseen_overwrites o) ?_
  rw [Side.reworded_id]

theorem journal_overlaid (o : FlagSet) (s : Session) : (s.overlaid o).journal = s.journal := by
  obtain ⟨client, side, now, patience, began⟩ := s
  cases side <;> rfl

end Session

namespace Host

/-! ## what a host answers -/

/-- the host with other overwrites -/
def overlaid (o : FlagSet) (h : Host) : Host := h.update (Session.overlaid o)

/-- an answer of the host with other overwrites that only differs in the host -/
def overlaidAnswer (o : FlagSet) (a : Host × Response) : Host × Response := (a.1.overlaid o, a.2)

section

variable (o : FlagSet)

theorem perform_overlaid (h : Host) (e : Client.Event) :
    (h.overlaid o).perform e = (h.perform e).overlaid o := by
  obtain ⟨session, identity, keeps⟩ := h
  cases session with
  | none => rfl
  | some s =>
    show Host.mk (some ((s.overlaid o).apply e)) identity keeps = _
    rw [Session.apply_overlaid]
    rfl

theorem isNone_overlaid (h : Host) : (h.overlaid o).session.isNone = h.session.isNone := by
  obtain ⟨session, identity, keeps⟩ := h
  cases session <;> rfl

theorem addContext_overlaid (h : Host) (kind key : String) :
    (h.overlaid o).addContext kind key =
      ((h.addContext kind key).1.overlaid o, (h.addContext kind key).2) := by
  rw [addContext, perform_overlaid]
  refine Prod.ext rfl ?_
  obtain ⟨session, identity, keeps⟩ := h
  cases session with
  | none => rfl
  | some s =>
    have hc := congrArg Prod.snd (Client.addContext_overlaid o s.client kind key)
    exact hc

theorem removeContext_overlaid (h : Host) (kind : String) :
    (h.overlaid o).removeContext kind =
      ((h.removeContext kind).1.overlaid o, (h.removeContext kind).2) := by
  rw [removeContext, perform_overlaid]
  refine Prod.ext rfl ?_
  obtain ⟨session, identity, keeps⟩ := h
  cases session with
  | none => rfl
  | some s =>
    have hc := congrArg Prod.snd (Client.removeContext_overlaid o s.client kind)
    exact hc

theorem signIn_overlaid (h : Host) (identity : Identity) :
    (h.overlaid o).signIn identity = (h.signIn identity).overlaid o :=
  perform_overlaid o { h with identity } _

theorem changes_overlaid (h : Host) (name : String) :
    (h.overlaid o).changes name = overlaidAnswer o (h.changes name) := by
  obtain ⟨session, identity, keeps⟩ := h
  cases session with
  | none => rfl
  | some s =>
    have hp := perform_overlaid o ⟨some s, identity, keeps⟩ (.subscribe name)
    exact Prod.ext hp rfl

theorem putContext_overlaid (h : Host) (kind key : String) :
    (h.overlaid o).putContext kind key = overlaidAnswer o (h.putContext kind key) := by
  rw [putContext, putContext, isNone_overlaid, addContext_overlaid]
  cases kindFault? kind with
  | some fault => rfl
  | none =>
    dsimp only
    split
    · rfl
    · split <;> rfl

theorem deleteContext_overlaid (h : Host) (kind : String) :
    (h.overlaid o).deleteContext kind = overlaidAnswer o (h.deleteContext kind) := by
  rw [deleteContext, deleteContext, isNone_overlaid, removeContext_overlaid]
  cases kindFault? kind with
  | some fault => rfl
  | none =>
    dsimp only
    split <;> rfl

theorem putIdentity_overlaid (h : Host) (r : Request) :
    (h.overlaid o).putIdentity r = overlaidAnswer o (h.putIdentity r) := by
  rw [putIdentity, putIdentity]
  split
  · cases decodeText Identity.decode r.body with
    | error e => rfl
    | ok identity =>
      dsimp only
      split
      · rfl
      · exact Prod.ext (signIn_overlaid o h identity) rfl
  · rfl

theorem reading_overlaid (h : Host) (p : Parameter) {f g : String → Host × Response}
    (hf : ∀ value, g value = overlaidAnswer o (f value)) :
    (h.overlaid o).reading p g = overlaidAnswer o (h.reading p f) := by
  rw [reading, reading]
  cases p.read? with
  | some value => exact hf value
  | none => rfl

/-- Only the listing tells of the overwrites. -/
theorem answer_overlaid (h : Host) (r : Request) {route : Route} (hr : route ≠ .experiments) :
    (h.overlaid o).answer r route = overlaidAnswer o (h.answer r route) := by
  cases route with
  | root => rfl
  | health =>
    obtain ⟨session, identity, keeps⟩ := h
    cases session <;> rfl
  | experiments => exact absurd rfl hr
  | experiment name =>
    refine reading_overlaid o h name fun value => ?_
    obtain ⟨session, identity, keeps⟩ := h
    cases session <;> rfl
  | changes name => exact reading_overlaid o h name fun value => changes_overlaid o h value
  | contextKind kind =>
    exact reading_overlaid o h kind fun value => deleteContext_overlaid o h value
  | context kind key =>
    exact reading_overlaid o h kind fun k =>
      reading_overlaid o h key fun value => putContext_overlaid o h k value
  | identity =>
    rw [answer, answer]
    split
    · exact putIdentity_overlaid o h r
    · obtain ⟨session, identity, keeps⟩ := h
      cases session <;> rfl
  | overrides =>
    obtain ⟨session, identity, keeps⟩ := h
    cases session with
    | none => rfl
    | some s => cases keeps <;> rfl

theorem silence_overlaid (h : Host) (r : Response) :
    (h.overlaid o).silence r = overlaidAnswer o (h.silence r) := by
  rw [silence, silence]
  split
  next id _ => exact Prod.ext (perform_overlaid o h (.unsubscribe id)) rfl
  next => rfl

end

/-- Somebody asks for the flags with the overwrites laid over them. -/
def Lists (r : Request) : Prop := Route.ofPath? r.path = some .experiments ∧ r.method = "GET"

theorem respond_overlaid (o : FlagSet) (h : Host) (r : Request) :
    ((h.overlaid o).respond r).1 = (h.respond r).1.overlaid o ∧
      (¬ Lists r → ((h.overlaid o).respond r).2 = (h.respond r).2) := by
  have hsame : ∀ {a b : Host × Response}, b = overlaidAnswer o a →
      b.1 = a.1.overlaid o ∧ (¬ Lists r → b.2 = a.2) := by
    rintro a _ rfl
    exact ⟨rfl, fun _ => rfl⟩
  rw [respond, respond]
  cases hroute : Route.ofPath? r.path with
  | none => exact hsame rfl
  | some route =>
    dsimp only
    by_cases hlisting : route = .experiments
    · subst hlisting
      split
      next hm =>
        refine ⟨rfl, fun hl => absurd ⟨hroute, ?_⟩ hl⟩
        exact List.mem_singleton.mp (List.contains_iff_mem.mp hm)
      next =>
        split
        · exact hsame rfl
        · exact hsame rfl
    · split
      · exact hsame (answer_overlaid o h r hlisting)
      · split
        · rw [answer_overlaid o h _ hlisting]
          exact hsame (silence_overlaid o _ _)
        · exact hsame rfl

/-! ## runs -/

inductive Happening where
  | request (r : Request)
  | signIn (identity : Identity)
  /-- The client is told something, goes on, or what it is connected to does, and time passes. -/
  | incident (i : Session.Incident)

def undergo (h : Host) : Happening → Host
  | .request r => (h.respond r).1
  | .signIn identity => h.signIn identity
  | .incident i => h.update (fun s => s.meet i)

def undergoAll (h : Host) (run : List Happening) : Host := run.foldl undergo h

theorem undergo_request (h : Host) (r : Request) : h.undergo (.request r) = (h.respond r).1 := rfl

theorem undergoAll_cons (h : Host) (x : Happening) (run : List Happening) :
    h.undergoAll (x :: run) = (h.undergo x).undergoAll run := rfl

theorem undergo_overlaid (o : FlagSet) (h : Host) (x : Happening) :
    (h.overlaid o).undergo x = (h.undergo x).overlaid o := by
  cases x with
  | request r => exact (respond_overlaid o h r).1
  | signIn identity => exact signIn_overlaid o h identity
  | incident i =>
    obtain ⟨session, identity, keeps⟩ := h
    cases session with
    | none => rfl
    | some s =>
      show Host.mk (some ((s.overlaid o).meet i)) identity keeps = _
      rw [Session.meet_overlaid]
      rfl

theorem undergoAll_overlaid (o : FlagSet) (h : Host) (run : List Happening) :
    (h.overlaid o).undergoAll run = (h.undergoAll run).overlaid o := by
  induction run generalizing h with
  | nil => rfl
  | cons x run ih => rw [undergoAll_cons, undergoAll_cons, undergo_overlaid, ih]

/-- A host that has a client keeps one. -/
theorem session_undergo {h : Host} {s : Session} (hs : h.session = some s) (x : Happening) :
    ∃ t, (h.undergo x).session = some t := by
  cases x with
  | request r =>
    obtain ⟨es, -, hr⟩ := h.leads_respond r
    rw [hs, Option.map_some] at hr
    rw [undergo_request]
    exact ⟨s.applyAll es, hr⟩
  | signIn identity =>
    refine ⟨s.apply (.publish identity), ?_⟩
    show h.session.map _ = _
    rw [hs, Option.map_some]
  | incident i =>
    refine ⟨s.meet i, ?_⟩
    show h.session.map _ = _
    rw [hs, Option.map_some]

theorem session_undergoAll {h : Host} {s : Session} (hs : h.session = some s)
    (run : List Happening) : ∃ t, (h.undergoAll run).session = some t := by
  induction run generalizing h s with
  | nil => exact ⟨s, hs⟩
  | cons x run ih =>
    obtain ⟨t, ht⟩ := session_undergo hs x
    exact ih ht

/-- a host at its beginning, whoever is signed in -/
def begun (backend : Backend) (options : Client.Options) (patience : Nat) (identity : Identity)
    (keeps : Bool) : Host :=
  ⟨some (.start backend options patience identity), identity, keeps⟩

/-- Two hosts at their beginning only differ in the overwrites that they were given. -/
theorem begun_overlaid (backend : Backend) (key : String) (o p : FlagSet) (patience : Nat)
    (identity : Identity) (keeps : Bool) :
    begun backend ⟨key, o⟩ patience identity keeps =
      (begun backend ⟨key, p⟩ patience identity keeps).overlaid o := by
  cases backend <;> rfl

/-! ## who sees the overwrites -/

theorem respond_lists {h : Host} {s : Session} (hs : h.session = some s) {r : Request}
    (hr : Lists r) : (h.respond r).2 = .json 200 s.client.snapshot.document.print := by
  rw [respond, hr.1]
  dsimp only
  rw [hr.2, if_pos (by decide), answer, snapshot, hs]
  rfl

theorem respond_experiment {h : Host} {s : Session} (hs : h.session = some s) {r : Request}
    {parameter : Parameter} {name : String}
    (hr : Route.ofPath? r.path = some (.experiment parameter)) (hm : r.method = "GET")
    (hp : parameter.read? = some name) :
    (h.respond r).2 = .json 200
      (experimentDocument name ((s.client.flagsInUse.find? name).getD .null)).print := by
  have hread : h.experiment .any name = s.client.flagsInUse.find? name := by
    rw [experiment, hs]
    show (s.client.flagsInUse.find? name).bind some = _
    exact Option.bind_fun_some _
  rw [respond, hr]
  dsimp only
  rw [hm, Route.methods, if_pos (by decide), answer, reading, hp]
  show h.experimentAnswer name = _
  rw [experimentAnswer, hread]
  rfl

/-- **Whatever two hosts go through, if their clients began with other overwrites and nothing else
is different, their clients show, publish and do the same, and answer the same to everybody but who
asks for the listing.  The listing is the flags with the overwrites laid over them; and where a name
has no overwrite, its member there, or null, is what is told to who asks for it alone.** -/
theorem overwrites_only_listed (backend : Backend) (key : String) (o p : FlagSet) (patience : Nat)
    (identity : Identity) (keeps : Bool) (run : List Happening) :
    let h := (begun backend ⟨key, o⟩ patience identity keeps).undergoAll run
    let k := (begun backend ⟨key, p⟩ patience identity keeps).undergoAll run
    ∃ s t, h.session = some s ∧ k.session = some t ∧
      Client.Alike s.client t.client ∧ t.journal = s.journal ∧
      (∀ r, ¬ Lists r → (k.respond r).2 = (h.respond r).2) ∧
      (∀ name, s.client.snapshot.find? name =
        (o.find? name).or (s.client.flagsInUse.find? name)) ∧
      (∀ r, Lists r → (h.respond r).2 = .json 200 s.client.snapshot.document.print) ∧
      ∀ r parameter name, Route.ofPath? r.path = some (.experiment parameter) →
        parameter.read? = some name → r.method = "GET" → o.find? name = none →
          (h.respond r).2 = .json 200 (experimentDocument name
            ((s.client.snapshot.document.member? name).getD .null)).print := by
  intro h k
  obtain ⟨t, ht⟩ : ∃ t, k.session = some t := session_undergoAll rfl run
  have hk : h = k.overlaid o := by
    show (begun backend ⟨key, o⟩ patience identity keeps).undergoAll run = _
    rw [begun_overlaid backend key o p, undergoAll_overlaid]
  have hs : h.session = some (t.overlaid o) := by
    rw [hk, overlaid, update, ht, Option.map_some]
  have hlisted : ∀ name, (t.overlaid o).client.snapshot.find? name =
      (o.find? name).or ((t.overlaid o).client.flagsInUse.find? name) :=
    Client.find?_snapshot (t.client.overlaid o)
  refine ⟨t.overlaid o, t, hs, ht, Client.alike_overlaid o t.client,
    (Session.journal_overlaid o t).symm, fun r hr => ?_, hlisted, fun r hr => respond_lists hs hr,
    fun r parameter name hr hp hm hn => ?_⟩
  · rw [hk]
    exact ((respond_overlaid o k r).2 hr).symm
  · have hmember : (t.overlaid o).client.snapshot.document.member? name =
        (t.overlaid o).client.flagsInUse.find? name := by
      have hfound := hlisted name
      rw [hn, Option.none_or] at hfound
      exact hfound
    rw [hmember]
    exact respond_experiment hs hr hm hp

def getting (target : String) : Request := { method := "GET", target, headers := [], body := "" }

/-- a client with a flag, and overwrites of another one -/
def overwriting (o : FlagSet) : Host :=
  (begun (.scripted .ready (.ofList [("alpha", .bool true)])) ⟨"key", o⟩ 5000 (.anonymous "en")
    true).undergoAll [.incident .wait, .incident (.turn (.task .race))]

theorem overwrites_of_beta :
    let h := overwriting (.ofList [("beta", .bool false)])
    let k := overwriting {}
    (k.respond (getting "/api/experiments/beta")).2 =
        (h.respond (getting "/api/experiments/beta")).2 ∧
      ∃ s, h.session = some s ∧
        s.client.snapshot.text = "\x7b\"alpha\":true,\"beta\":false\x7d" ∧
        (h.respond (getting "/api/experiments")).2 = .json 200 s.client.snapshot.text ∧
        (h.respond (getting "/api/experiments/alpha")).2 = .json 200 (experimentDocument "alpha"
          ((s.client.snapshot.document.member? "alpha").getD .null)).print := by
  intro h k
  obtain ⟨s, t, hs, -, -, -, hsame, -, hlisted, htold⟩ :=
    overwrites_only_listed (.scripted .ready (.ofList [("alpha", .bool true)])) "key"
      (.ofList [("beta", .bool false)]) {} 5000 (.anonymous "en") true
      [.incident .wait, .incident (.turn (.task .race))]
  have hrun : h.session.all (fun s => s.client.snapshot.text ==
      "\x7b\"alpha\":true,\"beta\":false\x7d") = true := by decide +kernel
  have hs : h.session = some s := hs
  rw [hs] at hrun
  refine ⟨hsame _ fun hl => absurd hl.1 (by decide +kernel), s, hs, beq_iff_eq.mp hrun, ?_, ?_⟩
  · exact hlisted (getting "/api/experiments") ⟨by decide +kernel, rfl⟩
  · exact htold (getting "/api/experiments/alpha") ⟨"name", "alpha"⟩ "alpha" (by decide +kernel)
      (by decide +kernel) rfl (by decide +kernel)

end Host

end FeatureFlags
