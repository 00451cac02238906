import FeatureFlags.Host.Answer
import FeatureFlags.Proofs.Session.Contexts
import FeatureFlags.Proofs.Session.Requests

/-!
# Contexts that requests bring about

A host while requests come, and its client goes on in between in any way.  Whatever the requests
are, what they tell the client of kinds and identities was checked or decoded before.

* `Host.Leads`          what a request does to a host are events of its client;
* `Host.leads_respond`   those of sound kinds and identities;
* `Host.Occasion`, `Host.meetAll`   runs;
* `Host.texts_of_contexts`   the texts of the contexts that come about.
-/

namespace FeatureFlags

namespace Host

/-! ## what requests do -/

/-- One host becomes another by events that tell its client of nothing that could not be in a
context. -/
def Leads (h k : Host) : Prop :=
  ∃ es : List Client.Event, (∀ e ∈ es, e.Sound) ∧
    k.session = h.session.map (fun s => s.applyAll es)

namespace Leads

theorem refl (h : Host) : h.Leads h := by
  refine ⟨[], nofun, ?_⟩
  show h.session = h.session.map id
  rw [Option.map_id, id_eq]

theorem trans {h k l : Host} (hk : h.Leads k) (kl : k.Leads l) : h.Leads l := by
  obtain ⟨es, hes, hke⟩ := hk
  obtain ⟨fs, hfs, hlf⟩ := kl
  refine ⟨es ++ fs, fun e he => (List.mem_append.mp he).elim (hes e) (hfs e), ?_⟩
  rw [hlf, hke, Option.map_map]
  congr 1
  funext s
  exact List.foldl_append.symm

theorem perform (h : Host) {e : Client.Event} (he : e.Sound) : h.Leads (h.perform e) :=
  ⟨[e], fun _ hf => List.mem_singleton.mp hf ▸ he, rfl⟩

end Leads

theorem ne_multiKind_of_kindFault? {kind : String} (h : kindFault? kind = none) :
    kind ≠ Context.multiKind := by
  rintro rfl
  cases h

theorem leads_putContext (h : Host) (kind key : String) : h.Leads (h.putContext kind key).1 := by
  rw [putContext]
  split
  · exact .refl h
  next hk =>
    split
    · exact .refl h
    · split
      · exact .refl h
      · exact .perform h (ne_multiKind_of_kindFault? hk)

theorem leads_deleteContext (h : Host) (kind : String) : h.Leads (h.deleteContext kind).1 := by
  rw [deleteContext]
  split
  · exact .refl h
  · split
    · exact .refl h
    · exact .perform h trivial

theorem leads_putIdentity (h : Host) (r : Request) : h.Leads (h.putIdentity r).1 := by
  rw [putIdentity]
  split
  · split
    · exact .refl h
    next identity hi =>
      split
      · exact .refl h
      · have hs : identity.Sound := Identity.yields_decode.decodeText hi
        exact Leads.perform { h with identity } hs
  · exact .refl h

theorem leads_changes (h : Host) (name : String) : h.Leads (h.changes name).1 := by
  rw [changes]
  split
  · exact .perform h trivial
  · exact .refl h

theorem leads_reading (h : Host) (p : Parameter) {f : String → Host × Response}
    (hf : ∀ value, h.Leads (f value).1) : h.Leads (h.reading p f).1 := by
  rw [reading]
  split
  · exact hf _
  · exact .refl h

theorem leads_answer (h : Host) (r : Request) (route : Route) : h.Leads (h.answer r route).1 := by
  cases route with
  | experiment name => exact h.leads_reading name fun _ => .refl h
  | changes name => exact h.leads_reading name h.leads_changes
  | contextKind kind => exact h.leads_reading kind h.leads_deleteContext
  | context kind key =>
    exact h.leads_reading kind fun k => h.leads_reading key fun value => h.leads_putContext k value
  | identity =>
    rw [answer]
    split
    · exact h.leads_putIdentity r
    · exact .refl h
  | _ => exact .refl h

theorem leads_silence (h : Host) (r : Response) : h.Leads (h.silence r).1 := by
  rw [silence]
  split
  · exact .perform h trivial
  · exact .refl h

/-- **Whatever a request is, it tells the client of sound kinds and identities alone.** -/
theorem leads_respond (h : Host) (r : Request) : h.Leads (h.respond r).1 := by
  rw [respond]
  split
  · exact .refl h
  · split
    · exact h.leads_answer r _
    · split
      · exact (h.leads_answer _ _).trans (leads_silence _ _)
      · exact .refl h

/-! ## runs -/

inductive Occasion where
  | request (r : Request)
  /-- The client goes on, or what it is connected to does, and time passes. -/
  | aside (i : Session.Incident) (h : i.Aside)

def meet (h : Host) : Occasion → Host
  | .request r => (h.respond r).1
  | .aside i _ => h.update (fun s => s.meet i)

def meetAll (h : Host) (os : List Occasion) : Host := os.foldl meet h

theorem meet_request (h : Host) (r : Request) : h.meet (.request r) = (h.respond r).1 := rfl
theorem meet_aside (h : Host) (i : Session.Incident) (hi : i.Aside) :
    h.meet (.aside i hi) = h.update (fun s => s.meet i) := rfl

theorem meetAll_cons (h : Host) (o : Occasion) (os : List Occasion) :
    h.meetAll (o :: os) = (h.meet o).meetAll os := rfl

/-- a host at its beginning, with a client and nobody signed in -/
def opened (backend : Backend) (options : Client.Options) (patience : Nat) (locale : String)
    (keeps : Bool) : Host :=
  ⟨some (.start backend options patience (.anonymous locale)), .anonymous locale, keeps⟩

/-- The client of a host knows of sound contexts and identities, and a remote service sees what the
client hands to its connection. -/
structure Serves (environment : String) (old : List Remote.Request) (s : Session) : Prop where
  informed : s.client.Informed
  carries : s.Carries environment old

theorem Serves.meet {environment : String} {old : List Remote.Request} {h : Host} {s : Session}
    (hs : h.session = some s) (k : Serves environment old s) (o : Occasion) :
    ∃ t, (h.meet o).session = some t ∧ Serves environment old t := by
  cases o with
  | request r =>
    obtain ⟨es, hes, hr⟩ := h.leads_respond r
    rw [hs, Option.map_some] at hr
    rw [meet_request]
    refine ⟨s.applyAll es, hr, ?_, k.carries.applyAll es⟩
    rw [Session.client_applyAll]
    exact k.informed.run hes
  | aside i hi =>
    rw [meet_aside]
    refine ⟨s.meet i, ?_, Session.informed_meet k.informed hi, k.carries.meet i⟩
    rw [update, hs, Option.map_some]

theorem Serves.meetAll {environment : String} {old : List Remote.Request} {h : Host} {s : Session}
    (hs : h.session = some s) (k : Serves environment old s) (os : List Occasion) :
    ∃ t, (h.meetAll os).session = some t ∧ Serves environment old t := by
  induction os generalizing h s with
  | nil => exact ⟨s, hs, k⟩
  | cons o os ih =>
    obtain ⟨t, ht, kt⟩ := k.meet hs o
    rw [meetAll_cons]
    exact ih ht kt

/-! ## texts -/

/-- The answer to whoever asks for the identity has the context of the client in it. -/
theorem identity_answer {h : Host} {s : Session} (hs : h.session = some s) {r : Request}
    (hp : Route.ofPath? r.path = some .identity) (hm : r.method = "GET") :
    (h.respond r).2.body = .text (Json.print (.obj [("identity", h.identity.document),
      ("context", s.client.context.document)])) := by
  have hctx : h.context? = some s.client.context := by
    rw [context?, hs, Option.map_some]
  have hget : ("GET" : String) ≠ "PUT" := by decide
  rw [respond, hp]
  show (if Route.identity.methods.contains r.method then _ else _ : Host × Response).2.body = _
  rw [hm, if_pos (by decide), answer, hm, if_neg hget, identityDocument, hctx]
  rfl

/-- **Whatever requests come, and whatever happens in between, the text of each context that the
client has or handed to its connection repeats no name in any object exactly if no attribute of a
user has the name of a field and, where there are several sub-contexts, none is of kind `kind`; and
then what is read back says `multi` exactly where there are several, and all fields of each.  These
are the texts in the answer to whoever asks for the identity, and in the requests to a remote
service.** -/
theorem texts_of_contexts (backend : Backend) (options : Client.Options) (patience : Nat)
    (locale : String) (keeps : Bool) (os : List Occasion) :
    let h := (opened backend options patience locale keeps).meetAll os
    ∃ s, h.session = some s ∧
      (∀ c ∈ s.client.context :: s.client.given, ∃ n, Node.read c.text = (n, true) ∧
        (n.Distinct ↔ c.Clear) ∧ (c.Clear → c.Told n)) ∧
      (∀ r, Route.ofPath? r.path = some .identity → r.method = "GET" →
        (h.respond r).2.body = .text (Json.print (.obj [("identity", h.identity.document),
          ("context", s.client.context.document)]))) ∧
      ∀ r, .request r ∈ s.journal →
        .request r ∈ (Session.start backend options patience (.anonymous locale)).journal ∨
          ∃ environment, ∃ c ∈ s.client.given,
            r.body = (Remote.requestDocument environment c).print := by
  intro h
  obtain ⟨environment, old, hold, hcarries⟩ :=
    Session.Carries.start backend options patience (.anonymous locale)
  obtain ⟨flags, forgetful, hclient⟩ :=
    Session.client_start backend options patience (.anonymous locale)
  have hinformed : (Session.start backend options patience (.anonymous locale)).client.Informed :=
    hclient ▸ .start options (Identity.sound_anonymous locale) _ _
  obtain ⟨s, hs, k⟩ : ∃ s, h.session = some s ∧ Serves environment old s :=
    Serves.meetAll (h := opened backend options patience locale keeps) rfl ⟨hinformed, hcarries⟩ os
  refine ⟨s, hs, fun c hc => ⟨c.document.tree, c.read_text, ?_⟩,
    fun r hp hm => identity_answer hs hp hm, fun r hr => ?_⟩
  · have hsound : c.Sound := by
      rcases List.mem_cons.mp hc with rfl | hc
      · exact k.informed.context
      · exact k.informed.given c hc
    exact ⟨Context.distinct_tree_iff hsound, fun hclear => hclear.told hsound⟩
  · rcases k.carries.of_mem_journal hr with hr | ⟨c, hc, hbody⟩
    · exact .inl (hold r hr)
    · exact .inr ⟨environment, c, hc, hbody⟩

/-- somebody signs in, of whom the provider tells something else under a name -/
def signingIn (name value : String) (workspace : Option String) : Request :=
  { method := "PUT", target := "/api/identity"
    headers := [("content-type", "application/json")]
    body := Json.print (.obj [("user", .obj [("userId", .str "u1"), ("name", .str "Ann"),
      ("email", .str "ann@example.com"), (name, .str value)]), ("locale", .str "en"),
      ("workspace_id", .ofOption .str workspace)]) }

/-- the identity is followed, and the flags are asked for -/
def followed : List Occasion :=
  [.aside (.turn (.task .watch)) trivial, .aside (.turn (.task .work)) trivial]

/-- somebody who has a plan -/
def planned : List Occasion := .request (signingIn "plan" "pro" (some "w1")) :: followed

theorem texts_of_planned :
    let h := (opened (.remote Session.changingService 1000) ⟨"key", {}⟩ 5000 "en" true).meetAll
      planned
    ∃ s, h.session = some s ∧ s.client.context.parts.length = 2 ∧ s.journal.length = 1 ∧
      ∃ n, Node.read s.client.context.text = (n, true) ∧ n.Distinct ∧ s.client.context.Told n := by
  have hrun : ((opened (.remote Session.changingService 1000) ⟨"key", {}⟩ 5000 "en" true).meetAll
      planned).session.all (fun s => decide s.client.context.Clear &&
        s.client.context.parts.length == 2 && s.journal.length == 1) = true := by decide +kernel
  obtain ⟨s, hs, htexts, -⟩ :=
    texts_of_contexts (.remote Session.changingService 1000) ⟨"key", {}⟩ 5000 "en" true planned
  rw [hs] at hrun
  have hrun : (decide s.client.context.Clear && s.client.context.parts.length == 2 &&
      s.journal.length == 1) = true := hrun
  rw [Bool.and_eq_true, Bool.and_eq_true, decide_eq_true_iff, beq_iff_eq, beq_iff_eq] at hrun
  obtain ⟨⟨hclear, hlength⟩, hjournal⟩ := hrun
  obtain ⟨n, hn, hdistinct, htold⟩ := htexts s.client.context List.mem_cons_self
  exact ⟨s, hs, hlength, hjournal, n, hn, hdistinct.mpr hclear, htold hclear⟩

/-- a host with a service in process -/
def inProcess : Host := opened (.memory []) ⟨"key", {}⟩ 5000 "en" true

/-- somebody adds a sub-context of kind `kind` -/
def addingKind : Request :=
  { method := "PUT", target := "/api/contexts/kind/k1", headers := [], body := "" }

/-- the user is `u1`, or `u2` -/
def keyTwice : Json :=
  .obj [("kind", .str "user"), ("anonymous", .bool false), ("key", .str "u1"),
    ("email", .str "ann@example.com"), ("name", .str "Ann"), ("locale", .str "en"),
    ("key", .str "u2")]

/-- the kind is `multi`, or a sub-context -/
def kindTwice : Json :=
  .obj [("kind", .str "multi"),
    ("user", .obj [("kind", .str "user"), ("anonymous", .bool true), ("locale", .str "en")]),
    ("kind", .obj [("kind", .str "kind"), ("key", .str "k1")])]

/-- A provider that tells of a `key` repeats the key of the user, so that not even the decoder of
sub-contexts reads the text; and a sub-context of kind `kind` repeats the member that tells the kind
of the context. -/
theorem texts_repeat_names :
    (∃ s, (inProcess.meetAll (.request (signingIn "key" "u2" none) :: followed)).session = some s ∧
      s.client.context.text = keyTwice.print ∧
      ¬ (Node.read s.client.context.text).1.Distinct ∧
      (decodeText SubContext.decode s.client.context.text).isOk = false) ∧
    ∃ s, (inProcess.meetAll [.request addingKind]).session = some s ∧
      s.client.context.text = kindTwice.print ∧
      ¬ (Node.read s.client.context.text).1.Distinct := by
  have hkey : (inProcess.meetAll (.request (signingIn "key" "u2" none) :: followed)).session.any
      (fun s => s.client.context.text == keyTwice.print &&
        ((Node.read s.client.context.text).1.named "key").length == 2) = true := by decide +kernel
  have hrefused : (decodeText SubContext.decode keyTwice.print).isOk = false := by decide +kernel
  have hkind : (inProcess.meetAll [.request addingKind]).session.any
      (fun s => s.client.context.text == kindTwice.print &&
        ((Node.read s.client.context.text).1.named "kind").length == 2) = true := by decide +kernel
  have hrepeated : ∀ {n : Node} {name : String}, (n.named name).length = 2 → ¬ n.Distinct := by
    intro n name hn hd
    have := hd.length_named_le name
    omega
  obtain ⟨s, hs, hkey⟩ := (Option.any_eq_true _ _).mp hkey
  obtain ⟨t, ht, hkind⟩ := (Option.any_eq_true _ _).mp hkind
  rw [Bool.and_eq_true, beq_iff_eq, beq_iff_eq] at hkey hkind
  exact ⟨⟨s, hs, hkey.1, hrepeated hkey.2, hkey.1 ▸ hrefused⟩,
    ⟨t, ht, hkind.1, hrepeated hkind.2⟩⟩

end Host

end FeatureFlags
