import FeatureFlags.Host.Server
import FeatureFlags.Proofs.Config.Grammar
import FeatureFlags.Proofs.Connection.Remote.Polling
import FeatureFlags.Proofs.Connection.Remote.Watching

/-!
# Polling by the configuration

How often a remote service is polled comes from the variables, through the configuration and the
backend, to the polling task of a connection.

* `Surroundings.loaded`   the variables after the environment file was read;
* `Surroundings.backend_eq`   without definitions the backend is remote;
* `Config.pollInterval_eq_zero_iff`   the interval is nothing if the variable says so;
* `Surroundings.polling_of_load`   connections poll unless it is, and the flags follow the answers;
* `Surroundings.first_flags_stay`  what the variable zero does.
-/

namespace FeatureFlags

namespace Config

/-- **The interval is nothing exactly if its variable is a numeral of the value zero.** -/
theorem pollInterval_eq_zero_iff {env : EnvFile.Environment} {c : Config}
    (h : ofEnvironment env = .ok c) : c.pollInterval = 0 ↔
      ∃ value, Given env "FLAG_POLL_INTERVAL_MS" value ∧ Denotes value 0 := by
  obtain ⟨-, -, hs, -⟩ := settings_of_ofEnvironment h
  constructor
  · intro hzero
    rw [hzero] at hs
    cases hs with
    | given hg hd => exact ⟨_, hg, hd⟩
    | unset hu hd => cases hd
  · rintro ⟨value, hg, hd⟩
    exact (hg.setting_iff.mp hs).unique hd

end Config

namespace Surroundings

open Config (Given Denotes)
open Remote (Service Network responseAt flagsAfter)

/-- the variables after the environment file, if there is one, was read -/
def loaded (s : Surroundings) : EnvFile.Environment :=
  match s.envFile with
  | some text => EnvFile.load s.environment text
  | none => s.environment

/-- the way to the service of a configuration -/
def network (s : Surroundings) (c : Config) : Network :=
  { environment := c.environment
    target := s.target c.backendUrl
    responses := s.remote c.backendUrl
    flights := [], arrived := [] }

theorem backend_eq (s : Surroundings) {c : Config} (h : c.definitionsPath = none) :
    s.backend c = .ok (.remote (s.network c) c.pollInterval) := by
  rw [backend, h]
  rfl

/-- **What a configuration without definitions makes of polling.**  Its interval is nothing exactly
if the variable says so.  However connections to its service are used, the polling task of one that
is held, open and has its first flags is over if the interval is nothing, and polls otherwise.  A
connection that is left alone keeps its first flags for ever if the interval is nothing; otherwise
its flags are always those of the last success so far, enough time brings one more answer, and so
every success comes to be the flags. -/
theorem polling_of_load {ρ : Type} {s : Surroundings} {c : Config}
    (hload : Config.load s.environment s.envFile = .ok c) (hpath : c.definitionsPath = none) :
    let n := s.network c
    let script := s.remote c.backendUrl
    s.backend c = .ok (.remote n c.pollInterval) ∧
      (c.pollInterval = 0 ↔
        ∃ value, Given s.loaded "FLAG_POLL_INTERVAL_MS" value ∧ Denotes value 0) ∧
      (∀ (us : List (Service.Use ρ)) id l,
        ((Service.start n c.pollInterval).useAll us).line? id = some l →
        l.held = true → l.seat.closed = false → l.seat.readiness = .ready →
        (l.seat.polling = .over ↔ c.pollInterval = 0) ∧ (0 < c.pollInterval → l.seat.Polls)) ∧
      ∀ key target context first, n.target? key = some target →
        (responseAt script 0).answer = .ok first →
        let opened : Service ρ := .opened n c.pollInterval key context
        (c.pollInterval = 0 → ∀ later,
          (opened.elapse later).network.arrived.length = 1 ∧
          ∃ l, (opened.elapse later).line? 0 = some l ∧ l.seat.closed = false ∧
            l.seat.polling = .over ∧ l.connection.feed.flags = first) ∧
        (0 < c.pollInterval →
          (∀ later,
            (∃ l, (opened.elapse later).line? 0 = some l ∧ l.seat.polling ≠ .over ∧
              l.connection.feed.flags =
                flagsAfter script (opened.elapse later).network.arrived.length) ∧
            ∀ ms, c.pollInterval ≤ ms → Network.patience ≤ ms →
              ((opened.elapse later).advance ms).1.network.arrived.length =
                (opened.elapse later).network.arrived.length + 1) ∧
          ∀ ms, c.pollInterval ≤ ms → Network.patience ≤ ms →
            ∀ k flags, (responseAt script k).answer = .ok flags →
              ∃ l, (opened.elapse (List.replicate k ms)).line? 0 = some l ∧
                l.connection.feed.flags = flags) := by
  intro n script
  refine ⟨s.backend_eq hpath, Config.pollInterval_eq_zero_iff hload,
    fun us id l => Service.polling_over_iff n c.pollInterval us, ?_⟩
  intro key target context first htarget hfirst opened
  have hn : Service.Welcomes n key target first := ⟨rfl, rfl, htarget, hfirst⟩
  refine ⟨fun hzero later => ?_, fun hpos => ⟨fun later => ?_, fun ms hi hp k flags hk => ?_⟩⟩
  · have hopened : opened = .opened n 0 key context := by rw [← hzero]
    rw [hopened]
    exact Service.flags_without_interval ρ context hn later
  · exact Service.flags_by_polling ρ context hn hpos later
  · exact Service.success_by_polling ρ context hn hpos hi hp hk

/-- a service that answers with a flag, then fails in two ways, then answers with another value -/
def answers : List Remote.Response :=
  [.reply 200 "\x7b\"flags\":\x7b\"alpha\":1\x7d\x7d", .reply 500 "", .hang,
    .reply 200 "\x7b\"flags\":\x7b\"alpha\":2\x7d\x7d"]

/-- A port and an interval, and a service that answers to anyone. -/
def polled (interval : String) : Surroundings :=
  { environment := Table.insert (Table.insert {} "PORT" "8080") "FLAG_POLL_INTERVAL_MS" interval
    envFile := none
    files := fun _ => .absent
    free := fun _ => true
    remote := fun _ => answers }

theorem exists_of_toOption {ε α β : Type} {x : Except ε α} {f : α → β} {b : β}
    (h : x.toOption.map f = some b) : ∃ a, x = .ok a ∧ f a = b := by
  cases x with
  | error e => cases h
  | ok a => exact ⟨a, rfl, Option.some.inj h⟩

theorem exists_answers : ∃ first last, (responseAt answers 0).answer = .ok first ∧
    (responseAt answers 3).answer = .ok last ∧
    first.text = "\x7b\"alpha\":1\x7d" ∧ last.text = "\x7b\"alpha\":2\x7d" := by
  have hfirst : (responseAt answers 0).answer.toOption.map FlagSet.text =
      some "\x7b\"alpha\":1\x7d" := by decide +kernel
  have hlast : (responseAt answers 3).answer.toOption.map FlagSet.text =
      some "\x7b\"alpha\":2\x7d" := by decide +kernel
  obtain ⟨first, hf, hft⟩ := exists_of_toOption hfirst
  obtain ⟨last, hl, hlt⟩ := exists_of_toOption hlast
  exact ⟨first, last, hf, hl, hft, hlt⟩

theorem exists_polled (interval : String) (i : Nat)
    (h : (Config.load (polled interval).environment (polled interval).envFile).toOption.map
      (fun c => (c.definitionsPath, c.pollInterval, c.backendUrl)) =
        some (none, i, Config.defaultBackendUrl)) :
    ∃ c, Config.load (polled interval).environment (polled interval).envFile = .ok c ∧
      c.definitionsPath = none ∧ c.pollInterval = i ∧
      ((polled interval).network c).target? "key" = some "/sdk/evaluate" := by
  obtain ⟨c, hload, hc⟩ := exists_of_toOption h
  obtain ⟨hpath, hc⟩ := Prod.mk.inj hc
  obtain ⟨hi, hurl⟩ := Prod.mk.inj hc
  refine ⟨c, hload, hpath, hi, ?_⟩
  have hkey : Remote.isHeaderText "key" = true := by decide +kernel
  rw [Network.target?, if_pos hkey]
  show Remote.Target.ofUrl? c.backendUrl = _
  rw [hurl]
  decide +kernel

/-- The fourth answer is there after three polls. -/
theorem success_after_failed_polls :
    ∃ c, Config.load (polled " 1000 ").environment (polled " 1000 ").envFile = .ok c ∧
      c.definitionsPath = none ∧ c.pollInterval = 1000 ∧
      ∃ l, ((Service.opened ((polled " 1000 ").network c) c.pollInterval "key"
          (Identity.anonymous "en").context : Service String).elapse
            (List.replicate 3 10000)).line? 0 = some l ∧
        l.connection.feed.flags.text = "\x7b\"alpha\":2\x7d" := by
  obtain ⟨c, hload, hpath, hi, htarget⟩ :=
    exists_polled " 1000 " 1000 (by decide +kernel)
  obtain ⟨first, last, hfirst, hlast, -, htext⟩ := exists_answers
  have h := (@polling_of_load String _ _ hload hpath).2.2.2 "key" "/sdk/evaluate"
    (Identity.anonymous "en").context first htarget hfirst
  have hpos : 0 < c.pollInterval := by omega
  obtain ⟨l, hl, hf⟩ := (h.2 hpos).2 10000 (by omega) (by decide) 3 last hlast
  exact ⟨c, hload, hpath, hi, l, hl, by rw [hf, htext]⟩

/-- With the variable zero there is a configuration too, but no later answer is ever seen. -/
theorem first_flags_stay :
    ∃ c first last, Config.load (polled "0").environment (polled "0").envFile = .ok c ∧
      c.definitionsPath = none ∧
      (polled "0").backend c = .ok (.remote ((polled "0").network c) c.pollInterval) ∧
      (responseAt answers 0).answer = .ok first ∧ (responseAt answers 3).answer = .ok last ∧
      ∀ later, ∃ l, ((Service.opened ((polled "0").network c) c.pollInterval "key"
          (Identity.anonymous "en").context : Service String).elapse later).line? 0 = some l ∧
        l.seat.closed = false ∧ l.seat.polling = .over ∧ l.connection.feed.flags ≠ last := by
  obtain ⟨c, hload, hpath, hi, htarget⟩ :=
    exists_polled "0" 0 (by decide +kernel)
  obtain ⟨first, last, hfirst, hlast, htext, htext'⟩ := exists_answers
  have hne : first ≠ last := by
    rintro rfl
    exact absurd (htext.symm.trans htext') (by decide)
  refine ⟨c, first, last, hload, hpath, backend_eq _ hpath, hfirst, hlast, fun later => ?_⟩
  have hn : Service.Welcomes ((polled "0").network c) "key" "/sdk/evaluate" first :=
    ⟨rfl, rfl, htarget, hfirst⟩
  obtain ⟨-, l, hl, hopen, hover, hflags⟩ := Service.flags_without_interval String
    (Identity.anonymous "en").context hn later
  rw [hi]
  exact ⟨l, hl, hopen, hover, by rw [hflags]; exact hne⟩

end Surroundings

end FeatureFlags
