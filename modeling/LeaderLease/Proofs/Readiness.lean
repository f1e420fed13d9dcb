import LeaderLease.Election.Identity
import LeaderLease.Election.Plan
import LeaderLease.Proofs.Layers
import LeaderLease.Scenario.Commands

/-!
# Configurations that are ready for an election

What is loaded has been validated, and the settings that are made from it keep to what an election
checks when it starts: a lease time, an identity, a namespace, and a connection of the right kind.
So an election that is asked for starts, unless its server has an address that cannot be read
(`startable_of_load`). The lease time depends on development mode, which is read twice, by the
loader and for the usual settings; both readers agree wherever the variable is a text.
-/

set_option autoImplicit false

namespace LeaderLease

namespace ElectionSettings

/-- Nothing that is checked before an election can be wrong but the address of the server. -/
structure Startable (s : ElectionSettings) (identity : String) : Prop where
  ttl : s.ttl.nanos ≠ 0
  identity : identity ≠ ""
  ns : s.effectiveNamespace ≠ ""
  backend : s.backend = s.connection.backend

/-- The address of the server cannot be read, and the error says so. -/
def AddressRefused (s : ElectionSettings) (e : ElectionError) : Prop :=
  ∃ url reason, s.connection = .redis url ∧ RedisAddress.read url = .error reason ∧
    e = .lockSetup s.name (.redis reason.message)

variable {s : ElectionSettings} {identity : String}

theorem effectiveNamespace_ne_empty (s : ElectionSettings) : s.effectiveNamespace ≠ "" := by
  unfold effectiveNamespace
  split
  · decide
  · assumption

theorem Startable.prepare_eq_error_iff (startable : s.Startable identity) (e : ElectionError) :
    s.prepare identity = .error e ↔ s.AddressRefused e := by
  have matching := startable.backend
  rw [prepare, if_neg startable.ttl, if_neg startable.identity]
  cases connection : s.connection with
  | memory =>
      rw [connection, Connection.backend] at matching
      simp [AddressRefused, openLock, matching, connection]
  | redis url =>
      rw [connection, Connection.backend] at matching
      cases address : RedisAddress.read url with
      | ok found => simp [AddressRefused, openLock, matching, connection, address]
      | error reason =>
          simp [AddressRefused, openLock, matching, connection, address, eq_comm]

end ElectionSettings

/-- An election with checked settings is refused for what the checks find. -/
theorem Scenario.start_eq_refused_iff (scene : Scenario) (o : StartOptions)
    (enabled : o.disabled = false) (checked : o.faults = none) (e : ElectionError) :
    (scene.start o).1 = .refused e ↔ o.settings.prepare o.identity = .error e := by
  simp only [start, enabled, checked]
  cases prepared : o.settings.prepare o.identity with
  | error reason => simp
  | ok found => simp

/-- Whatever the bytes, the groups of a generated identity are divided. -/
theorem Identity.ofBytes_ne_empty (bytes : List UInt8) : ofBytes bytes ≠ "" := by
  intro empty
  have letters : (ofBytes bytes).toList = [] := by rw [empty, String.toList_empty]
  simp [ofBytes, groups, split, List.intercalate] at letters

theorem Backend.parse_name (backend : Backend) : parse backend.name = .ok backend := by
  cases backend <;> rfl

namespace Configuration

/-- The configured lease time, or an hour in development mode and a minute otherwise. -/
def leaseTime (c : Configuration) : Duration :=
  if c.leader.ttlSeconds = 0 then (if c.development then .ofSeconds 3600 else .ofSeconds 60)
  else .ofSeconds c.leader.ttlSeconds

variable {c : Configuration} {env : Environment} {backend : Backend}

theorem identity_ne_empty (c : Configuration) {generated : String} (some : generated ≠ "") :
    c.identity generated ≠ "" := by
  unfold identity
  split
  · exact some
  · assumption

theorem lockKind_of_validate (valid : c.validate = .ok ()) (enabled : c.leader.enabled = true) :
    c.leader.lockKind = "redis" ∨ c.leader.lockKind = "memory" := by
  rw [validate, if_pos enabled] at valid
  split at valid
  · cases valid
  · split at valid
    · assumption
    · cases valid

/-- Validation knows the backends that are known to the election. -/
theorem exists_backend (valid : c.validate = .ok ()) (enabled : c.leader.enabled = true) :
    ∃ backend, Backend.parse c.leader.lockKind = .ok backend ∧
      backend.name = c.leader.lockKind := by
  rcases lockKind_of_validate valid enabled with kind | kind
  · rw [kind]
    exact ⟨.redis, Backend.parse_name .redis, rfl⟩
  · rw [kind]
    exact ⟨.memory, Backend.parse_name .memory, rfl⟩

theorem election_of_validate (valid : c.validate = .ok ()) (env : Environment) :
    (c.leader.enabled = false ∧ c.election env = .ok none) ∨
    (c.leader.enabled = true ∧ ∃ backend, backend.name = c.leader.lockKind ∧
      c.election env = .ok (some (c.settingsFor env backend))) := by
  cases enabled : c.leader.enabled with
  | false => exact .inl ⟨rfl, by rw [election, enabled]; rfl⟩
  | true =>
      obtain ⟨backend, parsed, named⟩ := exists_backend valid enabled
      exact .inr ⟨rfl, backend, named, by rw [election, if_pos enabled, parsed]⟩

theorem backend_connection (c : Configuration) (backend : Backend) :
    (c.connection backend).backend = backend := by
  cases backend <;> rfl

theorem backend_settingsFor (c : Configuration) (env : Environment) (backend : Backend) :
    (c.settingsFor env backend).backend = backend ∧
      (c.settingsFor env backend).connection = c.connection backend := by
  unfold settingsFor
  split
  · have usual := c.backend_connection backend
    dsimp only
    split
    · exact ⟨usual, rfl⟩
    · exact ⟨usual, rfl⟩
  · exact ⟨rfl, rfl⟩

/-- The two readers of development mode may differ where the environment does not ask for it. -/
theorem ttl_settingsFor (agree : ElectionSettings.isDevelopment env = true → c.development = true) :
    (c.settingsFor env backend).ttl = c.leaseTime := by
  by_cases usual : c.leader.ttlSeconds = 0
  · rw [settingsFor, if_pos usual, leaseTime, if_pos usual]
    cases development : c.development with
    | true => rfl
    | false =>
        have noDevelopment : ElectionSettings.isDevelopment env = false := by
          refine Bool.eq_false_iff.mpr fun asked => ?_
          rw [agree asked] at development
          cases development
        simp only [ElectionSettings.ofEnvironment, noDevelopment]
        rfl
  · rw [settingsFor, if_neg usual, leaseTime, if_neg usual]

theorem leaseTime_ne_zero (c : Configuration) : c.leaseTime.nanos ≠ 0 := by
  have second : Duration.perSecond ≠ 0 := by decide
  unfold leaseTime
  split
  · split
    · decide
    · decide
  · rename_i configured
    exact Nat.mul_ne_zero configured second

theorem startable_settingsFor (c : Configuration) {env : Environment} (backend : Backend)
    (agree : ElectionSettings.isDevelopment env = true → c.development = true) {generated : String}
    (some : generated ≠ "") : (c.settingsFor env backend).Startable (c.identity generated) where
  ttl := by
    rw [ttl_settingsFor agree]
    exact c.leaseTime_ne_zero
  identity := c.identity_ne_empty some
  ns := ElectionSettings.effectiveNamespace_ne_empty _
  backend := by
    obtain ⟨chosen, connected⟩ := c.backend_settingsFor env backend
    rw [chosen, connected, backend_connection]

end Configuration

namespace Loader

variable {l : Loader} {files : FileSystem} {env : Environment} {c : Configuration}

/-- Where the variable is a text, the loader and the usual settings read the same off it. -/
theorem development_of_text {text : String} (loaded : l.load files env = .ok c)
    (present : env.text? ElectionSettings.developmentVariable = some text) :
    c.development = ElectionSettings.isDevelopment env := by
  have settled := resolve_layered (load_eq_ok_iff.mp loaded).1 .development
  have same : Setting.variableName .development = ElectionSettings.developmentVariable := rfl
  rw [same, present] at settled
  rw [ElectionSettings.isDevelopment, present]
  exact (Option.some.inj settled).symm

theorem isDevelopment_of_none (absent : env.text? ElectionSettings.developmentVariable = none) :
    ElectionSettings.isDevelopment env = false := by
  rw [ElectionSettings.isDevelopment, absent]

theorem development_of_isDevelopment (loaded : l.load files env = .ok c)
    (asked : ElectionSettings.isDevelopment env = true) : c.development = true := by
  cases present : env.text? ElectionSettings.developmentVariable with
  | none =>
      rw [isDevelopment_of_none present] at asked
      cases asked
  | some text => rw [development_of_text loaded present, asked]

/-- Whatever the files and the environment, a configuration that is loaded asks for no election
exactly if it is disabled, and an election that it asks for can be started: it is refused only for
an address that cannot be read. Its lease time is the configured one, or depends on development mode
as it was loaded, whatever the variable for it is, if it is one. -/
theorem startable_of_load (loaded : l.load files env = .ok c) (bytes : List UInt8) :
    ∃ asked, c.election env = .ok asked ∧ (asked = none ↔ c.leader.enabled = false) ∧
      (∀ s, asked = some s →
        s.Startable (c.identity (Identity.ofBytes bytes)) ∧ s.ttl = c.leaseTime ∧
        ∀ (scene : Scenario) o, o.settings = s → o.identity = c.identity (Identity.ofBytes bytes) →
          o.disabled = false → o.faults = none →
            ∀ e, (scene.start o).1 = .refused e ↔ s.AddressRefused e) ∧
      (∀ text, env.text? ElectionSettings.developmentVariable = some text →
        c.development = ElectionSettings.isDevelopment env) ∧
      (env.text? ElectionSettings.developmentVariable = none →
        ElectionSettings.isDevelopment env = false) := by
  have agree := development_of_isDevelopment loaded
  have readers : (∀ text, env.text? ElectionSettings.developmentVariable = some text →
      c.development = ElectionSettings.isDevelopment env) ∧
      (env.text? ElectionSettings.developmentVariable = none →
        ElectionSettings.isDevelopment env = false) :=
    ⟨fun _ present => development_of_text loaded present, isDevelopment_of_none⟩
  rcases Configuration.election_of_validate (load_eq_ok_iff.mp loaded).2 env with
    ⟨disabled, none⟩ | ⟨enabled, backend, -, some⟩
  · refine ⟨_, none, by simp [disabled], nofun, readers⟩
  · refine ⟨_, some, by simp [enabled], ?_, readers⟩
    rintro s ⟨rfl⟩
    have startable := c.startable_settingsFor backend agree (Identity.ofBytes_ne_empty bytes)
    refine ⟨startable, Configuration.ttl_settingsFor agree, ?_⟩
    intro scene o settings identity elects checked e
    rw [Scenario.start_eq_refused_iff scene o elects checked, settings, identity]
    exact startable.prepare_eq_error_iff e

/-- A file for development, found at the second of the standard places. -/
def developmentFiles : FileSystem := fun path =>
  if path = "config.toml" then
    .ok (.file (Text.bytes ("dev_mode = true\n[leader]\nenabled = true\nlock_kind = \"etcd\"\n" ++
      "redis_url = \"redis//nowhere\"")))
  else .error .absent

/-- A lock kind in other letters, a lease time that is no number, and no text for development mode.
-/
def oddEnvironment : Environment :=
  .ofList [("SOLO_LEADER_LOCK_KIND", Text.bytes "REDIS"),
    ("SOLO_LEADER_TTL_SECS", Text.bytes "soon"), ("SOLO_DEV_MODE", [0xFF])]

def developed : Configuration :=
  { leader := { enabled := true, redisUrl := "redis//nowhere" }, development := true }

theorem startable_of_load_developed :
    ({} : Loader).load developmentFiles oddEnvironment = .ok developed ∧
      ∃ s, developed.election oddEnvironment = .ok (some s) ∧
        s.Startable (developed.identity (Identity.ofBytes [])) ∧ s.ttl = .ofSeconds 3600 := by
  have evaluated : (({} : Loader).load developmentFiles oddEnvironment).toOption =
      some developed := by
    decide +kernel
  have loaded : ({} : Loader).load developmentFiles oddEnvironment = .ok developed := by
    cases result : ({} : Loader).load developmentFiles oddEnvironment with
    | error e =>
        rw [result] at evaluated
        cases evaluated
    | ok c =>
        rw [result] at evaluated
        exact congrArg _ (Option.some.inj evaluated)
  obtain ⟨asked, election, elects, startable, -⟩ := startable_of_load loaded []
  cases asked with
  | none => exact absurd (elects.mp rfl) (by decide)
  | some s =>
      obtain ⟨ready, ttl, -⟩ := startable s rfl
      exact ⟨loaded, s, election, ready, ttl⟩

end Loader

end LeaderLease
