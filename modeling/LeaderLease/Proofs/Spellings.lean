import LeaderLease.Proofs.Literals
import LeaderLease.Proofs.Numerals
import LeaderLease.Proofs.Readiness

/-!
# Spellings of a lock kind

The lock kind of a configuration is a text until an election needs it. A file has to spell it as the
backend's own name, a variable may use capitals, and what is parsed may have blanks around it as
well (`Source.spellings`). The three agree on a text exactly if it is the backend's own name or none
of them accepts it.
-/

set_option autoImplicit false

namespace LeaderLease

/-! ## Capitals and blanks -/

namespace Text

/-- The codes up to the last capital. -/
theorem isBlank_toLower_ofNat :
    ∀ n < 91, isBlank (Char.ofNat n).toLower = isBlank (Char.ofNat n) := by
  decide

theorem isBlank_toLower (c : Char) : isBlank c.toLower = isBlank c := by
  by_cases low : c.toNat < 91
  · have same := isBlank_toLower_ofNat c.toNat low
    rwa [Char.ofNat_toNat] at same
  · have kept : c.toLower = c := by
      refine dif_neg fun capital => low ?_
      have last : c.toNat ≤ 90 := UInt32.le_iff_toNat_le.mp capital.2
      omega
    rw [kept]

theorem trim_map_toLower (cs : List Char) :
    trim (cs.map Char.toLower) = (trim cs).map Char.toLower := by
  have blanks : isBlank ∘ Char.toLower = isBlank := funext isBlank_toLower
  simp only [trim, trimEnd, trimStart, List.dropWhile_map, ← List.map_reverse, blanks]

theorem trimmed_lowerAscii (s : String) : trimmed (lowerAscii s) = lowerAscii (trimmed s) := by
  simp only [trimmed, lowerAscii, String.toList_ofList, trim_map_toLower]

end Text

namespace Backend

variable {text : String} {b : Backend}

theorem name_injective {b b' : Backend} (same : b.name = b'.name) : b = b' := by
  revert same
  cases b <;> cases b' <;> decide

theorem parse_cases (text : String) :
    (∃ b : Backend, b.name = Text.lowerAscii (Text.trimmed text) ∧ parse text = .ok b) ∨
    ((∀ b : Backend, b.name ≠ Text.lowerAscii (Text.trimmed text)) ∧
      parse text = .error (Text.lowerAscii (Text.trimmed text))) := by
  unfold parse
  dsimp only
  split
  · rename_i memory
    exact .inl ⟨.memory, memory.symm, rfl⟩
  · rename_i notMemory
    split
    · rename_i redis
      exact .inl ⟨.redis, redis.symm, rfl⟩
    · rename_i notRedis
      refine .inr ⟨fun b named => ?_, rfl⟩
      cases b with
      | memory => exact notMemory named.symm
      | redis => exact notRedis named.symm

/-- What is parsed may be written with capitals and between blanks. -/
theorem parse_eq_ok_iff : parse text = .ok b ↔ b.name = Text.lowerAscii (Text.trimmed text) := by
  rcases parse_cases text with ⟨found, named, parsed⟩ | ⟨unknown, refused⟩
  · rw [parsed, ← named, Except.ok.injEq, eq_comm]
    exact ⟨congrArg name, name_injective⟩
  · rw [refused]
    exact ⟨nofun, fun named => absurd named (unknown b)⟩

theorem parse_of_lowerAscii (named : b.name = Text.lowerAscii text) : parse text = .ok b := by
  have trimmed : Text.trimmed b.name = b.name := by cases b <;> decide
  rw [parse_eq_ok_iff, ← Text.trimmed_lowerAscii, ← named, trimmed]

theorem name_eq_lowerAscii (named : b.name = text) : b.name = Text.lowerAscii text := by
  have lowered : Text.lowerAscii b.name = b.name := by cases b <;> decide
  rw [← named, lowered]

end Backend

/-! ## Configurations but for their lock kind -/

theorem Decimal.readUnsigned_digits {n bound : Nat} (small : n < bound) :
    readUnsigned bound (digits n) = some n := by
  have read : readBelow bound (digits n) = some n := by
    have all : (digits n).all Char.isDigit = true :=
      List.all_eq_true.mpr fun c member => Decimal.isDigit_of_mem_digits member
    rw [readBelow, value_digits, if_pos ⟨Decimal.digits_ne_nil n, all, small⟩]
  unfold readUnsigned
  split
  · rename_i rest signed
    have plus : '+' ∈ digits n := signed ▸ List.mem_cons_self ..
    exact absurd (Decimal.isDigit_of_mem_digits plus) (by decide)
  · exact read

namespace Setting

/-- A text for a variable. -/
def write : (s : Setting) → s.Value → String
  | .enabled, (flag : Bool) => if flag then "true" else "false"
  | .development, (flag : Bool) => if flag then "true" else ""
  | .ttlSeconds, (n : Nat) => String.ofList (Decimal.digits n)
  | .instanceId, text | .ns, text | .name, text | .lockKind, text | .redisUrl, text => text

/-- All settings but the lock kind. -/
def others : List Setting :=
  [.enabled, .instanceId, .ttlSeconds, .ns, .name, .redisUrl, .development]

end Setting

namespace Configuration

variable {c : Configuration}

def withLockKind (c : Configuration) (kind : String) : Configuration :=
  { c with leader := { c.leader with lockKind := kind } }

/-- Enabled, and valid with some lock kind. The lease time has 64 bits. -/
structure OtherwiseValid (c : Configuration) : Prop where
  enabled : c.leader.enabled = true
  valid : ∃ kind, (c.withLockKind kind).validate = .ok ()
  inRange : c.leader.ttlSeconds < Nat.pow 2 64

theorem eq_withLockKind {d : Configuration} (same : ∀ s, s ≠ .lockKind → d.value s = c.value s) :
    d = c.withLockKind d.leader.lockKind := by
  refine ext_value fun s => ?_
  cases s with
  | lockKind => rfl
  | enabled | instanceId | ttlSeconds | ns | name | redisUrl | development =>
      exact same _ (by decide)

theorem validate_withLockKind_cases (ready : c.OtherwiseValid) (kind : String) :
    ((∃ b : Backend, b.name = kind) ∧ (c.withLockKind kind).validate = .ok ()) ∨
    ((∀ b : Backend, b.name ≠ kind) ∧
      (c.withLockKind kind).validate = .error (.unknownLockKind kind)) := by
  have enabled (kind : String) : (c.withLockKind kind).leader.enabled = true := ready.enabled
  -- The check of the name does not look at the lock kind, and it has passed for another one.
  have named : Text.trim c.leader.name.toList ≠ [] := by
    intro blank
    obtain ⟨other, valid⟩ := ready.valid
    have refused : (c.withLockKind other).validate = .error .emptyName := by
      rw [validate, if_pos (enabled other)]
      exact if_pos blank
    rw [refused] at valid
    cases valid
  have checked : (c.withLockKind kind).validate =
      if kind = "redis" ∨ kind = "memory" then .ok () else .error (.unknownLockKind kind) := by
    rw [validate, if_pos (enabled kind)]
    exact if_neg named
  rw [checked]
  by_cases known : kind = "redis" ∨ kind = "memory"
  · refine .inl ⟨?_, if_pos known⟩
    rcases known with rfl | rfl
    · exact ⟨.redis, rfl⟩
    · exact ⟨.memory, rfl⟩
  · refine .inr ⟨?_, if_neg known⟩
    rintro b rfl
    cases b with
    | memory => exact known (.inr rfl)
    | redis => exact known (.inl rfl)

/-- An environment that sets everything but the lock kind. -/
def environment (c : Configuration) : Environment :=
  .ofList (Setting.others.map fun s => (s.variableName, Text.bytes (s.write (c.value s))))

theorem text?_environment {s : Setting} (other : s ≠ .lockKind) :
    c.environment.text? s.variableName = some (s.write (c.value s)) := by
  have found : c.environment.get? s.variableName = some (Text.bytes (s.write (c.value s))) := by
    cases s with
    | lockKind => exact absurd rfl other
    | enabled | instanceId | ttlSeconds | ns | name | redisUrl | development => rfl
  rw [Environment.text?, found, Option.bind_some, Text.ofBytes?_bytes]

theorem lockKind_environment (c : Configuration) :
    c.environment.text? (Setting.variableName .lockKind) = none := by
  have absent : c.environment.get? (Setting.variableName .lockKind) = none := rfl
  rw [Environment.text?, absent, Option.bind_none]

theorem ofText?_write (inRange : c.leader.ttlSeconds < Nat.pow 2 64) {s : Setting}
    (other : s ≠ .lockKind) : s.ofText? (s.write (c.value s)) = some (c.value s) := by
  cases s with
  | lockKind => exact absurd rfl other
  | instanceId | ns | name | redisUrl => rfl
  | ttlSeconds =>
      have read := Decimal.readUnsigned_digits inRange
      change Decimal.readUnsigned (Nat.pow 2 64)
        (String.ofList (Decimal.digits c.leader.ttlSeconds)).toList = _
      rw [String.toList_ofList]
      exact read
  | enabled =>
      have flag : ∀ b : Bool, decide ((if b then "true" else "false") = "true") = b := by decide
      exact congrArg some (flag c.leader.enabled)
  | development =>
      have flag : ∀ b : Bool, decide ((if b then "true" else "") ≠ "") = b := by decide
      exact congrArg some (flag c.development)

end Configuration

/-! ## Sources -/

/-- What a process is configured by. -/
structure Source where
  loader : Loader
  files : FileSystem
  env : Environment

namespace Source

variable {u v : Source} {c : Configuration} {text kind : String} {b : Backend}

def load (u : Source) : Except ConfigurationError Configuration := u.loader.load u.files u.env

def Loads (u : Source) : Prop := ∃ d, u.load = .ok d

/-- The configuration is loaded and asks for an election over this backend. -/
def Selects (u : Source) (b : Backend) : Prop :=
  ∃ d s, u.load = .ok d ∧ d.election u.env = .ok (some s) ∧ s.backend = b

/-- The source says what the configuration says, but for the lock kind. -/
def Gives (u : Source) (c : Configuration) : Prop :=
  ∃ d, u.loader.layered u.files u.env = .ok d ∧ ∀ s, s ≠ .lockKind → d.value s = c.value s

/-- The lock kind is stated by the file, and by no variable. -/
structure States (u : Source) (c : Configuration) (text : String) : Prop where
  rest : u.Gives c
  unset : u.env.text? (Setting.variableName .lockKind) = none
  field : u.loader.field? u.files u.env .lockKind = some (.text text)

/-- The lock kind is stated by the variable, whatever a file says. -/
structure Overrides (u : Source) (c : Configuration) (text : String) : Prop where
  rest : u.Gives c
  given : u.env.text? (Setting.variableName .lockKind) = some text

/-- The configuration without its checks has this lock kind. -/
def Comes (u : Source) (c : Configuration) (kind : String) : Prop :=
  u.loader.layered u.files u.env = .ok (c.withLockKind kind)

theorem comes_of_resolve (rest : u.Gives c)
    (resolved : Setting.resolve .lockKind (u.env.text? (Setting.variableName .lockKind))
      (u.loader.field? u.files u.env .lockKind) = some kind) : u.Comes c kind := by
  obtain ⟨d, layered, same⟩ := rest
  have settled := Loader.resolve_layered layered .lockKind
  rw [resolved] at settled
  have chosen : kind = d.leader.lockKind := Option.some.inj settled
  rw [Comes, layered, chosen]
  exact congrArg _ (Configuration.eq_withLockKind same)

theorem States.comes (stated : u.States c text) : u.Comes c text := by
  refine comes_of_resolve stated.rest ?_
  rw [stated.unset, stated.field]
  rfl

theorem Overrides.comes (overrides : u.Overrides c text) : u.Comes c (Text.lowerAscii text) := by
  refine comes_of_resolve overrides.rest ?_
  rw [overrides.given]
  rfl

/-- What loading comes to with a lock kind. -/
structure Settles (u : Source) (kind : String) : Prop where
  loads : u.Loads ↔ ∃ b : Backend, b.name = kind
  selects : ∀ b : Backend, u.Selects b ↔ b.name = kind
  refused : (∀ b : Backend, b.name ≠ kind) → u.load = .error (.unknownLockKind kind)

theorem Comes.settles (comes : u.Comes c kind) (ready : c.OtherwiseValid) : u.Settles kind := by
  rcases Configuration.validate_withLockKind_cases ready kind with
    ⟨⟨b, named⟩, valid⟩ | ⟨unknown, invalid⟩
  · have loaded : u.load = .ok (c.withLockKind kind) := Loader.load_eq_ok_iff.mpr ⟨comes, valid⟩
    have elects : (c.withLockKind kind).election u.env =
        .ok (some ((c.withLockKind kind).settingsFor u.env b)) := by
      have enabled : (c.withLockKind kind).leader.enabled = true := ready.enabled
      have parsed : Backend.parse (c.withLockKind kind).leader.lockKind = .ok b := by
        rw [← Backend.parse_name b, named]
        rfl
      rw [Configuration.election, if_pos enabled, parsed]
    have backend := (Configuration.backend_settingsFor (c.withLockKind kind) u.env b).1
    refine ⟨iff_of_true ⟨_, loaded⟩ ⟨b, named⟩, fun other => ?_, fun unknown => ?_⟩
    · constructor
      · rintro ⟨d, s, again, elected, selected⟩
        rw [loaded] at again
        cases again
        rw [elects] at elected
        cases elected
        rw [← selected, backend, named]
      · intro same
        rw [← named] at same
        cases Backend.name_injective same
        exact ⟨_, _, loaded, elects, backend⟩
    · exact absurd named (unknown b)
  · have refused : u.load = .error (.unknownLockKind kind) := by
      have layered : u.loader.layered u.files u.env = .ok (c.withLockKind kind) := comes
      rw [load, Loader.load, layered]
      simp [bind, Except.bind, invalid]
    refine ⟨iff_of_false ?_ ?_, fun b => iff_of_false ?_ (unknown b), fun _ => refused⟩
    · rintro ⟨d, loaded⟩
      rw [refused] at loaded
      cases loaded
    · rintro ⟨b, named⟩
      exact unknown b named
    · rintro ⟨d, s, loaded, -⟩
      rw [refused] at loaded
      cases loaded

/-! ## Every text can be stated -/

theorem gives_of_variables (inRange : c.leader.ttlSeconds < Nat.pow 2 64)
    (loads : ∃ d, u.loader.layered u.files u.env = .ok d)
    (worded : ∀ s : Setting, s ≠ .lockKind →
      u.env.text? s.variableName = some (s.write (c.value s))) : u.Gives c := by
  obtain ⟨d, layered⟩ := loads
  refine ⟨d, layered, fun s other => ?_⟩
  have settled := Loader.resolve_layered layered s
  rw [Setting.resolve, worded s other, Option.bind_some,
    Configuration.ofText?_write inRange other] at settled
  exact (Option.some.inj settled).symm

/-- A file with the lock kind, and variables for the rest. -/
def written (c : Configuration) (text : String) : Source where
  loader := .ofPath "solo.toml"
  files path :=
    if path = "solo.toml" then .ok (.file (Text.bytes (Setting.statement .lockKind text)))
    else .error .absent
  env := c.environment

theorem written_states (inRange : c.leader.ttlSeconds < Nat.pow 2 64) (text : String) :
    (written c text).States c text := by
  have content : (written c text).files "solo.toml" =
      .ok (.file (Text.bytes (Setting.statement .lockKind text))) := rfl
  have found : (written c text).loader.findFile (written c text).files (written c text).env =
      some "solo.toml" := Loader.findFile_eq_some_iff.mpr (.given rfl ⟨_, content⟩)
  have document : Configuration.document? (written c text).files "solo.toml" =
      some (Setting.stated .lockKind (.text text)) :=
    Configuration.document?_of_statement (s := .lockKind) trivial content
  have loads : ∃ d, (written c text).loader.layered (written c text).files (written c text).env =
      .ok d := by
    refine Loader.exists_layered fun path used => ?_
    cases Option.some.inj (found.symm.trans used)
    exact ⟨_, document, Setting.decodable_stated .lockKind text⟩
  refine ⟨gives_of_variables inRange loads fun s other => Configuration.text?_environment other,
    c.lockKind_environment, ?_⟩
  rw [Loader.field?, found, Option.bind_some, document, Option.bind_some]
  exact Setting.inDocument_stated .lockKind (.text text)

/-- Variables for everything, and no file. -/
def allVariables (c : Configuration) (text : String) : Source where
  loader := .ofPath "solo.toml"
  files _ := .error .absent
  env := c.environment.put (Setting.variableName .lockKind) (Text.bytes text)

theorem allVariables_overrides (inRange : c.leader.ttlSeconds < Nat.pow 2 64) (text : String) :
    (allVariables c text).Overrides c text := by
  have worded (s : Setting) (other : s ≠ .lockKind) :
      (allVariables c text).env.text? s.variableName = some (s.write (c.value s)) := by
    have apart : Setting.variableName .lockKind ≠ s.variableName := by
      revert other
      cases s <;> decide
    rw [← Configuration.text?_environment other, Environment.text?, Environment.text?, allVariables,
      Table.get?_put_of_ne _ _ apart]
  refine ⟨gives_of_variables inRange (Loader.exists_layered ?_) worded, ?_⟩
  · intro path used
    have there : (allVariables c text).files.has path = true := List.find?_some used
    have absent : (allVariables c text).files.has path = false := rfl
    rw [absent] at there
    cases there
  · rw [Environment.text?, allVariables, Table.get?_put_self, Option.bind_some, Text.ofBytes?_bytes]

/-! ## One notion of a lock kind -/

/-- However the lock kind is stated, the text is accepted or not, and as the same kind. -/
def OneNotion (c : Configuration) (text : String) : Prop :=
  ∀ u v : Source, u.States c text → v.Overrides c text →
    (u.Loads ↔ v.Loads) ∧ (v.Loads ↔ ∃ b, Backend.parse text = .ok b) ∧
    (u.Loads → ∃ b, u.Selects b ∧ v.Selects b ∧ Backend.parse text = .ok b)

/-- What becomes of a text where it may stand for a lock kind. -/
structure Spells (c : Configuration) (text : String) : Prop where
  stated : ∃ u : Source, u.States c text
  given : ∃ v : Source, v.Overrides c text
  file : ∀ u : Source, u.States c text → u.Settles text
  override : ∀ v : Source, v.Overrides c text → v.Settles (Text.lowerAscii text)
  parsed : ∀ b, Backend.parse text = .ok b ↔ b.name = Text.lowerAscii (Text.trimmed text)
  /-- What is good enough for a file is good enough for a variable. -/
  wider : ∀ u v : Source, u.States c text → v.Overrides c text → ∀ b, u.Selects b → v.Selects b
  widest : ∀ v : Source, v.Overrides c text → ∀ b, v.Selects b → Backend.parse text = .ok b
  agree : OneNotion c text ↔ ∀ b, Backend.parse text = .ok b → b.name = text

theorem oneNotion_of_literal (ready : c.OtherwiseValid)
    (literal : ∀ b, Backend.parse text = .ok b → b.name = text) : OneNotion c text := by
  intro u v stated overrides
  have file := stated.comes.settles ready
  have override := overrides.comes.settles ready
  by_cases known : ∃ b, Backend.parse text = .ok b
  · obtain ⟨b, parsed⟩ := known
    have named := literal b parsed
    have lowered := Backend.name_eq_lowerAscii named
    have loads : u.Loads := file.loads.mpr ⟨b, named⟩
    have overriden : v.Loads := override.loads.mpr ⟨b, lowered⟩
    refine ⟨iff_of_true loads overriden, iff_of_true overriden ⟨b, parsed⟩, fun _ => ?_⟩
    exact ⟨b, (file.selects b).mpr named, (override.selects b).mpr lowered, parsed⟩
  · have refused : ¬ v.Loads := by
      intro loads
      obtain ⟨b, lowered⟩ := override.loads.mp loads
      exact known ⟨b, Backend.parse_of_lowerAscii lowered⟩
    have unstated : ¬ u.Loads := by
      intro loads
      obtain ⟨b, named⟩ := file.loads.mp loads
      exact known ⟨b, Backend.parse_of_lowerAscii (Backend.name_eq_lowerAscii named)⟩
    exact ⟨iff_of_false unstated refused, iff_of_false refused known,
      fun loads => absurd loads unstated⟩

theorem literal_of_oneNotion (ready : c.OtherwiseValid) (agree : OneNotion c text)
    (parsed : Backend.parse text = .ok b) : b.name = text := by
  -- The text is stated both ways, so that what is said of all sources says something of it.
  have stated := written_states ready.inRange text
  obtain ⟨loads, parses, same⟩ := agree _ _ stated (allVariables_overrides ready.inRange text)
  obtain ⟨b', selected, -, parsed'⟩ := same (loads.mpr (parses.mpr ⟨b, parsed⟩))
  rw [parsed] at parsed'
  cases parsed'
  exact ((stated.comes.settles ready).selects b).mp selected

/-- A file accepts the backends' own names, a variable also capitals, and parsing also blanks, so
that they agree on a text exactly if it is a name itself or is not even parsed. -/
theorem spellings (ready : c.OtherwiseValid) (text : String) : Spells c text where
  stated := ⟨_, written_states ready.inRange text⟩
  given := ⟨_, allVariables_overrides ready.inRange text⟩
  file u stated := stated.comes.settles ready
  override v overrides := overrides.comes.settles ready
  parsed b := Backend.parse_eq_ok_iff
  wider u v stated overrides b selected := by
    have named := ((stated.comes.settles ready).selects b).mp selected
    exact ((overrides.comes.settles ready).selects b).mpr (Backend.name_eq_lowerAscii named)
  widest v overrides b selected := by
    have lowered := ((overrides.comes.settles ready).selects b).mp selected
    exact Backend.parse_of_lowerAscii lowered
  agree := ⟨fun agree _ parsed => literal_of_oneNotion ready agree parsed,
    oneNotion_of_literal ready⟩

/-- The usual configuration with an election. -/
def electing : Configuration := { leader := { enabled := true } }

theorem electing_otherwiseValid : electing.OtherwiseValid :=
  ⟨rfl, ⟨"memory", rfl⟩, by decide⟩

/-- A variable with capitals and no blanks is accepted, and other texts are not. -/
theorem spellings_allVariables : electing.OtherwiseValid ∧
    (allVariables electing "REDIS").Selects .redis ∧ ¬ OneNotion electing "REDIS" ∧
      OneNotion electing "etcd" := by
  have ready := electing_otherwiseValid
  have loud := spellings ready "REDIS"
  have given := allVariables_overrides ready.inRange "REDIS"
  refine ⟨ready, ((loud.override _ given).selects .redis).mpr (by decide), ?_, ?_⟩
  · intro agree
    have named := loud.agree.mp agree .redis (Backend.parse_eq_ok_iff.mpr (by decide))
    exact absurd named (by decide)
  · refine (spellings ready "etcd").agree.mpr fun b parsed => ?_
    rw [Backend.parse_eq_ok_iff] at parsed
    revert parsed
    cases b <;> decide

/-- A file that spells the kind with a capital. -/
def capitalized : Source where
  loader := .ofPath "solo.toml"
  files path :=
    if path = "solo.toml" then
      .ok (.file (Text.bytes "[leader]\nenabled = true\nlock_kind = \"Memory\"\n"))
    else .error .absent
  env := Table.empty

theorem layered_capitalized :
    capitalized.loader.layered capitalized.files capitalized.env =
      .ok (electing.withLockKind "Memory") := by
  have evaluated : (capitalized.loader.layered capitalized.files capitalized.env).toOption =
      some (electing.withLockKind "Memory") := by
    decide +kernel
  cases result : capitalized.loader.layered capitalized.files capitalized.env with
  | error e =>
      rw [result] at evaluated
      cases evaluated
  | ok c =>
      rw [result] at evaluated
      exact congrArg _ (Option.some.inj evaluated)

theorem capitalized_states : capitalized.States electing "Memory" := by
  have evaluated : (capitalized.loader.field? capitalized.files capitalized.env .lockKind).bind
      Toml.toText? = some "Memory" := by
    decide +kernel
  refine ⟨⟨_, layered_capitalized, ?_⟩, rfl, ?_⟩
  · intro s other
    cases s <;> first | rfl | exact absurd rfl other
  · obtain ⟨t, found, text⟩ := Option.bind_eq_some_iff.mp evaluated
    rw [found]
    cases t with
    | text s => rw [Option.some.inj text]
    | _ => cases text

/-- A capital is accepted in the variable and by the parser, and refused in the file. -/
theorem capitalized_not_oneNotion : electing.OtherwiseValid ∧ capitalized.States electing "Memory" ∧
    capitalized.load = .error (.unknownLockKind "Memory") ∧
    (allVariables electing "Memory").Selects .memory ∧ Backend.parse "Memory" = .ok .memory ∧
      ¬ OneNotion electing "Memory" := by
  have ready := electing_otherwiseValid
  have given := allVariables_overrides ready.inRange "Memory"
  have selected : (allVariables electing "Memory").Selects .memory :=
    ((given.comes.settles ready).selects .memory).mpr (by decide)
  have refused : capitalized.load = .error (.unknownLockKind "Memory") := by
    refine (capitalized_states.comes.settles ready).refused fun b => ?_
    cases b <;> decide
  have parsed : Backend.parse "Memory" = .ok .memory := Backend.parse_eq_ok_iff.mpr (by decide)
  refine ⟨ready, capitalized_states, refused, selected, parsed, fun agree => ?_⟩
  obtain ⟨loads, -, -⟩ := agree _ _ capitalized_states given
  obtain ⟨d, s, loaded, -⟩ := selected
  obtain ⟨d, loaded⟩ := loads.mpr ⟨d, loaded⟩
  rw [refused] at loaded
  cases loaded

end Source

end LeaderLease
