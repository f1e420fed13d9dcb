import LeaderLease.Proofs.Literals
import LeaderLease.Settings.Loader

/-!
# Layers of a configuration

A setting has a variable of its own and a field of its own in a document: the member of a table by
its name, or the item of a list at its place (`Setting.inDocument`). `Setting.resolve` says what the
two come to: the text of the variable wins if it selects a value, then the field counts, then the
default. `Loader.isLayered` says that loading does this for every setting, with the first file that
exists (`Loader.Finds`): whatever else is in the environment, in the file and in other files makes no
difference, except that a file that cannot be read, or whose document is not `Toml.Decodable`, is
refused and that the result has to be valid.
-/

set_option autoImplicit false

namespace LeaderLease

/-! ## Settings -/

/-- What can be set, one by one. -/
inductive Setting where
  | enabled
  | instanceId
  | ttlSeconds
  | ns
  | name
  | lockKind
  | redisUrl
  | development
deriving DecidableEq, Repr

namespace Setting

def Value : Setting → Type
  | .enabled | .development => Bool
  | .ttlSeconds => Nat
  | .instanceId | .ns | .name | .lockKind | .redisUrl => String

def variableName : Setting → String
  | .enabled => "SOLO_LEADER_ENABLED"
  | .instanceId => "SOLO_LEADER_INSTANCE_ID"
  | .ttlSeconds => "SOLO_LEADER_TTL_SECS"
  | .ns => "SOLO_LEADER_NAMESPACE"
  | .name => "SOLO_LEADER_NAME"
  | .lockKind => "SOLO_LEADER_LOCK_KIND"
  | .redisUrl => "SOLO_LEADER_REDIS_URL"
  | .development => "SOLO_DEV_MODE"

def fieldName : Setting → String
  | .enabled => "enabled"
  | .instanceId => "instance_id"
  | .ttlSeconds => "ttl_secs"
  | .ns => "namespace"
  | .name => "name"
  | .lockKind => "lock_kind"
  | .redisUrl => "redis_url"
  | .development => "dev_mode"

/-- The value that a text selects. A text that is no number selects no lease time. -/
def ofText? : (s : Setting) → String → Option s.Value
  | .enabled, text => some (decide (text = "true"))
  | .instanceId, text | .ns, text | .name, text | .redisUrl, text => some text
  | .ttlSeconds, text => Decimal.readUnsigned (Nat.pow 2 64) text.toList
  | .lockKind, text => some (Text.lowerAscii text)
  | .development, text => some (decide (text ≠ ""))

/-- The value that a field of a document holds, if it has the right type. -/
def ofToml? : (s : Setting) → Toml → Option s.Value
  | .enabled, .bool b | .development, .bool b => some b
  | .ttlSeconds, .int i => if 0 ≤ i then some i.toNat else none
  | .instanceId, .text t | .ns, .text t | .name, .text t | .lockKind, .text t
  | .redisUrl, .text t => some t
  | _, _ => none

/-- The value of a setting that nothing is said about. -/
def usual : (s : Setting) → s.Value
  | .enabled | .development => false
  | .ttlSeconds => (0 : Nat)
  | .instanceId | .ns => ""
  | .name => "solo-leader"
  | .lockKind => "redis"
  | .redisUrl => "redis://127.0.0.1:6379"

/-- The place of the field in a section that is written as a list. -/
def place : Setting → Nat
  | .enabled => 0
  | .instanceId | .development => 1
  | .ttlSeconds => 2
  | .ns => 3
  | .name => 4
  | .lockKind => 5
  | .redisUrl => 6

end Setting

/-- The value of a setting. -/
def Configuration.value (c : Configuration) : (s : Setting) → s.Value
  | .enabled => c.leader.enabled
  | .instanceId => c.leader.instanceId
  | .ttlSeconds => c.leader.ttlSeconds
  | .ns => c.leader.ns
  | .name => c.leader.name
  | .lockKind => c.leader.lockKind
  | .redisUrl => c.leader.redisUrl
  | .development => c.development

/-- What a value says under a name: a table in the member of that name, a list in the item at the place
of the name. -/
def Toml.own? (name : String) (place : Nat) : Toml → Option Toml
  | .table members => members.lookup name
  | .list items => items[place]?
  | _ => none

/-- The text of a variable: nothing if it is not set, or its bytes are no text. -/
def Environment.own? (env : Environment) (name : String) : Option String :=
  match env.get? name with
  | some bytes => Text.ofBytes? bytes
  | none => none

/-- A value that may stand for a structure. A moment of time is one without fields. -/
def Toml.IsStructure : Toml → Prop
  | .table _ | .list _ | .moment _ => True
  | _ => False

namespace Setting

/-- The field of a document that is for a setting. -/
def inDocument (s : Setting) (t : Toml) : Option Toml :=
  match s with
  | .development => t.own? s.fieldName s.place
  | _ => (t.own? "leader" 0).bind (Toml.own? s.fieldName s.place)

/-- What a field comes to, or nothing if it has the wrong type. -/
def ofField (s : Setting) : Option Toml → Option s.Value
  | none => some s.usual
  | some t => s.ofToml? t

/-- What the text of the variable and the field of the document come to, or nothing if the field
counts and has the wrong type. -/
def resolve (s : Setting) (text : Option String) (field : Option Toml) : Option s.Value :=
  match text.bind s.ofText? with
  | some value => some value
  | none => s.ofField field

/-- Every text selects a value, but for the lease time. -/
theorem eq_ttlSeconds_of_ofText? {s : Setting} {text : String} (nothing : s.ofText? text = none) :
    s = .ttlSeconds ∧ Decimal.readUnsigned (Nat.pow 2 64) text.toList = none := by
  cases s with
  | ttlSeconds => exact ⟨rfl, nothing⟩
  | _ => cases nothing

end Setting

/-- A document with structures where structures belong, and with values of the right types in the
fields that it has. -/
structure Toml.Decodable (t : Toml) : Prop where
  whole : t.IsStructure
  part : ∀ leader, t.own? "leader" 0 = some leader → leader.IsStructure
  typed : ∀ (s : Setting) field, s.inDocument t = some field → ∃ value, s.ofToml? field = some value

theorem Environment.text?_eq_own? (env : Environment) (name : String) :
    env.text? name = env.own? name := by
  rw [text?, own?]
  cases env.get? name <;> rfl

/-! ## Documents -/

namespace Toml

variable {names : List String} {t : Toml}

/-- A structure holds for each name what it says under it. -/
theorem fields_of_isStructure (structured : t.IsStructure) :
    t.fields names = some (names.mapIdx fun place name => t.own? name place) := by
  cases t with
  | table members => exact congrArg some (List.ext_getElem (by simp) (by simp [own?]))
  | list items => exact congrArg some (List.ext_getElem (by simp) (by simp [own?]))
  | moment written => exact congrArg some (List.ext_getElem (by simp) (by simp [own?]))
  | _ => exact structured.elim

theorem isStructure_of_fields {fields : List (Option Toml)} (found : t.fields names = some fields) :
    t.IsStructure := by
  cases t with
  | table _ | list _ | moment _ => trivial
  | _ => cases found

end Toml

namespace Setting

/-- The reader of the type that a setting has. -/
def reader : (s : Setting) → Toml → Option s.Value
  | .enabled | .development => Toml.toBool?
  | .ttlSeconds => fun t => t.toInt?.bind fun i => if 0 ≤ i then some i.toNat else none
  | .instanceId | .ns | .name | .lockKind | .redisUrl => Toml.toText?

theorem reader_eq (s : Setting) (t : Toml) : s.reader t = s.ofToml? t := by
  cases s <;> cases t <;> rfl

theorem fieldOr_reader (s : Setting) (field : Option Toml) :
    fieldOr s.usual s.reader field = s.ofField field := by
  cases field with
  | none => rfl
  | some t => exact s.reader_eq t

end Setting

namespace LeaderSection

theorem ofFields?_eq_some_iff {δ : Type} {bool : δ → Option Bool} {text : δ → Option String}
    {seconds : δ → Option Nat} {a b c d e f g : Option δ} {leader : LeaderSection} :
    ofFields? bool text seconds [a, b, c, d, e, f, g] = some leader ↔
      fieldOr false bool a = some leader.enabled ∧ fieldOr "" text b = some leader.instanceId ∧
      fieldOr 0 seconds c = some leader.ttlSeconds ∧ fieldOr "" text d = some leader.ns ∧
      fieldOr "solo-leader" text e = some leader.name ∧
      fieldOr "redis" text f = some leader.lockKind ∧
      fieldOr "redis://127.0.0.1:6379" text g = some leader.redisUrl := by
  simp only [ofFields?, Option.bind_eq_bind, Option.bind_eq_some_iff]
  constructor
  · rintro ⟨_, enabled, _, instanceId, _, ttlSeconds, _, ns, _, name, _, lockKind, _, redisUrl, same⟩
    cases same
    exact ⟨enabled, instanceId, ttlSeconds, ns, name, lockKind, redisUrl⟩
  · rintro ⟨enabled, instanceId, ttlSeconds, ns, name, lockKind, redisUrl⟩
    exact ⟨_, enabled, _, instanceId, _, ttlSeconds, _, ns, _, name, _, lockKind, _, redisUrl, rfl⟩

theorem ofToml?_eq_some_iff {t : Toml} {leader : LeaderSection} (structured : t.IsStructure) :
    ofToml? t = some leader ↔ ∀ s : Setting, s ≠ .development →
      s.ofField (t.own? s.fieldName s.place) = some (({ leader } : Configuration).value s) := by
  have fields : t.fields fieldNames = some [t.own? "enabled" 0, t.own? "instance_id" 1,
      t.own? "ttl_secs" 2, t.own? "namespace" 3, t.own? "name" 4, t.own? "lock_kind" 5,
      t.own? "redis_url" 6] := Toml.fields_of_isStructure structured
  rw [ofToml?, fields, Option.bind_eq_bind, Option.bind_some, ofFields?_eq_some_iff]
  constructor
  · rintro ⟨enabled, instanceId, ttlSeconds, ns, name, lockKind, redisUrl⟩ s other
    rw [← s.fieldOr_reader]
    cases s with
    | enabled => exact enabled
    | instanceId => exact instanceId
    | ttlSeconds => exact ttlSeconds
    | ns => exact ns
    | name => exact name
    | lockKind => exact lockKind
    | redisUrl => exact redisUrl
    | development => exact absurd rfl other
  · intro typed
    have read (s : Setting) (other : s ≠ .development) := (s.fieldOr_reader _).trans (typed s other)
    exact ⟨read .enabled nofun, read .instanceId nofun, read .ttlSeconds nofun, read .ns nofun,
      read .name nofun, read .lockKind nofun, read .redisUrl nofun⟩

end LeaderSection

namespace Configuration

theorem ofFields?_eq_some_iff {δ : Type} {bool : δ → Option Bool}
    {section? : δ → Option LeaderSection} {a b : Option δ} {c : Configuration} :
    ofFields? bool section? [a, b] = some c ↔
      fieldOr {} section? a = some c.leader ∧ fieldOr false bool b = some c.development := by
  simp only [ofFields?, Option.bind_eq_bind, Option.bind_eq_some_iff]
  constructor
  · rintro ⟨_, leader, _, development, same⟩
    cases same
    exact ⟨leader, development⟩
  · rintro ⟨leader, development⟩
    exact ⟨_, leader, _, development, rfl⟩

theorem ext_value {c c' : Configuration} (same : ∀ s, c.value s = c'.value s) : c = c' := by
  obtain ⟨⟨_, _, _, _, _, _, _⟩, _⟩ := c
  obtain ⟨⟨_, _, _, _, _, _, _⟩, _⟩ := c'
  cases same .enabled
  cases same .instanceId
  cases same .ttlSeconds
  cases same .ns
  cases same .name
  cases same .lockKind
  cases same .redisUrl
  cases same .development
  rfl

theorem exists_of_values (values : (s : Setting) → s.Value) :
    ∃ c : Configuration, ∀ s, c.value s = values s := by
  refine ⟨⟨⟨values .enabled, values .instanceId, values .ttlSeconds, values .ns, values .name,
    values .lockKind, values .redisUrl⟩, values .development⟩, fun s => ?_⟩
  cases s <;> rfl

theorem value_usual (s : Setting) : ({} : Configuration).value s = s.usual := by
  cases s <;> rfl

/-- What the section of the election in a document comes to, setting by setting. -/
theorem leader_eq_some_iff {field : Option Toml} {c : Configuration} :
    fieldOr {} LeaderSection.ofToml? field = some c.leader ↔
      (∀ t, field = some t → t.IsStructure) ∧ ∀ s : Setting, s ≠ .development →
        s.ofField (field.bind (Toml.own? s.fieldName s.place)) = some (c.value s) := by
  have value (s : Setting) (other : s ≠ .development) :
      ({ leader := c.leader } : Configuration).value s = c.value s := by
    cases s with
    | development => exact absurd rfl other
    | _ => rfl
  cases field with
  | none =>
      refine ⟨fun usual => ⟨nofun, fun s other => ?_⟩, fun ⟨_, usual⟩ => ?_⟩
      · rw [← value s other, ← Option.some.inj usual, value_usual]
        rfl
      · have same : ({} : Configuration) = { leader := c.leader } := by
          refine ext_value fun s => ?_
          by_cases whole : s = .development
          · subst whole
            rfl
          · rw [value s whole, value_usual]
            exact Option.some.inj (usual s whole)
        exact congrArg (fun c => some c.leader) same
  | some t =>
      constructor
      · intro read
        have structured : t.IsStructure := by
          obtain ⟨fields, found, -⟩ := Option.bind_eq_some_iff.mp read
          exact Toml.isStructure_of_fields found
        refine ⟨fun _ same => Option.some.inj same ▸ structured, fun s other => ?_⟩
        rw [← value s other]
        exact (LeaderSection.ofToml?_eq_some_iff structured).mp read s other
      · rintro ⟨structured, typed⟩
        refine (LeaderSection.ofToml?_eq_some_iff (structured t rfl)).mpr fun s other => ?_
        rw [value s other]
        exact typed s other

theorem inDocument_of_ne {s : Setting} (other : s ≠ .development) (t : Toml) :
    s.inDocument t = (t.own? "leader" 0).bind (Toml.own? s.fieldName s.place) := by
  cases s with
  | development => exact absurd rfl other
  | _ => rfl

/-- A document is decoded to what its own field says for every setting. -/
theorem ofToml?_eq_some_iff {t : Toml} {c : Configuration} : ofToml? t = some c ↔
    t.IsStructure ∧ (∀ leader, t.own? "leader" 0 = some leader → leader.IsStructure) ∧
      ∀ s : Setting, s.ofField (s.inDocument t) = some (c.value s) := by
  by_cases structured : t.IsStructure
  · have fields : t.fields fieldNames = some [t.own? "leader" 0, t.own? "dev_mode" 1] :=
      Toml.fields_of_isStructure structured
    have flag := Setting.fieldOr_reader .development (t.own? "dev_mode" 1)
    rw [ofToml?, fields, Option.bind_eq_bind, Option.bind_some, ofFields?_eq_some_iff,
      leader_eq_some_iff]
    constructor
    · rintro ⟨⟨part, typed⟩, development⟩
      refine ⟨structured, part, fun s => ?_⟩
      by_cases whole : s = .development
      · subst whole
        exact flag.symm.trans development
      · rw [inDocument_of_ne whole]
        exact typed s whole
    · rintro ⟨-, part, typed⟩
      refine ⟨⟨part, fun s other => ?_⟩, flag.trans (typed .development)⟩
      rw [← inDocument_of_ne other]
      exact typed s
  · refine iff_of_false (fun read => ?_) fun whole => structured whole.1
    obtain ⟨fields, found, -⟩ := Option.bind_eq_some_iff.mp read
    exact structured (Toml.isStructure_of_fields found)

theorem exists_ofToml?_iff {t : Toml} : (∃ c, ofToml? t = some c) ↔ t.Decodable := by
  constructor
  · rintro ⟨c, read⟩
    obtain ⟨whole, part, typed⟩ := ofToml?_eq_some_iff.mp read
    refine ⟨whole, part, fun s field found => ⟨c.value s, ?_⟩⟩
    rw [← typed s, found]
    rfl
  · rintro ⟨whole, part, typed⟩
    have each : ∀ s : Setting, ∃ value, s.ofField (s.inDocument t) = some value := by
      intro s
      cases found : s.inDocument t with
      | none => exact ⟨s.usual, rfl⟩
      | some field => exact typed s field found
    obtain ⟨values, read⟩ := Classical.axiomOfChoice each
    obtain ⟨c, same⟩ := exists_of_values values
    refine ⟨c, ofToml?_eq_some_iff.mpr ⟨whole, part, fun s => ?_⟩⟩
    rw [read s, same s]

end Configuration

/-! ## Documents of one setting -/

namespace Setting

/-- A value that a document can state: its integers have 63 bits and a sign. -/
def Fits : (s : Setting) → s.Value → Prop
  | .ttlSeconds, (n : Nat) => n < Nat.pow 2 63
  | _, _ => True

def toToml : (s : Setting) → s.Value → Toml
  | .enabled, (flag : Bool) | .development, (flag : Bool) => .bool flag
  | .ttlSeconds, (n : Nat) => .int n
  | .instanceId, (text : String) | .ns, (text : String) | .name, (text : String)
  | .lockKind, (text : String) | .redisUrl, (text : String) => .text text

/-- A value as it is written in a document. -/
def literal : (s : Setting) → s.Value → List Char
  | .enabled, (flag : Bool) | .development, (flag : Bool) => Toml.flag flag
  | .ttlSeconds, (n : Nat) => Decimal.digits n
  | .instanceId, (text : String) | .ns, (text : String) | .name, (text : String)
  | .lockKind, (text : String) | .redisUrl, (text : String) => Toml.literal text

def key : Setting → List Char
  | .development => "dev_mode".toList
  | s => "leader.".toList ++ s.fieldName.toList

/-- A document that states a setting and nothing else. -/
def statement (s : Setting) (value : s.Value) : String := Toml.line s.key (s.literal value)

/-- A document with one field. -/
def stated (s : Setting) (field : Toml) : Toml :=
  match s with
  | .development => .table [("dev_mode", field)]
  | _ => .table [("leader", .table [(s.fieldName, field)])]

variable {s : Setting} {value : s.Value}

theorem ofToml?_toToml (s : Setting) (value : s.Value) :
    s.ofToml? (s.toToml value) = some value := by
  cases s with
  | ttlSeconds =>
      have natural : 0 ≤ Int.ofNat value := Int.natCast_nonneg value
      change (if 0 ≤ Int.ofNat value then some (Int.ofNat value).toNat else none) = some value
      rw [if_pos natural]
      rfl
  | _ => rfl

theorem denotes_literal (fits : s.Fits value) : Toml.Denotes (s.literal value) (s.toToml value) := by
  cases s with
  | enabled | development => exact Toml.denotes_flag value
  | ttlSeconds => exact Toml.denotes_digits fits
  | instanceId | ns | name | lockKind | redisUrl => exact Toml.denotes_literal value

theorem read_statement (fits : s.Fits value) :
    Toml.read (s.statement value) = some (s.stated (s.toToml value)) := by
  have names : Toml.Names s.key (if s = .development then [] else ["leader"]) s.fieldName := by
    cases s <;> exact ⟨⟨_, _, rfl, rfl⟩, fun _ => rfl⟩
  rw [statement, Toml.read_line names (denotes_literal fits)]
  cases s <;> rfl

theorem inDocument_stated (s : Setting) (field : Toml) :
    s.inDocument (s.stated field) = some field := by
  cases s <;> rfl

theorem inDocument_stated_of_ne {s' : Setting} (other : s' ≠ s) (field : Toml) :
    s'.inDocument (s.stated field) = none := by
  cases s <;> cases s' <;> first | rfl | exact absurd rfl other

theorem decodable_stated (s : Setting) (value : s.Value) :
    (s.stated (s.toToml value)).Decodable where
  whole := by cases s <;> trivial
  part leader found := by
    cases s with
    | development => cases found
    | _ =>
        cases Option.some.inj found
        trivial
  typed s' field found := by
    by_cases same : s' = s
    · subst same
      rw [inDocument_stated] at found
      exact ⟨value, Option.some.inj found ▸ s'.ofToml?_toToml value⟩
    · rw [inDocument_stated_of_ne same] at found
      cases found

end Setting

/-! ## Variables and files -/

namespace Configuration

theorem value_overridden (c : Configuration) (env : Environment) (s : Setting) :
    (c.overridden env).value s =
      ((env.text? s.variableName).bind s.ofText?).getD (c.value s) := by
  cases s with
  | instanceId | ns | name | redisUrl =>
      simp only [value, overridden, override, Setting.variableName]
      generalize env.text? _ = text
      cases text <;> rfl
  | enabled | ttlSeconds | lockKind | development =>
      simp only [value, overridden, Setting.variableName]
      generalize env.text? _ = text
      cases text <;> rfl

theorem overridden_overridden (c : Configuration) (env : Environment) :
    (c.overridden env).overridden env = c.overridden env := by
  refine ext_value fun s => ?_
  rw [value_overridden, value_overridden]
  cases (env.text? s.variableName).bind s.ofText? <;> rfl

/-- The document in a file, if there is a file whose bytes are the text of one. -/
def document? (files : FileSystem) (path : String) : Option Toml :=
  match files path with
  | .ok (.file bytes) => (Text.ofBytes? bytes).bind Toml.read
  | _ => none

theorem document?_eq (files : FileSystem) (path : String) :
    document? files path = (files.readText path).toOption.bind Toml.read := by
  unfold document? FileSystem.readText
  cases files path with
  | error cause => rfl
  | ok node =>
      cases node with
      | directory => rfl
      | file bytes => cases found : Text.ofBytes? bytes <;> simp [found, Except.toOption]

theorem document?_of_readText {files : FileSystem} {path text : String}
    (read : files.readText path = .ok text) : document? files path = Toml.read text := by
  rw [document?_eq, read]
  rfl

theorem document?_of_statement {files : FileSystem} {path : String} {s : Setting} {value : s.Value}
    (fits : s.Fits value) (content : files path = .ok (.file (Text.bytes (s.statement value)))) :
    document? files path = some (s.stated (s.toToml value)) := by
  rw [document?, content]
  dsimp only
  rw [Text.ofBytes?_bytes, Option.bind_some, Setting.read_statement fits]

/-- A file is decoded, or it cannot be read, or it holds no document that can be decoded. -/
theorem ofFile_cases (files : FileSystem) (path : String) :
    (∃ t c, document? files path = some t ∧ ofToml? t = some c ∧ ofFile files path = .ok c) ∨
    (∃ cause, files.readText path = .error cause ∧ ofFile files path = .error (.unreadable cause)) ∨
    (∃ text, files.readText path = .ok text ∧ (∀ t, Toml.read text = some t → ¬ t.Decodable) ∧
      ofFile files path = .error .malformed) := by
  cases source : files.readText path with
  | error cause => exact .inr (.inl ⟨cause, rfl, by rw [ofFile, source]⟩)
  | ok text =>
      cases decoded : (Toml.read text).bind ofToml? with
      | none =>
          refine .inr (.inr ⟨text, rfl, fun t found decodable => ?_, ?_⟩)
          · obtain ⟨c, read⟩ := exists_ofToml?_iff.mpr decodable
            rw [found, Option.bind_some, read] at decoded
            cases decoded
          · simp only [ofFile, source, decoded]
      | some c =>
          obtain ⟨t, found, read⟩ := Option.bind_eq_some_iff.mp decoded
          refine .inl ⟨t, c, by rw [document?_of_readText source, found], read, ?_⟩
          simp only [ofFile, source, decoded]

theorem ofFile_of_readText_error {files : FileSystem} {path : String} {cause : FileError}
    (unread : files.readText path = .error cause) :
    ofFile files path = .error (.unreadable cause) := by
  rw [ofFile, unread]

end Configuration

/-! ## Files -/

/-- There is something under a path. -/
def FileSystem.Holds (files : FileSystem) (path : String) : Prop := ∃ node, files path = .ok node

theorem FileSystem.has_iff {files : FileSystem} {path : String} :
    files.has path = true ↔ files.Holds path := by
  rw [has, Holds]
  cases files path with
  | error cause => exact ⟨nofun, nofun⟩
  | ok node => exact ⟨fun _ => ⟨node, rfl⟩, fun _ => rfl⟩

namespace Loader

variable {l : Loader} {files : FileSystem} {env : Environment} {path : String} {c : Configuration}

/-- Where the configuration is: in the given file, else in the one that the environment names, else
in the first of the standard places, if these are searched. -/
inductive Finds (l : Loader) (files : FileSystem) (env : Environment) : String → Prop where
  | given {path : String} (given : l.path = some path) (there : files.Holds path) :
      Finds l files env path
  | named {path : String} (none : ∀ p, l.path = some p → ¬ files.Holds p)
      (named : env.own? "SOLO_CONFIG" = some path) (there : files.Holds path) :
      Finds l files env path
  | standard {path : String} {before after : List String}
      (none : ∀ p, l.path = some p → ¬ files.Holds p)
      (unnamed : ∀ p, env.own? "SOLO_CONFIG" = some p → ¬ files.Holds p)
      (searches : l.searches = true)
      (place : ["solo.toml", "config.toml", "./config/solo.toml", "/etc/solo/config.toml"] =
        before ++ path :: after)
      (skipped : ∀ p ∈ before, ¬ files.Holds p) (there : files.Holds path) :
      Finds l files env path

theorem find?_toList {α : Type} (p : α → Bool) (o : Option α) : o.toList.find? p = o.filter p := by
  cases o with
  | none => rfl
  | some a => rw [Option.toList_some, List.find?_singleton, Option.filter_some]

theorem findFile_eq : l.findFile files env = ((l.path.filter files.has).or
    ((env.text? pathVariable).filter files.has)).or
      (if l.searches then standardPaths.find? files.has else none) := by
  simp only [findFile, candidates, List.find?_append, find?_toList]
  split <;> rfl

theorem filter_has_eq_none_iff {o : Option String} :
    o.filter files.has = none ↔ ∀ p, o = some p → ¬ files.Holds p := by
  simp [Option.filter_eq_none_iff, ← FileSystem.has_iff]

/-- A file is used exactly if it is the first one that exists. -/
theorem findFile_eq_some_iff : l.findFile files env = some path ↔ l.Finds files env path := by
  rw [findFile_eq, Environment.text?_eq_own?]
  constructor
  · intro found
    rcases Option.or_eq_some_iff.mp found with found | ⟨nothing, found⟩
    · rcases Option.or_eq_some_iff.mp found with found | ⟨none, found⟩
      · obtain ⟨given, there⟩ := Option.filter_eq_some_iff.mp found
        exact .given given (FileSystem.has_iff.mp there)
      · obtain ⟨named, there⟩ := Option.filter_eq_some_iff.mp found
        exact .named (filter_has_eq_none_iff.mp none) named (FileSystem.has_iff.mp there)
    · obtain ⟨none, unnamed⟩ := Option.or_eq_none_iff.mp nothing
      obtain ⟨searches, found⟩ := Option.ite_none_right_eq_some.mp found
      obtain ⟨there, before, after, place, skipped⟩ := List.find?_eq_some_iff_append.mp found
      refine .standard (filter_has_eq_none_iff.mp none) (filter_has_eq_none_iff.mp unnamed) searches
        place (fun p earlier => ?_) (FileSystem.has_iff.mp there)
      rw [← FileSystem.has_iff]
      simpa using skipped p earlier
  · intro finds
    cases finds with
    | given given there =>
        rw [given, Option.filter_some, if_pos (FileSystem.has_iff.mpr there)]
        rfl
    | named none named there =>
        rw [filter_has_eq_none_iff.mpr none, pathVariable, named, Option.filter_some,
          if_pos (FileSystem.has_iff.mpr there)]
        rfl
    | standard none unnamed searches place skipped there =>
        rw [filter_has_eq_none_iff.mpr none, pathVariable, filter_has_eq_none_iff.mpr unnamed,
          if_pos searches]
        refine List.find?_eq_some_iff_append.mpr
          ⟨FileSystem.has_iff.mpr there, _, _, place, fun p earlier => ?_⟩
        have absent := skipped p earlier
        rw [← FileSystem.has_iff] at absent
        simpa using absent

/-- The field for a setting in the document of the file that is used, if there is one. -/
def field? (l : Loader) (files : FileSystem) (env : Environment) (s : Setting) : Option Toml :=
  (l.findFile files env).bind fun path => (Configuration.document? files path).bind s.inDocument

theorem layered_of_find (found : l.findFile files env = some path) :
    l.layered files env = (Configuration.ofFile files path).map fun c => c.overridden env := by
  rw [layered, found]

theorem layered_of_none (none : l.findFile files env = none) :
    l.layered files env = .ok (Configuration.overridden {} env) := by
  rw [layered, none]

theorem load_eq_ok_iff :
    l.load files env = .ok c ↔ l.layered files env = .ok c ∧ c.validate = .ok () := by
  rw [load]
  cases l.layered files env with
  | error e => exact ⟨nofun, nofun⟩
  | ok layered =>
      constructor
      · intro loaded
        obtain ⟨u, valid, same⟩ : ∃ u, layered.validate = .ok u ∧ layered = c := by
          cases valid : layered.validate with
          | error e => simp [bind, Except.bind, valid] at loaded
          | ok u => exact ⟨u, rfl, by simpa [bind, Except.bind, valid] using loaded⟩
        subst same
        exact ⟨rfl, valid⟩
      · rintro ⟨same, valid⟩
        cases same
        simp [bind, Except.bind, valid]

theorem load_of_refused {e : ConfigurationError} (found : l.findFile files env = some path)
    (refused : Configuration.ofFile files path = .error e) : l.load files env = .error e := by
  rw [load, layered_of_find found, refused]
  rfl

/-- What is overridden is what the document says, setting by setting, or the default. -/
theorem base_of_layered (layered : l.layered files env = .ok c) :
    ∃ base : Configuration, c = base.overridden env ∧
      ∀ s : Setting, s.ofField (l.field? files env s) = some (base.value s) := by
  cases found : l.findFile files env with
  | none =>
      rw [layered_of_none found] at layered
      cases layered
      refine ⟨{}, rfl, fun s => ?_⟩
      rw [field?, found, Configuration.value_usual]
      rfl
  | some path =>
      rw [layered_of_find found] at layered
      rcases Configuration.ofFile_cases files path with ⟨t, base, document, read, decoded⟩ |
        ⟨cause, -, decoded⟩ | ⟨text, -, -, decoded⟩
      · rw [decoded] at layered
        cases layered
        refine ⟨base, rfl, fun s => ?_⟩
        rw [field?, found, Option.bind_some, document]
        exact (Configuration.ofToml?_eq_some_iff.mp read).2.2 s
      · rw [decoded] at layered
        cases layered
      · rw [decoded] at layered
        cases layered

theorem resolve_layered (layered : l.layered files env = .ok c) (s : Setting) :
    s.resolve (env.text? s.variableName) (l.field? files env s) = some (c.value s) := by
  obtain ⟨base, rfl, fields⟩ := base_of_layered layered
  rw [Setting.resolve, Configuration.value_overridden, fields s]
  cases (env.text? s.variableName).bind s.ofText? <;> rfl

theorem overridden_of_layered (layered : l.layered files env = .ok c) : c.overridden env = c := by
  obtain ⟨base, rfl, -⟩ := base_of_layered layered
  exact Configuration.overridden_overridden base env

theorem exists_layered (decodable : ∀ path, l.findFile files env = some path →
    ∃ t, Configuration.document? files path = some t ∧ t.Decodable) :
    ∃ c, l.layered files env = .ok c := by
  cases found : l.findFile files env with
  | none => exact ⟨_, layered_of_none found⟩
  | some path =>
      obtain ⟨t, document, decodable⟩ := decodable path found
      rw [layered_of_find found]
      rcases Configuration.ofFile_cases files path with ⟨t, c, -, -, decoded⟩ |
        ⟨cause, unread, -⟩ | ⟨text, read, malformed, -⟩
      · exact ⟨c.overridden env, by rw [decoded]; rfl⟩
      · rw [Configuration.document?_eq, unread] at document
        cases document
      · rw [Configuration.document?_of_readText read] at document
        exact absurd decodable (malformed t document)

theorem ofFile_congr {files' : FileSystem} (same : files' path = files path) :
    Configuration.ofFile files' path = Configuration.ofFile files path := by
  simp only [Configuration.ofFile, FileSystem.readText, same]

theorem load_congr {files' : FileSystem} (found : l.findFile files' env = l.findFile files env)
    (same : ∀ path, l.findFile files env = some path → files' path = files path) :
    l.load files' env = l.load files env := by
  have layered : l.layered files' env = l.layered files env := by
    cases used : l.findFile files env with
    | none => rw [layered_of_none used, layered_of_none (found.trans used)]
    | some path =>
        rw [layered_of_find used, layered_of_find (found.trans used), ofFile_congr (same path used)]
  rw [load, load, layered]

/-- A file that states a setting is followed where the variable selects no value. -/
theorem value_of_statement {s : Setting} {value : s.Value}
    (found : l.findFile files env = some path) (fits : s.Fits value)
    (content : files path = .ok (.file (Text.bytes (s.statement value))))
    (unset : (env.text? s.variableName).bind s.ofText? = none) :
    ∃ c, l.layered files env = .ok c ∧ c.value s = value := by
  have document := Configuration.document?_of_statement fits content
  obtain ⟨c, layered⟩ : ∃ c, l.layered files env = .ok c := by
    refine exists_layered fun other used => ?_
    cases Option.some.inj (found.symm.trans used)
    exact ⟨_, document, s.decodable_stated value⟩
  have settled := resolve_layered layered s
  rw [Setting.resolve, unset, field?, found, Option.bind_some, document, Option.bind_some,
    Setting.inDocument_stated] at settled
  refine ⟨c, layered, ?_⟩
  exact (Option.some.inj ((s.ofToml?_toToml value).symm.trans settled)).symm

/-- How a loader makes one configuration of the files and the environment. -/
structure IsLayered (l : Loader) (files : FileSystem) (env : Environment) : Prop where
  /-- The file that is used is the first one that exists. -/
  used : ∀ path, l.findFile files env = some path ↔ l.Finds files env path
  /-- If that file cannot be read nothing else matters. -/
  unreadable : ∀ path cause, l.Finds files env path → files.readText path = .error cause →
    ∀ (l' : Loader) files' env', l'.Finds files' env' path → files' path = files path →
      l'.load files' env' = .error (.unreadable cause)
  /-- Nor does it if the text of that file cannot be decoded. -/
  malformed : ∀ path text, l.Finds files env path → files.readText path = .ok text →
    (∀ t, Toml.read text = some t → ¬ t.Decodable) →
      ∀ (l' : Loader) files' env', l'.Finds files' env' path → files' path = files path →
        l'.load files' env' = .error .malformed
  /-- Otherwise each setting is what its own variable and its own field come to. -/
  settled : (∀ path, l.Finds files env path →
      ∃ t, Configuration.document? files path = some t ∧ t.Decodable) →
    ∃ c, l.layered files env = .ok c ∧ ∀ s : Setting,
      s.resolve (env.own? s.variableName) (l.field? files env s) = some (c.value s)
  /-- What a file states is followed where the variable selects nothing. -/
  stated : ∀ path (s : Setting) value, l.Finds files env path → s.Fits value →
    files path = .ok (.file (Text.bytes (s.statement value))) →
      (env.own? s.variableName).bind s.ofText? = none →
        ∃ c, l.layered files env = .ok c ∧ c.value s = value
  /-- No other variable and no other field makes a difference to a setting. -/
  alone : ∀ (l' : Loader) files' env' c c' (s : Setting), l.layered files env = .ok c →
    l'.layered files' env' = .ok c' → env'.own? s.variableName = env.own? s.variableName →
      l'.field? files' env' s = l.field? files env s → c'.value s = c.value s
  /-- What is in other files makes no difference at all. -/
  unread : ∀ files', l.findFile files' env = l.findFile files env →
    (∀ path, l.findFile files env = some path → files' path = files path) →
      l.load files' env = l.load files env
  accepted : ∀ c, l.load files env = .ok c ↔ l.layered files env = .ok c ∧ c.validate = .ok ()
  /-- Overriding once more changes nothing. -/
  final : ∀ c, l.load files env = .ok c → c.overridden env = c

theorem isLayered (l : Loader) (files : FileSystem) (env : Environment) :
    l.IsLayered files env ∧ ∀ (s : Setting) text, s.ofText? text = none → s = .ttlSeconds := by
  refine ⟨?_, fun s text nothing => (Setting.eq_ttlSeconds_of_ofText? nothing).1⟩
  have resolved {l : Loader} {files : FileSystem} {env : Environment} {c : Configuration}
      (layered : l.layered files env = .ok c) (s : Setting) :
      s.resolve (env.own? s.variableName) (l.field? files env s) = some (c.value s) := by
    rw [← Environment.text?_eq_own?]
    exact resolve_layered layered s
  refine {
    used := fun path => findFile_eq_some_iff
    unreadable := ?unreadable
    malformed := ?malformed
    settled := ?settled
    stated := ?stated
    alone := ?alone
    unread := fun files' => load_congr
    accepted := fun c => load_eq_ok_iff
    final := fun c loaded => overridden_of_layered (load_eq_ok_iff.mp loaded).1 }
  case unreadable =>
    intro path cause _ unread l' files' env' found same
    refine load_of_refused (findFile_eq_some_iff.mpr found) ?_
    rw [ofFile_congr same, Configuration.ofFile_of_readText_error unread]
  case malformed =>
    intro path text _ read malformed l' files' env' found same
    refine load_of_refused (findFile_eq_some_iff.mpr found) ?_
    rw [ofFile_congr same]
    rcases Configuration.ofFile_cases files path with ⟨t, c, document, decoded, -⟩ |
      ⟨cause, unread, -⟩ | ⟨text, -, -, refused⟩
    · rw [Configuration.document?_of_readText read] at document
      exact absurd (Configuration.exists_ofToml?_iff.mp ⟨c, decoded⟩) (malformed t document)
    · cases read.symm.trans unread
    · exact refused
  case settled =>
    intro decodable
    obtain ⟨c, layered⟩ := exists_layered fun path found =>
      decodable path (findFile_eq_some_iff.mp found)
    exact ⟨c, layered, resolved layered⟩
  case stated =>
    intro path s value found fits content unset
    rw [← Environment.text?_eq_own?] at unset
    exact value_of_statement (findFile_eq_some_iff.mpr found) fits content unset
  case alone =>
    intro l' files' env' c c' s layered layered' text field
    have first := resolved layered s
    have second := resolved layered' s
    rw [text, field, first] at second
    exact (Option.some.inj second).symm

end Loader

end LeaderLease
