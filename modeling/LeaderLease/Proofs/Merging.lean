import LeaderLease.Handling.Response
import Mathlib.Data.List.Induction

/-!
# What calls on one response come to

A handler, the middlewares around it and its error handler hold one response, and use it in the
order in which they are called: they set attributes, ask for another delivery, and look at what is
set. Of the delays the shortest counts, so their order does not (`delay_eq_some_iff`). Of the values
of a name the last one counts (`get?_ofList`). A look shows what was set before it, whatever is set
later (`looks_append`). `merges_uses` puts this together for any uses in any order.
-/

set_option autoImplicit false

namespace LeaderLease

namespace Table

variable {κ α : Type} [DecidableEq κ]

theorem ofList_concat (es : List (κ × α)) (e : κ × α) :
    ofList (es ++ [e]) = (ofList es).put e.1 e.2 := List.foldl_append

/-- The values that are given for a key, in their order. -/
def given (k : κ) (es : List (κ × α)) : List α := (es.filter fun e => e.1 = k).map (·.2)

theorem given_concat (k : κ) (es : List (κ × α)) (e : κ × α) :
    given k (es ++ [e]) = given k es ++ if e.1 = k then [e.2] else [] := by
  by_cases same : e.1 = k <;> simp [given, List.filter_append, same]

theorem get?_ofList (es : List (κ × α)) (k : κ) : (ofList es).get? k = (given k es).getLast? := by
  induction es using List.reverseRecOn with
  | nil => rfl
  | append_singleton es e ih =>
      rw [ofList_concat, get?_put, given_concat, ih]
      by_cases same : e.1 = k <;> simp [same]

theorem mem_keys_put (t : Table κ α) (k l : κ) (a : α) :
    l ∈ (t.put k a).keys ↔ l ∈ t.keys ∨ l = k := by
  unfold keys put
  rw [map_fst_putEntry]
  by_cases present : k ∈ t.entries.map (·.1)
  · rw [if_pos present]
    constructor
    · intro member
      exact .inl member
    · rintro (member | rfl)
      · exact member
      · exact present
  · rw [if_neg present, List.mem_append, List.mem_singleton]

theorem mem_keys_ofList (es : List (κ × α)) (k : κ) :
    k ∈ (ofList es).keys ↔ ∃ a, (k, a) ∈ es := by
  induction es using List.reverseRecOn with
  | nil => simp [ofList, keys, empty]
  | append_singleton es e ih =>
      obtain ⟨l, b⟩ := e
      rw [ofList_concat, mem_keys_put, ih]
      simp only [List.mem_append, List.mem_singleton, Prod.mk.injEq, exists_or]
      exact or_congr Iff.rfl ⟨fun same => ⟨b, same, rfl⟩, fun ⟨_, same, _⟩ => same⟩

theorem distinct_ofList (es : List (κ × α)) : (ofList es).Distinct := by
  induction es using List.reverseRecOn with
  | nil => exact distinct_empty
  | append_singleton es e ih =>
      rw [ofList_concat]
      exact distinct_put ih e.1 e.2

end Table

namespace Response

def Call.delay? : Call → Option Duration
  | .retryAfter delay => some delay
  | .setAttribute _ _ => none

def Call.setting? : Call → Option (String × JsonValue)
  | .setAttribute name value => some (name, value)
  | .retryAfter _ => none

def delays (calls : List Call) : List Duration := calls.filterMap Call.delay?

def settings (calls : List Call) : List (String × JsonValue) := calls.filterMap Call.setting?

theorem ofCalls_concat (calls : List Call) (c : Call) :
    ofCalls (calls ++ [c]) = (ofCalls calls).apply c := List.foldl_append

/-! ## Delays -/

/-- A delay among others that none of them undercuts. -/
def IsShortest (d : Duration) (ds : List Duration) : Prop :=
  d ∈ ds ∧ ∀ e ∈ ds, d.nanos ≤ e.nanos

theorem IsShortest.unique {d e : Duration} {ds : List Duration} (left : IsShortest d ds)
    (right : IsShortest e ds) : d = e := by
  obtain ⟨n⟩ := d
  obtain ⟨m⟩ := e
  have below : n ≤ m := left.2 _ right.1
  have above : m ≤ n := right.2 _ left.1
  rw [Nat.le_antisymm below above]

theorem isShortest_singleton (d : Duration) : IsShortest d [d] := by
  simp [IsShortest]

theorem IsShortest.concat {d : Duration} {ds : List Duration} (shortest : IsShortest d ds)
    (e : Duration) : IsShortest (shorter d e) (ds ++ [e]) := by
  obtain ⟨member, below⟩ := shortest
  unfold shorter
  split
  · rename_i le
    -- The old delay stays, and undercuts the new one too.
    refine ⟨List.mem_append_left _ member, ?_⟩
    intro f inside
    rcases List.mem_append.mp inside with old | new
    · exact below f old
    · rw [List.mem_singleton.mp new]
      exact le
  · rename_i gt
    refine ⟨List.mem_append_right _ List.mem_cons_self, ?_⟩
    intro f inside
    rcases List.mem_append.mp inside with old | new
    · have := below f old
      omega
    · obtain rfl := List.mem_singleton.mp new
      exact Nat.le_refl _

/-- Either nobody asked, or the delay is the shortest that was asked for. -/
theorem delay_ofCalls (calls : List Call) :
    (ofCalls calls).delay = none ∧ delays calls = [] ∨
      ∃ d, (ofCalls calls).delay = some d ∧ IsShortest d (delays calls) := by
  induction calls using List.reverseRecOn with
  | nil => exact .inl ⟨rfl, rfl⟩
  | append_singleton calls c ih =>
      rw [ofCalls_concat]
      cases c with
      | setAttribute name value =>
          have same : delays (calls ++ [.setAttribute name value]) = delays calls := by
            simp [delays, Call.delay?]
          rw [same]
          exact ih
      | retryAfter e =>
          have more : delays (calls ++ [.retryAfter e]) = delays calls ++ [e] := by
            simp [delays, Call.delay?]
          rw [more]
          right
          rcases ih with ⟨unset, nothing⟩ | ⟨d, set, shortest⟩
          · rw [nothing]
            exact ⟨e, by simp [apply, retryAfter, unset], isShortest_singleton e⟩
          · exact ⟨shorter d e, by simp [apply, retryAfter, set], shortest.concat e⟩

theorem delay_eq_none_iff (calls : List Call) :
    (ofCalls calls).delay = none ↔ delays calls = [] := by
  rcases delay_ofCalls calls with ⟨unset, nothing⟩ | ⟨d, set, shortest⟩
  · simp [unset, nothing]
  · simp [set, List.ne_nil_of_mem shortest.1]

theorem delay_eq_some_iff (calls : List Call) (d : Duration) :
    (ofCalls calls).delay = some d ↔ IsShortest d (delays calls) := by
  rcases delay_ofCalls calls with ⟨unset, nothing⟩ | ⟨e, set, shortest⟩
  · simp [unset, nothing, IsShortest]
  · rw [set, Option.some.injEq]
    constructor
    · rintro rfl
      exact shortest
    · intro other
      exact shortest.unique other

theorem delay_perm {calls others : List Call} (perm : (delays others).Perm (delays calls)) :
    (ofCalls others).delay = (ofCalls calls).delay := by
  apply Option.ext
  intro d
  rw [delay_eq_some_iff, delay_eq_some_iff]
  simp only [IsShortest, perm.mem_iff]

/-! ## Attributes -/

theorem attributes_ofCalls (calls : List Call) :
    (ofCalls calls).attributes = Table.ofList (settings calls) := by
  induction calls using List.reverseRecOn with
  | nil => rfl
  | append_singleton calls c ih =>
      rw [ofCalls_concat]
      cases c with
      | setAttribute name value =>
          have more : settings (calls ++ [.setAttribute name value]) =
              settings calls ++ [(name, value)] := by
            simp [settings, Call.setting?]
          rw [more, Table.ofList_concat, ← ih]
          rfl
      | retryAfter e =>
          have same : settings (calls ++ [.retryAfter e]) = settings calls := by
            simp [settings, Call.setting?]
          rw [same]
          exact ih

theorem mem_settings (calls : List Call) (name : String) (value : JsonValue) :
    (name, value) ∈ settings calls ↔ .setAttribute name value ∈ calls := by
  rw [settings, List.mem_filterMap]
  constructor
  · rintro ⟨c, member, setting⟩
    cases c with
    | setAttribute n v =>
        cases setting
        exact member
    | retryAfter e => cases setting
  · intro member
    exact ⟨_, member, rfl⟩

/-! ## Looks -/

/-- What a holder of a response does with it. -/
inductive Use where
  | call (c : Call)
  /-- Takes a snapshot of the attributes. -/
  | look

def Use.call? : Use → Option Call
  | .call c => some c
  | .look => none

def callsOf (uses : List Use) : List Call := uses.filterMap Use.call?

/-- The response after uses in order, and what each look among them showed. -/
def usedFor (r : Response) : List Use → Response × List (Table String JsonValue)
  | [] => (r, [])
  | .call c :: uses => usedFor (r.apply c) uses
  | .look :: uses =>
    let (r', shown) := usedFor r uses
    (r', r.attributes :: shown)

/-- A new response after uses. -/
def after (uses : List Use) : Response := (usedFor {} uses).1

def looks (uses : List Use) : List (Table String JsonValue) := (usedFor {} uses).2

theorem usedFor_append (r : Response) (uses later : List Use) :
    usedFor r (uses ++ later) = ((usedFor (usedFor r uses).1 later).1,
      (usedFor r uses).2 ++ (usedFor (usedFor r uses).1 later).2) := by
  induction uses generalizing r with
  | nil => rfl
  | cons u uses ih =>
      cases u with
      | call c => exact ih (r.apply c)
      | look => simp [usedFor, ih r]

theorem usedFor_fst (r : Response) (uses : List Use) :
    (usedFor r uses).1 = (callsOf uses).foldl apply r := by
  induction uses generalizing r with
  | nil => rfl
  | cons u uses ih =>
      cases u with
      | call c => exact ih (r.apply c)
      | look => exact ih r

theorem after_eq (uses : List Use) : after uses = ofCalls (callsOf uses) := usedFor_fst {} uses

theorem looks_append (uses later : List Use) :
    looks (uses ++ later) = looks uses ++ (usedFor (after uses) later).2 := by
  rw [looks, usedFor_append]
  rfl

/-- How the uses of one response are merged, whichever holders they come from. -/
structure Merges (uses : List Use) : Prop where
  unasked : (after uses).delay = none ↔ delays (callsOf uses) = []
  shortest : ∀ d, (after uses).delay = some d ↔ IsShortest d (delays (callsOf uses))
  /-- Neither the order of the delays counts nor what stands between them. -/
  unordered : ∀ others, (delays (callsOf others)).Perm (delays (callsOf uses)) →
    (after others).delay = (after uses).delay
  latest : ∀ name, (after uses).attributes.get? name =
    (Table.given name (settings (callsOf uses))).getLast?
  named : ∀ name, name ∈ (after uses).attributes.keys ↔
    ∃ value, .setAttribute name value ∈ callsOf uses
  distinct : (after uses).attributes.Distinct
  /-- What is set does not depend on the delays asked for in between. -/
  apart : ∀ others, settings (callsOf others) = settings (callsOf uses) →
    (after others).attributes = (after uses).attributes
  /-- A look shows what is set before it, also when more is set later. -/
  shown : ∀ earlier later, uses = earlier ++ .look :: later →
    (looks uses)[(looks earlier).length]? = some (after earlier).attributes
  kept : ∀ later, looks uses <+: looks (uses ++ later)

theorem merges_uses (uses : List Use) : Merges uses where
  unasked := by
    rw [after_eq]
    exact delay_eq_none_iff _
  shortest := by
    intro d
    rw [after_eq]
    exact delay_eq_some_iff _ d
  unordered := by
    intro others perm
    rw [after_eq, after_eq]
    exact delay_perm perm
  latest := by
    intro name
    rw [after_eq, attributes_ofCalls, Table.get?_ofList]
  named := by
    intro name
    rw [after_eq, attributes_ofCalls, Table.mem_keys_ofList]
    simp only [mem_settings]
  distinct := by
    rw [after_eq, attributes_ofCalls]
    exact Table.distinct_ofList _
  apart := by
    intro others same
    rw [after_eq, after_eq, attributes_ofCalls, attributes_ofCalls, same]
  shown := by
    rintro earlier later rfl
    rw [looks_append]
    simp [usedFor]
  kept := by
    intro later
    rw [looks_append]
    exact List.prefix_append _ _

/-- A handler sets a phase and asks for a delay, an error handler looks, sets another phase and asks
for less; had it asked first, the delay were the same. -/
def twoHolders : List Use :=
  [.call (.setAttribute "phase" .null), .call (.retryAfter ⟨30⟩), .look,
    .call (.setAttribute "phase" (.bool true)), .call (.retryAfter ⟨5⟩)]

theorem merges_uses_twoHolders :
    (after twoHolders).delay = some ⟨5⟩ ∧
      (after [.call (.retryAfter ⟨5⟩), .call (.retryAfter ⟨30⟩)]).delay = some ⟨5⟩ ∧
      (after twoHolders).attributes.get? "phase" = some (.bool true) ∧
      (looks twoHolders)[0]? = some ⟨[("phase", .null)]⟩ := by
  have merged := merges_uses twoHolders
  have shortest : (after twoHolders).delay = some ⟨5⟩ :=
    (merged.shortest ⟨5⟩).mpr ⟨by decide, by decide⟩
  have swapped : (delays (callsOf [.call (.retryAfter ⟨5⟩), .call (.retryAfter ⟨30⟩)])).Perm
      (delays (callsOf twoHolders)) := List.Perm.swap _ _ _
  refine ⟨shortest, ?_, ?_, ?_⟩
  · rw [merged.unordered _ swapped, shortest]
  · exact merged.latest "phase"
  · exact merged.shown [.call (.setAttribute "phase" .null), .call (.retryAfter ⟨30⟩)] _ rfl

end Response

end LeaderLease
