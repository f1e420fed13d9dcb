/-!
# Tables

A finite map kept as the list of its entries in the order in which the keys were first put. The view
is `get?`: `put` changes it at one key, and so does `erase`.
-/

set_option autoImplicit false

namespace LeaderLease

structure Table (κ α : Type) where
  entries : List (κ × α) := []
deriving Repr

namespace Table

variable {κ α : Type} [DecidableEq κ]

def empty : Table κ α := ⟨[]⟩

/-- The value of the first entry with a key. -/
def lookup (k : κ) : List (κ × α) → Option α
  | [] => none
  | e :: es => if e.1 = k then some e.2 else lookup k es

/-- Replaces the value of a key, or appends the key. -/
def putEntry (k : κ) (a : α) : List (κ × α) → List (κ × α)
  | [] => [(k, a)]
  | e :: es => if e.1 = k then (k, a) :: es else e :: putEntry k a es

def removeEntry (k : κ) : List (κ × α) → List (κ × α)
  | [] => []
  | e :: es => if e.1 = k then removeEntry k es else e :: removeEntry k es

def get? (t : Table κ α) (k : κ) : Option α := lookup k t.entries

def contains (t : Table κ α) (k : κ) : Bool := (t.get? k).isSome

def put (t : Table κ α) (k : κ) (a : α) : Table κ α := ⟨putEntry k a t.entries⟩

def erase (t : Table κ α) (k : κ) : Table κ α := ⟨removeEntry k t.entries⟩

/-- Changes the value of a key that is present. -/
def modify (t : Table κ α) (k : κ) (f : α → α) : Table κ α :=
  match t.get? k with
  | some a => t.put k (f a)
  | none => t

def keys (t : Table κ α) : List κ := t.entries.map (·.1)

def values (t : Table κ α) : List α := t.entries.map (·.2)

def ofList (entries : List (κ × α)) : Table κ α :=
  entries.foldl (fun t e => t.put e.1 e.2) empty

theorem lookup_putEntry (k : κ) (a : α) (l : κ) (es : List (κ × α)) :
    lookup l (putEntry k a es) = if k = l then some a else lookup l es := by
  induction es with
  | nil => rfl
  | cons e es ih =>
    simp only [putEntry]
    split
    · rename_i same
      simp only [lookup]
      split
      · rfl
      · rename_i differ
        rw [if_neg (fun hit => differ (same.symm.trans hit))]
    · rename_i miss
      simp only [lookup, ih]
      split
      · rename_i hit
        rw [if_neg (fun same => miss (hit.trans same.symm))]
      · rfl

theorem lookup_removeEntry (k l : κ) (es : List (κ × α)) :
    lookup l (removeEntry k es) = if k = l then none else lookup l es := by
  induction es with
  | nil => simp [removeEntry, lookup]
  | cons e es ih =>
    simp only [removeEntry]
    split
    · rename_i same
      rw [ih]
      split
      · rfl
      · rename_i differ
        simp only [lookup]
        rw [if_neg (fun hit => differ (same.symm.trans hit))]
    · rename_i miss
      simp only [lookup, ih]
      split
      · rename_i hit
        rw [if_neg (fun same => miss (hit.trans same.symm))]
      · rfl

theorem mem_of_lookup_eq_some {k : κ} {a : α} {es : List (κ × α)} (h : lookup k es = some a) :
    (k, a) ∈ es := by
  induction es with
  | nil => cases h
  | cons e es ih =>
    simp only [lookup] at h
    split at h
    · rename_i hit
      cases Option.some.inj h
      exact List.mem_cons.mpr (Or.inl (by rw [← hit]))
    · exact List.mem_cons_of_mem _ (ih h)

@[simp] theorem get?_empty (k : κ) : (empty : Table κ α).get? k = none := rfl

theorem get?_put (t : Table κ α) (k : κ) (a : α) (l : κ) :
    (t.put k a).get? l = if k = l then some a else t.get? l :=
  lookup_putEntry k a l t.entries

@[simp] theorem get?_put_self (t : Table κ α) (k : κ) (a : α) : (t.put k a).get? k = some a := by
  rw [get?_put, if_pos rfl]

theorem get?_put_of_ne (t : Table κ α) {k l : κ} (a : α) (h : k ≠ l) :
    (t.put k a).get? l = t.get? l := by
  rw [get?_put, if_neg h]

theorem mem_values_of_get? {t : Table κ α} {k : κ} {a : α} (h : t.get? k = some a) :
    a ∈ t.values := List.mem_map.mpr ⟨(k, a), mem_of_lookup_eq_some h, rfl⟩

theorem get?_erase (t : Table κ α) (k l : κ) :
    (t.erase k).get? l = if k = l then none else t.get? l :=
  lookup_removeEntry k l t.entries

theorem get?_of_get?_erase {t : Table κ α} {k l : κ} {a : α} (found : (t.erase k).get? l = some a) :
    t.get? l = some a := by
  rw [get?_erase] at found
  split at found
  · cases found
  · exact found

/-! ## Tables without repeated keys -/

def Distinct (t : Table κ α) : Prop := t.keys.Nodup

theorem map_fst_putEntry (k : κ) (a : α) (es : List (κ × α)) :
    (putEntry k a es).map (·.1) =
      if k ∈ es.map (·.1) then es.map (·.1) else es.map (·.1) ++ [k] := by
  induction es with
  | nil => simp [putEntry]
  | cons e es ih =>
    simp only [putEntry, List.map_cons]
    by_cases same : e.1 = k
    · simp [same]
    · rw [if_neg same, List.map_cons, ih]
      by_cases later : k ∈ es.map (·.1)
      · rw [if_pos later, if_pos (List.mem_cons_of_mem _ later)]
      · rw [if_neg later, if_neg (by simp [later, Ne.symm same]), List.cons_append]

theorem map_fst_removeEntry (k : κ) (es : List (κ × α)) :
    (removeEntry k es).map (·.1) = (es.map (·.1)).filter (· ≠ k) := by
  induction es with
  | nil => rfl
  | cons e es ih =>
    by_cases same : e.1 = k
    · simp [removeEntry, same, ih]
    · simp [removeEntry, same, ih]

omit [DecidableEq κ] in
theorem distinct_empty : (empty : Table κ α).Distinct := List.Pairwise.nil

theorem distinct_put {t : Table κ α} (distinct : t.Distinct) (k : κ) (a : α) :
    (t.put k a).Distinct := by
  unfold Distinct keys put at *
  rw [map_fst_putEntry]
  split
  · exact distinct
  · rename_i absent
    refine List.nodup_append.mpr ⟨distinct, by simp, ?_⟩
    intro l member m single same
    rw [List.mem_singleton.mp single] at same
    exact absent (same ▸ member)

theorem distinct_erase {t : Table κ α} (distinct : t.Distinct) (k : κ) : (t.erase k).Distinct := by
  unfold Distinct keys erase at *
  rw [map_fst_removeEntry]
  exact distinct.sublist List.filter_sublist

theorem lookup_eq_some_of_mem {k : κ} {a : α} {es : List (κ × α)}
    (distinct : (es.map (·.1)).Nodup) (member : (k, a) ∈ es) : lookup k es = some a := by
  induction es with
  | nil => cases member
  | cons e es ih =>
    obtain ⟨absent, distinct⟩ := List.nodup_cons.mp distinct
    rcases List.mem_cons.mp member with rfl | later
    · simp [lookup]
    · have other : e.1 ≠ k := by
        rintro rfl
        exact absent (List.mem_map.mpr ⟨_, later, rfl⟩)
      simp only [lookup, if_neg other, ih distinct later]

theorem mem_values_iff {t : Table κ α} (distinct : t.Distinct) (a : α) :
    a ∈ t.values ↔ ∃ k, t.get? k = some a := by
  constructor
  · intro member
    obtain ⟨⟨k, _⟩, entry, rfl⟩ := List.mem_map.mp member
    exact ⟨k, lookup_eq_some_of_mem distinct entry⟩
  · rintro ⟨k, found⟩
    exact mem_values_of_get? found

end Table

end LeaderLease
