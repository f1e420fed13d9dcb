import LeaderLease.Handling.Desk

/-!
# Deleting what may be gone

A client answers a call to delete in one of three ways: it removes the object, it finds none, or it
fails for another reason, and then nothing is removed (`Shelf.Answers`). Through a request the first
two are one: the call succeeds, and the object is gone (`delete_cases`). So a delete that succeeded
may be repeated, and what is left after any calls is what none of the successful ones was for
(`held_run`). `deletesOnce` puts this together for calls through any requests, in any scopes, with
whatever happens in between.
-/

set_option autoImplicit false

namespace LeaderLease

/-- What a state keeps, and where it keeps an object. -/
structure Shelf (σ κ α : Type) where
  place : Object → κ
  held : σ → κ → Option α

/-- A call to delete, or something else that happens to the state. -/
inductive Deletion (σ : Type) where
  | delete (r : Request σ) (o : Object)
  | aside (change : σ → σ)

namespace Deletion

variable {σ : Type}

def run : List (Deletion σ) → σ → σ
  | [], s => s
  | .delete r o :: ds, s => run ds (r.delete o s).2
  | .aside change :: ds, s => run ds (change s)

/-- The objects of the calls that succeed. -/
def deleted : List (Deletion σ) → σ → List Object
  | [], _ => []
  | .delete r o :: ds, s =>
    (match (r.delete o s).1 with | .ok () => [o] | .error _ => []) ++ deleted ds (r.delete o s).2
  | .aside change :: ds, s => deleted ds (change s)

theorem deleted_of_ok {r : Request σ} {o : Object} {s : σ} (ds : List (Deletion σ))
    (succeeded : (r.delete o s).1 = .ok ()) :
    deleted (.delete r o :: ds) s = o :: deleted ds (r.delete o s).2 := by
  simp [deleted, succeeded]

theorem deleted_of_error {r : Request σ} {o : Object} {s : σ} {e : HandlingError}
    (ds : List (Deletion σ)) (failed : (r.delete o s).1 = .error e) :
    deleted (.delete r o :: ds) s = deleted ds (r.delete o s).2 := by
  simp [deleted, failed]

theorem run_append (earlier later : List (Deletion σ)) (s : σ) :
    run (earlier ++ later) s = run later (run earlier s) := by
  induction earlier generalizing s with
  | nil => rfl
  | cons d earlier ih =>
      cases d with
      | delete r o => exact ih (r.delete o s).2
      | aside change => exact ih (change s)

end Deletion

open Deletion

namespace Shelf

variable {σ κ α : Type} (v : Shelf σ κ α)

/-- The object is gone in `s'`, and everything else is as in `s`. -/
structure Without (o : Object) (s s' : σ) : Prop where
  gone : v.held s' (v.place o) = none
  others : ∀ k, k ≠ v.place o → v.held s' k = v.held s k

/-- How a client may answer a call to delete. -/
inductive Answers (o : Object) (s : σ) : Except HandlingError Unit × σ → Prop where
  | removed {s' : σ} : v.held s (v.place o) ≠ none → v.Without o s s' → Answers o s (.ok (), s')
  | absent {kind : ObjectKind} {key : ObjectKey} {s' : σ} : v.held s (v.place o) = none →
      v.held s' = v.held s → Answers o s (.error (.notFound kind key), s')
  | failed {e : HandlingError} {s' : σ} : e.isNotFound = false → v.held s' = v.held s →
      Answers o s (.error e, s')

/-- Each client answers in such a way when it is called, and what happens in between leaves alone
what is kept. -/
def Deals : List (Deletion σ) → σ → Prop
  | [], _ => True
  | .delete r o :: ds, s =>
    v.Answers o s (r.client.delete r.scope o s) ∧ Deals ds (r.delete o s).2
  | .aside change :: ds, s => v.held (change s) = v.held s ∧ Deals ds (change s)

variable {v} {r : Request σ} {o : Object} {s : σ}

/-- Through a request a delete succeeds, and the object is gone, or it fails as the client did. -/
theorem delete_cases (answers : v.Answers o s (r.client.delete r.scope o s)) :
    ((r.delete o s).1 = .ok () ∧ v.Without o s (r.delete o s).2 ∧
      ((r.client.delete r.scope o s).1 = .ok () ∨
        ∃ kind key, (r.client.delete r.scope o s).1 = .error (.notFound kind key))) ∨
    ∃ e, e.isNotFound = false ∧ (r.client.delete r.scope o s).1 = .error e ∧
      (r.delete o s).1 = .error e ∧ v.held (r.delete o s).2 = v.held s := by
  unfold Request.delete
  generalize r.client.delete r.scope o s = answer at answers ⊢
  cases answers with
  | removed present without => exact .inl ⟨rfl, without, .inl rfl⟩
  | @absent kind key s' absent same =>
      refine .inl ⟨rfl, ⟨?_, ?_⟩, .inr ⟨kind, key, rfl⟩⟩
      · exact (congrFun same _).trans absent
      · intro k _
        exact congrFun same k
  | @failed e s' other same =>
      simp only [other]
      exact .inr ⟨e, other, rfl, rfl, same⟩

/-- Deleting what is gone already changes nothing. -/
theorem held_of_absent (answers : v.Answers o s (r.client.delete r.scope o s))
    (absent : v.held s (v.place o) = none) : v.held (r.delete o s).2 = v.held s := by
  rcases delete_cases answers with ⟨-, without, -⟩ | ⟨e, -, -, -, same⟩
  · funext k
    by_cases here : k = v.place o
    · rw [here, without.gone, absent]
    · exact without.others k here
  · exact same

theorem Deals.later {earlier later : List (Deletion σ)} (deals : v.Deals (earlier ++ later) s) :
    v.Deals later (run earlier s) := by
  induction earlier generalizing s with
  | nil => exact deals
  | cons d earlier ih =>
      cases d with
      | delete r o => exact ih deals.2
      | aside change => exact ih deals.2

theorem Deals.earlier {earlier later : List (Deletion σ)} (deals : v.Deals (earlier ++ later) s) :
    v.Deals earlier s := by
  induction earlier generalizing s with
  | nil => trivial
  | cons d earlier ih =>
      cases d with
      | delete r o => exact ⟨deals.1, ih deals.2⟩
      | aside change => exact ⟨deals.1, ih deals.2⟩

/-- What is left is what no successful call was for. -/
theorem held_run {ds : List (Deletion σ)} (deals : v.Deals ds s) (k : κ) :
    (k ∈ (deleted ds s).map v.place → v.held (run ds s) k = none) ∧
      (k ∉ (deleted ds s).map v.place → v.held (run ds s) k = v.held s k) := by
  induction ds generalizing s with
  | nil => simp [deleted, run]
  | cons d ds ih =>
      cases d with
      | aside change =>
          have rest := ih deals.2
          rw [deals.1] at rest
          exact rest
      | delete r o =>
          obtain ⟨inside, outside⟩ := ih deals.2
          rcases delete_cases deals.1 with ⟨succeeded, without, -⟩ | ⟨e, -, -, failed, same⟩
          · rw [deleted_of_ok ds succeeded, List.map_cons]
            constructor
            · intro member
              -- Either a later call removes it too, or it is gone from here on.
              by_cases later : k ∈ (deleted ds (r.delete o s).2).map v.place
              · exact inside later
              · have here : k = v.place o := (List.mem_cons.mp member).resolve_right later
                exact (outside later).trans (here ▸ without.gone)
            · intro other
              obtain ⟨elsewhere, later⟩ := not_or.mp (mt List.mem_cons.mpr other)
              exact (outside later).trans (without.others k elsewhere)
          · rw [deleted_of_error ds failed]
            rw [same] at outside
            exact ⟨inside, outside⟩

theorem held_run_of_absent {ds : List (Deletion σ)} (deals : v.Deals ds s) {k : κ}
    (absent : v.held s k = none) : v.held (run ds s) k = none := by
  by_cases member : k ∈ (deleted ds s).map v.place
  · exact (held_run deals k).1 member
  · rw [(held_run deals k).2 member, absent]

end Shelf

/-- What one call to delete through a request does. -/
structure Request.Deletes {σ κ α : Type} (v : Shelf σ κ α) (r : Request σ) (o : Object) (s : σ) :
    Prop where
  succeeds_iff : (r.delete o s).1 = .ok () ↔ (r.client.delete r.scope o s).1 = .ok () ∨
    ∃ kind key, (r.client.delete r.scope o s).1 = .error (.notFound kind key)
  fails_iff : ∀ e, (r.delete o s).1 = .error e ↔
    (r.client.delete r.scope o s).1 = .error e ∧ e.isNotFound = false
  gone : (r.delete o s).1 = .ok () → v.held (r.delete o s).2 (v.place o) = none
  intact : ∀ e, (r.delete o s).1 = .error e → v.held (r.delete o s).2 = v.held s
  others : ∀ k, k ≠ v.place o → v.held (r.delete o s).2 k = v.held s k

namespace Shelf

variable {σ κ α : Type} {v : Shelf σ κ α} {r : Request σ} {o : Object} {s : σ}

theorem deletes_of_answers (answers : v.Answers o s (r.client.delete r.scope o s)) :
    r.Deletes v o s := by
  rcases delete_cases answers with ⟨succeeded, without, asked⟩ | ⟨e, other, asked, failed, same⟩
  · refine ⟨iff_of_true succeeded asked, ?_, fun _ => without.gone, ?_, without.others⟩
    · intro e
      rw [succeeded]
      refine iff_of_false nofun ?_
      rintro ⟨failed, other⟩
      rcases asked with removed | ⟨kind, key, absent⟩
      · cases removed.symm.trans failed
      · cases absent.symm.trans failed
        cases other
    · intro e failed
      cases succeeded.symm.trans failed
  · refine ⟨?_, ?_, ?_, fun _ _ => same, fun k _ => congrFun same k⟩
    · rw [failed, asked]
      refine iff_of_false nofun ?_
      rintro (removed | ⟨kind, key, absent⟩)
      · cases removed
      · cases absent
        cases other
    · intro e'
      rw [failed, asked]
      refine ⟨fun given => ⟨given, ?_⟩, And.left⟩
      cases given
      exact other
    · intro succeeded
      cases failed.symm.trans succeeded

end Shelf

/-- What calls to delete come to. -/
structure DeletesOnce {σ κ α : Type} (v : Shelf σ κ α) (ds : List (Deletion σ)) (s : σ) : Prop where
  answered : ∀ earlier r o later, ds = earlier ++ .delete r o :: later →
    r.Deletes v o (run earlier s)
  /-- A call that succeeded may be repeated, by anybody and at any time: nothing changes, and it
  succeeds unless the client fails for another reason. -/
  repeated : ∀ earlier r o between r' o' later,
    ds = earlier ++ (.delete r o :: between ++ .delete r' o' :: later) →
      v.place o' = v.place o → (r.delete o (run earlier s)).1 = .ok () →
      ∃ s', s' = run (earlier ++ .delete r o :: between) s ∧
        v.held (r'.delete o' s').2 = v.held s' ∧
        ((r'.delete o' s').1 = .ok () ∨
          ∃ e, e.isNotFound = false ∧ (r'.client.delete r'.scope o' s').1 = .error e)
  /-- What is left is what no call that succeeded was for. -/
  left : ∀ k, (k ∈ (deleted ds s).map v.place → v.held (run ds s) k = none) ∧
    (k ∉ (deleted ds s).map v.place → v.held (run ds s) k = v.held s k)
  /-- So it does not depend on the order of the calls that succeeded, nor on the others. -/
  unordered : ∀ ds' s', v.held s' = v.held s → v.Deals ds' s' →
    (deleted ds' s').Perm (deleted ds s) → v.held (run ds' s') = v.held (run ds s)

theorem deletesOnce {σ κ α : Type} {v : Shelf σ κ α} {ds : List (Deletion σ)} {s : σ}
    (deals : v.Deals ds s) : DeletesOnce v ds s where
  answered := by
    rintro earlier r o later rfl
    exact Shelf.deletes_of_answers (Shelf.Deals.later deals).1
  repeated := by
    rintro earlier r o between r' o' later rfl same succeeded
    have first := Shelf.Deals.later deals
    have gone := (Shelf.deletes_of_answers first.1).gone succeeded
    have still := Shelf.held_run_of_absent (Shelf.Deals.earlier first.2) gone
    have answers := (Shelf.Deals.later first.2).1
    refine ⟨_, rfl, ?_⟩
    rw [run_append]
    rw [← same] at still
    refine ⟨Shelf.held_of_absent answers still, ?_⟩
    rcases Shelf.delete_cases answers with ⟨again, -⟩ | ⟨e, other, asked, -⟩
    · exact .inl again
    · exact .inr ⟨e, other, asked⟩
  left := Shelf.held_run deals
  unordered := by
    intro ds' s' start deals' perm
    have same : ∀ k, k ∈ (deleted ds' s').map v.place ↔ k ∈ (deleted ds s).map v.place :=
      fun k => (perm.map v.place).mem_iff
    funext k
    by_cases member : k ∈ (deleted ds s).map v.place
    · rw [(Shelf.held_run deals k).1 member, (Shelf.held_run deals' k).1 ((same k).mpr member)]
    · rw [(Shelf.held_run deals k).2 member, (Shelf.held_run deals' k).2 (mt (same k).mp member),
        start]

/-! ## Desks -/

namespace Desk

/-- The objects of a desk by the places where they are kept. -/
def shelf : Shelf Desk Place Object where
  place := Object.place
  held d p := d.objects.find? fun o => o.place = p

theorem without_filter (d : Desk) (o : Object) :
    shelf.Without o d { d with objects := d.objects.filter fun p => p.place ≠ o.place } where
  gone := by
    simp [shelf]
  others := by
    intro k (elsewhere : k ≠ o.place)
    simp only [shelf, List.find?_filter]
    congr 1
    funext p
    by_cases here : p.place = k <;> simp [here, elsewhere]

/-- A desk deletes as a client should, unless it was told to answer that there is no object. -/
theorem answers_delete (d : Desk) (scope : Token) (o : Object)
    (frank : ∀ e, d.refusals.get? .delete = some e → e.isNotFound = false) :
    shelf.Answers o d (client.delete scope o d) := by
  simp only [client, guarded]
  split
  · exact .failed rfl rfl
  · split
    · rename_i e refusal
      exact .failed (frank e refusal) rfl
    · split
      · rename_i kept found
        refine .removed ?_ (without_filter d o)
        intro absent
        cases found.symm.trans absent
      · rename_i absent
        exact .absent absent rfl

def pod (name : String) : Object := ⟨⟨"", "v1", "Pod"⟩, "apps", name, .null⟩

def stocked : Desk := { objects := [pod "a", pod "b"] }

def asking (scope : Nat) : Request Desk :=
  (request {} ⟨"", "v1", "Pod"⟩ ⟨"apps", "a"⟩ false).1.withScope ⟨scope, []⟩

/-- Deletes an object, then again in the same scope, which is cancelled by now, and in another. -/
def visits : List (Deletion Desk) :=
  [.delete (asking 0) (pod "a"), .aside fun d => d.cancel ⟨0, []⟩,
    .delete (asking 0) (pod "a"), .delete (asking 1) (pod "a")]

theorem deals_visits : shelf.Deals visits stocked := by
  have frank : ∀ d : Desk, d.refusals.get? .delete = none →
      ∀ e, d.refusals.get? .delete = some e → e.isNotFound = false := by
    intro d none e some
    cases none.symm.trans some
  exact ⟨answers_delete _ _ _ (frank _ rfl), rfl, answers_delete _ _ _ (frank _ rfl),
    answers_delete _ _ _ (frank _ rfl), trivial⟩

theorem deletesOnce_visits :
    shelf.Deals visits stocked ∧
      shelf.held (run visits stocked) (pod "a").place = none ∧
      shelf.held (run visits stocked) (pod "b").place = some (pod "b") ∧
      ((asking 0).delete (pod "a") (run (visits.take 2) stocked)).1 = .error .cancelled ∧
      ((asking 1).delete (pod "a") (run (visits.take 3) stocked)).1 = .ok () := by
  have once := deletesOnce deals_visits
  have objects : deleted visits stocked = [pod "a", pod "a"] := rfl
  have cancelled := once.answered (visits.take 2) _ _ (visits.drop 3) rfl
  have absent := once.answered (visits.take 3) _ _ [] rfl
  refine ⟨deals_visits, (once.left _).1 ?_, (once.left _).2 ?_, (cancelled.fails_iff _).mpr ?_,
    absent.succeeds_iff.mpr (.inr ?_)⟩
  · simp [objects, shelf]
  · rw [objects]
    decide
  · exact ⟨rfl, rfl⟩
  · exact ⟨_, _, rfl⟩

end Desk

end LeaderLease
