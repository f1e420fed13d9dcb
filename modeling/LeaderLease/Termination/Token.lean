/-!
# Cancellation tokens

A token stands for a scope, and scopes lie inside one another. A token carries its own number and
those of the scopes around it, and `Tokens` remembers which numbers were cancelled; so cancelling a
token cancels the scopes inside it and no others, and nothing takes a cancellation back.
-/

set_option autoImplicit false

namespace LeaderLease

structure Token where
  number : Nat
  /-- The scopes around this one, the innermost first. -/
  around : List Nat
deriving DecidableEq, Repr

/-- The scopes whose cancellation reaches this token, its own included. -/
def Token.lineage (t : Token) : List Nat := t.number :: t.around

structure Tokens where
  issued : Nat := 0
  cancelled : List Nat := []
deriving DecidableEq, Repr

namespace Tokens

def root (ts : Tokens) : Token × Tokens := (⟨ts.issued, []⟩, { ts with issued := ts.issued + 1 })

def child (ts : Tokens) (parent : Token) : Token × Tokens :=
  (⟨ts.issued, parent.lineage⟩, { ts with issued := ts.issued + 1 })

def isCancelled (ts : Tokens) (t : Token) : Bool := t.lineage.any fun n => ts.cancelled.contains n

def cancel (ts : Tokens) (t : Token) : Tokens := { ts with cancelled := t.number :: ts.cancelled }

theorem isCancelled_cancel (ts : Tokens) (t u : Token) :
    (ts.cancel t).isCancelled u = (u.lineage.contains t.number || ts.isCancelled u) := by
  rw [Bool.eq_iff_iff]
  simp only [isCancelled, cancel, List.any_eq_true, List.contains_iff_mem, List.mem_cons,
    Bool.or_eq_true]
  constructor
  · rintro ⟨n, inside, rfl | old⟩
    · exact Or.inl inside
    · exact Or.inr ⟨n, inside, old⟩
  · rintro (inside | ⟨n, inside, old⟩)
    · exact ⟨t.number, inside, Or.inl rfl⟩
    · exact ⟨n, inside, Or.inr old⟩

theorem isCancelled_cancel_self (ts : Tokens) (t : Token) : (ts.cancel t).isCancelled t = true := by
  simp [isCancelled_cancel, Token.lineage]

theorem isCancelled_cancel_of_isCancelled {ts : Tokens} {u : Token} (t : Token)
    (h : ts.isCancelled u = true) : (ts.cancel t).isCancelled u = true := by
  simp [isCancelled_cancel, h]

/-- A child is cancelled with the scope it was made in. -/
theorem isCancelled_child (ts : Tokens) (parent : Token) (h : ts.isCancelled parent = true) :
    (ts.child parent).2.isCancelled (ts.child parent).1 = true := by
  simp only [isCancelled, List.any_eq_true] at h ⊢
  obtain ⟨n, inside, old⟩ := h
  exact ⟨n, List.mem_cons_of_mem _ inside, old⟩

end Tokens

end LeaderLease
