import Mathlib.Tactic.Common

/-!
# Routines

A routine is a computation on a shared state that is carried out one access at a time: between two
accesses others may be scheduled, and what the routine does next may depend on what it saw. `run`
is the routine carried out without interruption. Routines compose like any program (`Monad`), and
`run` follows the composition.
-/

/-- A routine on states `S` with a result in `R`. The continuation of an access depends on the state
that the access found. -/
inductive Routine (S : Type) (R : Type) : Type where
  | done (r : R)
  | access (f : S → S) (next : S → Routine S R)

namespace Routine

variable {S R Q : Type}

/-- The routine without interruption. -/
def run : Routine S R → S → S × R
  | .done r, s => (s, r)
  | .access f next, s => (next s).run (f s)

protected def bind : Routine S R → (R → Routine S Q) → Routine S Q
  | .done r, k => k r
  | .access f next, k => .access f fun s => (next s).bind k

instance : Monad (Routine S) where
  pure := .done
  bind := Routine.bind

/-- One access. -/
def of (g : S → S × R) : Routine S R := .access (fun s => (g s).1) fun s => .done (g s).2

/-- One access that only reads. -/
def get : Routine S S := of fun s => (s, s)

/-- One access that only writes. -/
def modify (f : S → S) : Routine S Unit := of fun s => (f s, ())

@[simp]
theorem run_pure (r : R) (s : S) : (pure r : Routine S R).run s = (s, r) := rfl

@[simp]
theorem run_bind (p : Routine S R) (k : R → Routine S Q) (s : S) :
    (p >>= k).run s = (k (p.run s).2).run (p.run s).1 := by
  change (p.bind k).run s = _
  induction p generalizing s with
  | done r => rfl
  | access f next ih => exact ih s (f s)

@[simp]
theorem run_of (g : S → S × R) (s : S) : (of g).run s = g s := rfl

@[simp]
theorem run_modify (f : S → S) (s : S) : (modify f).run s = (f s, ()) := rfl

@[simp]
theorem run_get_bind (k : S → Routine S R) (s : S) : (get >>= k).run s = (k s).run s := rfl

@[simp]
theorem run_modify_bind (f : S → S) (k : Unit → Routine S R) (s : S) :
    (modify f >>= k).run s = (k ()).run (f s) := rfl

@[simp]
theorem run_ite (c : Prop) [Decidable c] (p q : Routine S R) (s : S) :
    (if c then p else q).run s = if c then p.run s else q.run s := by
  split_ifs <;> rfl

end Routine
