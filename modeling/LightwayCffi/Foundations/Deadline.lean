import Mathlib.Algebra.Order.Floor.Div
import Mathlib.Order.Lattice
import Mathlib.Tactic.Common

/-!
# Deadlines and the timeouts that announce them

A component that keeps deadlines announces the earliest of them to a host that owns one timer, as a
count of quanta from the moment of the announcement. The count is rounded up, so that the timer
does not expire before the deadline; it is at least `1`, since `0` is how such interfaces say that
no timer is wanted; and it is cut off at the largest count the interface can carry.

* `Deadline.timeout` is that count; `Deadline.expiry_le` and `Deadline.le_expiry` bound the moment
  at which a timer armed with it expires.
* `Deadline.min?_append` is the earliest deadline of two collections of deadlines.
-/

namespace Deadline

section Timeout

variable {quantum limit deadline now : ℕ}

/-- The number of quanta from `now` to `deadline`, rounded up and clamped to `1 .. limit`. -/
def timeout (quantum limit deadline now : ℕ) : ℕ :=
  max 1 (min ((deadline - now) ⌈/⌉ quantum) limit)

theorem timeout_pos : 0 < timeout quantum limit deadline now :=
  lt_of_lt_of_le Nat.zero_lt_one (le_max_left _ _)

/-- An overdue deadline is announced as one quantum. -/
theorem timeout_of_le (h : deadline ≤ now) : timeout quantum limit deadline now = 1 := by
  unfold timeout
  rw [Nat.sub_eq_zero_of_le h, zero_ceilDiv, Nat.zero_min]
  rfl

/-- **Not late.** A timer armed at `now` expires within one quantum of the deadline, or of the
moment it was armed when the deadline was already over. -/
theorem expiry_le :
    now + timeout quantum limit deadline now * quantum ≤ max deadline now + quantum := by
  rcases Nat.le_total deadline now with h | h
  · rw [timeout_of_le h, Nat.one_mul]
    exact Nat.add_le_add_right (le_max_right _ _) _
  · -- rounding up adds less than one quantum to the distance
    have hceil : ((deadline - now) ⌈/⌉ quantum) * quantum ≤ deadline - now + quantum := by
      rw [Nat.ceilDiv_eq_add_pred_div]
      exact (Nat.div_mul_le_self _ _).trans (Nat.sub_le _ _)
    have hclamp : timeout quantum limit deadline now * quantum ≤ deadline - now + quantum := by
      unfold timeout
      rcases max_cases 1 (min ((deadline - now) ⌈/⌉ quantum) limit) with ⟨hm, -⟩ | ⟨hm, -⟩
      · rw [hm, Nat.one_mul]
        exact Nat.le_add_left _ _
      · rw [hm]
        exact (Nat.mul_le_mul_right _ (min_le_left _ _)).trans hceil
    rw [max_eq_left h]
    omega

/-- **Not early.** A timeout that was not cut off covers the whole distance to the deadline. -/
theorem le_expiry (hq : 0 < quantum) (hcut : timeout quantum limit deadline now < limit) :
    deadline ≤ now + timeout quantum limit deadline now * quantum := by
  have hceil : (deadline - now) ⌈/⌉ quantum ≤ timeout quantum limit deadline now := by
    unfold timeout at hcut ⊢
    rcases min_choice ((deadline - now) ⌈/⌉ quantum) limit with h | h
    · rw [h]
      exact le_max_right _ _
    · rw [h] at hcut
      exact absurd (le_max_right 1 limit) (Nat.not_le.2 hcut)
  have hcover := (ceilDiv_le_iff_le_mul hq).1 hceil
  rw [Nat.mul_comm] at hcover
  omega

end Timeout

section Earliest

variable {α : Type*} [LinearOrder α]

/-- The earliest of two collections of deadlines is the earlier of their earliest. -/
theorem min?_append (xs ys : List α) : (xs ++ ys).min? = Option.merge min xs.min? ys.min? := by
  induction xs with
  | nil => simp
  | cons x xs ih =>
    rw [List.cons_append, List.min?_cons, List.min?_cons, ih]
    cases xs.min? <;> cases ys.min? <;> simp [min_assoc]

end Earliest

end Deadline
