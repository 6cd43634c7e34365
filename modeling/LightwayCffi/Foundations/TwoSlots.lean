import Mathlib.Data.List.Basic
import Mathlib.Tactic.Common

/-!
# A value and the one before it

A value that is replaced from time to time may be kept together with the one before it, so that what
was made under the old value can still be used. `Slots` is the plainest way to do it: two slots, and
every install shifts the first into the second. What the second slot is meant to hold is
`lastOther`, the most recent value that differs from the one in force.

The two agree as long as no value is installed again, while it is in force, after it has replaced
another one. An install with this property is `Rotates`. An install without it leaves the same value
in both slots, and the other one is lost.
-/

namespace TwoSlots

variable {α : Type*} {l : List α} {x y : α}

/-- The value in force and the one before it. -/
structure Slots (α : Type*) where
  current : Option α
  previous : Option α

/-- Nothing has been installed. -/
def Slots.empty : Slots α := ⟨none, none⟩

/-- Install a value; whatever was in force becomes the previous one. -/
def Slots.install (s : Slots α) (x : α) : Slots α := ⟨some x, s.current⟩

/-- The slots after the installs `l`, oldest first. -/
def installAll (l : List α) : Slots α := l.foldl Slots.install Slots.empty

theorem installAll_concat (l : List α) (x : α) :
    installAll (l ++ [x]) = (installAll l).install x :=
  List.foldl_concat ..

theorem current_installAll (l : List α) : (installAll l).current = l.getLast? := by
  rcases List.eq_nil_or_concat l with rfl | ⟨l, x, rfl⟩
  · rfl
  · rw [List.concat_eq_append, installAll_concat, List.getLast?_concat]
    rfl

theorem previous_installAll_concat (l : List α) (x : α) :
    (installAll (l ++ [x])).previous = l.getLast? := by
  rw [installAll_concat]
  exact current_installAll l

/-- The slots hold only what was installed. -/
theorem mem_of_previous (h : (installAll l).previous = some y) : y ∈ l := by
  rcases List.eq_nil_or_concat l with rfl | ⟨l, x, rfl⟩
  · cases h
  · rw [List.concat_eq_append, previous_installAll_concat] at h
    rw [List.concat_eq_append]
    exact List.mem_append_left _ (List.mem_of_getLast? h)

/-- The install of `x` after `l` is the first one, replaces another value, or repeats the only value
that was ever installed. -/
def Rotates (l : List α) (x : α) : Prop := l.getLast? = some x → ∀ y ∈ l, y = x

/-- A value that is installed again has nothing but itself to replace. -/
theorem Rotates.previous_eq (h : Rotates l x) (hlast : l.getLast? = some x)
    (hprev : (installAll l).previous = some y) : y = x :=
  h hlast y (mem_of_previous hprev)

variable [DecidableEq α]

instance : Decidable (Rotates l x) := inferInstanceAs (Decidable (_ → _))

/-- The most recent value that differs from the one in force. -/
def lastOther (l : List α) : Option α := l.getLast?.bind fun x => (l.filter (· ≠ x)).getLast?

theorem lastOther_concat (l : List α) (x : α) :
    lastOther (l ++ [x]) = (l.filter (· ≠ x)).getLast? := by
  rw [lastOther, List.getLast?_concat, Option.bind_some, List.filter_append]
  simp

/-- A rotation keeps the most recent other value. -/
theorem Rotates.previous_of_lastOther (h : Rotates l x) (hother : lastOther (l ++ [x]) = some y) :
    (installAll (l ++ [x])).previous = some y := by
  rw [lastOther_concat] at hother
  rw [previous_installAll_concat]
  rcases List.eq_nil_or_concat l with rfl | ⟨l, z, rfl⟩
  · cases hother
  · rw [List.concat_eq_append] at h hother ⊢
    rw [List.getLast?_concat]
    by_cases hz : z = x
    · -- then `x` is all that was ever installed
      have hall := h (by rw [List.getLast?_concat, hz])
      obtain ⟨hmem, hne⟩ := List.mem_filter.1 (List.mem_of_getLast? hother)
      exact absurd (hall y hmem) (of_decide_eq_true hne)
    · have hkept : [z].filter (· ≠ x) = [z] := by simp [hz]
      rw [List.filter_append, hkept, List.getLast?_concat] at hother
      exact hother

/-- Anything else loses it: both slots hold the value in force. -/
theorem lost_of_not_rotates (h : ¬Rotates l x) :
    installAll (l ++ [x]) = ⟨some x, some x⟩ ∧ ∃ y, y ≠ x ∧ lastOther (l ++ [x]) = some y := by
  obtain ⟨hlast, hne⟩ := Classical.not_imp.1 h
  refine ⟨?_, ?_⟩
  · rw [installAll_concat, Slots.install, current_installAll, hlast]
  · obtain ⟨y, hy⟩ := not_forall.1 hne
    obtain ⟨hmem, hyx⟩ := Classical.not_imp.1 hy
    have hfilter : l.filter (· ≠ x) ≠ [] :=
      List.ne_nil_of_mem (List.mem_filter.2 ⟨hmem, decide_eq_true hyx⟩)
    refine ⟨(l.filter (· ≠ x)).getLast hfilter, ?_, ?_⟩
    · exact of_decide_eq_true (List.mem_filter.1 (List.getLast_mem hfilter)).2
    · rw [lastOther_concat, List.getLast?_eq_getLast_of_ne_nil hfilter]

end TwoSlots
