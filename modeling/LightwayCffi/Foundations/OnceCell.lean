import Mathlib.Data.Nat.Notation
import Mathlib.Logic.Function.Basic
import Mathlib.Tactic.Common

/-!
# Cells that are filled once

A heap of blocks, by address, and cells that own a block of it. A cell is filled with the first
value that it is offered, in a block that the allocator returns, and keeps it until it is emptied.
A cell `Holds` no value, or a value in a block that is allocated.
-/

namespace OnceCell

variable {α : Type*}

/-- The values in the blocks that are allocated. -/
abbrev Heap (α : Type*) := ℕ → Option α

/-- Fill a cell that is empty with the value it is offered; `address` is the block that the
allocator returns, and there is no result if that is not a fresh one. -/
def fill (heap : Heap α) (cell : Option ℕ) (offer : Option α) (address : ℕ) :
    Option (Heap α × Option ℕ) :=
  match cell, offer with
  | some a, _ => some (heap, some a)
  | none, none => some (heap, none)
  | none, some v =>
    if address = 0 ∨ (heap address).isSome then none
    else some (Function.update heap address (some v), some address)

/-- Empty a cell, and free its block. -/
def free (heap : Heap α) : Option ℕ → Heap α
  | none => heap
  | some a => Function.update heap a none

/-- What is in a cell. -/
inductive Holds (heap : Heap α) : Option ℕ → Option α → Prop
  | empty : Holds heap none none
  | full {a : ℕ} {v : α} (hne : a ≠ 0) (hlive : heap a = some v) : Holds heap (some a) (some v)

variable {heap heap' : Heap α} {cell cell' : Option ℕ} {offer : Option α} {address : ℕ}

/-- The three things that filling can do. -/
theorem fill_cases (h : fill heap cell offer address = some (heap', cell')) :
    (heap' = heap ∧ cell' = cell ∧ (cell = none → offer = none)) ∨
      ∃ v, cell = none ∧ offer = some v ∧ address ≠ 0 ∧ heap address = none ∧
        heap' = Function.update heap address (some v) ∧ cell' = some address := by
  cases cell with
  | some a =>
    obtain ⟨rfl, rfl⟩ := Prod.mk.inj (Option.some.inj h)
    exact Or.inl ⟨rfl, rfl, fun hnone => nomatch hnone⟩
  | none =>
    cases offer with
    | none =>
      obtain ⟨rfl, rfl⟩ := Prod.mk.inj (Option.some.inj h)
      exact Or.inl ⟨rfl, rfl, fun _ => rfl⟩
    | some v =>
      rw [fill] at h
      split_ifs at h with hfresh
      obtain ⟨hne, hnone⟩ := not_or.1 hfresh
      obtain ⟨rfl, rfl⟩ := Prod.mk.inj (Option.some.inj h)
      exact Or.inr ⟨v, rfl, rfl, hne, by simpa using hnone, rfl, rfl⟩

/-- A block that is allocated is not touched. -/
theorem fill_keeps (h : fill heap cell offer address = some (heap', cell')) {a : ℕ} {v : α}
    (hlive : heap a = some v) : heap' a = some v := by
  rcases fill_cases h with ⟨rfl, -, -⟩ | ⟨w, -, -, -, hfresh, rfl, -⟩
  · exact hlive
  · rw [Function.update_of_ne, hlive]
    rintro rfl
    rw [hfresh] at hlive
    cases hlive

theorem Holds.mono {v : Option α} (h : Holds heap cell v)
    (hkeeps : ∀ a w, heap a = some w → heap' a = some w) : Holds heap' cell v := by
  cases h with
  | empty => exact .empty
  | full hne hlive => exact .full hne (hkeeps _ _ hlive)

theorem Holds.live {v : Option α} (h : Holds heap cell v) {a : ℕ} (hcell : cell = some a) :
    ∃ w, heap a = some w := by
  cases h with
  | empty => cases hcell
  | full _ hlive =>
    obtain rfl := Option.some.inj hcell
    exact ⟨_, hlive⟩

/-- A cell holds the first value it was offered. -/
theorem Holds.fill {v : Option α} (h : Holds heap cell v)
    (hfill : fill heap cell offer address = some (heap', cell')) :
    Holds heap' cell' (v.or offer) := by
  rcases fill_cases hfill with ⟨rfl, rfl, hoffer⟩ | ⟨w, rfl, rfl, hne, -, rfl, rfl⟩
  · cases h with
    | empty =>
      rw [hoffer rfl]
      exact .empty
    | full hne hlive => exact .full hne hlive
  · cases h
    exact .full hne (Function.update_self _ _ _)

/-- A cell that is full stays as it is. -/
theorem fill_of_some (h : fill heap cell offer address = some (heap', cell')) {a : ℕ}
    (hcell : cell = some a) : cell' = some a := by
  subst hcell
  rcases fill_cases h with ⟨-, rfl, -⟩ | ⟨w, hnone, -⟩
  · rfl
  · cases hnone

/-- The blocks after filling are those from before and that of the cell. -/
theorem fill_blocks (h : fill heap cell offer address = some (heap', cell')) {a : ℕ} {v : α}
    (hlive : heap' a = some v) : heap a = some v ∨ cell' = some a := by
  rcases fill_cases h with ⟨rfl, -, -⟩ | ⟨w, -, -, -, -, rfl, rfl⟩
  · exact Or.inl hlive
  · rcases eq_or_ne a address with rfl | hne
    · exact Or.inr rfl
    · exact Or.inl (by rwa [Function.update_of_ne hne] at hlive)

/-- Freeing leaves the other blocks. -/
theorem free_live {a : ℕ} {v : α} (h : free heap cell a = some v) :
    heap a = some v ∧ cell ≠ some a := by
  cases cell with
  | none => exact ⟨h, fun hnone => nomatch hnone⟩
  | some b =>
    have hne : a ≠ b := by
      rintro rfl
      rw [free, Function.update_self] at h
      cases h
    rw [free, Function.update_of_ne hne] at h
    exact ⟨h, fun heq => hne (Option.some.inj heq).symm⟩

/-- A block that was allocated before is not the one that a cell is filled with. -/
theorem fill_fresh (h : fill heap cell offer address = some (heap', cell')) {a : ℕ} {v : α}
    (hlive : heap a = some v) (hcell : cell ≠ some a) : cell' ≠ some a := by
  rcases fill_cases h with ⟨-, rfl, -⟩ | ⟨w, -, -, -, hfresh, -, rfl⟩
  · exact hcell
  · rintro heq
    obtain rfl := Option.some.inj heq
    rw [hfresh] at hlive
    cases hlive

end OnceCell
