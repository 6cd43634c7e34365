import LightwayCffi.Foundations.Memory

/-!
# Regions

A region is a memory of a fixed size, with accesses that are `none` where they leave it. The
elements of an array of records are the intervals of `stride` cells from the multiples of `stride`
on: writing to one element does not affect another (`load_store_of_slot`).
-/

namespace Memory

variable {α : Type*}

/-- A memory of `size` cells. -/
structure Region (α : Type*) where
  size : ℕ
  cell : ℕ → α

namespace Region

/-- A region with one value everywhere. -/
def filled (size : ℕ) (v : α) : Region α := ⟨size, fun _ => v⟩

/-- The `n` values from the address `a` on. -/
def read (r : Region α) (a n : ℕ) : Option (List α) :=
  if a + n ≤ r.size then some (load r.cell a n) else none

/-- Put the values `vs` at the address `a`. -/
def write (r : Region α) (a : ℕ) (vs : List α) : Option (Region α) :=
  if a + vs.length ≤ r.size then some { r with cell := store r.cell a vs } else none

variable {r : Region α} {a n : ℕ}

theorem read_of_le (h : a + n ≤ r.size) : r.read a n = some (load r.cell a n) := if_pos h

theorem write_of_le {vs : List α} (h : a + vs.length ≤ r.size) :
    r.write a vs = some { r with cell := store r.cell a vs } :=
  if_pos h

end Region

/-! ## Arrays of records -/

section Slots

variable {m : ℕ → α} {vs : List α} {a i k n stride slots : ℕ}

/-- An element is within the array. -/
theorem slot_le (hi : i < slots) (hn : n ≤ stride) : i * stride + n ≤ slots * stride := by
  have hle := Nat.mul_le_mul_right stride (Nat.succ_le_of_lt hi)
  rw [Nat.succ_mul] at hle
  omega

theorem Region.read_slot {r : Region α} (hr : r.size = slots * stride) (hi : i < slots)
    (hn : n ≤ stride) : r.read (i * stride) n = some (load r.cell (i * stride) n) :=
  read_of_le (hr ▸ slot_le hi hn)

theorem Region.write_slot {r : Region α} (hr : r.size = slots * stride) (hi : i < slots)
    (hn : vs.length ≤ stride) :
    r.write (i * stride) vs = some { r with cell := store r.cell (i * stride) vs } :=
  write_of_le (hr ▸ slot_le hi hn)

/-- Writing within one element leaves the others. -/
theorem load_store_of_slot (hne : k ≠ i) (hn : n ≤ stride) (hlo : i * stride ≤ a)
    (hhi : a + vs.length ≤ i * stride + stride) :
    load (store m a vs) (k * stride) n = load m (k * stride) n := by
  refine load_store_of_disjoint ?_
  rcases Nat.lt_or_gt_of_ne hne with hlt | hlt
  · have hle := slot_le hlt hn
    exact Or.inl (by omega)
  · have hle := slot_le hlt (Nat.le_refl stride)
    exact Or.inr (by omega)

end Slots

end Memory
