import Mathlib.Data.List.Nodup
import Mathlib.Logic.Function.Basic

/-!
# Who is where

Processes that stand at places, and places that lie in a region: the critical section of a lock, or
any other part of the code whose occupants a shared variable records. `Held` is a lock with one
holder, `Inside` a list of occupants. Each is kept when a process moves without crossing the border
of the region, when it enters and is recorded, and when it leaves and is struck off.

A region can also be the part of the code in which an effect has been announced and is not stored
yet: `LagsFlag` is a flag that is stored on the way out, `LagsCount` a counter.
-/

namespace Occupancy

variable {T P : Type*} [DecidableEq T] {region : P → Bool} {place : T → P} {t : T}
  {p q : P}

/-- `holder` is the one process in the region. -/
def Held (region : P → Bool) (place : T → P) (holder : Option T) : Prop :=
  ∀ u, region (place u) = true ↔ holder = some u

/-- `inside` lists the processes in the region. -/
structure Inside (region : P → Bool) (place : T → P) (inside : List T) : Prop where
  nodup : inside.Nodup
  mem_iff : ∀ u, u ∈ inside ↔ region (place u) = true

/-- A move that keeps `f` for the process that moves keeps it for all. -/
theorem apply_update {α : Type*} (f : P → α) (ht : place t = p) (h : f q = f p) (u : T) :
    f (Function.update place t q u) = f (place u) := by
  rcases eq_or_ne u t with rfl | hne
  · rw [Function.update_self, h, ht]
  · rw [Function.update_of_ne hne]

namespace Held

variable {holder : Option T}

theorem stay (h : Held region place holder) (ht : place t = p) (hregion : region q = region p) :
    Held region (Function.update place t q) holder := by
  intro u
  rw [apply_update region ht hregion, h u]

theorem enter (h : Held region place none) (hregion : region q = true) :
    Held region (Function.update place t q) (some t) := by
  intro u
  rcases eq_or_ne u t with rfl | hne
  · simp [hregion]
  · rw [Function.update_of_ne hne, h u]
    simp [hne.symm]

theorem leave (h : Held region place holder) (ht : place t = p) (hin : region p = true)
    (hregion : region q = false) : Held region (Function.update place t q) none := by
  intro u
  rcases eq_or_ne u t with rfl | hne
  · simp [hregion]
  · rw [Function.update_of_ne hne, h u, (h t).1 (by rw [ht, hin])]
    simp [hne.symm]

omit [DecidableEq T] in
/-- Two processes are not in the region at once. -/
theorem eq_of_mem (h : Held region place holder) {u : T} (ht : region (place t) = true)
    (hu : region (place u) = true) : u = t :=
  Option.some.inj (((h u).1 hu).symm.trans ((h t).1 ht))

omit [DecidableEq T] in
/-- An empty region has no holder. -/
theorem eq_none (h : Held region place holder) (hout : ∀ u, region (place u) = false) :
    holder = none := by
  cases holder with
  | none => rfl
  | some u => exact absurd ((h u).2 rfl) (by simp [hout u])

end Held

namespace Inside

variable {inside : List T}

theorem stay (h : Inside region place inside) (ht : place t = p) (hregion : region q = region p) :
    Inside region (Function.update place t q) inside := by
  refine ⟨h.nodup, fun u => ?_⟩
  rw [apply_update region ht hregion, h.mem_iff u]

theorem enter (h : Inside region place inside) (ht : place t = p) (hout : region p = false)
    (hregion : region q = true) : Inside region (Function.update place t q) (t :: inside) := by
  refine ⟨List.nodup_cons.2 ⟨?_, h.nodup⟩, fun u => ?_⟩
  · rw [h.mem_iff t, ht, hout]
    exact Bool.false_ne_true
  · rcases eq_or_ne u t with rfl | hne
    · simp [hregion]
    · rw [Function.update_of_ne hne, ← h.mem_iff u]
      simp [hne]

theorem leave (h : Inside region place inside) (hregion : region q = false) :
    Inside region (Function.update place t q) (inside.erase t) := by
  refine ⟨h.nodup.erase t, fun u => ?_⟩
  rw [h.nodup.mem_erase_iff]
  rcases eq_or_ne u t with rfl | hne
  · simp [hregion]
  · rw [Function.update_of_ne hne, ← h.mem_iff u]
    simp [hne]

omit [DecidableEq T] in
/-- An empty region has no occupants. -/
theorem eq_nil (h : Inside region place inside) (hout : ∀ u, region (place u) = false) :
    inside = [] := by
  refine List.eq_nil_iff_forall_not_mem.2 fun u hu => ?_
  exact absurd ((h.mem_iff u).1 hu) (by simp [hout u])

end Inside

/-! ## Variables that lag behind -/

/-- The flag `shown` is set as soon as a process is in the region, `stored` when it leaves it. -/
def LagsFlag (region : P → Bool) (place : T → P) (shown stored : Bool) : Prop :=
  shown = true ↔ stored = true ∨ ∃ u, region (place u) = true

namespace LagsFlag

variable {shown stored : Bool}

theorem stay (h : LagsFlag region place shown stored) (ht : place t = p)
    (hregion : region q = region p) :
    LagsFlag region (Function.update place t q) shown stored := by
  simp only [LagsFlag, apply_update region ht hregion]
  exact h

theorem enter (hregion : region q = true) :
    LagsFlag region (Function.update place t q) true stored :=
  ⟨fun _ => Or.inr ⟨t, by rw [Function.update_self, hregion]⟩, fun _ => rfl⟩

theorem leave (h : LagsFlag region place shown stored) (ht : place t = p) (hin : region p = true) :
    LagsFlag region (Function.update place t q) shown true :=
  ⟨fun _ => Or.inl rfl, fun _ => h.2 (Or.inr ⟨t, by rw [ht, hin]⟩)⟩

omit [DecidableEq T] in
/-- When the region is empty, nothing lags. -/
theorem eq_stored (h : LagsFlag region place shown stored)
    (hout : ∀ u, region (place u) = false) : shown = stored := by
  rw [LagsFlag] at h
  rw [Bool.eq_iff_iff, h]
  simp [hout]

end LagsFlag

/-- The counter `shown` is increased when a process enters the region, `stored` when it leaves
it. -/
def LagsCount {w : ℕ} (region : P → Bool) (place : T → P) (shown stored : BitVec w) : Prop :=
  ∃ inside, Inside region place inside ∧ shown = stored + BitVec.ofNat w inside.length

namespace LagsCount

variable {w : ℕ} {shown stored : BitVec w}

theorem stay (h : LagsCount region place shown stored) (ht : place t = p)
    (hregion : region q = region p) :
    LagsCount region (Function.update place t q) shown stored := by
  obtain ⟨inside, hinside, hshown⟩ := h
  exact ⟨inside, hinside.stay ht hregion, hshown⟩

theorem enter (h : LagsCount region place shown stored) (ht : place t = p) (hout : region p = false)
    (hregion : region q = true) :
    LagsCount region (Function.update place t q) (shown + 1#w) stored := by
  obtain ⟨inside, hinside, rfl⟩ := h
  refine ⟨t :: inside, hinside.enter ht hout hregion, ?_⟩
  rw [List.length_cons, BitVec.ofNat_add, BitVec.add_assoc]

theorem leave (h : LagsCount region place shown stored) (ht : place t = p) (hin : region p = true)
    (hregion : region q = false) :
    LagsCount region (Function.update place t q) shown (stored + 1#w) := by
  obtain ⟨inside, hinside, rfl⟩ := h
  have hmem := (hinside.mem_iff t).2 (by rw [ht, hin])
  refine ⟨inside.erase t, hinside.leave hregion, ?_⟩
  have hlength : inside.length = (inside.erase t).length + 1 := by
    rw [List.length_erase_of_mem hmem]
    have := List.length_pos_of_mem hmem
    omega
  rw [hlength, BitVec.ofNat_add, BitVec.add_assoc, BitVec.add_comm 1#w]

omit [DecidableEq T] in
/-- When the region is empty, nothing lags. -/
theorem eq_stored (h : LagsCount region place shown stored)
    (hout : ∀ u, region (place u) = false) : shown = stored := by
  obtain ⟨inside, hinside, rfl⟩ := h
  rw [hinside.eq_nil hout, List.length_nil]
  exact BitVec.add_zero stored

end LagsCount

end Occupancy
