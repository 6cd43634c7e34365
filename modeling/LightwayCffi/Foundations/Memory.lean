import Mathlib.Data.List.Basic
import Mathlib.Tactic.Common

/-!
# Flat memory

A memory is a value for every address. `load` takes the values of an interval out as a list, `store`
puts a list there. Reading back gives what was written, and reading elsewhere is not affected.
-/

namespace Memory

variable {α : Type*}

/-- The `n` values from the address `a` on. -/
def load (m : ℕ → α) (a n : ℕ) : List α := (List.range n).map fun i => m (a + i)

/-- The `n` values from the address `a` on, as an array. -/
def loadVector (m : ℕ → α) (a n : ℕ) : Vector α n := Vector.ofFn fun i => m (a + i)

/-- Put the values `vs` at the address `a`. -/
def store (m : ℕ → α) (a : ℕ) (vs : List α) : ℕ → α :=
  fun x => if a ≤ x then vs[x - a]?.getD (m x) else m x

/-- The interval of `n` addresses from `a` on has no address in common with that of `k` from `b`
on. -/
def Disjoint (a n b k : ℕ) : Prop := a + n ≤ b ∨ b + k ≤ a

instance (a n b k : ℕ) : Decidable (Disjoint a n b k) := by
  unfold Disjoint
  infer_instance

variable {m : ℕ → α} {a b n : ℕ} {vs : List α}

@[simp]
theorem length_load (m : ℕ → α) (a n : ℕ) : (load m a n).length = n := by
  simp [load]

theorem toList_loadVector (m : ℕ → α) (a n : ℕ) : (loadVector m a n).toList = load m a n := by
  refine List.ext_getElem (by simp) fun i hi hi' => ?_
  simp [loadVector, load]

theorem loadVector_congr {m' : ℕ → α} (h : load m a n = load m' b n) :
    loadVector m a n = loadVector m' b n := by
  refine Vector.toList_inj.1 ?_
  rw [toList_loadVector, toList_loadVector, h]

theorem load_congr {m' : ℕ → α} (h : ∀ x, a ≤ x → x < a + n → m' x = m x) :
    load m' a n = load m a n := by
  refine List.map_congr_left fun i hi => h (a + i) (by omega) ?_
  have := List.mem_range.1 hi
  omega

theorem take_load (m : ℕ → α) (a : ℕ) {n k : ℕ} (h : k ≤ n) :
    (load m a n).take k = load m a k := by
  rw [load, ← List.map_take, List.take_range, Nat.min_eq_left h, load]

theorem load_add (m : ℕ → α) (a k n : ℕ) : load m a (k + n) = load m a k ++ load m (a + k) n := by
  rw [load, List.range_add, List.map_append, List.map_map, load, load]
  simp [Function.comp_def, Nat.add_assoc]

theorem take_drop_load (m : ℕ → α) (a : ℕ) {k n l : ℕ} (h : k + n ≤ l) :
    ((load m a l).drop k).take n = load m (a + k) n := by
  obtain ⟨r, rfl⟩ := Nat.exists_eq_add_of_le h
  rw [Nat.add_assoc, load_add, load_add, List.drop_left' (length_load _ _ _),
    List.take_left' (length_load _ _ _)]

/-- A store does not reach beyond its interval. -/
theorem store_of_outside {x : ℕ} (h : x < a ∨ a + vs.length ≤ x) : store m a vs x = m x := by
  rw [store]
  split_ifs with hle
  · rw [List.getElem?_eq_none (by omega), Option.getD_none]
  · rfl

/-- Reading back. -/
@[simp]
theorem load_store (m : ℕ → α) (a : ℕ) (vs : List α) : load (store m a vs) a vs.length = vs := by
  refine List.ext_getElem (by simp) fun i hi hi' => ?_
  simp only [load, List.getElem_map, List.getElem_range]
  rw [store, if_pos (Nat.le_add_right a i), Nat.add_sub_cancel_left, List.getElem?_eq_getElem hi',
    Option.getD_some]

theorem load_store_of_length (m : ℕ → α) (a : ℕ) (h : vs.length = n) :
    load (store m a vs) a n = vs := by
  rw [← h, load_store]

/-- Reading the front back. -/
theorem load_store_take (m : ℕ → α) (a : ℕ) (h : n ≤ vs.length) :
    load (store m a vs) a n = vs.take n := by
  rw [← take_load _ _ h, load_store]

/-- Reading elsewhere. -/
theorem load_store_of_disjoint (h : Disjoint a n b vs.length) :
    load (store m b vs) a n = load m a n := by
  refine load_congr fun x hlo hhi => store_of_outside ?_
  rcases h with h | h <;> omega

/-- Writing in two parts. -/
theorem store_append (m : ℕ → α) (a : ℕ) (vs ws : List α) :
    store m a (vs ++ ws) = store (store m a vs) (a + vs.length) ws := by
  funext x
  rcases Nat.lt_or_ge x (a + vs.length) with hin | hout
  · rw [store_of_outside (Or.inl hin), store, store]
    split_ifs with hle
    · rw [List.getElem?_append_left (by omega)]
    · rfl
  · rw [store, if_pos (by omega), List.getElem?_append_right (by omega), store, if_pos hout,
      store_of_outside (Or.inr hout), Nat.sub_sub]

/-- Writing back what is there changes nothing. -/
theorem store_append_drop (m : ℕ → α) (a : ℕ) {n : ℕ} (h : vs.length ≤ n) :
    store m a (vs ++ (load m a n).drop vs.length) = store m a vs := by
  funext x
  rcases Nat.lt_or_ge x (a + vs.length) with hin | hout
  · rw [store, store]
    split_ifs with hle
    · rw [List.getElem?_append_left (by omega)]
    · rfl
  rw [store_of_outside (Or.inr hout), store, if_pos (by omega),
    List.getElem?_append_right (by omega), List.getElem?_drop]
  rcases Nat.lt_or_ge x (a + n) with hlt | hge
  · have hidx : vs.length + (x - a - vs.length) = x - a := by omega
    rw [hidx, load, List.getElem?_map, List.getElem?_range (by omega), Option.map_some,
      Option.getD_some, Nat.add_sub_cancel' (by omega)]
  · rw [List.getElem?_eq_none (by simp; omega), Option.getD_none]

end Memory
