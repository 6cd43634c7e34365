import Mathlib.Data.List.Basic
import Mathlib.Tactic.Common

/-!
# Operations that check their arguments

The operations of a debug build: arithmetic that must not overflow, shifts by less than the width of
the word, and array accesses in range. `none` is the panic that a failed check ends in. Each
operation has one lemma, which says what it computes when its check passes.
-/

namespace Checked

variable {w v n : ℕ} {α β : Type*}

/-- Stop unless `p` holds. -/
def assert (p : Prop) [Decidable p] : Option Unit := if p then some () else none

theorem assert_of {p : Prop} [Decidable p] (h : p) : assert p = some () := if_pos h

def add (a b : BitVec w) : Option (BitVec w) := if a.uaddOverflow b then none else some (a + b)

theorem add_of_not_overflow {a b : BitVec w} (h : ¬a.uaddOverflow b) : add a b = some (a + b) :=
  if_neg h

def sub (a b : BitVec w) : Option (BitVec w) := if b ≤ a then some (a - b) else none

theorem sub_of_le {a b : BitVec w} (h : b ≤ a) : sub a b = some (a - b) := if_pos h

def shl (a : BitVec w) (k : BitVec v) : Option (BitVec w) :=
  if k.toNat < w then some (a <<< k.toNat) else none

theorem shl_of_lt {a : BitVec w} {k : BitVec v} (h : k.toNat < w) :
    shl a k = some (a <<< k.toNat) :=
  if_pos h

def shr (a : BitVec w) (k : BitVec v) : Option (BitVec w) :=
  if k.toNat < w then some (a >>> k.toNat) else none

theorem shr_of_lt {a : BitVec w} {k : BitVec v} (h : k.toNat < w) :
    shr a k = some (a >>> k.toNat) :=
  if_pos h

/-- Read an element of an array. -/
def get (a : Vector α n) (i : ℕ) : Option α := if h : i < n then some (a.get ⟨i, h⟩) else none

theorem get_val (a : Vector α n) (i : Fin n) : get a i = some (a.get i) := dif_pos i.isLt

/-- Write an element of an array. -/
def set (a : Vector α n) (i : ℕ) (x : α) : Option (Vector α n) :=
  if h : i < n then some (a.set i x h) else none

theorem set_val (a : Vector α n) (i : Fin n) (x : α) : set a i x = some (a.set i x i.isLt) :=
  dif_pos i.isLt

/-- The numbers of a half-open range, in order. -/
def range (lo hi : BitVec w) : List (BitVec w) :=
  (List.range' lo.toNat (hi.toNat - lo.toNat)).map (BitVec.ofNat w)

/-- A loop whose checks all pass is the loop without them. -/
theorem foldlM_eq_some {f : β → α → Option β} {g : β → α → β} (h : ∀ b a, f b a = some (g b a))
    (l : List α) (b : β) : l.foldlM f b = some (l.foldl g b) := by
  have hf : f = fun b a => pure (g b a) := by
    funext b a
    exact h b a
  rw [hf]
  exact List.foldlM_pure

end Checked
