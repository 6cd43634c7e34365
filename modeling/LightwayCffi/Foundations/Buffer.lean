import Mathlib.Algebra.Group.Nat.Defs
import Mathlib.Data.List.Induction
import Mathlib.Tactic.Common

/-!
# Byte buffers

Accesses to a buffer of fixed length, as a checked language makes them: `slice`, `copyFromSlice`
and `fill` address the bytes `lo..hi` and are `none` where the access is out of range, which is
where such a program panics.

Proofs do not compute with offsets. They write a buffer as the concatenation of a list of fields,
and the `_flatten` lemmas say what an access to one field does: it reads the field, or replaces it
and leaves the fields around it alone. `exists_append` cuts a field off a buffer that is long
enough.

The second half is the big-endian encoding of numbers in a fixed number of bytes.
-/

/-- A string of bytes. -/
abbrev Bytes := List UInt8

namespace Buffer

variable {α : Type*}

/-- The bytes `lo..hi` of a buffer. -/
def slice (buf : List α) (lo hi : ℕ) : Option (List α) :=
  if lo ≤ hi ∧ hi ≤ buf.length then some ((buf.take hi).drop lo) else none

/-- Overwrite the bytes `lo..hi` of a buffer by `src`, which has to have their number. -/
def copyFromSlice (buf : List α) (lo hi : ℕ) (src : List α) : Option (List α) :=
  if lo ≤ hi ∧ hi ≤ buf.length ∧ src.length = hi - lo then
    some (buf.take lo ++ (src ++ buf.drop hi))
  else none

/-- Overwrite each of the bytes `lo..hi` of a buffer by `x`. -/
def fill (buf : List α) (lo hi : ℕ) (x : α) : Option (List α) :=
  copyFromSlice buf lo hi (List.replicate (hi - lo) x)

/-- Read a string as an array of `n` elements. -/
def tryInto (n : ℕ) (bs : List α) : Option (Vector α n) :=
  if h : bs.length = n then some ⟨bs.toArray, by simpa using h⟩ else none

/-- Cut the first `n` elements off. -/
theorem exists_append (buf : List α) {n : ℕ} (h : n ≤ buf.length) :
    ∃ pre post, buf = pre ++ post ∧ pre.length = n :=
  ⟨buf.take n, buf.drop n, (List.take_append_drop n buf).symm, List.length_take_of_le h⟩

section Fields

variable {pre mid post src : List α} {fields : List (List α)} {f : List α} {i lo hi : ℕ}

theorem slice_append (hlo : pre.length = lo) (hhi : lo + mid.length = hi) :
    slice (pre ++ (mid ++ post)) lo hi = some mid := by
  subst hlo hhi
  have hlen : pre.length ≤ pre.length + mid.length ∧
      pre.length + mid.length ≤ (pre ++ (mid ++ post)).length := by
    simp only [List.length_append]
    omega
  rw [slice, if_pos hlen, List.take_length_add_append, List.take_left, List.drop_left]

theorem copyFromSlice_append (hlo : pre.length = lo) (hhi : lo + mid.length = hi)
    (hsrc : src.length = mid.length) :
    copyFromSlice (pre ++ (mid ++ post)) lo hi src = some (pre ++ (src ++ post)) := by
  subst hlo hhi
  have hlen : pre.length ≤ pre.length + mid.length ∧
      pre.length + mid.length ≤ (pre ++ (mid ++ post)).length ∧
      src.length = pre.length + mid.length - pre.length := by
    simp only [List.length_append]
    omega
  rw [copyFromSlice, if_pos hlen, List.take_left, List.drop_length_add_append, List.drop_left]

/-- An access in range succeeds, and does not change the length. -/
theorem exists_copyFromSlice {buf : List α} (hlo : lo ≤ hi) (hhi : hi ≤ buf.length)
    (hsrc : src.length = hi - lo) :
    ∃ buf', copyFromSlice buf lo hi src = some buf' ∧ buf'.length = buf.length := by
  refine ⟨_, if_pos ⟨hlo, hhi, hsrc⟩, ?_⟩
  rw [List.length_append, List.length_append, List.length_take, List.length_drop]
  omega

/-- Reading the front of a buffer. -/
theorem slice_front (mid post : List α) (hhi : mid.length = hi) :
    slice (mid ++ post) 0 hi = some mid :=
  @slice_append _ [] _ _ _ _ rfl ((Nat.zero_add _).trans hhi)

/-- Overwriting the front of a buffer. -/
theorem copyFromSlice_front (post : List α) (hhi : mid.length = hi) (hsrc : src.length = hi) :
    copyFromSlice (mid ++ post) 0 hi src = some (src ++ post) :=
  @copyFromSlice_append _ [] _ _ _ _ _ rfl ((Nat.zero_add _).trans hhi) (hsrc.trans hhi.symm)

/-- Filling the front of a buffer. -/
theorem fill_front (post : List α) (hhi : mid.length = hi) (x : α) :
    fill (mid ++ post) 0 hi x = some (List.replicate hi x ++ post) :=
  copyFromSlice_front post hhi List.length_replicate

/-- The fields before and after the field `i`. -/
theorem flatten_eq_append (hf : fields[i]? = some f) :
    fields.flatten = (fields.take i).flatten ++ (f ++ (fields.drop (i + 1)).flatten) := by
  obtain ⟨hi, rfl⟩ := List.getElem?_eq_some_iff.1 hf
  rw [← List.flatten_cons, ← List.flatten_append, List.getElem_cons_drop, List.take_append_drop]

theorem take_flatten (i : ℕ) (h : (fields.take i).flatten.length = lo) :
    fields.flatten.take lo = (fields.take i).flatten := by
  conv_lhs => rw [← List.take_append_drop i fields, List.flatten_append]
  exact List.take_left' h

theorem drop_flatten (i : ℕ) (h : (fields.take i).flatten.length = lo) :
    fields.flatten.drop lo = (fields.drop i).flatten := by
  conv_lhs => rw [← List.take_append_drop i fields, List.flatten_append]
  exact List.drop_left' h

/-- Reading a field of a buffer. -/
theorem slice_flatten (i : ℕ) (hf : fields[i]? = some f) (hlo : (fields.take i).flatten.length = lo)
    (hhi : lo + f.length = hi) : slice fields.flatten lo hi = some f := by
  rw [flatten_eq_append hf]
  exact slice_append hlo hhi

/-- Overwriting a field of a buffer. -/
theorem copyFromSlice_flatten (i : ℕ) (hf : fields[i]? = some f)
    (hlo : (fields.take i).flatten.length = lo) (hhi : lo + f.length = hi)
    (hsrc : src.length = f.length) :
    copyFromSlice fields.flatten lo hi src = some (fields.set i src).flatten := by
  have hi : i < fields.length := (List.getElem?_eq_some_iff.1 hf).1
  have hset : (fields.set i src)[i]? = some src := List.getElem?_set_self hi
  rw [flatten_eq_append hf, flatten_eq_append hset, copyFromSlice_append hlo hhi hsrc,
    List.take_set_of_le (Nat.le_refl i), List.drop_set_of_lt (Nat.lt_succ_self i)]

end Fields

theorem tryInto_toList {n : ℕ} (v : Vector α n) : tryInto n v.toList = some v := by
  rw [tryInto, dif_pos v.length_toList]
  rfl

/-- A string of `n` elements is an array. -/
theorem exists_toList {n : ℕ} {bs : List α} (h : bs.length = n) :
    ∃ v : Vector α n, bs = v.toList :=
  ⟨⟨bs.toArray, by simpa using h⟩, rfl⟩

/-! ## Big-endian numbers -/

/-- The last `k` base-256 digits of `x`, most significant first. -/
def toBE : ℕ → ℕ → Bytes
  | 0, _ => []
  | k + 1, x => toBE k (x / 256) ++ [UInt8.ofNat x]

/-- The number with the base-256 digits `bs`, most significant first. -/
def ofBE (bs : Bytes) : ℕ := bs.foldl (fun acc b => acc * 256 + b.toNat) 0

@[simp] theorem length_toBE (k x : ℕ) : (toBE k x).length = k := by
  induction k generalizing x with
  | zero => rfl
  | succ k ih => simp [toBE, ih]

theorem ofBE_append_singleton (bs : Bytes) (b : UInt8) :
    ofBE (bs ++ [b]) = ofBE bs * 256 + b.toNat := by
  simp [ofBE]

/-- Reading back what was written. -/
theorem ofBE_toBE (k x : ℕ) : ofBE (toBE k x) = x % 256 ^ k := by
  induction k generalizing x with
  | zero => simp [toBE, ofBE, Nat.mod_one]
  | succ k ih =>
    have hmod : x % 256 ^ (k + 1) = x % 256 + 256 * (x / 256 % 256 ^ k) := by
      rw [Nat.pow_succ', Nat.mod_mul]
    rw [toBE, ofBE_append_singleton, ih, UInt8.toNat_ofNat', hmod, Nat.add_comm, Nat.mul_comm]

theorem ofBE_lt (bs : Bytes) : ofBE bs < 256 ^ bs.length := by
  induction bs using List.reverseRecOn with
  | nil => simp [ofBE]
  | append_singleton bs b ih =>
    have hb := b.toNat_lt
    rw [ofBE_append_singleton, List.length_append, List.length_singleton, Nat.pow_succ]
    omega

/-- Writing back what was read. -/
theorem toBE_ofBE (bs : Bytes) : toBE bs.length (ofBE bs) = bs := by
  induction bs using List.reverseRecOn with
  | nil => rfl
  | append_singleton bs b ih =>
    have hb := b.toNat_lt
    have hdiv : (ofBE bs * 256 + b.toNat) / 256 = ofBE bs := by omega
    have hmod : UInt8.ofNat (ofBE bs * 256 + b.toNat) = b := by
      apply UInt8.toNat_inj.1
      rw [UInt8.toNat_ofNat']
      omega
    rw [List.length_append, List.length_singleton, ofBE_append_singleton, toBE, hdiv, hmod, ih]

/-- The encoding of a word of `k` bytes. -/
theorem ofNat_ofBE_toBE {w k : ℕ} (hw : w = 8 * k) (x : BitVec w) :
    BitVec.ofNat w (ofBE (toBE k x.toNat)) = x := by
  have hpow : 2 ^ w = 256 ^ k := by
    rw [hw, Nat.pow_mul]
  rw [ofBE_toBE, ← hpow, Nat.mod_eq_of_lt x.isLt, BitVec.ofNat_toNat, BitVec.setWidth_eq]

/-- The encoding of words is injective. -/
theorem toBE_toNat_inj {w k : ℕ} (hw : w = 8 * k) {x y : BitVec w}
    (h : toBE k x.toNat = toBE k y.toNat) : x = y := by
  rw [← ofNat_ofBE_toBE hw x, h, ofNat_ofBE_toBE hw y]

/-- A string of `k` bytes encodes a word. -/
theorem exists_toBE {w k : ℕ} (hw : w = 8 * k) {bs : Bytes} (h : bs.length = k) :
    ∃ x : BitVec w, bs = toBE k x.toNat := by
  subst h
  have hpow : 2 ^ w = 256 ^ bs.length := by
    rw [hw, Nat.pow_mul]
  refine ⟨BitVec.ofNat w (ofBE bs), ?_⟩
  rw [BitVec.toNat_ofNat, hpow, Nat.mod_eq_of_lt (ofBE_lt bs), toBE_ofBE]

end Buffer
