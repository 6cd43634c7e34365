import Mathlib.Data.Nat.ModEq
import Mathlib.Tactic.Common

/-!
# Bitmaps stored in an array of words

A vector of `n` words of `w` bits is read in two ways. As a *ring*, position `p` is bit `p % w`
of word `p / w % n`, so that positions congruent modulo `w * n` share a slot (`slot_eq_iff`). As a
*line*, the same formula is used below `w * n`, where no two positions share a slot.

* `setBit`, `clearMask` and `zeroWords` are the word updates of a bitmap; their effect on every
  position is `bitAt_setBit`, `bitAt_clearMask` and `bitAt_zeroWords`.
* `clearSpan v lo hi` clears the slots of the positions `lo, …, hi` with two masked end words and
  whole words between them; `bitAt_clearSpan` says that it clears exactly these.
* `get_foldr_set` computes an in-place loop that runs through the words from the last to the first
  and reads only words it has not yet written, and `bitAt_shift` is the effect of such a loop that
  shifts the line by `k` words and `b` bits.
-/

namespace RingBitmap

variable {w n : ℕ} {α : Type*}

theorem get_set (v : Vector α n) (i j : Fin n) (x : α) :
    (v.set i x).get j = if i = j then x else v.get j := by
  change (v.set i x)[(j : ℕ)] = if i = j then x else v[(j : ℕ)]
  simp only [Vector.getElem_set, Fin.ext_iff]

theorem get_replicate (x : α) (i : Fin n) : (Vector.replicate n x).get i = x := by
  change (Vector.replicate n x)[(i : ℕ)] = x
  exact Vector.getElem_replicate i.isLt

theorem mul_add_div_of_lt (a : ℕ) {j : ℕ} (hj : j < w) : (a * w + j) / w = a := by
  rw [Nat.mul_comm, Nat.mul_add_div (Nat.zero_lt_of_lt hj), Nat.div_eq_of_lt hj, Nat.add_zero]

theorem add_le_mul_of_lt {a b : ℕ} (h : a < b) : a * w + w ≤ b * w := by
  rw [← Nat.succ_mul]
  exact Nat.mul_le_mul_right w h

variable [NeZero n]

/-- The word that holds position `p`. -/
def wordOf (w n : ℕ) [NeZero n] (p : ℕ) : Fin n := Fin.ofNat n (p / w)

/-- The bit at position `p`. -/
def bitAt (v : Vector (BitVec w) n) (p : ℕ) : Bool := (v.get (wordOf w n p)).getLsbD (p % w)

/-- The bit at a position given by its word and its place in the word. -/
theorem bitAt_mul_add (v : Vector (BitVec w) n) (a : ℕ) {j : ℕ} (hj : j < w) :
    bitAt v (a * w + j) = (v.get (Fin.ofNat n a)).getLsbD j := by
  rw [bitAt, wordOf, mul_add_div_of_lt a hj, Nat.mul_add_mod_of_lt hj]

/-- A bitmap is determined by its bits. -/
theorem ext_bitAt {v v' : Vector (BitVec w) n} (h : ∀ p, bitAt v p = bitAt v' p) : v = v' := by
  apply Vector.ext
  intro i hi
  apply BitVec.eq_of_getLsbD_eq
  intro j hj
  have hbit := h (i * w + j)
  have hword : Fin.ofNat n i = ⟨i, hi⟩ := Fin.ext (Nat.mod_eq_of_lt hi)
  rw [bitAt_mul_add v i hj, bitAt_mul_add v' i hj, hword] at hbit
  exact hbit

@[simp] theorem val_wordOf (p : ℕ) : (wordOf w n p : ℕ) = p / w % n := rfl

/-- Two positions share a slot exactly when they are congruent modulo the size of the ring. -/
theorem slot_eq_iff (hw : 0 < w) {p q : ℕ} :
    (wordOf w n p = wordOf w n q ∧ p % w = q % w) ↔ p ≡ q [MOD w * n] := by
  unfold Nat.ModEq
  rw [Nat.mod_mul, Nat.mod_mul, Fin.ext_iff, val_wordOf, val_wordOf]
  constructor
  · rintro ⟨h₁, h₂⟩
    rw [h₁, h₂]
  · intro h
    have hp := Nat.mod_lt p hw
    have hq := Nat.mod_lt q hw
    have h₂ : p % w = q % w := by
      have := congrArg (· % w) h
      simpa [Nat.add_mul_mod_self_left, Nat.mod_eq_of_lt hp, Nat.mod_eq_of_lt hq] using this
    refine ⟨Nat.eq_of_mul_eq_mul_left hw ?_, h₂⟩
    omega

theorem bitAt_set (v : Vector (BitVec w) n) (i : Fin n) (x : BitVec w) (p : ℕ) :
    bitAt (v.set i x) p = if i = wordOf w n p then x.getLsbD (p % w) else bitAt v p := by
  unfold bitAt
  rw [get_set]
  split <;> rfl

@[simp] theorem bitAt_replicate_zero (p : ℕ) :
    bitAt (Vector.replicate n 0#w) p = false := by
  unfold bitAt
  rw [get_replicate, BitVec.getLsbD_zero]

/-! ## Word updates -/

/-- Testing one bit of a word through a mask. -/
theorem and_twoPow_bne_zero (x : BitVec w) {i : ℕ} (hi : i < w) :
    (x &&& BitVec.twoPow w i != 0#w) = x.getLsbD i := by
  have hne : BitVec.twoPow w i ≠ 0#w := by
    intro h0
    have := congrArg (fun y : BitVec w => y.getLsbD i) h0
    simp [hi] at this
  rw [BitVec.and_twoPow]
  cases x.getLsbD i with
  | false => simp
  | true => simpa using hne

/-- Set the bit of position `p`. -/
def setBit (v : Vector (BitVec w) n) (p : ℕ) : Vector (BitVec w) n :=
  v.set (wordOf w n p) (v.get (wordOf w n p) ||| BitVec.twoPow w (p % w))

theorem bitAt_setBit (hw : 0 < w) (v : Vector (BitVec w) n) (p q : ℕ) :
    bitAt (setBit v p) q = true ↔ bitAt v q = true ∨ p ≡ q [MOD w * n] := by
  rw [← slot_eq_iff hw, setBit, bitAt_set]
  by_cases h : wordOf w n p = wordOf w n q
  · simp only [h, if_true, true_and, BitVec.getLsbD_or, BitVec.getLsbD_twoPow, Bool.or_eq_true,
      Bool.and_eq_true, decide_eq_true_eq, Nat.mod_lt p hw]
    rfl
  · simp [h]

/-- Clear the bits of `m` in word `i`. -/
def clearMask (v : Vector (BitVec w) n) (i : Fin n) (m : BitVec w) : Vector (BitVec w) n :=
  v.set i (v.get i &&& ~~~m)

theorem bitAt_clearMask (hw : 0 < w) (v : Vector (BitVec w) n) (i : Fin n) (m : BitVec w) (q : ℕ) :
    bitAt (clearMask v i m) q = true ↔
      bitAt v q = true ∧ ¬(wordOf w n q = i ∧ m.getLsbD (q % w) = true) := by
  rw [clearMask, bitAt_set]
  by_cases h : i = wordOf w n q
  · subst h
    simp [bitAt, Nat.mod_lt q hw]
  · simp [h, Ne.symm h]

/-- Clear the words `ws`, taken modulo the size of the ring. -/
def zeroWords (v : Vector (BitVec w) n) (ws : List ℕ) : Vector (BitVec w) n :=
  ws.foldl (fun v i => v.set (Fin.ofNat n i) 0#w) v

theorem bitAt_zeroWords (v : Vector (BitVec w) n) (ws : List ℕ) (q : ℕ) :
    bitAt (zeroWords v ws) q = true ↔
      bitAt v q = true ∧ ∀ i ∈ ws, Fin.ofNat n i ≠ wordOf w n q := by
  induction ws generalizing v with
  | nil => simp [zeroWords]
  | cons i ws ih =>
    rw [zeroWords, List.foldl_cons, ← zeroWords, ih, bitAt_set, List.forall_mem_cons]
    by_cases h : Fin.ofNat n i = wordOf w n q
    · rw [if_pos h, BitVec.getLsbD_zero]
      simp only [Bool.false_eq_true, false_and, h, ne_eq, not_true_eq_false, and_false]
    · rw [if_neg h]
      exact ⟨fun ⟨hv, hws⟩ => ⟨hv, h, hws⟩, fun ⟨hv, _, hws⟩ => ⟨hv, hws⟩⟩

/-- The word whose bits `lo, …, hi` are set, computed from the word of all ones. -/
def mask (w lo hi : ℕ) : BitVec w := (BitVec.allOnes w >>> (w - 1 - (hi - lo))) <<< lo

theorem getLsbD_mask {lo hi i : ℕ} (hi' : hi < w) (hle : lo ≤ hi) (hiw : i < w) :
    (mask w lo hi).getLsbD i = true ↔ lo ≤ i ∧ i ≤ hi := by
  simp only [mask, BitVec.getLsbD_shiftLeft, BitVec.getLsbD_ushiftRight, BitVec.getLsbD_allOnes,
    Bool.and_eq_true, Bool.not_eq_true', decide_eq_true_eq, decide_eq_false_iff_not]
  omega

/-! ## Clearing a span of positions -/

/-- Clear the slots of the positions `lo, …, hi`: inside one word with one mask, otherwise with a
mask at either end and whole words between. -/
def clearSpan (v : Vector (BitVec w) n) (lo hi : ℕ) : Vector (BitVec w) n :=
  if lo / w = hi / w then clearMask v (wordOf w n lo) (mask w (lo % w) (hi % w))
  else
    let v := clearMask v (wordOf w n lo) (mask w (lo % w) (w - 1))
    let v := zeroWords v (List.range' (lo / w + 1) (hi / w - (lo / w + 1)))
    clearMask v (wordOf w n hi) (mask w 0 (hi % w))

/-- A position of a span is found by its word and its bit: the bit of `q`, in a word of the span
that shares its slot with the word of `q`. -/
theorem exists_modEq_iff (hw : 0 < w) {lo hi q : ℕ} :
    (∃ p, lo ≤ p ∧ p ≤ hi ∧ p ≡ q [MOD w * n]) ↔
      ∃ a, lo ≤ a * w + q % w ∧ a * w + q % w ≤ hi ∧ Fin.ofNat n a = wordOf w n q := by
  have hq := Nat.mod_lt q hw
  constructor
  · rintro ⟨p, h₁, h₂, h⟩
    obtain ⟨h₃, h₄⟩ := (slot_eq_iff hw).2 h
    have hp : p / w * w + q % w = p := by rw [← h₄]; exact Nat.div_add_mod' p w
    exact ⟨p / w, by omega, by omega, h₃⟩
  · rintro ⟨a, h₁, h₂, h₃⟩
    refine ⟨a * w + q % w, h₁, h₂, (slot_eq_iff hw).1 ⟨?_, ?_⟩⟩
    · rw [← h₃, wordOf, mul_add_div_of_lt a hq]
    · exact Nat.mul_add_mod_of_lt hq

/-- A position of the span lies in one of its words. -/
theorem word_of_mem_span {lo hi a j : ℕ} (hj : j < w) (h₁ : lo ≤ a * w + j)
    (h₂ : a * w + j ≤ hi) : lo / w ≤ a ∧ a ≤ hi / w := by
  have h₃ := Nat.div_le_div_right (c := w) h₁
  have h₄ := Nat.div_le_div_right (c := w) h₂
  rw [mul_add_div_of_lt a hj] at h₃ h₄
  exact ⟨h₃, h₄⟩

/-- A span that lies in one word. -/
theorem bitAt_clearSpan_of_eq (hw : 0 < w) (v : Vector (BitVec w) n) {lo hi : ℕ} (hle : lo ≤ hi)
    (h : lo / w = hi / w) (q : ℕ) :
    bitAt (clearSpan v lo hi) q = true ↔
      bitAt v q = true ∧ ¬∃ a, lo ≤ a * w + q % w ∧ a * w + q % w ≤ hi ∧
        Fin.ofNat n a = wordOf w n q := by
  have hq := Nat.mod_lt q hw
  have hhi := Nat.mod_lt hi hw
  have elo := Nat.div_add_mod' lo w
  have ehi := Nat.div_add_mod' hi w
  rw [clearSpan, if_pos h, bitAt_clearMask hw, getLsbD_mask hhi (by rw [h] at elo; omega) hq]
  refine and_congr_right fun _ => not_congr ⟨?_, ?_⟩
  · rintro ⟨h₁, h₂, h₃⟩
    exact ⟨lo / w, by omega, by rw [h]; omega, h₁.symm⟩
  · rintro ⟨a, h₁, h₂, h₃⟩
    obtain rfl : a = lo / w := by
      have hspan := word_of_mem_span hq h₁ h₂
      omega
    exact ⟨h₃.symm, by omega, by rw [h] at h₂; omega⟩

/-- A span over several words: the three writes cover its first, its last and its inner words. -/
theorem bitAt_clearSpan_of_lt (hw : 0 < w) (v : Vector (BitVec w) n) {lo hi : ℕ}
    (h : lo / w < hi / w) (q : ℕ) :
    bitAt (clearSpan v lo hi) q = true ↔
      bitAt v q = true ∧ ¬∃ a, lo ≤ a * w + q % w ∧ a * w + q % w ≤ hi ∧
        Fin.ofNat n a = wordOf w n q := by
  have hq := Nat.mod_lt q hw
  have hlo := Nat.mod_lt lo hw
  have hhi := Nat.mod_lt hi hw
  have elo := Nat.div_add_mod' lo w
  have ehi := Nat.div_add_mod' hi w
  have hwords := add_le_mul_of_lt (w := w) h
  rw [clearSpan, if_neg h.ne, bitAt_clearMask hw, bitAt_zeroWords, bitAt_clearMask hw,
    getLsbD_mask hhi (Nat.zero_le _) hq, getLsbD_mask (by omega) (by omega) hq, and_assoc,
    and_assoc]
  refine and_congr_right fun _ => ?_
  constructor
  · rintro ⟨hfst, hmid, hlst⟩ ⟨a, h₁, h₂, h₃⟩
    obtain ⟨h₄, h₅⟩ := word_of_mem_span hq h₁ h₂
    rcases Nat.eq_or_lt_of_le h₄ with rfl | h₆
    · exact hfst ⟨h₃.symm, by omega, by omega⟩
    · rcases Nat.eq_or_lt_of_le h₅ with rfl | h₇
      · exact hlst ⟨h₃.symm, by omega, by omega⟩
      · exact hmid a (by simp only [List.mem_range'_1]; omega) h₃
  · intro hno
    refine ⟨fun ⟨h₁, h₂, _⟩ => hno ⟨lo / w, by omega, by omega, h₁.symm⟩, fun a ha h₁ => ?_,
      fun ⟨h₁, _, h₂⟩ => hno ⟨hi / w, by omega, by omega, h₁.symm⟩⟩
    rw [List.mem_range'_1] at ha
    have h₂ := add_le_mul_of_lt (w := w) (a := lo / w) (b := a) (by omega)
    have h₃ := add_le_mul_of_lt (w := w) (a := a) (b := hi / w) (by omega)
    exact hno ⟨a, by omega, by omega, h₁⟩

/-- **Clearing a span clears exactly its slots.** -/
theorem bitAt_clearSpan (hw : 0 < w) (v : Vector (BitVec w) n) {lo hi : ℕ} (hle : lo ≤ hi)
    (q : ℕ) :
    bitAt (clearSpan v lo hi) q = true ↔
      bitAt v q = true ∧ ¬∃ p, lo ≤ p ∧ p ≤ hi ∧ p ≡ q [MOD w * n] := by
  rw [exists_modEq_iff hw]
  rcases Nat.eq_or_lt_of_le (Nat.div_le_div_right (c := w) hle) with h | h
  · exact bitAt_clearSpan_of_eq hw v hle h q
  · exact bitAt_clearSpan_of_lt hw v h q

/-! ## Shifting the line in place -/

omit [NeZero n] in
/-- A loop over the words `l` from the last to the first, in place: if word `i` is computed from
words up to `i` only, every word of `l` gets the value computed from the initial words. -/
theorem get_foldr_set (f : Fin n → Vector α n → α)
    (hf : ∀ i u v, (∀ j ≤ i, u.get j = v.get j) → f i u = f i v) (v : Vector α n) :
    ∀ (l : List (Fin n)), l.Pairwise (· < ·) → ∀ j,
      (j ∈ l → (l.foldr (fun i u => u.set i (f i u)) v).get j = f j v) ∧
        (j ∉ l → (l.foldr (fun i u => u.set i (f i u)) v).get j = v.get j) := by
  intro l hl
  induction l with
  | nil =>
    intro j
    exact ⟨fun hj => absurd hj List.not_mem_nil, fun _ => rfl⟩
  | cons i l ih =>
    intro j
    obtain ⟨hi, hl⟩ := List.pairwise_cons.1 hl
    have ih := ih hl
    -- the words up to `i` are still as they were when word `i` is computed
    have hread : f i (l.foldr (fun (i : Fin n) u => u.set i (f i u)) v) = f i v := by
      apply hf
      intro k hk
      exact (ih k).2 fun hkl => absurd (hi k hkl) (Fin.not_lt.2 hk)
    rw [List.foldr_cons, get_set, List.mem_cons]
    by_cases hij : i = j
    · subst hij
      rw [if_pos rfl, hread]
      exact ⟨fun _ => rfl, fun h => absurd (Or.inl rfl) h⟩
    · rw [if_neg hij]
      exact ⟨fun h => (ih j).1 (h.resolve_left (Ne.symm hij)),
        fun h => (ih j).2 fun hjl => h (Or.inr hjl)⟩

/-- The line shifted up by `k` words and `b` bits: word `i` takes its high bits from word `i - k`
and, when `b` is not `0`, its low bits from the word below that. -/
theorem bitAt_shift (hw : 0 < w) {k b : ℕ} (hb : b < w) (v v' : Vector (BitVec w) n)
    (hv : ∀ i : Fin n, ∀ j < w, (v'.get i).getLsbD j =
      if b ≤ j then decide (k ≤ i) && (v.get (Fin.ofNat n (i - k))).getLsbD (j - b)
      else decide (k < i) && (v.get (Fin.ofNat n (i - k - 1))).getLsbD (w + j - b))
    {p : ℕ} (hp : p < w * n) :
    bitAt v' p = (decide (k * w + b ≤ p) && bitAt v (p - (k * w + b))) := by
  have hj := Nat.mod_lt p hw
  have ep := Nat.div_add_mod' p w
  have hpn : p / w < n := (Nat.div_lt_iff_lt_mul hw).2 (by rwa [Nat.mul_comm])
  have hval : ((wordOf w n p : Fin n) : ℕ) = p / w := Nat.mod_eq_of_lt hpn
  rw [bitAt, hv _ _ hj, hval]
  split_ifs with hbj
  · by_cases hk : k ≤ p / w
    · -- the bit comes from the word `k` below
      have hmul : k * w ≤ p / w * w := Nat.mul_le_mul_right w hk
      have hsub : p - (k * w + b) = (p / w - k) * w + (p % w - b) := by
        rw [Nat.sub_mul]
        omega
      rw [hsub, bitAt_mul_add v _ (show p % w - b < w by omega)]
      simp only [hk, show k * w + b ≤ p by omega]
    · have hmul := add_le_mul_of_lt (w := w) (Nat.lt_of_not_le hk)
      simp [hk, show ¬k * w + b ≤ p by omega]
  · by_cases hk : k < p / w
    · -- the bit comes from the word `k + 1` below
      have hmul := add_le_mul_of_lt (w := w) hk
      have hsub : p - (k * w + b) = (p / w - k - 1) * w + (w + p % w - b) := by
        rw [Nat.sub_sub, Nat.sub_mul, Nat.add_mul]
        omega
      rw [hsub, bitAt_mul_add v _ (show w + p % w - b < w by omega)]
      simp only [hk, show k * w + b ≤ p by omega]
    · have hmul : p / w * w ≤ k * w := Nat.mul_le_mul_right w (by omega)
      simp [hk, show ¬k * w + b ≤ p by omega]

end RingBitmap
