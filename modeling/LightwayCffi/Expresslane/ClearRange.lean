import LightwayCffi.Expresslane.ReplayWindow
import LightwayCffi.Foundations.Checked

/-!
# Clearing a range of counters

`clear_range` makes room in the ring for the counters that an advance has skipped. It computes two
masks and a range of words, and everything it does is unchecked in a release build: a shift that is
too wide or a subtraction below zero would not stop it, but clear the wrong bits.

`clearRangeChecked` is the same code with every check of a debug build: the two assertions, the
subtractions and shifts of `mask_between`, and the accesses to the bitmap. `clearRange_exact` says
that none of them can fail, for any window and any range that is not longer than the ring, and that
the function clears exactly the slots of the counters in the range.
-/

namespace LightwayCffi.Expresslane

open RingBitmap ReplayWindow

/-- `mask_between`, on `u32` bit numbers. -/
def maskBetweenChecked (lo hi : BitVec 32) : Option (BitVec 64) := do
  Checked.assert (lo ≤ hi ∧ hi < 64#32)
  let width ← Checked.sub hi lo
  let shift ← Checked.sub 63#32 width
  let ones ← Checked.shr (BitVec.allOnes 64) shift
  Checked.shl ones lo

/-- `bitmap[i] &= !mask`. -/
def clearBitsChecked (bitmap : Vector (BitVec 64) 128) (i : ℕ) (mask : BitVec 64) :
    Option (Vector (BitVec 64) 128) := do
  let word ← Checked.get bitmap i
  Checked.set bitmap i (word &&& ~~~mask)

namespace ReplayWindow

/-- `clear_range`, with the checks. -/
def clearRangeChecked (w : ReplayWindow) (lo hi : BitVec 64) : Option ReplayWindow := do
  Checked.assert (lo ≤ hi)
  let span ← Checked.sub hi lo
  Checked.assert (span < windowSize)
  let loWord := lo / blockBits
  let hiWord := hi / blockBits
  let loBit := (lo &&& bitMask).setWidth 32
  let hiBit := (hi &&& bitMask).setWidth 32
  if loWord = hiWord then
    let mask ← maskBetweenChecked loBit hiBit
    let b ← clearBitsChecked w.bitmap (ringIndex lo) mask
    pure { w with bitmap := b }
  else
    let mask ← maskBetweenChecked loBit 63#32
    let b ← clearBitsChecked w.bitmap (ringIndex lo) mask
    let start ← Checked.add loWord 1#64
    let b ← (Checked.range start hiWord).foldlM
      (fun b word => Checked.set b (word &&& ringMask).toNat 0#64) b
    let mask ← maskBetweenChecked 0#32 hiBit
    let b ← clearBitsChecked b (ringIndex hi) mask
    pure { w with bitmap := b }

end ReplayWindow

/-! ## No check fails -/

theorem toNat_bit (c : BitVec 64) : ((c &&& bitMask).setWidth 32).toNat = c.toNat % 64 := by
  rw [BitVec.toNat_setWidth, toNat_and_bitMask]
  omega

theorem bit_lt (c : BitVec 64) : (c &&& bitMask).setWidth 32 < 64#32 := by
  rw [BitVec.lt_def, toNat_bit]
  exact Nat.mod_lt _ (by decide)

/-- The block after that of a counter has a number. -/
theorem add_one_div_blockBits (c : BitVec 64) :
    Checked.add (c / blockBits) 1#64 = some (c / blockBits + 1#64) ∧
      (c / blockBits + 1#64).toNat = c.toNat / 64 + 1 := by
  have hfits : (c / blockBits).toNat + (1#64).toNat < 2 ^ 64 := by
    have hc := c.isLt
    rw [toNat_div_blockBits, BitVec.toNat_ofNat]
    omega
  have hadd : ¬(c / blockBits).uaddOverflow 1#64 := by
    rw [BitVec.uaddOverflow, decide_eq_true_eq, ge_iff_le, Nat.not_le]
    exact hfits
  refine ⟨Checked.add_of_not_overflow hadd, ?_⟩
  rw [BitVec.toNat_add_of_lt hfits, toNat_div_blockBits]
  rfl

theorem maskBetweenChecked_eq {lo hi : BitVec 32} (hle : lo ≤ hi) (hhi : hi < 64#32) :
    maskBetweenChecked lo hi = some (mask 64 lo.toNat hi.toNat) := by
  have hle' : lo.toNat ≤ hi.toNat := hle
  have hhi' : hi.toNat < 64 := hhi
  have hwidth : (hi - lo).toNat = hi.toNat - lo.toNat := BitVec.toNat_sub_of_le hle
  have hfits : hi - lo ≤ 63#32 := by
    rw [BitVec.le_def, hwidth]
    change _ ≤ 63
    omega
  have hshift : (63#32 - (hi - lo)).toNat = 63 - (hi.toNat - lo.toNat) := by
    rw [BitVec.toNat_sub_of_le hfits, hwidth]
    rfl
  rw [maskBetweenChecked, Checked.assert_of ⟨hle, hhi⟩, Checked.sub_of_le hle]
  simp only [Option.bind_eq_bind, Option.bind_some]
  rw [Checked.sub_of_le hfits, Option.bind_some, Checked.shr_of_lt (by rw [hshift]; omega),
    Option.bind_some, Checked.shl_of_lt (by omega), hshift]
  rfl

theorem clearBitsChecked_eq (bitmap : Vector (BitVec 64) 128) (c m : BitVec 64) :
    clearBitsChecked bitmap (ringIndex c) m =
      some (clearMask bitmap (wordOf 64 128 c.toNat) m) := by
  have hindex : ringIndex c = wordOf 64 128 c.toNat := congrArg Fin.val (ringWord_eq c)
  rw [clearBitsChecked, hindex, Checked.get_val]
  exact Checked.set_val ..

/-- The loop over the whole words. -/
theorem zeroLoopChecked_eq (bitmap : Vector (BitVec 64) 128) (start stop : BitVec 64) :
    (Checked.range start stop).foldlM
        (fun b word => Checked.set b (word &&& ringMask).toNat 0#64) bitmap =
      some (zeroWords bitmap (List.range' start.toNat (stop.toNat - start.toNat))) := by
  have hindex (k : ℕ) : (BitVec.ofNat 64 k &&& ringMask).toNat = Fin.ofNat 128 k := by
    rw [BitVec.toNat_and, BitVec.toNat_ofNat, and_ringMask, Fin.val_ofNat]
    omega
  rw [Checked.range, List.foldlM_map]
  refine Checked.foldlM_eq_some (fun b k => ?_) _ _
  rw [hindex, Checked.set_val]

/-- No check of `clear_range` fails. -/
theorem clearRangeChecked_eq (w : ReplayWindow) {lo hi : BitVec 64} (hle : lo ≤ hi)
    (hspan : hi - lo < windowSize) : w.clearRangeChecked lo hi = some (w.clearRange lo hi) := by
  have hle' : lo.toNat ≤ hi.toNat := hle
  rw [clearRangeChecked, Checked.assert_of hle, Checked.sub_of_le hle]
  simp only [Option.bind_eq_bind, Option.bind_some]
  rw [Checked.assert_of hspan, Option.bind_some, clearRange_eq, clearSpan]
  by_cases hsame : lo / blockBits = hi / blockBits
  · have hsame' : lo.toNat / 64 = hi.toNat / 64 := by
      rw [← toNat_div_blockBits, hsame, toNat_div_blockBits]
    have hbits : (lo &&& bitMask).setWidth 32 ≤ (hi &&& bitMask).setWidth 32 := by
      rw [BitVec.le_def, toNat_bit, toNat_bit]
      omega
    rw [if_pos hsame, if_pos hsame', maskBetweenChecked_eq hbits (bit_lt hi), Option.bind_some,
      clearBitsChecked_eq, toNat_bit, toNat_bit]
    rfl
  · have hsame' : ¬lo.toNat / 64 = hi.toNat / 64 := by
      rw [← toNat_div_blockBits, ← toNat_div_blockBits]
      exact fun h => hsame (BitVec.eq_of_toNat_eq h)
    have hloBit : (lo &&& bitMask).setWidth 32 ≤ 63#32 := by
      rw [BitVec.le_def, toNat_bit]
      exact Nat.le_of_lt_succ (Nat.mod_lt _ (by decide))
    have hzero : 0#32 ≤ (hi &&& bitMask).setWidth 32 := BitVec.le_def.2 (Nat.zero_le _)
    obtain ⟨hadd, hstart⟩ := add_one_div_blockBits lo
    rw [if_neg hsame, if_neg hsame', maskBetweenChecked_eq hloBit (by decide), Option.bind_some,
      clearBitsChecked_eq, Option.bind_some, hadd, Option.bind_some, zeroLoopChecked_eq,
      Option.bind_some, maskBetweenChecked_eq hzero (bit_lt hi), Option.bind_some,
      clearBitsChecked_eq, hstart, toNat_div_blockBits, toNat_bit, toNat_bit]
    rfl

/-! ## The slots that are cleared -/

/-- The slot of a counter is that of a position of the ring. -/
theorem slot_iff {c : BitVec 64} {word : Fin numBlocks} {bit : ℕ} (hbit : bit < 64) :
    (ringIndex c = word ∧ bitOf c = 1#64 <<< bit) ↔
      c.toNat ≡ (word : ℕ) * 64 + bit [MOD 64 * 128] := by
  have hword : wordOf 64 128 ((word : ℕ) * 64 + bit) = word := by
    apply Fin.ext
    rw [val_wordOf, mul_add_div_of_lt _ hbit]
    exact Nat.mod_eq_of_lt word.isLt
  rw [← slot_eq_iff (by decide), hword, Nat.mul_add_mod_of_lt hbit, ← ringWord_eq, Fin.ext_iff]
  refine and_congr_right fun _ => ?_
  rw [bitOf_eq, ← BitVec.twoPow_eq]
  constructor
  · intro h
    have hset := congrArg (fun x : BitVec 64 => x.getLsbD bit) h
    simpa [hbit, eq_comm] using hset
  · intro h
    rw [h]

/-- The bit of a slot after `clear_range`. -/
theorem getLsbD_clearRange (w : ReplayWindow) {lo hi : BitVec 64} (hle : lo ≤ hi)
    (word : Fin numBlocks) {bit : ℕ} (hbit : bit < 64) :
    ((w.clearRange lo hi).bitmap.get word).getLsbD bit = true ↔
      (w.bitmap.get word).getLsbD bit = true ∧
        ¬∃ c, lo ≤ c ∧ c ≤ hi ∧ ringIndex c = word ∧ bitOf c = 1#64 <<< bit := by
  have hpos (v : Vector (BitVec 64) 128) :
      bitAt v ((word : ℕ) * 64 + bit) = (v.get word).getLsbD bit := by
    have hword : Fin.ofNat 128 word = word := Fin.ext (Nat.mod_eq_of_lt word.isLt)
    rw [bitAt_mul_add v _ hbit, hword]
  rw [← hpos, ← hpos, bitmap_clearRange, bitAt_clearSpan (by decide) _ (BitVec.le_def.1 hle)]
  refine and_congr_right fun _ => not_congr ⟨?_, ?_⟩
  · rintro ⟨p, hlo, hhi, hslot⟩
    -- the position is at most `hi`, so it is a counter
    have hp : (BitVec.ofNat 64 p).toNat = p := by
      have hlt := hi.isLt
      rw [BitVec.toNat_ofNat]
      omega
    refine ⟨BitVec.ofNat 64 p, ?_, ?_, (slot_iff hbit).2 ?_⟩
    · rw [BitVec.le_def, hp]
      exact hlo
    · rw [BitVec.le_def, hp]
      exact hhi
    · rw [hp]
      exact hslot
  · rintro ⟨c, hlo, hhi, hslot⟩
    exact ⟨c.toNat, hlo, hhi, (slot_iff hbit).1 hslot⟩

/-- **`clear_range` is exact.** For every window and every range of counters that is not longer than
the ring, every access of `clear_range` is in range, every shift is by less than 64 bits and no
subtraction goes below zero. It clears the bit of a slot if a counter of the range maps to it, keeps
the bit of every other slot, and touches nothing else. -/
theorem clearRange_exact (w : ReplayWindow) {lo hi : BitVec 64} (hle : lo ≤ hi)
    (hspan : hi - lo < windowSize) :
    w.clearRangeChecked lo hi = some (w.clearRange lo hi) ∧
    (∀ (word : Fin numBlocks) (bit : ℕ), bit < 64 →
      ((∃ c, lo ≤ c ∧ c ≤ hi ∧ ringIndex c = word ∧ bitOf c = 1#64 <<< bit) →
        ((w.clearRange lo hi).bitmap.get word).getLsbD bit = false) ∧
      ((¬∃ c, lo ≤ c ∧ c ≤ hi ∧ ringIndex c = word ∧ bitOf c = 1#64 <<< bit) →
        ((w.clearRange lo hi).bitmap.get word).getLsbD bit = (w.bitmap.get word).getLsbD bit)) ∧
    (w.clearRange lo hi).maxCounter = w.maxCounter ∧
    (w.clearRange lo hi).packetsReceived = w.packetsReceived ∧
    (w.clearRange lo hi).initialized = w.initialized := by
  refine ⟨clearRangeChecked_eq w hle hspan, fun word bit hbit => ?_, ?_, ?_, ?_⟩
  · have hiff := getLsbD_clearRange w hle word hbit
    refine ⟨fun hcounter => ?_, fun hnone => ?_⟩
    · rw [Bool.eq_false_iff]
      exact fun hset => (hiff.1 hset).2 hcounter
    · rw [Bool.eq_iff_iff, hiff, and_iff_left hnone]
  · rw [clearRange_eq]
  · rw [clearRange_eq]
  · rw [clearRange_eq]

/-- A window whose bits are all set. -/
def fullWindow : ReplayWindow where
  maxCounter := 62
  bitmap := Vector.replicate 128 (BitVec.allOnes 64)
  packetsReceived := 8192
  initialized := true

/-- The tightest range, in which both masks are applied to the same word: the bits between them
survive. -/
theorem clearRange_exact_fullWindow :
    fullWindow.clearRangeChecked 63 8252 = some (fullWindow.clearRange 63 8252) ∧
    ((fullWindow.clearRange 63 8252).bitmap.get 0).getLsbD 63 = false ∧
    ((fullWindow.clearRange 63 8252).bitmap.get 0).getLsbD 60 = false ∧
    ((fullWindow.clearRange 63 8252).bitmap.get 0).getLsbD 62 = true := by
  obtain ⟨hchecked, hbits, -⟩ := @clearRange_exact fullWindow 63 8252 (by decide) (by decide)
  refine ⟨hchecked, (hbits 0 63 (by decide)).1 ⟨63, ?_⟩, (hbits 0 60 (by decide)).1 ⟨8252, ?_⟩, ?_⟩
  · decide
  · decide
  · refine ((hbits 0 62 (by decide)).2 ?_).trans (by decide)
    rintro ⟨c, hlo, hhi, hslot⟩
    have hlo' : 63 ≤ c.toNat := hlo
    have hhi' : c.toNat ≤ 8252 := hhi
    have hmod : c.toNat % 8192 = 62 := (slot_iff (by decide)).1 hslot
    omega

end LightwayCffi.Expresslane
