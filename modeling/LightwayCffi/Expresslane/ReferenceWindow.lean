import LightwayCffi.Expresslane.ReplayWindow

/-!
# The age-indexed reference window

`ReferenceReplayWindow` is the frozen implementation that the ring of `ReplayWindow` replaced. Its
bitmap is indexed by a packet's age below `maxCounter`, so every advance shifts all 128 words
(`shiftLeft`), with a carry between words when the shift is not a multiple of 64.

The two are compared through the duplicate filter: `RefRepresents` is the age-indexed counterpart
of `Represents`, `refRefines` proves that the reference refines the same filter, and `bisimilar`
reads off that the two windows answer every sequence of calls alike and agree bit for bit on the
whole window.
-/

namespace LightwayCffi.Expresslane

open RingBitmap

/-- The pre-ring window. The fields are those of `ReplayWindow`. -/
structure ReferenceReplayWindow where
  maxCounter : BitVec 64
  bitmap : Vector (BitVec 64) 128
  packetsReceived : BitVec 64
  initialized : Bool
  deriving DecidableEq

namespace ReferenceReplayWindow

abbrev numBlocks : ℕ := 128

abbrev windowSize : BitVec 64 := 8192

/-- `ReferenceReplayWindow::default()`. -/
def default : ReferenceReplayWindow where
  maxCounter := 0
  bitmap := Vector.replicate 128 0#64
  packetsReceived := 0
  initialized := false

def setBit (w : ReferenceReplayWindow) (position : BitVec 64) : ReferenceReplayWindow :=
  let block := (position / 64).toNat
  let bit := (position % 64).toNat
  if h : block < numBlocks then
    { w with bitmap := w.bitmap.set block (w.bitmap.get ⟨block, h⟩ ||| 1#64 <<< bit) }
  else w

def testBit (w : ReferenceReplayWindow) (position : BitVec 64) : Bool :=
  let block := (position / 64).toNat
  let bit := (position % 64).toNat
  if h : block < numBlocks then w.bitmap.get ⟨block, h⟩ &&& 1#64 <<< bit != 0#64
  else false

/-- The index `i - k` of a word. -/
def below (i : Fin numBlocks) (k : ℕ) : Fin numBlocks := ⟨i - k, by omega⟩

/-- The loop over the words when `count` is a multiple of 64: from the last word down, and then
the vacated words are zeroed. -/
def shiftBlocks (bitmap : Vector (BitVec 64) 128) (blockShift : ℕ) : Vector (BitVec 64) 128 :=
  let moved := ((List.finRange 128).filter fun i => blockShift ≤ i.val).foldr
    (fun (i : Fin 128) b => b.set i (b.get (below i blockShift))) bitmap
  ((List.finRange 128).take blockShift).foldl (fun b (i : Fin 128) => b.set i 0#64) moved

/-- The new value of word `i` when bits cross word boundaries. -/
def shiftedWord (blockShift bitShift : ℕ) (i : Fin numBlocks) (b : Vector (BitVec 64) 128) :
    BitVec 64 :=
  let lower := if i ≥ blockShift then b.get (below i blockShift) <<< bitShift else 0#64
  let upper := if i > blockShift then b.get (below i (blockShift + 1)) >>> (64 - bitShift)
    else 0#64
  lower ||| upper

/-- The loop over the words when `count` is not a multiple of 64, from the last word down. -/
def shiftBits (bitmap : Vector (BitVec 64) 128) (blockShift bitShift : ℕ) :
    Vector (BitVec 64) 128 :=
  (List.finRange 128).foldr
    (fun (i : Fin 128) b => b.set i (shiftedWord blockShift bitShift i b)) bitmap

def shiftLeft (w : ReferenceReplayWindow) (count : BitVec 64) : ReferenceReplayWindow :=
  if count ≥ windowSize then { w with bitmap := Vector.replicate 128 0#64 }
  else
    let blockShift := (count / 64).toNat
    let bitShift := (count % 64).toNat
    if bitShift = 0 then { w with bitmap := shiftBlocks w.bitmap blockShift }
    else { w with bitmap := shiftBits w.bitmap blockShift bitShift }

def wouldReject (w : ReferenceReplayWindow) (wireCounter : BitVec 64) : Bool :=
  if !w.initialized then false
  else if wireCounter > w.maxCounter then false
  else
    let age := w.maxCounter - wireCounter
    if age ≥ windowSize then true else w.testBit age

def commit (w : ReferenceReplayWindow) (wireCounter : BitVec 64) : ReferenceReplayWindow × Bool :=
  if !w.initialized then
    ({ initialized := true
       maxCounter := wireCounter
       bitmap := w.bitmap.set 0 1#64
       packetsReceived := w.packetsReceived + 1#64 }, true)
  else if wireCounter > w.maxCounter then
    let diff := wireCounter - w.maxCounter
    let w' := w.shiftLeft diff
    ({ w' with
       bitmap := w'.bitmap.set 0 (w'.bitmap[0] ||| 1#64)
       maxCounter := wireCounter
       packetsReceived := w'.packetsReceived + 1#64 }, true)
  else
    let age := w.maxCounter - wireCounter
    if age < windowSize then
      if w.testBit age then (w, false)
      else ({ w.setBit age with packetsReceived := w.packetsReceived + 1#64 }, true)
    else (w, false)

end ReferenceReplayWindow

open ReferenceReplayWindow

/-! ## The code's bits are those of the line -/

theorem div_lt_numBlocks {a : BitVec 64} (ha : a.toNat < 8192) : (a / 64).toNat < 128 := by
  rw [BitVec.toNat_udiv]
  exact (Nat.div_lt_iff_lt_mul (by decide)).2 ha

theorem wordOf_of_lt {a : BitVec 64} (ha : a.toNat < 8192) :
    wordOf 64 128 a.toNat = ⟨(a / 64).toNat, div_lt_numBlocks ha⟩ := by
  apply Fin.ext
  have h : (a / 64).toNat = a.toNat / 64 := BitVec.toNat_udiv
  change a.toNat / 64 % 128 = (a / 64).toNat
  rw [← h]
  exact Nat.mod_eq_of_lt (div_lt_numBlocks ha)

theorem testBit_eq (w : ReferenceReplayWindow) {a : BitVec 64} (ha : a.toNat < 8192) :
    w.testBit a = bitAt w.bitmap a.toNat := by
  have hmod : (a % 64).toNat = a.toNat % 64 := BitVec.toNat_umod
  rw [testBit, dif_pos (div_lt_numBlocks ha), bitAt, wordOf_of_lt ha, hmod, ← BitVec.twoPow_eq,
    and_twoPow_bne_zero _ (Nat.mod_lt _ (by decide))]

theorem bitmap_setBit (w : ReferenceReplayWindow) {a : BitVec 64} (ha : a.toNat < 8192) :
    (w.setBit a).bitmap = RingBitmap.setBit w.bitmap a.toNat := by
  have hmod : (a % 64).toNat = a.toNat % 64 := BitVec.toNat_umod
  simp only [ReferenceReplayWindow.setBit, dif_pos (div_lt_numBlocks ha), RingBitmap.setBit,
    wordOf_of_lt ha, hmod, BitVec.twoPow_eq]

/-! ## The shift -/

/-- Zeroing some words one after the other. -/
theorem get_foldl_set_zero (l : List (Fin 128)) (u : Vector (BitVec 64) 128) (i : Fin 128) :
    (i ∈ l → (l.foldl (fun b (i : Fin 128) => b.set i 0#64) u).get i = 0#64) ∧
      (i ∉ l → (l.foldl (fun b (i : Fin 128) => b.set i 0#64) u).get i = u.get i) := by
  induction l generalizing u with
  | nil => exact ⟨fun h => absurd h List.not_mem_nil, fun _ => rfl⟩
  | cons a l ih =>
    obtain ⟨hin, hout⟩ := ih (u.set a 0#64)
    rw [List.foldl_cons]
    refine ⟨fun hmem => ?_, fun hmem => ?_⟩
    · -- zeroed later, or now and not touched again
      by_cases hil : i ∈ l
      · exact hin hil
      · obtain rfl := (List.mem_cons.1 hmem).resolve_right hil
        rw [hout hil, get_set, if_pos rfl]
    · rw [List.mem_cons, not_or] at hmem
      rw [hout hmem.2, get_set, if_neg (Ne.symm hmem.1)]

theorem mem_take_finRange {k : ℕ} {i : Fin 128} : i ∈ (List.finRange 128).take k ↔ i < k := by
  rw [List.mem_take_iff_getElem]
  constructor
  · rintro ⟨j, hj, rfl⟩
    simp only [List.length_finRange, lt_min_iff] at hj
    simpa using hj.1
  · intro hk
    refine ⟨i, ?_, by simp⟩
    simp only [List.length_finRange, lt_min_iff]
    exact ⟨hk, i.isLt⟩

theorem get_shiftBlocks (v : Vector (BitVec 64) 128) (k : ℕ) (i : Fin 128) :
    (shiftBlocks v k).get i = if k ≤ i then v.get (below i k) else 0#64 := by
  have hsorted : ((List.finRange 128).filter fun i => k ≤ i.val).Pairwise (· < ·) :=
    (List.pairwise_lt_finRange 128).filter _
  have hmoved := get_foldr_set (fun i b => b.get (below i k))
    (fun i u v h => h (below i k) (Nat.sub_le _ _)) v _ hsorted i
  have hmem : i ∈ (List.finRange 128).filter (fun i => k ≤ i.val) ↔ k ≤ i := by
    simp
  rw [shiftBlocks]
  by_cases hk : k ≤ i
  · have hnot := mem_take_finRange.not.2 (Nat.not_lt.2 hk)
    rw [(get_foldl_set_zero _ _ i).2 hnot, if_pos hk, hmoved.1 (hmem.2 hk)]
  · have hin := mem_take_finRange.2 (Nat.lt_of_not_le hk)
    rw [(get_foldl_set_zero _ _ i).1 hin, if_neg hk]

theorem get_shiftBits (v : Vector (BitVec 64) 128) (k b : ℕ) (i : Fin 128) :
    (shiftBits v k b).get i = shiftedWord k b i v := by
  have h := get_foldr_set (shiftedWord k b) (fun i u v h => by
    have h₁ := h (below i k) (Nat.sub_le _ _)
    have h₂ := h (below i (k + 1)) (Nat.sub_le _ _)
    simp only [shiftedWord, h₁, h₂]) v _ (List.pairwise_lt_finRange 128) i
  rw [shiftBits]
  exact h.1 (List.mem_finRange i)

theorem below_eq (i : Fin 128) (k : ℕ) : below i k = Fin.ofNat 128 (i - k) := by
  apply Fin.ext
  exact (Nat.mod_eq_of_lt (lt_of_le_of_lt (Nat.sub_le _ _) i.isLt)).symm

/-- **The shift moves every bit up by `count`** and fills with zeros, whatever the alignment. -/
theorem bitAt_shiftLeft (w : ReferenceReplayWindow) (count : BitVec 64) {p : ℕ} (hp : p < 8192) :
    bitAt (w.shiftLeft count).bitmap p =
      (decide (count.toNat ≤ p) && bitAt w.bitmap (p - count.toNat)) := by
  have hmod : (count % 64).toNat = count.toNat % 64 := BitVec.toNat_umod
  have hdiv : (count / 64).toNat = count.toNat / 64 := BitVec.toNat_udiv
  have hcount : count.toNat / 64 * 64 + count.toNat % 64 = count.toNat :=
    Nat.div_add_mod' count.toNat 64
  simp only [shiftLeft, hmod, hdiv]
  split_ifs with hbig hbit
  · have hbig' : 8192 ≤ count.toNat := hbig
    simp [show ¬count.toNat ≤ p by omega]
  · rw [hbit, Nat.add_zero] at hcount
    have h := bitAt_shift (k := count.toNat / 64) (b := 0) (by decide) (by decide) w.bitmap
      (shiftBlocks w.bitmap (count.toNat / 64)) (fun i j _ => ?_) (p := p) hp
    · rw [Nat.add_zero, hcount] at h
      exact h
    · rw [get_shiftBlocks, below_eq, if_pos (Nat.zero_le j), Nat.sub_zero]
      by_cases hk : count.toNat / 64 ≤ i
      · simp [hk]
      · simp [hk]
  · have h := bitAt_shift (k := count.toNat / 64) (b := count.toNat % 64) (by decide)
      (Nat.mod_lt _ (by decide)) w.bitmap
      (shiftBits w.bitmap (count.toNat / 64) (count.toNat % 64)) (fun i j hj => ?_) (p := p) hp
    · rw [hcount] at h
      exact h
    · -- the carry `upper` fills the low bits, `lower` the high ones
      rw [get_shiftBits, shiftedWord, below_eq, below_eq, ← Nat.sub_sub]
      have hb : count.toNat % 64 < 64 := Nat.mod_lt _ (by decide)
      by_cases hbj : count.toNat % 64 ≤ j
      · have hout : 64 - count.toNat % 64 + j ≥ 64 := by omega
        by_cases h₁ : count.toNat / 64 ≤ i <;> by_cases h₂ : count.toNat / 64 < i <;>
          simp [h₁, h₂, hbj, hj, Nat.not_lt.2 hbj, BitVec.getLsbD_of_ge _ _ hout,
            -BitVec.getLsbD_eq_getElem]
      · have hin : 64 - count.toNat % 64 + j = 64 + j - count.toNat % 64 := by omega
        by_cases h₁ : count.toNat / 64 ≤ i <;> by_cases h₂ : count.toNat / 64 < i <;>
          simp [h₁, h₂, hbj, hin, Nat.lt_of_not_le hbj]

/-! ## The reference refines the same filter -/

/-- The reference window `w` represents the accepted counters `seen`: the bit at an age below 8192
says whether the counter of that age was accepted. -/
structure RefRepresents (w : ReferenceReplayWindow) (seen : List ℕ) : Prop where
  initialized_iff : w.initialized = true ↔ seen ≠ []
  default_of_nil : seen = [] → w = ReferenceReplayWindow.default
  tracks : seen ≠ [] → SlidingWindow.Tracks 8192 w.maxCounter.toNat
    (fun p => bitAt w.bitmap (w.maxCounter.toNat - p)) seen
  received : w.packetsReceived = BitVec.ofNat 64 seen.length

theorem refRepresents_default : RefRepresents ReferenceReplayWindow.default [] where
  initialized_iff := by simp [ReferenceReplayWindow.default]
  default_of_nil _ := rfl
  tracks h := absurd rfl h
  received := rfl

/-- The bit of age `0`, as the code sets it. -/
theorem set_zero_or_one (v : Vector (BitVec 64) 128) :
    v.set 0 (v[0] ||| 1#64) = RingBitmap.setBit v 0 := rfl

section Commit

variable {w : ReferenceReplayWindow} {seen : List ℕ}

theorem RefRepresents.received_succ (h : RefRepresents w seen) (c : ℕ) :
    w.packetsReceived + 1#64 = BitVec.ofNat 64 (c :: seen).length := by
  rw [h.received, List.length_cons, BitVec.ofNat_add]

theorem RefRepresents.first (h : RefRepresents w []) (c : BitVec 64) :
    RefRepresents (w.commit c).1 [c.toNat] := by
  obtain rfl := h.default_of_nil rfl
  exact
    { initialized_iff := by simp [commit, ReferenceReplayWindow.default]
      default_of_nil := fun h' => absurd h' (List.cons_ne_nil _ _)
      tracks := fun _ => SlidingWindow.Tracks.singleton (c := c.toNat) fun p hp hage => by
        change bitAt ((Vector.replicate 128 0#64).set 0 1#64) (c.toNat - p) = true ↔ p = c.toNat
        rw [show (Vector.replicate 128 0#64).set 0 1#64 =
          RingBitmap.setBit (Vector.replicate 128 0#64) 0 from set_zero_or_one _,
          bitAt_setBit_of_near _ (by omega) (by omega)]
        simp only [bitAt_replicate_zero, Bool.false_eq_true, false_or]
        omega
      received := rfl }

/-- A counter above the maximum: the bit of age `a` after the advance is the bit of age `a - diff`
before it. -/
theorem RefRepresents.commit_above (h : RefRepresents w seen) (hne : seen ≠ []) {c : BitVec 64}
    (hlt : w.maxCounter < c) :
    (w.commit c).2 = true ∧ RefRepresents (w.commit c).1 (c.toNat :: seen) := by
  have hinit : (!w.initialized) = false := by simp [h.initialized_iff.2 hne]
  have hlt' : w.maxCounter.toNat < c.toNat := hlt
  have hdiff : (c - w.maxCounter).toNat = c.toNat - w.maxCounter.toNat :=
    BitVec.toNat_sub_of_le (BitVec.le_of_lt hlt)
  have hsh : (w.shiftLeft (c - w.maxCounter)).packetsReceived = w.packetsReceived ∧
      (w.shiftLeft (c - w.maxCounter)).initialized = w.initialized := by
    simp only [shiftLeft]
    split_ifs <;> exact ⟨rfl, rfl⟩
  simp only [commit, hinit, Bool.false_eq_true, if_false, gt_iff_lt, hlt, if_true, set_zero_or_one,
    hsh.1, hsh.2, true_and]
  have hbit : ∀ p, p ≤ c.toNat → c.toNat - p < 8192 →
      (bitAt (RingBitmap.setBit (w.shiftLeft (c - w.maxCounter)).bitmap 0) (c.toNat - p) = true ↔
        (p ≤ w.maxCounter.toNat ∧ bitAt w.bitmap (w.maxCounter.toNat - p) = true) ∨
          p = c.toNat) := by
    intro p hp hage
    rw [bitAt_setBit_of_near _ (by omega) (by omega), bitAt_shiftLeft w _ hage, hdiff,
      Bool.and_eq_true, decide_eq_true_eq,
      show c.toNat - p - (c.toNat - w.maxCounter.toNat) = w.maxCounter.toNat - p by omega]
    refine or_congr (and_congr_left fun _ => ?_) ?_ <;> omega
  exact
    { initialized_iff := by simp [h.initialized_iff.2 hne]
      default_of_nil := fun h' => absurd h' (List.cons_ne_nil _ _)
      tracks := fun _ => by
        change SlidingWindow.Tracks 8192 c.toNat (fun p =>
          bitAt (RingBitmap.setBit (w.shiftLeft (c - w.maxCounter)).bitmap 0) (c.toNat - p)) _
        refine (h.tracks hne).advance hlt' ?_ (fun p hmp hpc hage => ?_) fun p hpm hage => ?_
        · exact (hbit c.toNat le_rfl (by omega)).2 (Or.inr rfl)
        · rw [Bool.eq_false_iff]
          intro hp
          rcases (hbit p hpc.le hage).1 hp with ⟨hpm, _⟩ | rfl <;> omega
        · rw [Bool.eq_iff_iff, hbit p (by omega) hage]
          simp [hpm, show p ≠ c.toNat by omega]
      received := h.received_succ _ }

theorem RefRepresents.commit_below (h : RefRepresents w seen) (hne : seen ≠ []) {c : BitVec 64}
    (hle : ¬w.maxCounter < c) :
    (w.commit c).2 = decide (w.maxCounter.toNat - c.toNat < 8192 ∧ c.toNat ∉ seen) ∧
      RefRepresents (w.commit c).1 (if w.maxCounter.toNat - c.toNat < 8192 ∧ c.toNat ∉ seen then
        c.toNat :: seen else seen) := by
  have hinit : (!w.initialized) = false := by simp [h.initialized_iff.2 hne]
  have hle' : c.toNat ≤ w.maxCounter.toNat := Nat.le_of_not_lt hle
  have hage : (w.maxCounter - c).toNat = w.maxCounter.toNat - c.toNat :=
    BitVec.toNat_sub_of_le (BitVec.le_def.2 hle')
  simp only [commit, hinit, Bool.false_eq_true, if_false, gt_iff_lt, hle]
  by_cases hold : w.maxCounter - c < windowSize
  · have hold' : w.maxCounter.toNat - c.toNat < 8192 := hage ▸ hold
    have hlt : (w.maxCounter - c).toNat < 8192 := hold
    have hbit := (h.tracks hne).bit_iff c.toNat hle' hold'
    rw [if_pos hold, testBit_eq w hlt, hage]
    by_cases hmem : c.toNat ∈ seen
    · simpa [hmem, hbit.2 hmem] using h
    · have hsb : (w.setBit (w.maxCounter - c)).maxCounter = w.maxCounter ∧
          (w.setBit (w.maxCounter - c)).initialized = w.initialized := by
        simp only [ReferenceReplayWindow.setBit]
        split_ifs <;> exact ⟨rfl, rfl⟩
      have hmax : (w.setBit (w.maxCounter - c)).maxCounter.toNat = w.maxCounter.toNat :=
        congrArg _ hsb.1
      simp only [Bool.eq_false_iff.2 (mt hbit.1 hmem), Bool.false_eq_true, if_false, hold', hmem,
        not_false_eq_true, and_self, decide_true, if_true, true_and]
      exact
        { initialized_iff := by simp [hsb.2, h.initialized_iff.2 hne]
          default_of_nil := fun h' => absurd h' (List.cons_ne_nil _ _)
          tracks := fun _ => by
            change SlidingWindow.Tracks 8192 (w.setBit (w.maxCounter - c)).maxCounter.toNat
              (fun p => bitAt (w.setBit (w.maxCounter - c)).bitmap
                ((w.setBit (w.maxCounter - c)).maxCounter.toNat - p)) (c.toNat :: seen)
            rw [hmax, bitmap_setBit w hlt, hage]
            refine (h.tracks hne).insert hle' fun p hp hpage => ?_
            rw [bitAt_setBit_of_near _ (by omega) (by omega)]
            refine or_congr_right ?_
            omega
          received := h.received_succ _ }
  · have hold' : ¬w.maxCounter.toNat - c.toNat < 8192 := hage ▸ hold
    rw [if_neg hold]
    simpa [hold'] using h

end Commit

/-- **The reference window refines the duplicate filter of size 8192.** -/
theorem refRefines : SlidingWindow.Refines commit 8192 BitVec.toNat RefRepresents := by
  have key : ∀ {w : ReferenceReplayWindow} {seen : List ℕ}, RefRepresents w seen →
      ∀ c : BitVec 64, (w.commit c).2 = SlidingWindow.accepts 8192 seen c.toNat ∧
        RefRepresents (w.commit c).1 (SlidingWindow.offer 8192 seen c.toNat) := by
    intro w seen h c
    rcases eq_or_ne seen [] with rfl | hne
    · have hinit : w.initialized = false := by simpa using h.initialized_iff
      have hacc := SlidingWindow.accepts_nil 8192 c.toNat
      rw [SlidingWindow.offer, hacc, if_pos rfl]
      exact ⟨by simp [commit, hinit], h.first c⟩
    · have hacc := (h.tracks hne).accepts_iff (c := c.toNat)
      by_cases hlt : w.maxCounter < c
      · have hyes : SlidingWindow.accepts 8192 seen c.toNat = true := hacc.2 (Or.inl hlt)
        rw [SlidingWindow.offer, hyes, if_pos rfl]
        exact h.commit_above hne hlt
      · rw [or_iff_right (a := w.maxCounter.toNat < c.toNat) hlt] at hacc
        have hyes : SlidingWindow.accepts 8192 seen c.toNat =
            decide (w.maxCounter.toNat - c.toNat < 8192 ∧ c.toNat ∉ seen) := by
          rw [Bool.eq_iff_iff, hacc, decide_eq_true_eq]
        have hbelow := h.commit_below hne hlt
        rw [SlidingWindow.offer, hyes]
        simpa only [decide_eq_true_eq] using hbelow
  exact ⟨fun h c => (key h c).1, fun h c => (key h c).2⟩

theorem ref_wouldReject_eq (w : ReferenceReplayWindow) (c : BitVec 64) :
    w.wouldReject c = !(w.commit c).2 := by
  simp only [ReferenceReplayWindow.wouldReject, commit]
  by_cases hage : w.maxCounter - c < windowSize
  · have hage' : ¬w.maxCounter - c ≥ windowSize := BitVec.not_le.2 hage
    split_ifs <;> simp_all
  · have hage' : w.maxCounter - c ≥ windowSize := BitVec.not_lt.1 hage
    split_ifs <;> simp_all

/-! ## The two windows side by side -/

/-- A call on a window. -/
inductive WindowCall
  | wouldReject (wireCounter : BitVec 64)
  | commit (wireCounter : BitVec 64)
  deriving DecidableEq

/-- A call on the ring window: the new window and the answer. -/
def ReplayWindow.call (w : ReplayWindow) : WindowCall → ReplayWindow × Bool
  | .wouldReject c => (w, w.wouldReject c)
  | .commit c => w.commit c

/-- A call on the reference window. -/
def ReferenceReplayWindow.call (w : ReferenceReplayWindow) :
    WindowCall → ReferenceReplayWindow × Bool
  | .wouldReject c => (w, w.wouldReject c)
  | .commit c => w.commit c

/-- The answers to a sequence of calls and the state after it. -/
def answers {S : Type} (call : S → WindowCall → S × Bool) (s : S) : List WindowCall → S × List Bool
  | [] => (s, [])
  | c :: cs =>
    let (s', b) := call s c
    let (s'', bs) := answers call s' cs
    (s'', b :: bs)

/-- The two windows stand for the same accepted counters. -/
def Bisim (w : ReplayWindow) (r : ReferenceReplayWindow) : Prop :=
  ∃ seen, Represents w seen ∧ RefRepresents r seen

/-- One call: the same answer, and the windows stay related. -/
theorem Bisim.call {w : ReplayWindow} {r : ReferenceReplayWindow} (h : Bisim w r)
    (c : WindowCall) : (w.call c).2 = (r.call c).2 ∧ Bisim (w.call c).1 (r.call c).1 := by
  obtain ⟨seen, hw, hr⟩ := h
  have hcommit : ∀ c, (w.commit c).2 = (r.commit c).2 := fun c => by
    rw [refines.verdict hw c, refRefines.verdict hr c]
  cases c with
  | wouldReject c =>
    refine ⟨?_, seen, hw, hr⟩
    change w.wouldReject c = r.wouldReject c
    rw [wouldReject_eq, ref_wouldReject_eq, hcommit c]
  | commit c => exact ⟨hcommit c, _, refines.next hw c, refRefines.next hr c⟩

theorem Bisim.answers {w : ReplayWindow} {r : ReferenceReplayWindow} (h : Bisim w r)
    (calls : List WindowCall) :
    (answers ReplayWindow.call w calls).2 = (answers ReferenceReplayWindow.call r calls).2 ∧
      Bisim (answers ReplayWindow.call w calls).1
        (answers ReferenceReplayWindow.call r calls).1 := by
  induction calls generalizing w r with
  | nil => exact ⟨rfl, h⟩
  | cons c cs ih =>
    obtain ⟨hb, h'⟩ := h.call c
    obtain ⟨hbs, h''⟩ := ih h'
    exact ⟨congrArg₂ List.cons hb hbs, h''⟩

/-- Related windows agree on every field, and on every bit of the window. -/
theorem Bisim.fields {w : ReplayWindow} {r : ReferenceReplayWindow} (h : Bisim w r) :
    w.maxCounter = r.maxCounter ∧ w.packetsReceived = r.packetsReceived ∧
      w.initialized = r.initialized ∧
      ∀ age : BitVec 64, age < 8192 → age ≤ w.maxCounter →
        r.testBit age = (w.bitmap.get (ringWord (w.maxCounter - age)) &&&
          bitOf (w.maxCounter - age) != 0#64) := by
  obtain ⟨seen, hw, hr⟩ := h
  have hage : ∀ age : BitVec 64, age < 8192 → r.testBit age = bitAt r.bitmap age.toNat :=
    fun age hlt => testBit_eq r hlt
  rcases eq_or_ne seen [] with rfl | hne
  · obtain rfl := hw.default_of_nil rfl
    obtain rfl := hr.default_of_nil rfl
    refine ⟨rfl, rfl, rfl, fun age hlt _ => ?_⟩
    rw [hage age hlt, and_bitOf_ne_zero]
    simp [ReplayWindow.default, ReferenceReplayWindow.default]
  · have tw := hw.tracks hne
    have tr := hr.tracks hne
    have hmax : w.maxCounter = r.maxCounter :=
      BitVec.eq_of_toNat_eq (le_antisymm (tr.le_max _ tw.max_mem) (tw.le_max _ tr.max_mem))
    refine ⟨hmax, hw.received.trans hr.received.symm, ?_, fun age hlt hle => ?_⟩
    · rw [hw.initialized_iff.2 hne, hr.initialized_iff.2 hne]
    · have hlt' : age.toNat < 8192 := hlt
      have hle' : age.toNat ≤ w.maxCounter.toNat := hle
      have hsub : (w.maxCounter - age).toNat = w.maxCounter.toNat - age.toNat :=
        BitVec.toNat_sub_of_le hle
      have hb := tr.bit_iff (w.maxCounter.toNat - age.toNat)
        (by rw [← hmax]; exact Nat.sub_le _ _) (by rw [← hmax]; omega)
      rw [← hmax, show w.maxCounter.toNat - (w.maxCounter.toNat - age.toNat) = age.toNat by
        omega] at hb
      rw [hage age hlt, and_bitOf_ne_zero, hsub, Bool.eq_iff_iff, hb]
      exact (tw.bit_iff _ (Nat.sub_le _ _) (by omega)).symm

/-- **The ring window and the reference window are bisimilar.** Every sequence of calls, made on
both from their defaults, gets the same answers and leaves the same `maxCounter`,
`packetsReceived` and `initialized`, and the reference's bit of every age below 8192 (up to
`maxCounter`) is the ring's bit of the counter of that age. -/
theorem bisimilar (calls : List WindowCall) :
    (answers ReplayWindow.call ReplayWindow.default calls).2 =
      (answers ReferenceReplayWindow.call ReferenceReplayWindow.default calls).2 ∧
    let w := (answers ReplayWindow.call ReplayWindow.default calls).1
    let r := (answers ReferenceReplayWindow.call ReferenceReplayWindow.default calls).1
    w.maxCounter = r.maxCounter ∧ w.packetsReceived = r.packetsReceived ∧
      w.initialized = r.initialized ∧
      ∀ age : BitVec 64, age < 8192 → age ≤ w.maxCounter →
        r.testBit age = (w.bitmap.get (ringWord (w.maxCounter - age)) &&&
          bitOf (w.maxCounter - age) != 0#64) := by
  have h : Bisim ReplayWindow.default ReferenceReplayWindow.default :=
    ⟨[], represents_default, refRepresents_default⟩
  exact ⟨(h.answers calls).1, (h.answers calls).2.fields⟩

end LightwayCffi.Expresslane
