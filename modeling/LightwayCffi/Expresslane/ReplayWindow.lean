import LightwayCffi.Foundations.RingBitmap
import LightwayCffi.Foundations.SlidingWindow
import Mathlib.Data.Finset.Max

/-!
# The replay window

The receive side of an ExpressLane session keeps a `ReplayWindow`: the highest wire counter it has
accepted and a bitmap of 128 words in which the counter `c` owns bit `c mod 64` of word
`c / 64 mod 128`. The bitmap is a ring, so a slot is shared by all counters congruent modulo 8192
and is authoritative for the one that lies in the window below `maxCounter`.

The first half of this file is the code: `wouldReject`, `commit` and `clearRange`, over `u64`
counters. The second half relates it to the abstract duplicate filter of size 8192. `Represents w
seen` is the ring-aliasing invariant: the bit of every counter *in the window* says whether the
counter was accepted, and nothing is said of the other slots' counters. `refines` proves that
`commit` keeps it, on all four accepting paths (first packet, advance by one, advance with a
partial clear, advance with a wholesale wipe) and on the in-window path, and
`replayWindow_exact` is the resulting law for every sequence of commits from the default window.
-/

namespace LightwayCffi.Expresslane

open RingBitmap

/-- Sliding-window replay protection: the `u64` fields of the source, and its array of words. -/
structure ReplayWindow where
  maxCounter : BitVec 64
  bitmap : Vector (BitVec 64) 128
  packetsReceived : BitVec 64
  initialized : Bool
  deriving DecidableEq

namespace ReplayWindow

/-- The number of words of the bitmap. -/
abbrev numBlocks : ℕ := 128

/-- The width of a word. -/
abbrev blockBits : BitVec 64 := 64

/-- The number of counters the window spans. -/
abbrev windowSize : BitVec 64 := 8192

abbrev ringMask : BitVec 64 := 127

abbrev bitMask : BitVec 64 := 63

/-- `ReplayWindow::default()`. -/
def default : ReplayWindow where
  maxCounter := 0
  bitmap := Vector.replicate 128 0#64
  packetsReceived := 0
  initialized := false

end ReplayWindow

open ReplayWindow

/-- Word index within the ring for `counter`. -/
def ringIndex (counter : BitVec 64) : ℕ := ((counter / blockBits) &&& ringMask).toNat

/-- Two masks make the index; it is always in range. -/
theorem ringIndex_lt (counter : BitVec 64) : ringIndex counter < numBlocks := by
  rw [ringIndex, BitVec.toNat_and]
  exact lt_of_le_of_lt Nat.and_le_right (by decide)

/-- The word of the ring that holds `counter`, as an index of the array. -/
def ringWord (counter : BitVec 64) : Fin numBlocks := ⟨ringIndex counter, ringIndex_lt counter⟩

/-- The single bit within its word that belongs to `counter`. -/
def bitOf (counter : BitVec 64) : BitVec 64 := 1#64 <<< (counter &&& bitMask).toNat

/-- Bits `lo..=hi` set, all others clear. -/
def maskBetween (lo hi : ℕ) : BitVec 64 := (BitVec.allOnes 64 >>> (63 - (hi - lo))) <<< lo

namespace ReplayWindow

/-- Clear the ring bits of every counter in `[lo, hi]`. -/
def clearRange (w : ReplayWindow) (lo hi : BitVec 64) : ReplayWindow :=
  let loWord := (lo / blockBits).toNat
  let hiWord := (hi / blockBits).toNat
  let loBit := (lo &&& bitMask).toNat
  let hiBit := (hi &&& bitMask).toNat
  if loWord = hiWord then
    { w with bitmap :=
        w.bitmap.set (ringWord lo) (w.bitmap.get (ringWord lo) &&& ~~~maskBetween loBit hiBit) }
  else
    let b := w.bitmap.set (ringWord lo) (w.bitmap.get (ringWord lo) &&& ~~~maskBetween loBit 63)
    let b := (List.range' (loWord + 1) (hiWord - (loWord + 1))).foldl
      (fun b word => b.set (word &&& ringMask.toNat) 0#64
        (lt_of_le_of_lt Nat.and_le_right (by decide))) b
    { w with bitmap := b.set (ringWord hi) (b.get (ringWord hi) &&& ~~~maskBetween 0 hiBit) }

/-- Non-mutating pre-check: whether the packet should be rejected. -/
def wouldReject (w : ReplayWindow) (wireCounter : BitVec 64) : Bool :=
  if !w.initialized then false
  else if wireCounter > w.maxCounter then false
  else
    let age := w.maxCounter - wireCounter
    if age ≥ windowSize then true
    else w.bitmap.get (ringWord wireCounter) &&& bitOf wireCounter != 0#64

/-- Commit a wire counter into the window: the new window, and whether it was accepted.
`packets_received += 1` is the release-mode wrapping increment. -/
def commit (w : ReplayWindow) (wireCounter : BitVec 64) : ReplayWindow × Bool :=
  if !w.initialized then
    ({ initialized := true
       maxCounter := wireCounter
       bitmap := (Vector.replicate 128 0#64).set (ringWord wireCounter) (bitOf wireCounter)
       packetsReceived := w.packetsReceived + 1#64 }, true)
  else if wireCounter > w.maxCounter then
    let diff := wireCounter - w.maxCounter
    let w' :=
      if diff ≥ windowSize then { w with bitmap := Vector.replicate 128 0#64 }
      else if diff > 1#64 then w.clearRange (w.maxCounter + 1#64) (wireCounter - 1#64)
      else w
    ({ w' with
       bitmap := w'.bitmap.set (ringWord wireCounter)
         (w'.bitmap.get (ringWord wireCounter) ||| bitOf wireCounter)
       maxCounter := wireCounter
       packetsReceived := w'.packetsReceived + 1#64 }, true)
  else
    let age := w.maxCounter - wireCounter
    if age ≥ windowSize then (w, false)
    else if w.bitmap.get (ringWord wireCounter) &&& bitOf wireCounter != 0#64 then (w, false)
    else
      ({ w with
         bitmap := w.bitmap.set (ringWord wireCounter)
           (w.bitmap.get (ringWord wireCounter) ||| bitOf wireCounter)
         packetsReceived := w.packetsReceived + 1#64 }, true)

end ReplayWindow

/-! ## The code's words and bits are those of the ring -/

theorem ringWord_eq (c : BitVec 64) : ringWord c = wordOf 64 128 c.toNat := by
  apply Fin.ext
  change ((c / blockBits) &&& ringMask).toNat = c.toNat / 64 % 128
  rw [BitVec.toNat_and, BitVec.toNat_udiv]
  exact Nat.and_two_pow_sub_one_eq_mod (c.toNat / 64) 7

theorem toNat_div_blockBits (c : BitVec 64) : (c / blockBits).toNat = c.toNat / 64 := by
  rw [BitVec.toNat_udiv]
  rfl

theorem toNat_and_bitMask (c : BitVec 64) : (c &&& bitMask).toNat = c.toNat % 64 := by
  rw [BitVec.toNat_and]
  exact Nat.and_two_pow_sub_one_eq_mod c.toNat 6

theorem bitOf_eq (c : BitVec 64) : bitOf c = BitVec.twoPow 64 (c.toNat % 64) := by
  rw [bitOf, toNat_and_bitMask, BitVec.twoPow_eq]

theorem maskBetween_eq (lo hi : ℕ) : maskBetween lo hi = mask 64 lo hi := rfl

/-- The word `word & RING_MASK` of the clearing loop. -/
theorem and_ringMask (word : ℕ) : word &&& ringMask.toNat = word % 128 :=
  Nat.and_two_pow_sub_one_eq_mod word 7

/-- Reading a counter's bit as the code does. -/
theorem and_bitOf_ne_zero (v : Vector (BitVec 64) 128) (c : BitVec 64) :
    (v.get (ringWord c) &&& bitOf c != 0#64) = bitAt v c.toNat := by
  rw [ringWord_eq, bitOf_eq, and_twoPow_bne_zero _ (Nat.mod_lt _ (by decide)), bitAt]

/-- Setting a counter's bit as the code does. -/
theorem set_or_bitOf (v : Vector (BitVec 64) 128) (c : BitVec 64) :
    v.set (ringWord c) (v.get (ringWord c) ||| bitOf c) = setBit v c.toNat := by
  simp only [ringWord_eq, bitOf_eq, setBit]

/-- `clear_range` is the clearing of a span of the ring, and nothing else. -/
theorem clearRange_eq (w : ReplayWindow) (lo hi : BitVec 64) :
    w.clearRange lo hi = { w with bitmap := clearSpan w.bitmap lo.toNat hi.toNat } := by
  have hloop : ∀ (ws : List ℕ) (v : Vector (BitVec 64) 128),
      ws.foldl (fun b word => b.set (word &&& ringMask.toNat) 0#64
        (lt_of_le_of_lt Nat.and_le_right (by decide))) v = zeroWords v ws := fun ws v => by
    rw [zeroWords]
    congr 1
    funext b word
    simp only [and_ringMask]
    rfl
  simp only [clearRange, clearSpan, toNat_div_blockBits, toNat_and_bitMask, hloop, maskBetween_eq,
    ringWord_eq, clearMask]
  split_ifs <;> rfl

theorem bitmap_clearRange (w : ReplayWindow) (lo hi : BitVec 64) :
    (w.clearRange lo hi).bitmap = clearSpan w.bitmap lo.toNat hi.toNat := by
  rw [clearRange_eq]

@[simp] theorem packetsReceived_clearRange (w : ReplayWindow) (lo hi : BitVec 64) :
    (w.clearRange lo hi).packetsReceived = w.packetsReceived := by
  rw [clearRange_eq]

@[simp] theorem initialized_clearRange (w : ReplayWindow) (lo hi : BitVec 64) :
    (w.clearRange lo hi).initialized = w.initialized := by
  rw [clearRange_eq]

/-! ## The ring-aliasing invariant -/

/-- The window `w` represents the accepted counters `seen`: the bit of a counter in the window
below `maxCounter` says whether the counter was accepted. Slots are read for these counters only,
so nothing is required of a slot on behalf of the older counters that share it. -/
structure Represents (w : ReplayWindow) (seen : List ℕ) : Prop where
  initialized_iff : w.initialized = true ↔ seen ≠ []
  default_of_nil : seen = [] → w = ReplayWindow.default
  tracks : seen ≠ [] → SlidingWindow.Tracks 8192 w.maxCounter.toNat (bitAt w.bitmap) seen
  received : w.packetsReceived = BitVec.ofNat 64 seen.length

theorem represents_default : Represents ReplayWindow.default [] where
  initialized_iff := by simp [ReplayWindow.default]
  default_of_nil _ := rfl
  tracks h := absurd rfl h
  received := rfl

/-- Two positions less than the size of the ring apart share a slot only if they are equal. -/
theorem eq_of_modEq {p q : ℕ} (hle : p ≤ q) (hlt : q - p < 8192) (h : p ≡ q [MOD 64 * 128]) :
    p = q := by
  obtain ⟨k, hk⟩ := (Nat.modEq_iff_dvd' hle).1 h
  omega

/-- The bit of a counter near `c` after setting the slot of `c`. -/
theorem bitAt_setBit_of_near (b : Vector (BitVec 64) 128) {p c : ℕ} (hpc : c - p < 8192)
    (hcp : p - c < 8192) : bitAt (setBit b c) p = true ↔ bitAt b p = true ∨ p = c := by
  rw [bitAt_setBit (by decide)]
  refine or_congr_right ⟨fun h => ?_, fun h => h ▸ Nat.ModEq.refl _⟩
  rcases Nat.le_total p c with hle | hle
  · exact eq_of_modEq hle hpc h.symm
  · exact (eq_of_modEq hle hcp h).symm

section Commit

variable {w : ReplayWindow} {seen : List ℕ}

theorem Represents.received_succ (h : Represents w seen) (c : ℕ) :
    w.packetsReceived + 1#64 = BitVec.ofNat 64 (c :: seen).length := by
  rw [h.received, List.length_cons, BitVec.ofNat_add]

/-- The window after an advance to `c`: `b` is the bitmap in which every slot of a counter between
the old maximum and `c` has been cleared and every slot of a counter that stays in the window has
been kept, and then the slot of `c` is set. -/
theorem Represents.advance (h : Represents w seen) (hne : seen ≠ []) {c : BitVec 64}
    (hlt : w.maxCounter.toNat < c.toNat) {b : Vector (BitVec 64) 128}
    (hskip : ∀ p, w.maxCounter.toNat < p → p < c.toNat → c.toNat - p < 8192 → bitAt b p = false)
    (hkeep : ∀ p, p ≤ w.maxCounter.toNat → c.toNat - p < 8192 → bitAt b p = bitAt w.bitmap p) :
    Represents { w with
      bitmap := setBit b c.toNat
      maxCounter := c
      packetsReceived := w.packetsReceived + 1#64 } (c.toNat :: seen) where
  initialized_iff := by simp [h.initialized_iff.2 hne]
  default_of_nil h' := absurd h' (List.cons_ne_nil _ _)
  tracks _ := by
    change SlidingWindow.Tracks 8192 c.toNat (bitAt (setBit b c.toNat)) (c.toNat :: seen)
    refine (h.tracks hne).advance hlt ?_ (fun p hmp hpc hage => ?_) fun p hpm hage => ?_
    · rw [bitAt_setBit_of_near b (by omega) (by omega)]
      exact Or.inr rfl
    · rw [Bool.eq_false_iff, ne_eq, bitAt_setBit_of_near b hage (by omega), hskip p hmp hpc hage]
      simp [hpc.ne]
    · rw [Bool.eq_iff_iff, bitAt_setBit_of_near b hage (by omega), hkeep p hpm hage]
      simp [show p ≠ c.toNat by omega]
  received := h.received_succ _

/-- The first packet. -/
theorem Represents.first (h : Represents w []) (c : BitVec 64) :
    Represents (w.commit c).1 [c.toNat] := by
  have hinit : w.initialized = false := by simpa using h.initialized_iff
  have hb : (Vector.replicate 128 0#64).set (ringWord c) (bitOf c) =
      setBit (Vector.replicate 128 0#64) c.toNat := by
    rw [← set_or_bitOf, get_replicate, BitVec.zero_or]
  simp only [commit, hinit, Bool.not_false, if_true, hb]
  exact
    { initialized_iff := by simp
      default_of_nil := fun h' => absurd h' (List.cons_ne_nil _ _)
      tracks := fun _ => SlidingWindow.Tracks.singleton (c := c.toNat) fun p hp hage => by
        rw [bitAt_setBit_of_near _ hage (by omega)]
        simp
      received := h.received_succ c.toNat }

/-- A counter above the maximum: the wipe, the partial clear and the advance by one all satisfy
`Represents.advance`. -/
theorem Represents.commit_above (h : Represents w seen) (hne : seen ≠ []) {c : BitVec 64}
    (hlt : w.maxCounter < c) :
    (w.commit c).2 = true ∧ Represents (w.commit c).1 (c.toNat :: seen) := by
  have hinit : (!w.initialized) = false := by simp [h.initialized_iff.2 hne]
  have hlt' : w.maxCounter.toNat < c.toNat := hlt
  have hdiff : (c - w.maxCounter).toNat = c.toNat - w.maxCounter.toNat :=
    BitVec.toNat_sub_of_le (BitVec.le_of_lt hlt)
  simp only [commit, hinit, Bool.false_eq_true, if_false, gt_iff_lt, hlt, if_true, ge_iff_le,
    set_or_bitOf, true_and]
  by_cases hwipe : windowSize ≤ c - w.maxCounter
  · have hwipe' : 8192 ≤ c.toNat - w.maxCounter.toNat := hdiff ▸ hwipe
    simp only [hwipe, if_true]
    exact h.advance hne hlt' (fun p _ _ _ => bitAt_replicate_zero p) fun p hp hage => by omega
  · have hwipe' : c.toNat - w.maxCounter.toNat < 8192 := by
      rw [← hdiff]
      exact Nat.lt_of_not_le hwipe
    simp only [hwipe, if_false]
    by_cases hone : 1#64 < c - w.maxCounter
    · -- the partial clear runs over the counters strictly between the two maxima
      have hone' : 1 < c.toNat - w.maxCounter.toNat := hdiff ▸ hone
      have hlo : (w.maxCounter + 1#64).toNat = w.maxCounter.toNat + 1 := by bv_omega
      have hhi : (c - 1#64).toNat = c.toNat - 1 := by bv_omega
      have hle : w.maxCounter.toNat + 1 ≤ c.toNat - 1 := by omega
      have hbit := bitAt_clearSpan (w := 64) (by decide) w.bitmap hle
      simp only [hone, if_true, bitmap_clearRange, packetsReceived_clearRange,
        initialized_clearRange, hlo, hhi]
      refine h.advance hne hlt' (fun p h₁ h₂ _ => ?_) fun p hp hage => ?_
      · rw [Bool.eq_false_iff]
        intro hp
        exact ((hbit p).1 hp).2 ⟨p, by omega, by omega, Nat.ModEq.refl _⟩
      · rw [Bool.eq_iff_iff, hbit p, and_iff_left_iff_imp]
        intro _ ⟨q, h₁, h₂, hq⟩
        have := eq_of_modEq (by omega) (by omega) hq.symm
        omega
    · have hone' : c.toNat - w.maxCounter.toNat ≤ 1 := hdiff ▸ Nat.le_of_not_lt hone
      simp only [hone, if_false]
      exact h.advance hne hlt' (fun p h₁ h₂ _ => by omega) fun _ _ _ => rfl

/-- A counter at or below the maximum. -/
theorem Represents.commit_below (h : Represents w seen) (hne : seen ≠ []) {c : BitVec 64}
    (hle : ¬w.maxCounter < c) :
    w.commit c = if w.maxCounter.toNat - c.toNat < 8192 ∧ c.toNat ∉ seen then
      ({ w with
         bitmap := setBit w.bitmap c.toNat
         packetsReceived := w.packetsReceived + 1#64 }, true)
    else (w, false) := by
  have hinit : (!w.initialized) = false := by simp [h.initialized_iff.2 hne]
  have hle' : c.toNat ≤ w.maxCounter.toNat := Nat.le_of_not_lt hle
  have hage : (w.maxCounter - c).toNat = w.maxCounter.toNat - c.toNat :=
    BitVec.toNat_sub_of_le (BitVec.le_def.2 hle')
  simp only [commit, hinit, Bool.false_eq_true, if_false, gt_iff_lt, hle, ge_iff_le,
    and_bitOf_ne_zero, set_or_bitOf]
  by_cases hold : windowSize ≤ w.maxCounter - c
  · have hold' : 8192 ≤ w.maxCounter.toNat - c.toNat := hage ▸ hold
    rw [if_pos hold, if_neg fun hc => absurd hc.1 (Nat.not_lt.2 hold')]
  · have hold' : w.maxCounter.toNat - c.toNat < 8192 := by
      rw [← hage]
      exact Nat.lt_of_not_le hold
    have hbit := (h.tracks hne).bit_iff c.toNat hle' hold'
    rw [if_neg hold]
    by_cases hmem : c.toNat ∈ seen
    · simp [hmem, hbit.2 hmem]
    · simp [hmem, hold', mt hbit.1 hmem]

theorem Represents.insert (h : Represents w seen) {c : BitVec 64} (hne : seen ≠ [])
    (hle : ¬w.maxCounter < c) (hage : w.maxCounter.toNat - c.toNat < 8192) :
    Represents { w with
      bitmap := setBit w.bitmap c.toNat
      packetsReceived := w.packetsReceived + 1#64 } (c.toNat :: seen) where
  initialized_iff := by simp [h.initialized_iff.2 hne]
  default_of_nil h' := absurd h' (List.cons_ne_nil _ _)
  tracks _ := by
    have hle' : c.toNat ≤ w.maxCounter.toNat := Nat.le_of_not_lt hle
    refine (h.tracks hne).insert hle' fun p hp hpage => ?_
    exact bitAt_setBit_of_near w.bitmap (by omega) (by omega)
  received := h.received_succ _

end Commit

/-- **The replay window refines the duplicate filter of size 8192.** -/
theorem refines : SlidingWindow.Refines commit 8192 BitVec.toNat Represents := by
  have key : ∀ {w : ReplayWindow} {seen : List ℕ}, Represents w seen → ∀ c : BitVec 64,
      (w.commit c).2 = SlidingWindow.accepts 8192 seen c.toNat ∧
        Represents (w.commit c).1 (SlidingWindow.offer 8192 seen c.toNat) := by
    intro w seen h c
    rcases eq_or_ne seen [] with rfl | hne
    · have hinit : w.initialized = false := by simpa using h.initialized_iff
      have hacc := SlidingWindow.accepts_nil 8192 c.toNat
      rw [SlidingWindow.offer, hacc, if_pos rfl]
      exact ⟨by simp [commit, hinit], h.first c⟩
    · have hacc := (h.tracks hne).accepts_iff (c := c.toNat)
      by_cases hlt : w.maxCounter < c
      · have hyes : SlidingWindow.accepts 8192 seen c.toNat = true := hacc.2 (Or.inl hlt)
        rw [SlidingWindow.offer, hyes, if_pos rfl]
        exact h.commit_above hne hlt
      · rw [or_iff_right (a := w.maxCounter.toNat < c.toNat) hlt] at hacc
        rw [h.commit_below hne hlt, SlidingWindow.offer]
        split_ifs with hc hyes hyes
        · exact ⟨hyes.symm, h.insert hne hlt hc.1⟩
        · exact absurd (hacc.2 hc) hyes
        · exact absurd (hacc.1 hyes) hc
        · exact ⟨(Bool.eq_false_iff.2 hyes).symm, h⟩
  exact ⟨fun h c => (key h c).1, fun h c => (key h c).2⟩

/-- An accepted counter is new, and is recorded. -/
theorem Represents.accepted {w : ReplayWindow} {seen : List ℕ} (h : Represents w seen)
    {c : BitVec 64} (hc : (w.commit c).2 = true) :
    c.toNat ∉ seen ∧ Represents (w.commit c).1 (c.toNat :: seen) := by
  have hacc := refines.verdict h c
  have hnext := refines.next h c
  rw [hc] at hacc
  rw [SlidingWindow.offer, if_pos hacc.symm] at hnext
  exact ⟨(of_decide_eq_true hacc.symm).1, hnext⟩

/-- The pre-check applies the rule of `commit` to the same state. -/
theorem wouldReject_eq (w : ReplayWindow) (c : BitVec 64) :
    w.wouldReject c = !(w.commit c).2 := by
  simp only [wouldReject, commit]
  split_ifs <;> simp_all

/-! ## Every sequence of commits -/

/-- The window after the commits `cs` from the default window. -/
def windowAfter (cs : List (BitVec 64)) : ReplayWindow :=
  (SlidingWindow.run commit ReplayWindow.default cs).1

/-- The counters that the commits `cs` from the default window accepted, newest first. -/
def acceptedBy (cs : List (BitVec 64)) : List (BitVec 64) :=
  (SlidingWindow.run commit ReplayWindow.default cs).2

/-- The accepted counters as a set of numbers. -/
def acceptedSet (cs : List (BitVec 64)) : Finset ℕ := ((acceptedBy cs).map BitVec.toNat).toFinset

theorem represents_windowAfter (cs : List (BitVec 64)) :
    Represents (windowAfter cs) ((acceptedBy cs).map BitVec.toNat) :=
  refines.run represents_default cs

theorem nodup_acceptedBy (cs : List (BitVec 64)) : (acceptedBy cs).Nodup :=
  refines.nodup_run represents_default cs

theorem card_acceptedSet (cs : List (BitVec 64)) :
    (acceptedSet cs).card = ((acceptedBy cs).map BitVec.toNat).length := by
  rw [acceptedSet, List.toFinset_card_of_nodup]
  exact (nodup_acceptedBy cs).map fun _ _ h => BitVec.eq_of_toNat_eq h

/-- The largest accepted counter is the window's `maxCounter`. -/
theorem max_acceptedSet {cs : List (BitVec 64)} {m : ℕ}
    (hm : (acceptedSet cs).max = WithBot.some m) :
    m = (windowAfter cs).maxCounter.toNat := by
  have h := represents_windowAfter cs
  have hmem := Finset.mem_of_max hm
  rw [acceptedSet, List.mem_toFinset] at hmem
  have ht := h.tracks (List.ne_nil_of_mem hmem)
  refine le_antisymm (ht.le_max m hmem) (Finset.le_max_of_eq ?_ hm)
  rw [acceptedSet, List.mem_toFinset]
  exact ht.max_mem

/-- A rejected counter leaves all four fields as they were. -/
theorem commit_eq_of_rejected {w : ReplayWindow} {c : BitVec 64} (h : (w.commit c).2 = false) :
    (w.commit c).1 = w := by
  simp only [commit] at h ⊢
  split_ifs at h ⊢ <;> simp_all

theorem packetsReceived_commit {w : ReplayWindow} {c : BitVec 64} (h : (w.commit c).2 = true) :
    (w.commit c).1.packetsReceived = w.packetsReceived + 1#64 := by
  simp only [commit] at h ⊢
  split_ifs at h ⊢ <;> simp_all

theorem maxCounter_commit {w : ReplayWindow} {c : BitVec 64} (h : (w.commit c).2 = true) :
    (w.commit c).1.maxCounter.toNat =
      if w.initialized then max w.maxCounter.toNat c.toNat else c.toNat := by
  simp only [commit] at h ⊢
  split_ifs at h ⊢ <;> simp_all <;> bv_omega

/-- **The replay window is exact.** After any commits `cs` from the default window, with `A` the
set of accepted counters and `m` its maximum: the next commit of `c` is accepted exactly when `A`
is empty, or `c` is above `m`, or it is less than 8192 below `m` and not in `A`; a rejection changes
nothing; an acceptance moves `maxCounter` to the maximum of `m` and `c` and counts one packet, so
that `packetsReceived` is the size of `A` modulo `2 ^ 64`; the pre-check is the negation of the
verdict; and no counter has been accepted twice. -/
theorem replayWindow_exact (cs : List (BitVec 64)) :
    (acceptedBy cs).Nodup ∧
    (windowAfter cs).packetsReceived = BitVec.ofNat 64 (acceptedSet cs).card ∧
    ∀ c : BitVec 64,
      (windowAfter cs).wouldReject c = !((windowAfter cs).commit c).2 ∧
      (((windowAfter cs).commit c).2 = true ↔
        acceptedSet cs = ∅ ∨ ∃ m : ℕ, (acceptedSet cs).max = WithBot.some m ∧
          (c.toNat > m ∨ (m - c.toNat < 8192 ∧ c.toNat ∉ acceptedSet cs))) ∧
      (((windowAfter cs).commit c).2 = false → ((windowAfter cs).commit c).1 = windowAfter cs) ∧
      (((windowAfter cs).commit c).2 = true →
        (acceptedSet cs = ∅ → ((windowAfter cs).commit c).1.maxCounter = c) ∧
          (∀ m : ℕ, (acceptedSet cs).max = WithBot.some m →
            ((windowAfter cs).commit c).1.maxCounter.toNat = max m c.toNat) ∧
          ((windowAfter cs).commit c).1.packetsReceived =
            (windowAfter cs).packetsReceived + 1#64) := by
  have h := represents_windowAfter cs
  have hset : ∀ x, x ∈ acceptedSet cs ↔ x ∈ (acceptedBy cs).map BitVec.toNat := fun x => by
    rw [acceptedSet, List.mem_toFinset]
  have hempty : acceptedSet cs = ∅ ↔ (acceptedBy cs).map BitVec.toNat = [] := by
    rw [acceptedSet, List.toFinset_eq_empty_iff]
  have hcard : (windowAfter cs).packetsReceived = BitVec.ofNat 64 (acceptedSet cs).card := by
    rw [card_acceptedSet]
    exact h.received
  refine ⟨nodup_acceptedBy cs, hcard, fun c => ⟨?_, ?_, ?_, ?_⟩⟩
  · exact wouldReject_eq _ c
  · rw [refines.verdict h c, hset, hempty]
    rcases eq_or_ne ((acceptedBy cs).map BitVec.toNat) [] with hnil | hne
    · simp [hnil, SlidingWindow.accepts_nil]
    · obtain ⟨m, hm⟩ := Finset.max_of_nonempty (Finset.nonempty_iff_ne_empty.2 (mt hempty.1 hne))
      have hmax := max_acceptedSet hm
      rw [(h.tracks hne).accepts_iff, hm, hmax]
      simp only [hne, false_or, WithBot.coe_inj, exists_eq_left', gt_iff_lt]
  · exact fun hc => commit_eq_of_rejected hc
  · intro hc
    have hmove := maxCounter_commit hc
    refine ⟨fun hnone => ?_, fun m hm => ?_, packetsReceived_commit hc⟩
    · have hinit : ¬(windowAfter cs).initialized = true := by
        rw [h.initialized_iff]
        exact not_not_intro (hempty.1 hnone)
      rw [if_neg hinit] at hmove
      exact BitVec.eq_of_toNat_eq hmove
    · have hne : (acceptedBy cs).map BitVec.toNat ≠ [] := by
        intro hnil
        rw [hempty.2 hnil] at hm
        cases hm
      rw [if_pos (h.initialized_iff.2 hne), ← max_acceptedSet hm] at hmove
      exact hmove

end LightwayCffi.Expresslane
