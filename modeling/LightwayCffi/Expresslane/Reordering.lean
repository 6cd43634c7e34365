import LightwayCffi.Expresslane.ReplayWindow

/-!
# Reordered packets

The replay window exists because packets overtake each other. Here the order in which nearby
counters arrive is shown not to matter at all: every order accepts all of them and ends in the same
window, word for word.

That the same counters are accepted is a fact about the abstract filter
(`SlidingWindow.Refines.run_of_near`). That the same bits are left is not, since `Represents` only
speaks of the slots that lie in the window. The missing half is `Clean`: a set bit belongs to a slot
that some counter up to `maxCounter` owns. With it a window is determined by the set of accepted
counters (`Represents.eq_of_perm`), whichever mixture of wipes, partial clears and in-window
commits has produced it.
-/

namespace LightwayCffi.Expresslane

open RingBitmap ReplayWindow

/-- No bit is set in a slot that lies above `maxCounter` in the first lap of the ring. -/
def Clean (w : ReplayWindow) : Prop :=
  ∀ q, bitAt w.bitmap q = true → q % 8192 ≤ w.maxCounter.toNat

theorem clean_default : Clean ReplayWindow.default := fun q h => by
  simp [ReplayWindow.default] at h

/-- Setting the slot of a counter `c` that is not above the new maximum `m`. -/
theorem mod_le_of_bitAt_setBit {b : Vector (BitVec 64) 128} {c m q : ℕ} (hc : c ≤ m)
    (hb : bitAt b q = true → q % 8192 ≤ m) (h : bitAt (setBit b c) q = true) : q % 8192 ≤ m := by
  rcases (bitAt_setBit (by decide) b c q).1 h with h | h
  · exact hb h
  · have hmod : c % 8192 = q % 8192 := h
    rw [← hmod]
    exact (Nat.mod_le c 8192).trans hc

/-- One commit leaves no stray bit. -/
theorem Clean.commit {w : ReplayWindow} (h : Clean w) (c : BitVec 64) : Clean (w.commit c).1 := by
  intro q hq
  simp only [ReplayWindow.commit] at hq ⊢
  split_ifs at hq ⊢ with hinit habove hwipe hone hold hseen
  · have hb : (Vector.replicate 128 0#64).set (ringWord c) (bitOf c) =
        setBit (Vector.replicate 128 0#64) c.toNat := by
      rw [← set_or_bitOf, get_replicate, BitVec.zero_or]
    simp only [hb] at hq
    exact mod_le_of_bitAt_setBit le_rfl (fun h => by simp at h) hq
  · simp only [set_or_bitOf] at hq
    exact mod_le_of_bitAt_setBit le_rfl (fun h => by simp at h) hq
  · have hle : (w.maxCounter + 1#64).toNat ≤ (c - 1#64).toNat := by bv_omega
    simp only [set_or_bitOf, bitmap_clearRange] at hq
    refine mod_le_of_bitAt_setBit le_rfl (fun hb => ?_) hq
    rw [bitAt_clearSpan (by decide) _ hle] at hb
    exact (h q hb.1).trans (Nat.le_of_lt habove)
  · simp only [set_or_bitOf] at hq
    exact mod_le_of_bitAt_setBit le_rfl (fun hb => (h q hb).trans (Nat.le_of_lt habove)) hq
  · exact h q hq
  · exact h q hq
  · simp only [set_or_bitOf] at hq
    exact mod_le_of_bitAt_setBit (Nat.le_of_not_lt habove) (h q) hq

/-- No sequence of commits leaves a stray bit. -/
theorem Clean.run {w : ReplayWindow} (h : Clean w) (cs : List (BitVec 64)) :
    Clean (SlidingWindow.run ReplayWindow.commit w cs).1 := by
  induction cs using List.reverseRecOn with
  | nil => exact h
  | append_singleton cs c ih =>
    rw [SlidingWindow.run_append_singleton]
    exact ih.commit c

/-! ## A window is determined by what it has accepted -/

/-- A bit is set exactly if some accepted counter of the window owns its slot. -/
theorem Represents.bitAt_iff {w : ReplayWindow} {seen : List ℕ} (h : Represents w seen)
    (hne : seen ≠ []) (hclean : Clean w) (q : ℕ) :
    bitAt w.bitmap q = true ↔
      ∃ p ∈ seen, w.maxCounter.toNat - p < 8192 ∧ p ≡ q [MOD 8192] := by
  have htracks := h.tracks hne
  have hslot : ∀ p, p ≡ q [MOD 8192] → bitAt w.bitmap p = bitAt w.bitmap q := fun p hp => by
    obtain ⟨hword, hbit⟩ := (slot_eq_iff (w := 64) (n := 128) (by decide)).2 hp
    rw [bitAt, bitAt, hword, hbit]
  constructor
  · intro hq
    -- the counter of the window that owns the slot of `q`
    have hroom := hclean q hq
    have hmod := Nat.mod_lt q (show 0 < 8192 by decide)
    obtain ⟨p, hle, hage, hp⟩ : ∃ p, p ≤ w.maxCounter.toNat ∧ w.maxCounter.toNat - p < 8192 ∧
        p ≡ q [MOD 8192] := by
      refine ⟨w.maxCounter.toNat - (w.maxCounter.toNat - q % 8192) % 8192, Nat.sub_le _ _, ?_, ?_⟩
      · have := Nat.mod_lt (w.maxCounter.toNat - q % 8192) (show 0 < 8192 by decide)
        omega
      · unfold Nat.ModEq
        omega
    exact ⟨p, (htracks.bit_iff p hle hage).1 ((hslot p hp).trans hq), hage, hp⟩
  · rintro ⟨p, hmem, hage, hp⟩
    rw [← hslot p hp]
    exact (htracks.bit_iff p (htracks.le_max p hmem) hage).2 hmem

/-- Two windows that have accepted the same counters are the same. -/
theorem Represents.eq_of_perm {w w' : ReplayWindow} {seen seen' : List ℕ} (h : Represents w seen)
    (h' : Represents w' seen') (hclean : Clean w) (hclean' : Clean w') (hperm : seen.Perm seen') :
    w = w' := by
  rcases eq_or_ne seen [] with rfl | hne
  · rw [h.default_of_nil rfl, h'.default_of_nil hperm.nil_eq.symm]
  have hne' : seen' ≠ [] := fun hnil => hne (hnil ▸ hperm).eq_nil
  have htracks := h.tracks hne
  have htracks' := h'.tracks hne'
  have hmax : w.maxCounter.toNat = w'.maxCounter.toNat :=
    le_antisymm (htracks'.le_max _ (hperm.mem_iff.1 htracks.max_mem))
      (htracks.le_max _ (hperm.mem_iff.2 htracks'.max_mem))
  have hbits : w.bitmap = w'.bitmap := by
    apply ext_bitAt
    intro q
    rw [Bool.eq_iff_iff, h.bitAt_iff hne hclean, h'.bitAt_iff hne' hclean', hmax]
    simp only [hperm.mem_iff]
  have hreceived : w.packetsReceived = w'.packetsReceived := by
    rw [h.received, h'.received, hperm.length_eq]
  have hinit : w.initialized = w'.initialized :=
    (h.initialized_iff.2 hne).trans (h'.initialized_iff.2 hne').symm
  cases w
  cases w'
  simp only [ReplayWindow.mk.injEq]
  exact ⟨BitVec.eq_of_toNat_eq hmax, hbits, hreceived, hinit⟩

/-- **Commits of nearby counters commute.** Take any reachable window and any different counters,
pairwise less than 8192 apart, each of which the window would accept. Committed in any order, all of
them are accepted, and all orders end in the same window. -/
theorem commits_commute (cs counters : List (BitVec 64)) (hnodup : counters.Nodup)
    (hnear : counters.Pairwise fun a b => a.toNat < b.toNat + 8192 ∧ b.toNat < a.toNat + 8192)
    (haccept : ∀ c ∈ counters, ((windowAfter cs).commit c).2 = true) :
    ∀ order : List (BitVec 64), order.Perm counters →
      (SlidingWindow.run ReplayWindow.commit (windowAfter cs) order).2 = order.reverse ∧
      (SlidingWindow.run ReplayWindow.commit (windowAfter cs) order).1 =
        (SlidingWindow.run ReplayWindow.commit (windowAfter cs) counters).1 := by
  have hstart := represents_windowAfter cs
  have hclean : Clean (windowAfter cs) := clean_default.run cs
  have hrun : ∀ order : List (BitVec 64), order.Perm counters →
      (SlidingWindow.run ReplayWindow.commit (windowAfter cs) order).2 = order.reverse ∧
      Represents (SlidingWindow.run ReplayWindow.commit (windowAfter cs) order).1
        ((order.reverse.map BitVec.toNat) ++ (acceptedBy cs).map BitVec.toNat) := by
    intro order hperm
    refine refines.run_of_near hstart order ?_ ?_ fun c hc => haccept c (hperm.mem_iff.1 hc)
    · exact (hperm.nodup_iff.2 hnodup).map fun _ _ h => BitVec.eq_of_toNat_eq h
    · exact hperm.symm.pairwise hnear fun h => h.symm
  intro order hperm
  obtain ⟨hlog, hrep⟩ := hrun order hperm
  have hsorted := (hrun counters (List.Perm.refl _)).2
  refine ⟨hlog, hrep.eq_of_perm hsorted (hclean.run _) (hclean.run _) ?_⟩
  refine (List.Perm.map _ ?_).append_right _
  exact (order.reverse_perm.trans hperm).trans counters.reverse_perm.symm

/-- Three counters after a gap that wipes the window, newest first. -/
theorem commits_commute_after_gap :
    (SlidingWindow.run ReplayWindow.commit (windowAfter [7#64]) [9003#64, 9002#64, 9001#64]).1 =
      (SlidingWindow.run ReplayWindow.commit (windowAfter [7#64])
        [9001#64, 9002#64, 9003#64]).1 := by
  have hnodup : [9001#64, 9002#64, 9003#64].Nodup := by decide
  have hnear : [9001#64, 9002#64, 9003#64].Pairwise fun a b =>
      a.toNat < b.toNat + 8192 ∧ b.toNat < a.toNat + 8192 := by decide
  have hseen : (acceptedBy [7#64]).map BitVec.toNat = [7] := rfl
  have haccept : ∀ c ∈ [9001#64, 9002#64, 9003#64], ((windowAfter [7#64]).commit c).2 = true := by
    intro c hc
    rw [refines.verdict (represents_windowAfter [7#64]) c, hseen]
    simp only [List.mem_cons, List.not_mem_nil, or_false] at hc
    rcases hc with rfl | rfl | rfl <;> simp [SlidingWindow.accepts]
  have hperm : [9003#64, 9002#64, 9001#64].Perm [9001#64, 9002#64, 9003#64] := by decide
  exact (commits_commute [7#64] _ hnodup hnear haccept _ hperm).2

end LightwayCffi.Expresslane
