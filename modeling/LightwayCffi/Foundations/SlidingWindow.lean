import Mathlib.Data.List.Induction
import Mathlib.Data.List.Nodup
import Mathlib.Order.Nat
import Mathlib.Tactic.Common

/-!
# Sliding-window duplicate filters

A duplicate filter of size `W` is offered natural numbers and remembers, in the abstract, all the
numbers it has accepted. It accepts a number exactly when it is new and no accepted number is `W`
or more above it (`accepts`); with `m` the largest accepted number this is the usual rule, above
`m`, or less than `W` below it and not seen (`accepts_iff_of_max`).

An implementation forgets most of what it accepted. `Refines` says that its verdict and its next
state agree with the abstract filter along a relation `R` between its states and the accepted
numbers, and `Refines.run` carries this to every sequence of offers. What every refining
implementation inherits is `Refines.nodup_run`: nothing is accepted twice.

An implementation that keeps one bit per number of the window below its maximum is described by
`Tracks`, whatever the layout of its bits: the bit of a number *in the window* says whether the
number was accepted. `Tracks.advance` and `Tracks.insert` are its two kinds of update.
-/

namespace SlidingWindow

/-- The verdict of the filter that has accepted `seen`. -/
def accepts (W : ℕ) (seen : List ℕ) (c : ℕ) : Bool :=
  decide (c ∉ seen ∧ ∀ x ∈ seen, x < c + W)

/-- The accepted numbers after one offer, newest first. -/
def offer (W : ℕ) (seen : List ℕ) (c : ℕ) : List ℕ :=
  if accepts W seen c then c :: seen else seen

/-- What is accepted after more offers were accepted would have been accepted before. -/
theorem accepts_of_subset {W : ℕ} {seen seen' : List ℕ} {c : ℕ} (h : accepts W seen' c = true)
    (hsub : seen ⊆ seen') : accepts W seen c = true := by
  rw [accepts, decide_eq_true_eq] at h ⊢
  exact ⟨fun hmem => h.1 (hsub hmem), fun x hx => h.2 x (hsub hx)⟩

theorem subset_offer (W : ℕ) (seen : List ℕ) (c : ℕ) : seen ⊆ offer W seen c := by
  rw [offer]
  split_ifs
  · exact List.subset_cons_self c seen
  · exact List.Subset.refl seen

/-- Accepted or not, an offer is refused from then on. -/
theorem accepts_offer_self (W : ℕ) (seen : List ℕ) (c : ℕ) :
    accepts W (offer W seen c) c = false := by
  rw [offer]
  split_ifs with h
  · rw [accepts, decide_eq_false_iff_not]
    exact fun hc => hc.1 List.mem_cons_self
  · exact Bool.eq_false_iff.2 h

theorem accepts_nil (W c : ℕ) : accepts W [] c = true := by
  simp [accepts]

/-- The verdict in terms of the largest accepted number. -/
theorem accepts_iff_of_max {W : ℕ} {seen : List ℕ} {m c : ℕ} (hm : m ∈ seen)
    (hle : ∀ x ∈ seen, x ≤ m) :
    accepts W seen c = true ↔ m < c ∨ (m - c < W ∧ c ∉ seen) := by
  simp only [accepts, decide_eq_true_eq]
  constructor
  · rintro ⟨hc, hlt⟩
    have := hlt m hm
    rcases Nat.lt_or_ge m c with h | h
    · exact Or.inl h
    · exact Or.inr ⟨by omega, hc⟩
  · rintro (h | ⟨h, hc⟩)
    · refine ⟨fun hcs => ?_, fun x hx => ?_⟩
      · have := hle c hcs
        omega
      · have := hle x hx
        omega
    · refine ⟨hc, fun x hx => ?_⟩
      have := hle x hx
      omega

/-! ## Windows of bits -/

/-- The bits of the numbers less than `W` below `m`, the largest number of `seen`, say which of them
are in `seen`. -/
structure Tracks (W m : ℕ) (bit : ℕ → Bool) (seen : List ℕ) : Prop where
  max_mem : m ∈ seen
  le_max : ∀ x ∈ seen, x ≤ m
  bit_iff : ∀ p, p ≤ m → m - p < W → (bit p = true ↔ p ∈ seen)

namespace Tracks

variable {W m c : ℕ} {bit bit' : ℕ → Bool} {seen : List ℕ}

theorem singleton (hc : ∀ p, p ≤ c → c - p < W → (bit p = true ↔ p = c)) :
    Tracks W c bit [c] where
  max_mem := List.mem_singleton_self c
  le_max x hx := (List.mem_singleton.1 hx).le
  bit_iff p hp hage := by rw [hc p hp hage, List.mem_singleton]

/-- The maximum moves up to `c`: the bits of the numbers that stay in the window are kept, those of
the numbers that were skipped are clear, and that of `c` is set. -/
theorem advance (h : Tracks W m bit seen) (hlt : m < c) (hset : bit' c = true)
    (hskip : ∀ p, m < p → p < c → c - p < W → bit' p = false)
    (hkeep : ∀ p, p ≤ m → c - p < W → bit' p = bit p) : Tracks W c bit' (c :: seen) where
  max_mem := List.mem_cons_self
  le_max x hx := by
    rcases List.mem_cons.1 hx with rfl | hx
    · exact le_rfl
    · exact (h.le_max x hx).trans hlt.le
  bit_iff p hp hage := by
    rw [List.mem_cons]
    rcases Nat.lt_or_ge m p with hmp | hpm
    · have hseen : p ∉ seen := fun hs => absurd (h.le_max p hs) (Nat.not_le.2 hmp)
      rcases eq_or_ne p c with rfl | hpc
      · simp [hset]
      · simp [hskip p hmp (by omega) hage, hpc, hseen]
    · rw [hkeep p hpm hage, h.bit_iff p hpm (by omega)]
      simp [show p ≠ c by omega]

/-- A number of the window is recorded in place. -/
theorem insert (h : Tracks W m bit seen) (hle : c ≤ m)
    (hbit : ∀ p, p ≤ m → m - p < W → (bit' p = true ↔ bit p = true ∨ p = c)) :
    Tracks W m bit' (c :: seen) where
  max_mem := List.mem_cons_of_mem c h.max_mem
  le_max x hx := by
    rcases List.mem_cons.1 hx with rfl | hx
    · exact hle
    · exact h.le_max x hx
  bit_iff p hp hage := by
    rw [hbit p hp hage, h.bit_iff p hp hage, List.mem_cons, or_comm]

theorem accepts_iff (h : Tracks W m bit seen) :
    accepts W seen c = true ↔ m < c ∨ (m - c < W ∧ c ∉ seen) :=
  accepts_iff_of_max h.max_mem h.le_max

end Tracks

/-! ## Implementations -/

section Implementation

variable {S κ : Type*} (commit : S → κ → S × Bool)

/-- One offer to an implementation, with the log of what it accepted, newest first. -/
def step (s : S × List κ) (c : κ) : S × List κ :=
  ((commit s.1 c).1, if (commit s.1 c).2 then c :: s.2 else s.2)

/-- The state of an implementation after a sequence of offers, and what it accepted. -/
def run (s : S) (cs : List κ) : S × List κ := cs.foldl (step commit) (s, [])

@[simp] theorem run_nil (s : S) : run commit s [] = (s, []) := rfl

theorem run_append_singleton (s : S) (cs : List κ) (c : κ) :
    run commit s (cs ++ [c]) = step commit (run commit s cs) c := by
  rw [run, List.foldl_append, ← run]
  rfl

variable {commit}

/-- Only what was offered is accepted. -/
theorem run_subset (s : S) (cs : List κ) : (run commit s cs).2 ⊆ cs := by
  induction cs using List.reverseRecOn with
  | nil => exact List.Subset.refl []
  | append_singleton cs c ih =>
    intro x hx
    rw [run_append_singleton, step] at hx
    split_ifs at hx
    · rcases List.mem_cons.1 hx with rfl | hx
      · simp
      · exact List.mem_append_left _ (ih hx)
    · exact List.mem_append_left _ (ih hx)

/-- The implementation `commit` refines the filter of size `W` along `R`, reading an offer `c` as
the number `val c`. -/
structure Refines (commit : S → κ → S × Bool) (W : ℕ) (val : κ → ℕ) (R : S → List ℕ → Prop) :
    Prop where
  verdict : ∀ {s seen}, R s seen → ∀ c, (commit s c).2 = accepts W seen (val c)
  next : ∀ {s seen}, R s seen → ∀ c, R (commit s c).1 (offer W seen (val c))

namespace Refines

variable {W : ℕ} {val : κ → ℕ} {R : S → List ℕ → Prop}

/-- One offer keeps the relation to the log. -/
theorem step (h : Refines commit W val R) {s : S × List κ} (hs : R s.1 (s.2.map val)) (c : κ) :
    R (SlidingWindow.step commit s c).1 ((SlidingWindow.step commit s c).2.map val) := by
  have hn := h.next hs c
  rw [offer, ← h.verdict hs c] at hn
  simp only [SlidingWindow.step]
  split_ifs at hn ⊢ with hc
  · exact hn
  · exact hn

/-- **A refining implementation stays related to its log** along every sequence of offers. -/
theorem run (h : Refines commit W val R) {s : S} (hs : R s []) (cs : List κ) :
    R (SlidingWindow.run commit s cs).1 ((SlidingWindow.run commit s cs).2.map val) := by
  induction cs using List.reverseRecOn with
  | nil => simpa using hs
  | append_singleton cs c ih =>
    rw [run_append_singleton]
    exact h.step ih c

/-- **Nothing is accepted twice** by a refining implementation. -/
theorem nodup_run (h : Refines commit W val R) {s : S} (hs : R s []) (cs : List κ) :
    (SlidingWindow.run commit s cs).2.Nodup := by
  induction cs using List.reverseRecOn with
  | nil => simp
  | append_singleton cs c ih =>
    have hR := h.run hs cs
    rw [run_append_singleton]
    simp only [SlidingWindow.step]
    split_ifs with hc
    · rw [h.verdict hR c] at hc
      simp only [accepts, decide_eq_true_eq] at hc
      exact List.nodup_cons.2 ⟨fun hmem => hc.1 (List.mem_map_of_mem hmem), ih⟩
    · exact ih

/-- **An offer that was made before is refused**, whether it was accepted then or not. -/
theorem refuses_again (h : Refines commit W val R) {s : S} (hs : R s []) {cs : List κ} {c : κ}
    (hc : c ∈ cs) : (commit (SlidingWindow.run commit s cs).1 c).2 = false := by
  induction cs using List.reverseRecOn with
  | nil => exact absurd hc List.not_mem_nil
  | append_singleton cs d ih =>
    have hR := h.run hs cs
    rw [run_append_singleton, SlidingWindow.step, h.verdict (h.next hR d) c]
    rcases List.mem_append.1 hc with hc | hc
    · -- refused before, and more has been accepted since
      have hbefore := ih hc
      rw [h.verdict hR c] at hbefore
      rw [Bool.eq_false_iff] at hbefore ⊢
      exact fun hafter => hbefore (accepts_of_subset hafter (subset_offer _ _ _))
    · rw [List.mem_singleton.1 hc]
      exact accepts_offer_self W _ _

/-- **Nearby offers do not get in each other's way**: offers that are all acceptable in one state,
are different and less than `W` apart, are all accepted one after the other. -/
theorem run_of_near (h : Refines commit W val R) {s : S} {seen : List ℕ} (hs : R s seen)
    (cs : List κ) (hnodup : (cs.map val).Nodup)
    (hnear : cs.Pairwise fun a b => val a < val b + W ∧ val b < val a + W)
    (hacc : ∀ c ∈ cs, (commit s c).2 = true) :
    (SlidingWindow.run commit s cs).2 = cs.reverse ∧
      R (SlidingWindow.run commit s cs).1 ((cs.reverse.map val) ++ seen) := by
  induction cs using List.reverseRecOn with
  | nil => exact ⟨rfl, hs⟩
  | append_singleton cs c ih =>
    rw [List.map_append, List.nodup_append] at hnodup
    obtain ⟨hpre, -, hcross⟩ := List.pairwise_append.1 hnear
    obtain ⟨hlog, hR⟩ := ih hnodup.1 hpre fun d hd => hacc d (List.mem_append_left _ hd)
    have hfirst := hacc c (by simp)
    rw [h.verdict hs c, accepts, decide_eq_true_eq] at hfirst
    -- the offers before `c` are not `c`, and none of them leaves it behind
    have haccept : accepts W ((cs.reverse.map val) ++ seen) (val c) = true := by
      rw [accepts, decide_eq_true_eq]
      refine ⟨fun hmem => ?_, fun x hx => ?_⟩
      · rcases List.mem_append.1 hmem with hmem | hmem
        · rw [List.map_reverse, List.mem_reverse] at hmem
          exact hnodup.2.2 _ hmem _ (by simp) rfl
        · exact hfirst.1 hmem
      · rcases List.mem_append.1 hx with hx | hx
        · obtain ⟨d, hd, rfl⟩ := List.mem_map.1 hx
          exact (hcross d (List.mem_reverse.1 hd) c (List.mem_singleton_self c)).1
        · exact hfirst.2 x hx
    have hverdict := h.verdict hR c
    have hnext := h.next hR c
    rw [haccept] at hverdict
    rw [offer, if_pos haccept] at hnext
    rw [run_append_singleton]
    simp only [SlidingWindow.step, hverdict, if_true]
    refine ⟨?_, ?_⟩
    · rw [hlog, List.reverse_append]
      rfl
    · rw [List.reverse_append]
      exact hnext

end Refines

end Implementation

end SlidingWindow
