import Mathlib.Data.List.Induction

/-!
# Loops that may fail

A `for` loop with state goes through a list and may fail at each turn. The rules for it carry an
invariant that knows which turns are done: the loop succeeds and ends with the invariant for all of
them, if each turn succeeds and takes the invariant to one turn more. `exists_foldlM` is for an
arbitrary list, `exists_foldlM_range` for a range of indices.
-/

namespace Loop

variable {ι σ : Type*}

theorem exists_foldlM {f : σ → ι → Option σ} {s : σ} (l : List ι) (P : List ι → σ → Prop)
    (hstart : P [] s)
    (hstep : ∀ x ∈ l, ∀ done s, P done s → ∃ s', f s x = some s' ∧ P (done ++ [x]) s') :
    ∃ s', l.foldlM f s = some s' ∧ P l s' := by
  induction l using List.reverseRecOn with
  | nil => exact ⟨s, rfl, hstart⟩
  | append_singleton l x ih =>
    obtain ⟨s', hs', hP⟩ := ih fun y hy => hstep y (List.mem_append_left _ hy)
    obtain ⟨s'', hs'', hP'⟩ := hstep x (by simp) l s' hP
    refine ⟨s'', ?_, hP'⟩
    rw [List.foldlM_append, hs']
    simpa using hs''

theorem exists_foldlM_range {f : σ → ℕ → Option σ} {n : ℕ} {s : σ} (P : ℕ → σ → Prop)
    (hstart : P 0 s) (hstep : ∀ i < n, ∀ s, P i s → ∃ s', f s i = some s' ∧ P (i + 1) s') :
    ∃ s', (List.range n).foldlM f s = some s' ∧ P n s' := by
  induction n with
  | zero => exact ⟨s, rfl, hstart⟩
  | succ n ih =>
    obtain ⟨s', hs', hP⟩ := ih fun i hi => hstep i (by omega)
    obtain ⟨s'', hs'', hP'⟩ := hstep n (by omega) s' hP
    refine ⟨s'', ?_, hP'⟩
    rw [List.range_succ, List.foldlM_append, hs']
    simpa using hs''

end Loop
