import Mathlib.Data.Option.Basic
import Mathlib.Tactic.Common

/-!
# Flags that are set under a lock

A flag announces that some operation has been done at least once. It is set inside the lock that
the operation holds, as the operation's last act before it leaves the lock and returns, and it is
never cleared. Readers look at it without the lock, so what it means while somebody is inside is a
matter of where exactly they are.

`Effect` is what one step of a thread may do to the lock and to the flag, where `holds` are the
places inside the lock and `last` those after the flag was set. `Inv` and `Local` are the invariant
and the assertion of a thread that come out of it, whatever the rest of the program: between
operations the flag is set if and only if the operation was done.
-/

namespace GuardedFlag

variable {T Pc : Type*}

/-- The holder of the lock, and the flag. -/
structure State (T : Type*) where
  holder : Option T
  flag : Bool

/-- What a step of `t` does: `done` says that it is the return of the announced operation. -/
inductive Effect (holds last : Pc → Bool) (t : T) : State T → Pc → State T → Pc → Bool → Prop
  | quiet {s s' : State T} {pc pc' : Pc} (hs : s' = s) (hholds : holds pc' = holds pc)
    (hlast : last pc' = last pc) : Effect holds last t s pc s' pc' false
  | acquire {s s' : State T} {pc pc' : Pc} (hfree : s.holder = none)
    (hs : s' = { s with holder := some t }) (hholds : holds pc = false) (hholds' : holds pc' = true)
    (hlast : last pc' = false) : Effect holds last t s pc s' pc' false
  | set {s s' : State T} {pc pc' : Pc} (hs : s' = { s with flag := true })
    (hholds : holds pc = true) (hholds' : holds pc' = true) (hlast : last pc' = true) :
    Effect holds last t s pc s' pc' false
  | release {s s' : State T} {pc pc' : Pc} {done : Bool} (hs : s' = { s with holder := none })
    (hholds : holds pc = true) (hdone : done = last pc) (hholds' : holds pc' = false)
    (hlast : last pc' = false) : Effect holds last t s pc s' pc' done

/-- What the flag says, where `done` is that the operation has been done. -/
structure Inv (s : State T) (done : Prop) : Prop where
  flag_of_done : done → s.flag = true
  done_of_free : s.holder = none → s.flag = true → done

/-- What holds of a thread at `pc`. -/
structure Local (holds last : Pc → Bool) (t : T) (s : State T) (done : Prop) (pc : Pc) : Prop where
  holds_iff : holds pc = true ↔ s.holder = some t
  done_or_last : holds pc = true → s.flag = true → done ∨ last pc = true
  flag_of_last : last pc = true → s.flag = true

variable {holds last : Pc → Bool} {t u : T} {s s' : State T} {pc pc' pcu : Pc} {done : Bool}
  {before after : Prop}

/-- A step keeps the invariant and the assertion of its thread. -/
theorem Effect.own (h : Effect holds last t s pc s' pc' done)
    (hdone : after ↔ before ∨ done = true) (hs : Inv s before)
    (ht : Local holds last t s before pc) :
    Inv s' after ∧ Local holds last t s' after pc' := by
  cases h with
  | quiet hs' hholds hlast =>
    obtain rfl := hs'
    have hsame : after ↔ before := by simpa using hdone
    refine ⟨⟨fun h => hs.flag_of_done (hsame.1 h), fun h h' => hsame.2 (hs.done_of_free h h')⟩, ?_⟩
    refine ⟨by rw [hholds]; exact ht.holds_iff, fun h h' => ?_, fun h => ?_⟩
    · rw [hlast]
      exact (ht.done_or_last (hholds ▸ h) h').imp_left hsame.2
    · exact ht.flag_of_last (hlast ▸ h)
  | acquire hfree hs' hholds hholds' hlast =>
    obtain rfl := hs'
    have hsame : after ↔ before := by simpa using hdone
    refine ⟨⟨fun h => hs.flag_of_done (hsame.1 h), fun h => absurd h (Option.some_ne_none t)⟩, ?_⟩
    refine ⟨by simp [hholds'], fun _ h => ?_, by simp [hlast]⟩
    exact Or.inl (hsame.2 (hs.done_of_free hfree h))
  | set hs' hholds hholds' hlast =>
    obtain rfl := hs'
    refine ⟨⟨fun _ => rfl, fun h => ?_⟩, ?_, fun _ _ => Or.inr hlast, fun _ => rfl⟩
    · exact absurd (h.symm.trans (ht.holds_iff.1 hholds)) (Option.some_ne_none t).symm
    · rw [hholds']
      exact ⟨fun _ => ht.holds_iff.1 hholds, fun _ => rfl⟩
  | release hs' hholds hret hholds' hlast =>
    obtain rfl := hs'
    -- the thread leaves the lock after it has set the flag, or the operation had been done before
    refine ⟨⟨fun h => ?_, fun _ h => hdone.2 ?_⟩, by simp [hholds'], by simp [hholds'],
      by simp [hlast]⟩
    · rcases hdone.1 h with h | h
      · exact hs.flag_of_done h
      · exact ht.flag_of_last (hret ▸ h)
    · exact (ht.done_or_last hholds h).imp_right fun h => hret.trans h

/-- A step keeps the assertion of every other thread. -/
theorem Effect.others (h : Effect holds last t s pc s' pc' done)
    (hdone : after ↔ before ∨ done = true) (ht : Local holds last t s before pc) (hne : u ≠ t)
    (hu : Local holds last u s before pcu) : Local holds last u s' after pcu := by
  -- while `t` is inside the lock, `u` is not
  have hout : holds pc = true → holds pcu = false := fun hin => by
    rw [← Bool.not_eq_true, hu.holds_iff, ht.holds_iff.1 hin, Option.some.injEq]
    exact hne.symm
  cases h with
  | quiet hs' hholds hlast =>
    obtain rfl := hs'
    exact ⟨hu.holds_iff, fun h h' => (hu.done_or_last h h').imp_left fun h => hdone.2 (Or.inl h),
      hu.flag_of_last⟩
  | acquire hfree hs' hholds hholds' hlast =>
    obtain rfl := hs'
    have hu' := hu.holds_iff
    rw [hfree] at hu'
    refine ⟨by simp [hu', hne.symm], fun h h' => ?_, hu.flag_of_last⟩
    exact (hu.done_or_last h h').imp_left fun h => hdone.2 (Or.inl h)
  | set hs' hholds hholds' hlast =>
    obtain rfl := hs'
    exact ⟨hu.holds_iff, by simp [hout hholds], fun _ => rfl⟩
  | release hs' hholds hret hholds' hlast =>
    obtain rfl := hs'
    exact ⟨by simp [hout hholds], by simp [hout hholds], hu.flag_of_last⟩

/-- **The flag is exact** whenever nobody is between setting it and returning. -/
theorem Inv.flag_iff {done : Prop} {pcOf : T → Pc} (h : Inv s done)
    (hlocal : ∀ t, Local holds last t s done (pcOf t)) (hlast : ∀ t, last (pcOf t) = false) :
    s.flag = true ↔ done := by
  refine ⟨fun hflag => ?_, h.flag_of_done⟩
  cases hholder : s.holder with
  | none => exact h.done_of_free hholder hflag
  | some t =>
    refine ((hlocal t).done_or_last ((hlocal t).holds_iff.2 hholder) hflag).resolve_right ?_
    simp [hlast t]

end GuardedFlag
