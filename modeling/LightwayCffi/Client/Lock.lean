import Mathlib.Logic.Function.Basic
import Mathlib.Logic.Relation
import Mathlib.Tactic.Common

/-!
# The re-entrancy-aware lock

Every entry point of the client runs under `lock_client`: a non-reentrant mutex, and beside it an
owner word that holds the token of the thread that is inside. The word is read *before* the mutex is
taken, so that a C callback that calls back into the client is rejected instead of blocking on the
mutex that its own thread holds.

The model is a step relation over any number of threads. A thread carries the stack of its active
calls, innermost first; a call is at one of the points of `Pc`, and one step of a thread is one
atomic access of the source: the load of the owner word with its comparison, the acquisition of the
mutex, the store of the token, the end of the closure (by return or by panic), the store of zero by
`OwnerReset`, the release of the guard. A closure may call again at any point, and the stack grows
without bound as far as the relation is concerned. The calls are those with a non-null client.

`lockClient_safe` is the result: in every reachable state of every interleaving, at most one thread
is inside a closure; a token in the owner word belongs to the thread that holds the mutex; a call
made from inside a closure is at its load, and its only step is to return
`HE_ERR_INVALID_CONN_STATE`; and a call made from outside never returns that code.
-/

namespace LightwayCffi.Client

/-- The points of `lock_client`. -/
inductive Pc where
  /-- before the load of the owner word -/
  | enter
  /-- waiting for the mutex -/
  | wait
  /-- the mutex is held, the token is not stored yet -/
  | locked
  /-- inside the closure -/
  | closure
  /-- the closure has returned or panicked; the owner word is still to be cleared -/
  | reset (panicked : Bool)
  /-- the guard is still to be dropped -/
  | unlock (panicked : Bool)
  deriving DecidableEq

/-- The points at which the call holds the mutex. -/
def Pc.holds : Pc → Bool
  | enter => false
  | wait => false
  | locked => true
  | closure => true
  | reset _ => true
  | unlock _ => true

/-- The points at which the owner word is the caller's token. -/
def Pc.owns : Pc → Bool
  | enter => false
  | wait => false
  | locked => false
  | closure => true
  | reset _ => true
  | unlock _ => false

/-- An active call: where it is, and whether it was made from inside a closure of its thread. -/
structure Frame where
  pc : Pc
  nested : Bool
  deriving DecidableEq

/-- How a call of `lock_client` ends. -/
inductive LockResult where
  | ok
  | invalidConnState
  | unwound
  deriving DecidableEq

/-- A call that has ended. -/
structure Returned (T : Type*) where
  thread : T
  nested : Bool
  result : LockResult

/-- The state of one client's lock and of the threads that use it. -/
structure LockState (T : Type*) where
  stack : T → List Frame
  /-- the thread that holds the mutex -/
  holder : Option T
  /-- the owner word, `0` when nobody is inside -/
  lockOwner : ℕ
  /-- the calls that have ended, oldest first -/
  returns : List (Returned T)

namespace LockState

variable {T : Type*}

/-- Nobody has called yet. -/
def init : LockState T where
  stack _ := []
  holder := none
  lockOwner := 0
  returns := []

/-- The thread `t` runs a closure. -/
def InClosure (s : LockState T) (t : T) : Prop := ∃ f ∈ s.stack t, f.pc = .closure

section Steps

variable [DecidableEq T] (token : T → ℕ)

/-- The atomic steps of the thread `t`. -/
inductive Step (t : T) : LockState T → LockState T → Prop
  /-- an entry point is called from outside -/
  | call {s : LockState T} (h : s.stack t = []) :
    Step t s { s with stack := Function.update s.stack t [⟨.enter, false⟩] }
  /-- a callback that the closure runs calls an entry point -/
  | reenter {s : LockState T} {n : Bool} {rest : List Frame}
    (h : s.stack t = ⟨.closure, n⟩ :: rest) :
    Step t s { s with stack := Function.update s.stack t (⟨.enter, true⟩ :: ⟨.closure, n⟩ :: rest) }
  /-- the owner word is the caller's token -/
  | reject {s : LockState T} {n : Bool} {rest : List Frame} (h : s.stack t = ⟨.enter, n⟩ :: rest)
    (howner : s.lockOwner = token t) :
    Step t s { s with
      stack := Function.update s.stack t rest
      returns := s.returns ++ [⟨t, n, .invalidConnState⟩] }
  /-- the owner word is not the caller's token -/
  | pass {s : LockState T} {n : Bool} {rest : List Frame} (h : s.stack t = ⟨.enter, n⟩ :: rest)
    (howner : s.lockOwner ≠ token t) :
    Step t s { s with stack := Function.update s.stack t (⟨.wait, n⟩ :: rest) }
  /-- the mutex is free; a poisoned one is taken all the same -/
  | acquire {s : LockState T} {n : Bool} {rest : List Frame} (h : s.stack t = ⟨.wait, n⟩ :: rest)
    (hfree : s.holder = none) :
    Step t s { s with
      stack := Function.update s.stack t (⟨.locked, n⟩ :: rest)
      holder := some t }
  | storeOwner {s : LockState T} {n : Bool} {rest : List Frame}
    (h : s.stack t = ⟨.locked, n⟩ :: rest) :
    Step t s { s with
      stack := Function.update s.stack t (⟨.closure, n⟩ :: rest)
      lockOwner := token t }
  /-- the closure returns, or panics -/
  | leave {s : LockState T} {n : Bool} {rest : List Frame} (panicked : Bool)
    (h : s.stack t = ⟨.closure, n⟩ :: rest) :
    Step t s { s with stack := Function.update s.stack t (⟨.reset panicked, n⟩ :: rest) }
  /-- `OwnerReset` is dropped -/
  | resetOwner {s : LockState T} {n panicked : Bool} {rest : List Frame}
    (h : s.stack t = ⟨.reset panicked, n⟩ :: rest) :
    Step t s { s with
      stack := Function.update s.stack t (⟨.unlock panicked, n⟩ :: rest)
      lockOwner := 0 }
  /-- the guard is dropped, and the call returns or unwinds further -/
  | release {s : LockState T} {n panicked : Bool} {rest : List Frame}
    (h : s.stack t = ⟨.unlock panicked, n⟩ :: rest) :
    Step t s { s with
      stack := Function.update s.stack t rest
      holder := none
      returns := s.returns ++ [⟨t, n, if panicked then .unwound else .ok⟩] }

/-- The states of all interleavings. -/
def Reachable (s : LockState T) : Prop :=
  Relation.ReflTransGen (fun s s' => ∃ t, Step token t s s') init s

end Steps

/-! ## The invariant -/

/-- The stacks that occur: a call from inside a closure never gets past its load. -/
inductive Shape : List Frame → Prop
  | idle : Shape []
  | outer (pc : Pc) : Shape [⟨pc, false⟩]
  | inner : Shape [⟨.enter, true⟩, ⟨.closure, false⟩]

/-- A thread with this stack holds the mutex. -/
def holdsMutex (stack : List Frame) : Bool := stack.any fun f => f.pc.holds

/-- The owner word is the token of a thread with this stack. -/
def ownsWord (stack : List Frame) : Bool := stack.any fun f => f.pc.owns

theorem Pc.holds_of_owns {pc : Pc} (h : pc.owns = true) : pc.holds = true := by
  cases pc with
  | enter => exact absurd h Bool.false_ne_true
  | wait => exact absurd h Bool.false_ne_true
  | locked => rfl
  | closure => rfl
  | reset panicked => rfl
  | unlock panicked => rfl

theorem holdsMutex_of_ownsWord {stack : List Frame} (h : ownsWord stack = true) :
    holdsMutex stack = true := by
  unfold ownsWord at h
  unfold holdsMutex
  rw [List.any_eq_true] at h ⊢
  obtain ⟨f, hf, howns⟩ := h
  exact ⟨f, hf, Pc.holds_of_owns howns⟩

/-- The invariant of the lock. -/
structure Inv (token : T → ℕ) (s : LockState T) : Prop where
  shape : ∀ t, Shape (s.stack t)
  holder_iff : ∀ t, s.holder = some t ↔ holdsMutex (s.stack t) = true
  owner_iff : ∀ t, s.lockOwner = token t ↔ ownsWord (s.stack t) = true
  owner_token : s.lockOwner ≠ 0 → ∃ t, s.lockOwner = token t
  returns_iff : ∀ r ∈ s.returns, r.result = .invalidConnState ↔ r.nested = true

variable {token : T → ℕ}

theorem inv_init (hne : ∀ t, token t ≠ 0) : Inv token (init : LockState T) where
  shape _ := .idle
  holder_iff t := by
    unfold init holdsMutex
    simp
  owner_iff t := by
    unfold init ownsWord
    simp [(hne t).symm]
  owner_token h := absurd rfl h
  returns_iff r hr := absurd hr List.not_mem_nil

section Update

variable {s : LockState T} {t : T}

/-- One more call has ended. -/
theorem Inv.returns_append (h : Inv token s) {r : Returned T}
    (hr : r.result = .invalidConnState ↔ r.nested = true) :
    ∀ r' ∈ s.returns ++ [r], r'.result = .invalidConnState ↔ r'.nested = true := by
  intro r' hr'
  rcases List.mem_append.1 hr' with hold | hnew
  · exact h.returns_iff r' hold
  · rw [List.mem_singleton.1 hnew]
    exact hr

/-- The frames below the innermost one are as the shape says. -/
theorem Inv.shape_cons (h : Inv token s) {f : Frame} {rest : List Frame}
    (hstack : s.stack t = f :: rest) :
    (f.nested = false ∧ rest = []) ∨
      (f = ⟨.enter, true⟩ ∧ rest = [⟨.closure, false⟩]) := by
  have hshape := h.shape t
  rw [hstack] at hshape
  cases hshape with
  | outer pc => exact Or.inl ⟨rfl, rfl⟩
  | inner => exact Or.inr ⟨rfl, rfl⟩

/-- A call past its load was made from outside. -/
theorem Inv.outer (h : Inv token s) {pc : Pc} {n : Bool} {rest : List Frame}
    (hstack : s.stack t = ⟨pc, n⟩ :: rest) (hpc : pc ≠ .enter) : n = false ∧ rest = [] := by
  rcases h.shape_cons hstack with houter | ⟨hf, -⟩
  · exact houter
  · cases hf
    exact absurd rfl hpc

theorem Inv.holder_of_inClosure (h : Inv token s) (hin : s.InClosure t) :
    s.holder = some t := by
  obtain ⟨f, hf, hpc⟩ := hin
  rw [h.holder_iff t]
  unfold holdsMutex
  rw [List.any_eq_true]
  refine ⟨f, hf, ?_⟩
  rw [hpc]
  rfl

variable [DecidableEq T]

/-- What has to be checked of a step of `t`: its own stack, and that the mutex and the owner word
say the same of the other threads as before. -/
theorem Inv.update (h : Inv token s) {stack : List Frame} {holder : Option T} {owner : ℕ}
    {returns : List (Returned T)} (hshape : Shape stack)
    (hholder : holder = some t ↔ holdsMutex stack = true)
    (hholder' : ∀ u, u ≠ t → (holder = some u ↔ s.holder = some u))
    (howner : owner = token t ↔ ownsWord stack = true)
    (howner' : ∀ u, u ≠ t → (owner = token u ↔ s.lockOwner = token u))
    (htoken : owner ≠ 0 → ∃ u, owner = token u)
    (hreturns : ∀ r ∈ returns, r.result = .invalidConnState ↔ r.nested = true) :
    Inv token ⟨Function.update s.stack t stack, holder, owner, returns⟩ := by
  have key : ∀ u, Shape (Function.update s.stack t stack u) ∧
      (holder = some u ↔ holdsMutex (Function.update s.stack t stack u) = true) ∧
      (owner = token u ↔ ownsWord (Function.update s.stack t stack u) = true) := by
    intro u
    by_cases hu : u = t
    · subst hu
      rw [Function.update_self]
      exact ⟨hshape, hholder, howner⟩
    · rw [Function.update_of_ne hu]
      exact ⟨h.shape u, (hholder' u hu).trans (h.holder_iff u),
        (howner' u hu).trans (h.owner_iff u)⟩
  exact ⟨fun u => (key u).1, fun u => (key u).2.1, fun u => (key u).2.2, htoken, hreturns⟩

/-- A step that touches neither the mutex nor the owner word. -/
theorem Inv.move (h : Inv token s) {old stack : List Frame} {returns : List (Returned T)}
    (hstack : s.stack t = old) (hshape : Shape stack) (hholds : holdsMutex stack = holdsMutex old)
    (howns : ownsWord stack = ownsWord old)
    (hreturns : ∀ r ∈ returns, r.result = .invalidConnState ↔ r.nested = true) :
    Inv token ⟨Function.update s.stack t stack, s.holder, s.lockOwner, returns⟩ := by
  apply h.update hshape
  · rw [hholds, ← hstack]
    exact h.holder_iff t
  · intro u _
    exact Iff.rfl
  · rw [howns, ← hstack]
    exact h.owner_iff t
  · intro u _
    exact Iff.rfl
  · exact h.owner_token
  · exact hreturns

/-- `t` takes the mutex. -/
theorem Inv.acquire (h : Inv token s) (hstack : s.stack t = [⟨.wait, false⟩])
    (hfree : s.holder = none) :
    Inv token ⟨Function.update s.stack t [⟨.locked, false⟩], some t, s.lockOwner, s.returns⟩ := by
  apply h.update (.outer .locked)
  · exact iff_of_true rfl rfl
  · intro u hu
    rw [hfree]
    simp [Ne.symm hu]
  · rw [h.owner_iff t, hstack]
    exact Iff.rfl
  · intro u _
    exact Iff.rfl
  · exact h.owner_token
  · exact h.returns_iff

/-- `t` stores its token. Nobody else owned the word, because nobody else holds the mutex. -/
theorem Inv.storeOwner (hinj : Function.Injective token) (h : Inv token s)
    (hstack : s.stack t = [⟨.locked, false⟩]) :
    Inv token ⟨Function.update s.stack t [⟨.closure, false⟩], s.holder, token t, s.returns⟩ := by
  have hholder : s.holder = some t := (h.holder_iff t).2 (by rw [hstack]; rfl)
  apply h.update (.outer .closure)
  · exact iff_of_true hholder rfl
  · intro u _
    exact Iff.rfl
  · exact iff_of_true rfl rfl
  · intro u hu
    apply iff_of_false
    · intro heq
      exact hu (hinj heq).symm
    · intro heq
      have hu' := (h.holder_iff u).2 (holdsMutex_of_ownsWord ((h.owner_iff u).1 heq))
      rw [hholder] at hu'
      exact hu (Option.some.inj hu').symm
  · intro _
    exact ⟨t, rfl⟩
  · exact h.returns_iff

/-- `t` clears the word while it still holds the mutex. -/
theorem Inv.resetOwner (hinj : Function.Injective token) (hne : ∀ t, token t ≠ 0)
    (h : Inv token s) {panicked : Bool} (hstack : s.stack t = [⟨.reset panicked, false⟩]) :
    Inv token ⟨Function.update s.stack t [⟨.unlock panicked, false⟩], s.holder, 0, s.returns⟩ := by
  have howner : s.lockOwner = token t := (h.owner_iff t).2 (by rw [hstack]; rfl)
  apply h.update (.outer (.unlock panicked))
  · rw [h.holder_iff t, hstack]
    exact Iff.rfl
  · intro u _
    exact Iff.rfl
  · exact iff_of_false (hne t).symm Bool.false_ne_true
  · intro u hu
    rw [howner]
    exact iff_of_false (hne u).symm fun heq => hu (hinj heq).symm
  · intro hzero
    exact absurd rfl hzero
  · exact h.returns_iff

/-- `t` releases the mutex, and its call has ended. -/
theorem Inv.release (h : Inv token s) {panicked : Bool} {r : Returned T}
    (hstack : s.stack t = [⟨.unlock panicked, false⟩])
    (hr : r.result = .invalidConnState ↔ r.nested = true) :
    Inv token ⟨Function.update s.stack t [], none, s.lockOwner, s.returns ++ [r]⟩ := by
  have hholder : s.holder = some t := (h.holder_iff t).2 (by rw [hstack]; rfl)
  apply h.update .idle
  · exact iff_of_false (Option.some_ne_none t).symm Bool.false_ne_true
  · intro u hu
    rw [hholder]
    simp [Ne.symm hu]
  · rw [h.owner_iff t, hstack]
    exact Iff.rfl
  · intro u _
    exact Iff.rfl
  · exact h.owner_token
  · exact h.returns_append hr

end Update

variable [DecidableEq T]

/-- **One step of any thread keeps the invariant.** -/
theorem Inv.step (hinj : Function.Injective token) (hne : ∀ t, token t ≠ 0) {s s' : LockState T}
    {t : T} (h : Inv token s) (hstep : Step token t s s') : Inv token s' := by
  cases hstep with
  | call hstack => exact h.move hstack (.outer .enter) rfl rfl h.returns_iff
  | reenter hstack =>
    obtain ⟨hn, rfl⟩ | ⟨hf, -⟩ := h.shape_cons hstack
    · subst hn
      exact h.move hstack .inner rfl rfl h.returns_iff
    · cases hf
  | reject hstack howner =>
    -- the caller owns the word, so it is inside a closure already
    have howns := (h.owner_iff t).1 howner
    obtain ⟨hn, rfl⟩ | ⟨hf, rfl⟩ := h.shape_cons hstack
    · rw [hstack] at howns
      exact absurd howns Bool.false_ne_true
    · cases hf
      exact h.move hstack (.outer .closure) rfl rfl (h.returns_append (iff_of_true rfl rfl))
  | pass hstack howner =>
    obtain ⟨hn, rfl⟩ | ⟨hf, rfl⟩ := h.shape_cons hstack
    · subst hn
      exact h.move hstack (.outer .wait) rfl rfl h.returns_iff
    · -- a call from inside a closure finds its own token
      cases hf
      exact absurd ((h.owner_iff t).2 (by rw [hstack]; rfl)) howner
  | acquire hstack hfree =>
    obtain ⟨rfl, rfl⟩ := h.outer hstack (by simp)
    exact h.acquire hstack hfree
  | storeOwner hstack =>
    obtain ⟨rfl, rfl⟩ := h.outer hstack (by simp)
    exact h.storeOwner hinj hstack
  | leave panicked hstack =>
    obtain ⟨rfl, rfl⟩ := h.outer hstack (by simp)
    exact h.move hstack (.outer (.reset panicked)) rfl rfl h.returns_iff
  | resetOwner hstack =>
    obtain ⟨rfl, rfl⟩ := h.outer hstack (by simp)
    exact h.resetOwner hinj hne hstack
  | @release _ panicked _ hstack =>
    obtain ⟨rfl, rfl⟩ := h.outer hstack (by simp)
    refine h.release hstack ?_
    cases panicked with
    | false => exact iff_of_false (by simp) Bool.false_ne_true
    | true => exact iff_of_false (by simp) Bool.false_ne_true

/-- The invariant holds in every reachable state. -/
theorem Reachable.inv (hinj : Function.Injective token) (hne : ∀ t, token t ≠ 0)
    {s : LockState T} (h : Reachable token s) : Inv token s := by
  unfold Reachable at h
  induction h with
  | refl => exact inv_init hne
  | tail _ hstep ih =>
    obtain ⟨t, hstep⟩ := hstep
    exact ih.step hinj hne hstep

/-! ## What the lock guarantees -/

/-- A call from inside a closure has one step, and that step returns. -/
theorem Inv.step_of_nested {s s' : LockState T} {t : T} {f g : Frame} {rest : List Frame}
    (h : Inv token s) (hstack : s.stack t = f :: g :: rest) (hstep : Step token t s s') :
    s' = { s with
      stack := Function.update s.stack t (g :: rest)
      returns := s.returns ++ [⟨t, true, .invalidConnState⟩] } := by
  obtain ⟨-, hnil⟩ | ⟨rfl, hrest⟩ := h.shape_cons hstack
  · cases hnil
  · cases hrest
    have howner : s.lockOwner = token t := (h.owner_iff t).2 (by rw [hstack]; rfl)
    cases hstep with
    | call hs =>
      rw [hstack] at hs
      cases hs
    | reject hs _ =>
      rw [hstack] at hs
      cases hs
      rfl
    | pass hs hnot => exact absurd howner hnot
    | reenter hs =>
      rw [hstack] at hs
      cases hs
    | acquire hs _ =>
      rw [hstack] at hs
      cases hs
    | storeOwner hs =>
      rw [hstack] at hs
      cases hs
    | leave _ hs =>
      rw [hstack] at hs
      cases hs
    | resetOwner hs =>
      rw [hstack] at hs
      cases hs
    | release hs =>
      rw [hstack] at hs
      cases hs

theorem Inv.exists_step_of_nested {s : LockState T} {t : T} {f g : Frame} {rest : List Frame}
    (h : Inv token s) (hstack : s.stack t = f :: g :: rest) :
    f.pc = .enter ∧ ∃ s', Step token t s s' := by
  obtain ⟨-, hnil⟩ | ⟨rfl, hrest⟩ := h.shape_cons hstack
  · cases hnil
  · cases hrest
    exact ⟨rfl, _, .reject hstack ((h.owner_iff t).2 (by rw [hstack]; rfl))⟩

/-- **The lock is safe, re-entrancy is always detected, and never wrongly.** In every reachable
state of every interleaving of threads with distinct non-zero tokens:

* at most one thread is inside a closure;
* a non-zero owner word is the token of the thread that holds the mutex;
* a call made by a thread that is inside a closure (it lies on top of another call of its thread) is
  at its load of the owner word, where it does not wait, and has exactly one next step, by which it
  returns `HE_ERR_INVALID_CONN_STATE`;
* of the calls that have ended, those that returned `HE_ERR_INVALID_CONN_STATE` are those that were
  made from inside a closure, whether earlier closures returned or panicked. -/
theorem lockClient_safe (hinj : Function.Injective token) (hne : ∀ t, token t ≠ 0)
    {s : LockState T} (h : Reachable token s) :
    (∀ t u, s.InClosure t → s.InClosure u → t = u) ∧
    (s.lockOwner ≠ 0 → ∃ t, s.lockOwner = token t ∧ s.holder = some t) ∧
    (∀ t f g rest, s.stack t = f :: g :: rest →
      f.pc = .enter ∧ (∃ s', Step token t s s') ∧
        ∀ s', Step token t s s' → s' = { s with
          stack := Function.update s.stack t (g :: rest)
          returns := s.returns ++ [⟨t, true, .invalidConnState⟩] }) ∧
    (∀ r ∈ s.returns, r.result = .invalidConnState ↔ r.nested = true) := by
  have hinv := h.inv hinj hne
  refine ⟨?_, ?_, ?_, hinv.returns_iff⟩
  · intro t u ht hu
    have hholder := hinv.holder_of_inClosure ht
    rw [hinv.holder_of_inClosure hu] at hholder
    exact (Option.some.inj hholder).symm
  · intro hzero
    obtain ⟨t, ht⟩ := hinv.owner_token hzero
    exact ⟨t, ht, (hinv.holder_iff t).2 (holdsMutex_of_ownsWord ((hinv.owner_iff t).1 ht))⟩
  · intro t f g rest hstack
    obtain ⟨hpc, hstep⟩ := hinv.exists_step_of_nested hstack
    exact ⟨hpc, hstep, fun s' => hinv.step_of_nested hstack⟩

/-- Two threads with tokens 1 and 2; the second waits for the mutex while a callback of the first
calls again. -/
theorem lockClient_safe_two_threads : ∃ s : LockState Bool,
    Reachable (fun t => if t then 1 else 2) s ∧
      s.stack true = [⟨.enter, true⟩, ⟨.closure, false⟩] ∧ s.stack false = [⟨.wait, false⟩] ∧
      ∀ s', Step (fun t => if t then 1 else 2) true s s' →
        s'.returns = [⟨true, true, .invalidConnState⟩] := by
  have hinj : Function.Injective fun t : Bool => if t then 1 else 2 := by
    intro t u h
    cases t <;> cases u <;> simp_all
  have hne : ∀ t : Bool, (if t then 1 else 2) ≠ 0 := by decide
  have hreach : Relation.ReflTransGen
      (fun s s' => ∃ t, Step (fun t : Bool => if t then 1 else 2) t s s') init _ :=
    .tail (.tail (.tail (.tail (.tail (.tail (.tail .refl
      ⟨true, .call rfl⟩) ⟨true, .pass rfl (by decide)⟩) ⟨false, .call rfl⟩)
      ⟨false, .pass rfl (by decide)⟩) ⟨true, .acquire rfl rfl⟩) ⟨true, .storeOwner rfl⟩)
      ⟨true, .reenter rfl⟩
  refine ⟨_, hreach, rfl, rfl, fun s' hstep => ?_⟩
  obtain ⟨-, -, hnested, -⟩ := lockClient_safe hinj hne hreach
  obtain ⟨-, -, honly⟩ := hnested true _ _ _ rfl
  rw [honly s' hstep]
  rfl

end LockState

end LightwayCffi.Client
