import LightwayCffi.Client.Lock
import LightwayCffi.Client.Stepwise
import LightwayCffi.Foundations.Linearization
import LightwayCffi.Foundations.Occupancy

/-!
# Many threads, one client after the other

The other modules treat the calls of the host as happening one after the other. Here any number of
threads call the entry points at once, each body runs one access at a time, and the callbacks of the
host call back into the client as they like, from inside any body and to any depth. `lock_client`
makes the calls happen one after the other all the same: `client_linearizable` puts them in an order
that keeps real time and in which each has the return code and the effect that its body has by
itself, while a call from inside a callback is turned away with `HE_ERR_INVALID_CONN_STATE` and
changes nothing. `client_no_deadlock` says that nobody waits for itself.

`clientObject` is `lock_client` around a body (`ApiCall.routine`): the load of the owner word and
its comparison, the mutex, the store of the token, the body, the reset of the owner word and the
release of the mutex. A thread carries the stack of its active calls, innermost first. A call takes
effect when its body ends; while a body is running, the client is on the way from where the call
found it to where it will leave it (`Stands.closure`). Without the bodies the object is the lock of
`LightwayCffi.Client.Lock` (`exists_lockState`).
-/

namespace LightwayCffi.Client

namespace Guarded

open ConcurrentObject Occupancy

/-- A call of an entry point, and what the callbacks of the host do while it runs: the calls that
they make after the `k`-th access of the body. -/
inductive Invocation where
  | mk (entry : ApiCall) (reentries : ℕ → List Invocation)

namespace Invocation

def entry : Invocation → ApiCall
  | mk entry _ => entry

def reentries : Invocation → ℕ → List Invocation
  | mk _ reentries => reentries

end Invocation

/-- The points of `lock_client` and of the body inside it. A code of `none` is a panic. -/
inductive Pc where
  /-- before the load of the owner word -/
  | enter
  /-- waiting for the mutex -/
  | wait
  /-- the mutex is held, the token is not stored yet -/
  | locked
  /-- inside the body, after `k` accesses; `callbacks` are the calls that a callback still makes -/
  | closure (rest : Routine World (Option HeReturnCode)) (k : ℕ) (callbacks : List Invocation)
  /-- the body has ended, the owner word is still to be cleared -/
  | reset (code : Option HeReturnCode)
  /-- the mutex is still to be released -/
  | unlock (code : Option HeReturnCode)

/-- An active call. -/
structure Frame where
  pc : Pc
  call : Invocation

/-- The client, its mutex and its owner word. -/
structure Shared (T : Type*) where
  world : World
  holder : Option T
  lockOwner : ℕ

variable {T : Type*}

/-- A client that nobody uses. -/
def free (w : World) : Shared T where
  world := w
  holder := none
  lockOwner := 0

section Object

variable (env : Env) (token : T → ℕ)

/-- The innermost call returns: to C, or to the callback that made it. -/
def finish (m : Shared T) (code : HeReturnCode) :
    List Frame → Option (Shared T × Move (List Frame) HeReturnCode × List HeReturnCode)
  | [] => some (m, .ret code, [])
  | frame :: rest => some (m, .goto (frame :: rest), [code])

/-- One step of the thread `t`. -/
def step (t : T) (m : Shared T) :
    List Frame → Option (Shared T × Move (List Frame) HeReturnCode × List HeReturnCode)
  | [] => none
  | ⟨.enter, call⟩ :: rest =>
    if m.lockOwner = token t then finish m .errInvalidConnState rest
    else some (m, .goto (⟨.wait, call⟩ :: rest), [])
  | ⟨.wait, call⟩ :: rest =>
    if m.holder.isNone then
      some ({ m with holder := some t }, .goto (⟨.locked, call⟩ :: rest), [])
    else none
  | ⟨.locked, call⟩ :: rest =>
    some ({ m with lockOwner := token t },
      .goto (⟨.closure (call.entry.routine env) 0 (call.reentries 0), call⟩ :: rest), [])
  | ⟨.closure p k (inner :: callbacks), call⟩ :: rest =>
    some (m, .goto (⟨.enter, inner⟩ :: ⟨.closure p k callbacks, call⟩ :: rest), [])
  | ⟨.closure (.access f next) k [], call⟩ :: rest =>
    some ({ m with world := f m.world },
      .goto (⟨.closure (next m.world) (k + 1) (call.reentries (k + 1)), call⟩ :: rest), [])
  | ⟨.closure (.done code) _ [], call⟩ :: rest =>
    some (m, .goto (⟨.reset code, call⟩ :: rest), [])
  | ⟨.reset code, call⟩ :: rest =>
    some ({ m with lockOwner := 0 }, .goto (⟨.unlock code, call⟩ :: rest), [])
  | ⟨.unlock code, _⟩ :: rest => finish { m with holder := none } (code.getD .errFailed) rest

/-- The client as a concurrent object. The notes are the codes of the calls made by callbacks. -/
def clientObject :
    Object T (Shared T) Invocation (List Frame) HeReturnCode HeReturnCode where
  entry call := [⟨.enter, call⟩]
  step t _ := step env token t

end Object

/-! ## Where the threads are -/

/-- The points at which a call holds the mutex. -/
def Pc.holds : Pc → Bool
  | enter | wait => false
  | _ => true

/-- The points at which the owner word is the caller's token. -/
def Pc.owns : Pc → Bool
  | closure _ _ _ | reset _ => true
  | _ => false

def holds (stack : List Frame) : Bool := stack.any fun frame => frame.pc.holds

def owns (stack : List Frame) : Bool := stack.any fun frame => frame.pc.owns

/-- The active calls of a thread. -/
def stack : Activity Invocation (List Frame) → List Frame
  | .idle => []
  | .running _ _ frames => frames

/-- The active calls of the threads. -/
def active (threads : T → Activity Invocation (List Frame)) : T → List Frame :=
  fun t => stack (threads t)

/-- The code of a call whose body has ended. -/
def committed : List Frame → Option HeReturnCode
  | [⟨.reset code, _⟩] => some (code.getD .errFailed)
  | [⟨.unlock code, _⟩] => some (code.getD .errFailed)
  | _ => none

/-- One call by itself: the body, and `HE_ERR_FAILED` if it panics. -/
def Alone (env : Env) (w : World) (call : Invocation) (w' : World) (code : HeReturnCode) : Prop :=
  w' = (call.entry.body env w).1 ∧ code = call.entry.code env w

/-- What a thread can be doing while the client is `w`, and `a` is the client of the sequential run.
A call from inside a callback never gets past its load; outside the bodies the two agree, and inside
one the client is on its way. -/
inductive Stands (env : Env) (w a : World) : Activity Invocation (List Frame) → Prop
  | idle : Stands env w a .idle
  | enter (started : ℕ) (call : Invocation) :
    Stands env w a (.running started call [⟨.enter, call⟩])
  | wait (started : ℕ) (call : Invocation) : Stands env w a (.running started call [⟨.wait, call⟩])
  | locked (started : ℕ) (call : Invocation) (h : w = a) :
    Stands env w a (.running started call [⟨.locked, call⟩])
  | closure (started : ℕ) (call : Invocation) {p : Routine World (Option HeReturnCode)} (k : ℕ)
    (callbacks : List Invocation) (h : p.run w = call.entry.body env a) :
    Stands env w a (.running started call [⟨.closure p k callbacks, call⟩])
  | nested (started : ℕ) (call inner : Invocation) {p : Routine World (Option HeReturnCode)} (k : ℕ)
    (callbacks : List Invocation) (h : p.run w = call.entry.body env a) :
    Stands env w a (.running started call [⟨.enter, inner⟩, ⟨.closure p k callbacks, call⟩])
  | reset (started : ℕ) (call : Invocation) (code : Option HeReturnCode) (h : w = a) :
    Stands env w a (.running started call [⟨.reset code, call⟩])
  | unlock (started : ℕ) (call : Invocation) (code : Option HeReturnCode) (h : w = a) :
    Stands env w a (.running started call [⟨.unlock code, call⟩])

/-- A thread outside the mutex does not care for the client. -/
theorem Stands.of_outside {env : Env} {w a w' a' : World} {act : Activity Invocation (List Frame)}
    (h : Stands env w a act) (hout : holds (stack act) = false) : Stands env w' a' act := by
  cases h with
  | idle => exact .idle
  | enter started call => exact .enter started call
  | wait started call => exact .wait started call
  | _ => exact absurd hout (by simp [holds, stack, Pc.holds])

/-- The owner word for the thread that is inside. -/
def ownerWord (token : T → ℕ) : Option T → ℕ
  | none => 0
  | some t => token t

/-- The shared client shows the client `a` of the sequential run. -/
structure Shows (env : Env) (token : T → ℕ) (m : Shared T)
    (threads : T → Activity Invocation (List Frame)) (a : World) : Prop where
  stands : ∀ t, Stands env m.world a (threads t)
  holder : Held holds (active threads) m.holder
  owner : ∃ inside, m.lockOwner = ownerWord token inside ∧ Held owns (active threads) inside
  free : m.holder = none → m.world = a

section Steps

variable [DecidableEq T] {env : Env} {token : T → ℕ} {m m' : Shared T}
  {threads : T → Activity Invocation (List Frame)} {a a' : World} {t : T}
  {act : Activity Invocation (List Frame)}

theorem active_update (threads : T → Activity Invocation (List Frame)) (t : T)
    (act : Activity Invocation (List Frame)) :
    active (Function.update threads t act) = Function.update (active threads) t (stack act) :=
  Function.comp_update stack threads t act

/-- A step of `t`: the other threads stay where they are, and if the client has changed they are
outside. -/
theorem Shows.step_of (h : Shows env token m threads a) {frames : List Frame}
    (hplace : active threads t = frames) (hown : Stands env m'.world a' act)
    (hothers : holds frames = true ∨ m'.world = m.world ∧ a' = a)
    (hholder : Held holds (Function.update (active threads) t (stack act)) m'.holder)
    (howner : ∃ inside, m'.lockOwner = ownerWord token inside ∧
      Held owns (Function.update (active threads) t (stack act)) inside)
    (hfree : m'.holder = none → m'.world = a') :
    Shows env token m' (Function.update threads t act) a' := by
  rw [← active_update] at hholder howner
  refine ⟨fun u => ?_, hholder, howner, hfree⟩
  rcases eq_or_ne u t with rfl | hne
  · rwa [Function.update_self]
  · rw [Function.update_of_ne hne]
    rcases hothers with hholds | ⟨hw, ha⟩
    · refine (h.stands u).of_outside ?_
      cases hu : holds (active threads u) with
      | false => exact hu
      | true => exact absurd (h.holder.eq_of_mem (hplace ▸ hholds) hu) hne
    · rw [hw, ha]
      exact h.stands u

/-- A step that neither takes nor gives up anything. -/
theorem Shows.stay (h : Shows env token m threads a) {frames : List Frame}
    (hplace : active threads t = frames) (hown : Stands env m'.world a' act)
    (hothers : holds frames = true ∨ m'.world = m.world ∧ a' = a)
    (hholder : m'.holder = m.holder) (howner : m'.lockOwner = m.lockOwner)
    (hholds : holds (stack act) = holds frames) (howns : owns (stack act) = owns frames)
    (hfree : m.holder = none → m'.world = a') :
    Shows env token m' (Function.update threads t act) a' := by
  obtain ⟨inside, hword, hheld⟩ := h.owner
  refine h.step_of hplace hown hothers ?_ ⟨inside, howner.trans hword, ?_⟩ (hholder ▸ hfree)
  · rw [hholder]
    exact h.holder.stay hplace hholds
  · exact hheld.stay hplace howns

omit [DecidableEq T] in
/-- The owner word is the caller's token exactly inside a body. -/
theorem Shows.owner_iff (h : Shows env token m threads a) (hinj : Function.Injective token)
    (hne : ∀ t, token t ≠ 0) (t : T) : m.lockOwner = token t ↔ owns (active threads t) = true := by
  obtain ⟨inside, hword, hheld⟩ := h.owner
  rw [hheld t, hword]
  cases inside with
  | none => simp [ownerWord, (hne t).symm]
  | some u => simp [ownerWord, hinj.eq_iff]

omit [DecidableEq T] in
/-- While a thread is inside the mutex, it is not free. -/
theorem Shows.holder_ne_none (h : Shows env token m threads a)
    (hholds : holds (active threads t) = true) : m.holder ≠ none := by
  rw [(h.holder t).1 hholds]
  exact Option.some_ne_none t

theorem holds_of_owns {frames : List Frame} (h : owns frames = true) : holds frames = true := by
  rw [owns, List.any_eq_true] at h
  obtain ⟨frame, hmem, hframe⟩ := h
  rw [holds, List.any_eq_true]
  refine ⟨frame, hmem, ?_⟩
  cases hpc : frame.pc <;> simp [hpc, Pc.owns, Pc.holds] at hframe ⊢

omit [DecidableEq T] in
/-- The owner word is clear while the thread inside the mutex has not stored its token. -/
theorem Shows.nobody_owns (h : Shows env token m threads a) {frames : List Frame}
    (hplace : active threads t = frames) (hholds : holds frames = true)
    (howns : owns frames = false) : Held owns (active threads) none := by
  obtain ⟨inside, -, hheld⟩ := h.owner
  cases inside with
  | none => exact hheld
  | some u =>
    have hu := (hheld u).2 rfl
    have heq := h.holder.eq_of_mem (hplace ▸ hholds) (holds_of_owns hu)
    rw [heq, hplace, howns] at hu
    cases hu

/-- **Every step is the end of a body or does not matter**, and a call from inside a callback that
returns was turned away. -/
theorem shows_step (hinj : Function.Injective token) (hne : ∀ t, token t ≠ 0)
    (h : Shows env token m threads a) {started : ℕ} {call : Invocation} {frames : List Frame}
    {mv : Move (List Frame) HeReturnCode} {ns : List HeReturnCode}
    (hrun : threads t = .running started call frames)
    (hstep : step env token t m frames = some (m', mv, ns)) :
    (∃ a', Advances (Alone env) committed call frames a mv a' ∧
      Shows env token m' (Function.update threads t (mv.activity started call)) a') ∧
      ∀ code ∈ ns, code = .errInvalidConnState := by
  have hplace : active threads t = frames := by rw [active, hrun, stack]
  have howner := h.owner_iff hinj hne t
  have hstands := h.stands t
  rw [hrun] at hstands
  rw [hplace] at howner
  cases hstands with
  | enter =>
    have hother : m.lockOwner ≠ token t := fun heq => by
      simpa [owns, Pc.owns] using howner.1 heq
    rw [step, if_neg hother] at hstep
    obtain ⟨rfl, rfl, rfl⟩ := hstep
    exact ⟨⟨a, .quiet rfl, h.stay hplace (.wait started call) (Or.inr ⟨rfl, rfl⟩) rfl rfl rfl rfl
      h.free⟩, by simp⟩
  | wait =>
    rw [step] at hstep
    split_ifs at hstep with hfree
    obtain ⟨rfl, rfl, rfl⟩ := hstep
    rw [Option.isNone_iff_eq_none] at hfree
    obtain ⟨inside, hword, hheld⟩ := h.owner
    have hholder := h.holder
    rw [hfree] at hholder
    exact ⟨⟨a, .quiet rfl, h.step_of hplace (.locked started call (h.free hfree))
      (Or.inr ⟨rfl, rfl⟩) (hholder.enter rfl) ⟨inside, hword, hheld.stay hplace rfl⟩ nofun⟩,
      by simp⟩
  | locked _ _ hw =>
    obtain ⟨rfl, rfl, rfl⟩ := hstep
    have hbody : (call.entry.routine env).run m.world = call.entry.body env a := by
      rw [call.entry.run_routine, hw]
    exact ⟨⟨a, .quiet rfl, h.step_of hplace (.closure started call _ _ hbody) (Or.inl rfl)
      (h.holder.stay hplace rfl) ⟨some t, rfl, (h.nobody_owns hplace rfl rfl).enter rfl⟩ h.free⟩,
      by simp⟩
  | @closure _ _ p k callbacks hbody =>
    have hin : holds (active threads t) = true := by rw [hplace]; rfl
    cases callbacks with
    | cons inner callbacks =>
      obtain ⟨rfl, rfl, rfl⟩ := hstep
      exact ⟨⟨a, .quiet rfl, h.stay hplace (.nested started call inner k callbacks hbody)
        (Or.inl rfl) rfl rfl rfl rfl h.free⟩, by simp⟩
    | nil =>
      cases p with
      | access f next =>
        obtain ⟨rfl, rfl, rfl⟩ := hstep
        exact ⟨⟨a, .quiet rfl, h.stay hplace (.closure started call _ _ hbody) (Or.inl rfl) rfl rfl
          rfl rfl fun hnone => absurd hnone (h.holder_ne_none hin)⟩, by simp⟩
      | done code =>
        obtain ⟨rfl, rfl, rfl⟩ := hstep
        -- the body has ended, and has done what it does by itself
        have halone : Alone env a call m.world (code.getD .errFailed) := by
          rw [Alone, ApiCall.code, ← hbody]
          exact ⟨rfl, rfl⟩
        exact ⟨⟨m.world, .point rfl rfl halone, h.stay hplace (.reset started call code rfl)
          (Or.inl rfl) rfl rfl rfl rfl fun _ => rfl⟩, by simp⟩
  | @nested _ _ inner p k callbacks hbody =>
    have hmine : m.lockOwner = token t := howner.2 rfl
    rw [step, if_pos hmine, finish] at hstep
    obtain ⟨rfl, rfl, rfl⟩ := hstep
    exact ⟨⟨a, .quiet rfl, h.stay hplace (.closure started call k callbacks hbody) (Or.inl rfl) rfl
      rfl rfl rfl h.free⟩, by simp⟩
  | reset _ _ code hw =>
    obtain ⟨rfl, rfl, rfl⟩ := hstep
    obtain ⟨inside, -, hheld⟩ := h.owner
    exact ⟨⟨a, .quiet rfl, h.step_of hplace (.unlock started call code hw) (Or.inl rfl)
      (h.holder.stay hplace rfl) ⟨none, rfl, hheld.leave hplace rfl rfl⟩ h.free⟩, by simp⟩
  | unlock _ _ code hw =>
    rw [step, finish] at hstep
    obtain ⟨rfl, rfl, rfl⟩ := hstep
    obtain ⟨inside, hword, hheld⟩ := h.owner
    exact ⟨⟨a, .quiet rfl, h.step_of hplace .idle (Or.inl rfl) (h.holder.leave hplace rfl rfl)
      ⟨inside, hword, hheld.stay hplace rfl⟩ fun _ => hw⟩, by simp⟩

end Steps

/-! ## Every run -/

variable [DecidableEq T] {env : Env} {token : T → ℕ} {w : World}
  {c : Config T (Shared T) Invocation (List Frame) HeReturnCode HeReturnCode}

theorem simulation_client (hinj : Function.Injective token) (hne : ∀ t, token t ≠ 0)
    (m : Shared T) :
    Simulation (clientObject env token) m (Alone env) committed (Shows env token) where
  entry _ := rfl
  call {c a t} h hidle started call := by
    have hplace : active c.threads t = [] := by rw [active, hidle, stack]
    exact h.stay hplace (.enter started call) (Or.inr ⟨rfl, rfl⟩) rfl rfl rfl rfl h.free
  step _ h hrun hstep := (shows_step hinj hne h hrun hstep).1

omit [DecidableEq T] in
theorem shows_free (w : World) : Shows env token (free w : Shared T) (fun _ => .idle) w where
  stands _ := .idle
  holder := by simp [Held, active, stack, holds, free]
  owner := ⟨none, rfl, by simp [Held, active, stack, owns]⟩
  free _ := rfl

omit [DecidableEq T] in
/-- When no call is under way, the lock is free and the client is that of the sequential run. -/
theorem Shows.eq_free {m : Shared T} {threads : T → Activity Invocation (List Frame)} {a : World}
    (h : Shows env token m threads a) (hidle : ∀ t, threads t = .idle) :
    m = Guarded.free a := by
  have hstack : ∀ t, active threads t = [] := fun t => by rw [active, hidle, stack]
  have hholder : m.holder = none := h.holder.eq_none fun t => by rw [hstack]; rfl
  obtain ⟨inside, hword, hheld⟩ := h.owner
  obtain rfl : inside = none := hheld.eq_none fun t => by rw [hstack]; rfl
  have hworld := h.free hholder
  obtain ⟨world, holder, lockOwner⟩ := m
  cases hholder
  cases hword
  cases hworld
  rfl

/-- What holds of every run: the shared client shows some sequential one. -/
theorem exists_shows (hinj : Function.Injective token) (hne : ∀ t, token t ≠ 0)
    (h : Reachable (clientObject env token) (free w) c) :
    ∃ points a, Sequential (Alone env) w points a ∧ Linearizes c.log points ∧
      Shows env token c.shared c.threads a :=
  (simulation_client hinj hne _).linearizable h (shows_free w)

/-- The calls that callbacks make are turned away. -/
theorem notes_rejected (hinj : Function.Injective token) (hne : ∀ t, token t ≠ 0)
    (h : Reachable (clientObject env token) (free w) c) :
    ∀ code ∈ notes c.log, code = .errInvalidConnState := by
  induction h with
  | refl => simp [notes, Config.init]
  | @tail c c' hreach hstep ih =>
    obtain ⟨points, a, -, -, hshows⟩ := exists_shows hinj hne hreach
    obtain ⟨t, hturn⟩ := hstep
    generalize hact : c.threads t = act at hturn
    cases hturn with
    | call _ call => simpa [notes_append] using ih
    | goto h =>
      have hns := (shows_step hinj hne hshows hact h).2
      simp only [notes_append, notes_noteEntries, List.mem_append]
      rintro code (hold | hnew)
      · exact ih code hold
      · exact hns code hnew
    | ret h =>
      have hns := (shows_step hinj hne hshows hact h).2
      simp only [notes_append, notes_noteEntries, notes_returned, List.append_nil, List.mem_append]
      rintro code (hold | hnew)
      · exact ih code hold
      · exact hns code hnew

/-- **The entry points are linearizable.** Whatever the threads and the host's callbacks do, the
calls from outside can be put in an order that keeps real time and in which each has the effect and
the code of its body alone; every call from inside a callback returns `HE_ERR_INVALID_CONN_STATE`;
and when no call is under way, the lock is free and the client is where the sequential run has got
to. -/
theorem client_linearizable (env : Env) (token : T → ℕ) (hinj : Function.Injective token)
    (hne : ∀ t, token t ≠ 0) (w : World)
    (h : Reachable (clientObject env token) (free w) c) :
    (∃ points a, Sequential (Alone env) w points a ∧ Linearizes c.log points ∧
      ((∀ t, c.threads t = .idle) → c.shared = free a)) ∧
      ∀ code ∈ notes c.log, code = .errInvalidConnState := by
  obtain ⟨points, a, hseq, hlin, hshows⟩ := exists_shows hinj hne h
  exact ⟨⟨points, a, hseq, hlin, hshows.eq_free⟩, notes_rejected hinj hne h⟩

/-! ## The lock by itself

Without the bodies the object is the lock of `LightwayCffi.Client.Lock`: what is known of that holds
here. -/

/-- The point of a call, without the body. -/
def Pc.erase : Pc → Client.Pc
  | enter => .enter
  | wait => .wait
  | locked => .locked
  | closure _ _ _ => .closure
  | reset code => .reset code.isNone
  | unlock code => .unlock code.isNone

/-- The active calls without their bodies; all but the outermost were made from inside a closure. -/
def eraseStack : List Frame → List Client.Frame
  | [] => []
  | frame :: rest => ⟨frame.pc.erase, !rest.isEmpty⟩ :: eraseStack rest

/-- A state of the lock that says the same about the mutex, the owner word and the threads. -/
structure Refines (m : Shared T) (threads : T → Activity Invocation (List Frame))
    (s : LockState T) : Prop where
  frames : ∀ t, s.stack t = eraseStack (active threads t)
  holder : s.holder = m.holder
  lockOwner : s.lockOwner = m.lockOwner

section Refinement

variable {m m' : Shared T} {threads : T → Activity Invocation (List Frame)} {s s' : LockState T}
  {t : T}

theorem Refines.move (h : Refines m threads s) {act : Activity Invocation (List Frame)}
    (hstack : s'.stack = Function.update s.stack t (eraseStack (stack act)))
    (hholder : s'.holder = m'.holder) (howner : s'.lockOwner = m'.lockOwner) :
    Refines m' (Function.update threads t act) s' := by
  refine ⟨fun u => ?_, hholder, howner⟩
  rw [hstack, active_update]
  rcases eq_or_ne u t with rfl | hne
  · rw [Function.update_self, Function.update_self]
  · rw [Function.update_of_ne hne, Function.update_of_ne hne, h.frames]

/-- A step inside a closure is none of the lock. -/
theorem Refines.stutter (h : Refines m threads s) {act : Activity Invocation (List Frame)}
    {frames : List Frame} (hplace : active threads t = frames)
    (hsame : eraseStack (stack act) = eraseStack frames) (hholder : m'.holder = m.holder)
    (howner : m'.lockOwner = m.lockOwner) : Refines m' (Function.update threads t act) s := by
  refine h.move ?_ (h.holder.trans hholder.symm) (h.lockOwner.trans howner.symm)
  have hown : eraseStack frames = s.stack t := by rw [h.frames, hplace]
  rw [hsame, hown, Function.update_eq_self]

/-- **A step of the object is a step of the lock or none.** -/
theorem Refines.exists_step (h : Refines m threads s) {started : ℕ} {call : Invocation}
    {frames : List Frame} {mv : Move (List Frame) HeReturnCode} {ns : List HeReturnCode}
    (hrun : threads t = .running started call frames)
    (hstep : step env token t m frames = some (m', mv, ns)) :
    ∃ s', Relation.ReflTransGen (LockState.Step token t) s s' ∧
      Refines m' (Function.update threads t (mv.activity started call)) s' := by
  have hplace : active threads t = frames := by rw [active, hrun, stack]
  have hstack : s.stack t = eraseStack frames := by rw [h.frames, hplace]
  -- an inner call returns to the frame below it, the outermost one leaves the thread idle
  have hfinish {m'' : Shared T} {code : HeReturnCode} {rest : List Frame}
      (hend : finish m'' code rest = some (m', mv, ns)) :
      m' = m'' ∧ stack (mv.activity started call) = rest := by
    cases rest with
    | nil =>
      obtain ⟨rfl, rfl, -⟩ := hend
      exact ⟨rfl, rfl⟩
    | cons frame rest =>
      obtain ⟨rfl, rfl, -⟩ := hend
      exact ⟨rfl, rfl⟩
  rcases frames with _ | ⟨⟨pc, inner⟩, rest⟩
  · cases hstep
  · cases pc with
    | enter =>
      rw [step] at hstep
      split_ifs at hstep with howner
      · obtain ⟨rfl, hrest⟩ := hfinish hstep
        refine ⟨_, .single (.reject hstack (h.lockOwner.trans howner)), h.move ?_ h.holder
          h.lockOwner⟩
        rw [hrest]
      · obtain ⟨rfl, rfl, -⟩ := hstep
        exact ⟨_, .single (.pass hstack fun heq => howner (h.lockOwner.symm.trans heq)),
          h.move rfl h.holder h.lockOwner⟩
    | wait =>
      rw [step] at hstep
      split_ifs at hstep with hfree
      obtain ⟨rfl, rfl, -⟩ := hstep
      rw [Option.isNone_iff_eq_none] at hfree
      exact ⟨_, .single (.acquire hstack (h.holder.trans hfree)), h.move rfl rfl h.lockOwner⟩
    | locked =>
      obtain ⟨rfl, rfl, -⟩ := hstep
      exact ⟨_, .single (.storeOwner hstack), h.move rfl h.holder rfl⟩
    | closure p k callbacks =>
      cases callbacks with
      | cons next callbacks =>
        obtain ⟨rfl, rfl, -⟩ := hstep
        exact ⟨_, .single (.reenter hstack), h.move rfl h.holder h.lockOwner⟩
      | nil =>
        cases p with
        | access f next =>
          obtain ⟨rfl, rfl, -⟩ := hstep
          exact ⟨s, .refl, h.stutter hplace rfl rfl rfl⟩
        | done code =>
          obtain ⟨rfl, rfl, -⟩ := hstep
          exact ⟨_, .single (.leave code.isNone hstack), h.move rfl h.holder h.lockOwner⟩
    | reset code =>
      obtain ⟨rfl, rfl, -⟩ := hstep
      exact ⟨_, .single (.resetOwner hstack), h.move rfl h.holder rfl⟩
    | unlock code =>
      obtain ⟨rfl, hrest⟩ := hfinish hstep
      refine ⟨_, .single (.release hstack), h.move ?_ rfl h.lockOwner⟩
      rw [hrest]

end Refinement

/-- **The lock refines `LockState`**: without the bodies, every run of the object is a run of the
lock. -/
theorem exists_lockState (h : Reachable (clientObject env token) (free w) c) :
    ∃ s, LockState.Reachable token s ∧ Refines c.shared c.threads s := by
  induction h with
  | refl => exact ⟨.init, .refl, fun _ => rfl, rfl, rfl⟩
  | @tail c c' _ hstep ih =>
    obtain ⟨s, hs, hrefines⟩ := ih
    -- the steps of one thread are steps of some thread
    have hrun {t s'} (hsteps : Relation.ReflTransGen (LockState.Step token t) s s') :
        LockState.Reachable token s' :=
      hs.trans (hsteps.lift id fun _ _ hstep => ⟨t, hstep⟩)
    obtain ⟨t, hturn⟩ := hstep
    generalize hact : c.threads t = act at hturn
    cases hturn with
    | call _ call =>
      have hidle : s.stack t = [] := by
        rw [hrefines.frames, active, hact, stack, eraseStack]
      exact ⟨_, hrun (.single (.call hidle)), hrefines.move rfl hrefines.holder hrefines.lockOwner⟩
    | goto h =>
      obtain ⟨s', hsteps, hrefines'⟩ := hrefines.exists_step hact h
      exact ⟨s', hrun hsteps, hrefines'⟩
    | ret h =>
      obtain ⟨s', hsteps, hrefines'⟩ := hrefines.exists_step hact h
      exact ⟨s', hrun hsteps, hrefines'⟩

/-! ## A call that runs alone -/

section Alone

omit [DecidableEq T]

variable {t : T} {call : Invocation}

/-- The callbacks make their calls, and each is turned away. -/
theorem solo_callbacks {p : Routine World (Option HeReturnCode)} {k : ℕ} {s' : Shared T}
    {code : HeReturnCode} {ns : List HeReturnCode} (callbacks : List Invocation)
    (h : Solo (clientObject env token) t call ⟨w, some t, token t⟩ [⟨.closure p k [], call⟩] s'
      code ns) :
    Solo (clientObject env token) t call ⟨w, some t, token t⟩ [⟨.closure p k callbacks, call⟩] s'
      code (callbacks.map (fun _ => .errInvalidConnState) ++ ns) := by
  induction callbacks with
  | nil => exact h
  | cons inner callbacks ih =>
    have hreject : step env token t ⟨w, some t, token t⟩
        [⟨.enter, inner⟩, ⟨.closure p k callbacks, call⟩] =
          some (⟨w, some t, token t⟩, .goto [⟨.closure p k callbacks, call⟩],
            [.errInvalidConnState]) := by
      rw [step, if_pos rfl, finish]
    exact .move rfl (.note hreject ih)

/-- A body that is inside runs to its end. -/
theorem solo_closure (env : Env) (token : T → ℕ) (t : T) (call : Invocation)
    (p : Routine World (Option HeReturnCode)) (w : World) (k : ℕ) (callbacks : List Invocation) :
    ∃ ns, (∀ code ∈ ns, code = .errInvalidConnState) ∧
      Solo (clientObject env token) t call ⟨w, some t, token t⟩ [⟨.closure p k callbacks, call⟩]
        (free (p.run w).1) ((p.run w).2.getD .errFailed) ns := by
  induction p generalizing w k callbacks with
  | done code =>
    refine ⟨_, ?_, solo_callbacks callbacks (.move rfl (.move rfl (.ret rfl)))⟩
    simp
  | access f next ih =>
    obtain ⟨ns, hns, hsolo⟩ := ih w (f w) (k + 1) (call.reentries (k + 1))
    refine ⟨_, ?_, solo_callbacks callbacks (.move rfl hsolo)⟩
    intro code hcode
    rcases List.mem_append.1 hcode with hcode | hcode
    · obtain ⟨-, -, rfl⟩ := List.mem_map.1 hcode
      rfl
    · exact hns code hcode

/-- **A call that runs alone returns**, with the effect and the code of its body, whatever the
callbacks try; and it leaves the lock free. -/
theorem client_call_returns (env : Env) (token : T → ℕ) (hne : ∀ t, token t ≠ 0) (w : World) (t : T)
    (call : Invocation) :
    ∃ ns, (∀ code ∈ ns, code = .errInvalidConnState) ∧
      Solo (clientObject env token) t call (free w) [⟨.enter, call⟩]
        (free (call.entry.body env w).1) (call.entry.code env w) ns := by
  obtain ⟨ns, hns, hsolo⟩ :=
    solo_closure env token t call (call.entry.routine env) w 0 (call.reentries 0)
  rw [call.entry.run_routine] at hsolo
  have henter : step env token t (free w) [⟨.enter, call⟩] =
      some (free w, .goto [⟨.wait, call⟩], []) := by
    rw [step]
    exact if_neg fun heq => hne t heq.symm
  exact ⟨ns, hns, .move henter (.move rfl (.move rfl hsolo))⟩

/-- The tokens of two threads. -/
def sampleToken (t : Bool) : ℕ := if t then 1 else 2

/-- A thread that disconnects. -/
def plainCall : Invocation := .mk (.disconnect (okReply [])) fun _ => []

/-- A thread that disconnects, with a callback that does so after the second access. -/
def nosyCall : Invocation :=
  .mk (.disconnect (okReply [])) fun k => if k = 2 then [plainCall] else []

/-- A new client that is told to disconnect, with a callback that tries to do so as well. -/
theorem client_call_returns_nosyCall :
    ∃ ns, (∀ code ∈ ns, code = .errInvalidConnState) ∧
      Solo (clientObject sampleEnv sampleToken) true nosyCall (free sampleWorld)
        [⟨.enter, nosyCall⟩] (free (completeDisconnect sampleWorld)) .success ns :=
  client_call_returns sampleEnv sampleToken (by decide) sampleWorld true nosyCall

end Alone

/-! ## Two threads and a callback

Two threads disconnect at once, and a `state_change_cb` tries to disconnect as well. -/

/-- The client after a disconnect. -/
def disconnectedWorld : World := completeDisconnect sampleWorld

theorem solo_nosyCall :
    Solo (clientObject sampleEnv sampleToken) true nosyCall (free sampleWorld)
      [⟨.enter, nosyCall⟩] (free disconnectedWorld) .success [.errInvalidConnState] :=
  .move rfl <| .move rfl <| .move rfl <| .move rfl <| .move rfl <| .move rfl <| .note rfl <|
    .move rfl <| .move rfl <| .move rfl <| .move rfl <| .move rfl <| .ret rfl

theorem solo_plainCall :
    Solo (clientObject sampleEnv sampleToken) false plainCall (free disconnectedWorld)
      [⟨.enter, plainCall⟩] (free disconnectedWorld) .success [] :=
  .move rfl <| .move rfl <| .move rfl <| .move rfl <| .move rfl <| .move rfl <| .move rfl <|
    .move rfl <| .ret rfl

/-- Both calls have returned. -/
def crowdedConfig :
    Config Bool (Shared Bool) Invocation (List Frame) HeReturnCode HeReturnCode where
  shared := free disconnectedWorld
  threads _ := .idle
  log :=
    [⟨true, .called nosyCall⟩,
      ⟨false, .called plainCall⟩,
      ⟨true, .noted .errInvalidConnState⟩,
      ⟨true, .returned 0 nosyCall .success⟩,
      ⟨false, .returned 1 plainCall .success⟩]

theorem reachable_crowdedConfig :
    Reachable (clientObject sampleEnv sampleToken) (free sampleWorld) crowdedConfig := by
  have hinit : Reachable (clientObject sampleEnv sampleToken) (free sampleWorld)
    (.init (free sampleWorld)) := .refl
  have hfirst := hinit.tail (.turn true (.call _ _ nosyCall))
  have hsecond := hfirst.tail (.turn false (.call _ _ plainCall))
  have hdone := (hsecond.trans (solo_nosyCall.steps rfl _)).trans (solo_plainCall.steps rfl _)
  have hidle : crowdedConfig.threads = Function.update (Function.update (Function.update
      (Function.update (fun _ => .idle) true (.running 0 nosyCall [⟨.enter, nosyCall⟩])) false
        (.running 1 plainCall [⟨.enter, plainCall⟩])) true .idle) false .idle := by
    funext t
    cases t <;> rfl
  have hsplit : crowdedConfig = ⟨crowdedConfig.shared, crowdedConfig.threads, crowdedConfig.log⟩ :=
    rfl
  rw [hsplit, hidle]
  exact hdone

theorem sampleToken_injective : Function.Injective sampleToken := by decide

/-- Two disconnects at once are two disconnects in a row. -/
theorem client_linearizable_crowdedConfig :
    (∃ points, Sequential (Alone sampleEnv) sampleWorld points disconnectedWorld ∧
      Linearizes crowdedConfig.log points) ∧
      ∀ code ∈ notes crowdedConfig.log, code = .errInvalidConnState := by
  obtain ⟨⟨points, a, hseq, hlin, hquiet⟩, hnotes⟩ :=
    client_linearizable sampleEnv sampleToken sampleToken_injective (by decide) sampleWorld
      reachable_crowdedConfig
  obtain rfl : disconnectedWorld = a := congrArg Shared.world (hquiet fun _ => rfl)
  exact ⟨⟨points, hseq, hlin⟩, hnotes⟩

/-! ## No deadlock -/

omit [DecidableEq T] in
/-- A call can go on if it is inside the mutex, or if the mutex is free. -/
theorem Stands.isSome_step {m : Shared T} {a : World} {t : T} {started : ℕ} {call : Invocation}
    {frames : List Frame} (h : Stands env w a (.running started call frames))
    (hfree : holds frames = true ∨ m.holder = none) : (step env token t m frames).isSome := by
  cases h with
  | enter =>
    rw [step]
    split_ifs <;> rfl
  | wait =>
    rcases hfree with hholds | hnone
    · cases hholds
    · rw [step, hnone]
      rfl
  | @closure _ _ p k callbacks _ =>
    cases callbacks with
    | cons inner callbacks => rfl
    | nil => cases p <;> rfl
  | nested =>
    rw [step]
    split_ifs <;> rfl
  | locked => rfl
  | reset => rfl
  | unlock => rfl

omit [DecidableEq T] in
/-- As long as a call is under way, some thread with a call under way can go on. -/
theorem Shows.exists_step {m : Shared T} {threads : T → Activity Invocation (List Frame)}
    {a : World} (h : Shows env token m threads a) (hbusy : ∃ t, threads t ≠ .idle) :
    ∃ t started call frames, threads t = .running started call frames ∧
      (step env token t m frames).isSome := by
  cases hholder : m.holder with
  | none =>
    obtain ⟨t, ht⟩ := hbusy
    have hstands := h.stands t
    cases hact : threads t with
    | idle => exact absurd hact ht
    | running started call frames =>
      rw [hact] at hstands
      exact ⟨t, started, call, frames, hact, hstands.isSome_step (Or.inr hholder)⟩
  | some t =>
    have hholds := (h.holder t).2 hholder
    have hstands := h.stands t
    rw [active] at hholds
    cases hact : threads t with
    | idle =>
      rw [hact] at hholds
      cases hholds
    | running started call frames =>
      rw [hact] at hholds hstands
      exact ⟨t, started, call, frames, hact, hstands.isSome_step (Or.inl hholds)⟩

section Nested

variable {m : Shared T} {threads : T → Activity Invocation (List Frame)} {s : LockState T} {t : T}
  {started : ℕ} {call : Invocation} {frame outer : Frame} {rest : List Frame}

omit [DecidableEq T] in
/-- A call that waits is the only one of its thread, which does not hold the mutex. -/
theorem Refines.wait (h : Refines m threads s) (hinv : LockState.Inv token s)
    (hrun : threads t = .running started call (frame :: rest)) (hwait : frame.pc = .wait) :
    rest = [] ∧ m.holder ≠ some t := by
  have hstack : s.stack t = ⟨.wait, !rest.isEmpty⟩ :: eraseStack rest := by
    rw [h.frames, active, hrun, stack, eraseStack, hwait, Pc.erase]
  obtain ⟨-, hrest⟩ := hinv.outer hstack nofun
  refine ⟨?_, fun hholder => ?_⟩
  · cases rest with
    | nil => rfl
    | cons frame rest => cases hrest
  · have hholds := (hinv.holder_iff t).1 (h.holder.trans hholder)
    rw [hstack, hrest] at hholds
    cases hholds

omit [DecidableEq T] in
/-- A call from inside a callback is at its load, and finds its own token. -/
theorem Refines.nested (h : Refines m threads s) (hinv : LockState.Inv token s)
    (hrun : threads t = .running started call (frame :: outer :: rest)) :
    step env token t m (frame :: outer :: rest) =
      some (m, .goto (outer :: rest), [.errInvalidConnState]) := by
  have hstack : s.stack t = ⟨frame.pc.erase, true⟩ :: eraseStack (outer :: rest) := by
    rw [h.frames, active, hrun, stack, eraseStack]
    rfl
  rcases hinv.shape_cons hstack with ⟨hnested, -⟩ | ⟨henter, hclosure⟩
  · cases hnested
  · have howner : s.lockOwner = token t := by
      rw [hinv.owner_iff, hstack, henter, hclosure]
      rfl
    obtain ⟨pc, inner⟩ := frame
    cases pc with
    | enter => rw [step, if_pos (h.lockOwner.symm.trans howner), finish]
    | _ => cases henter

end Nested

/-- **No deadlock.** In every reachable state of any number of threads: as long as a call is under
way, some thread with a call under way can go on; a call that waits for the lock is the only one of
its thread, which does not hold the lock; and a call from inside a callback is turned away with its
next step, which changes nothing. -/
theorem client_no_deadlock (env : Env) (token : T → ℕ) (hinj : Function.Injective token)
    (hne : ∀ t, token t ≠ 0) (w : World) (h : Reachable (clientObject env token) (free w) c) :
    ((∃ t, c.threads t ≠ .idle) →
      ∃ t started call frames, c.threads t = .running started call frames ∧
        (step env token t c.shared frames).isSome) ∧
    (∀ t started call frame rest, c.threads t = .running started call (frame :: rest) →
      frame.pc = .wait → rest = [] ∧ c.shared.holder ≠ some t) ∧
    ∀ t started call frame outer rest,
      c.threads t = .running started call (frame :: outer :: rest) →
        step env token t c.shared (frame :: outer :: rest) =
          some (c.shared, .goto (outer :: rest), [.errInvalidConnState]) := by
  obtain ⟨points, a, -, -, hshows⟩ := exists_shows hinj hne h
  obtain ⟨s, hs, hrefines⟩ := exists_lockState h
  have hinv := hs.inv hinj hne
  refine ⟨hshows.exists_step, ?_, ?_⟩
  · intro t started call frame rest hrun hwait
    exact hrefines.wait hinv hrun hwait
  · intro t started call frame outer rest hrun
    exact hrefines.nested hinv hrun

/-- One thread waits for the lock while a callback of the other one calls again: the callback is
turned away, and so the lock is released. -/
theorem client_no_deadlock_waiting :
    ∃ (c : Config Bool (Shared Bool) Invocation (List Frame) HeReturnCode HeReturnCode)
      (outer : Frame),
      Reachable (clientObject sampleEnv sampleToken) (free sampleWorld) c ∧
      c.threads false = .running 1 plainCall [⟨.wait, plainCall⟩] ∧
      c.threads true = .running 0 nosyCall [⟨.enter, plainCall⟩, outer] ∧
      c.shared.holder = some true ∧
      (∃ t started call frames, c.threads t = .running started call frames ∧
        (step sampleEnv sampleToken t c.shared frames).isSome) ∧
      c.shared.holder ≠ some false ∧
      step sampleEnv sampleToken true c.shared [⟨.enter, plainCall⟩, outer] =
        some (c.shared, .goto [outer], [.errInvalidConnState]) := by
  have hinit : Reachable (clientObject sampleEnv sampleToken) (free sampleWorld)
    (.init (free sampleWorld)) := .refl
  have hcalls := (hinit.tail (.turn true (.call _ _ nosyCall))).tail
    (.turn false (.call _ _ plainCall))
  have hinside := (((((hcalls.tail (.turn true (.goto rfl))).tail (.turn true (.goto rfl))).tail
    (.turn true (.goto rfl))).tail (.turn true (.goto rfl))).tail (.turn true (.goto rfl))).tail
    (.turn true (.goto rfl))
  have hwaiting := hinside.tail (.turn false (.goto rfl))
  obtain ⟨hgo, hwait, hnested⟩ := client_no_deadlock sampleEnv sampleToken sampleToken_injective
    (by decide) sampleWorld hwaiting
  exact ⟨_, _, hwaiting, rfl, rfl, rfl, hgo ⟨true, nofun⟩, (hwait false _ _ _ _ rfl rfl).2,
    hnested true _ _ _ _ _ rfl⟩

end Guarded

end LightwayCffi.Client
