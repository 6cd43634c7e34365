import LightwayCffi.Foundations.Deadline

/-!
# The application state of a connection (`cffi_state.rs`)

lightway-core asks for timer ticks through a callback, `cffi_schedule_tick_cb`. The shim has no
event loop of its own: it records the deadline in the connection's `CffiAppState`, tells the host
the time to the earliest deadline it has stored, and lets the host drive the ticks by calling
`he_conn_nudge`.

Instants and durations are counted in nanoseconds. The clock is not read here: every function that
calls `Instant::now()` takes the reading as an argument. Adding a duration to an instant panics
when the platform cannot represent the sum; `instantMax` is the last instant it can represent, and
`none` is that panic.

`ip_config` and the raw pointers handed on to the host's callbacks are left out: no function
modelled here reads them.
-/

namespace LightwayCffi.Client

/-! ## Ticks -/

/-- lightway-core's `TickType`. The payloads of the two retransmit ticks are opaque to the shim. -/
inductive TickType where
  | connectionTick
  | expresslaneKeyShareTick (data : ℕ)
  | pktCodecTick (data : ℕ)
  deriving DecidableEq

/-- An entry of `pending_ticks`: the deadline and the tick to hand back to `Connection::tick()`.
Plain connection ticks are never stored there. -/
structure PendingTick where
  deadline : ℕ
  tick : TickType
  isPayload : tick ≠ .connectionTick
  deriving DecidableEq

/-- `CffiAppState`. `nudgeTimeCb` says whether a `nudge_time_cb` was registered when the connection
was made. -/
structure CffiAppState where
  nextTick : Option ℕ
  pendingTicks : List PendingTick
  nudgeTimeCb : Bool
  deriving DecidableEq

/-- `CffiAppState::default()` with the registered `nudge_time_cb` filled in. -/
def CffiAppState.default (nudgeTimeCb : Bool) : CffiAppState where
  nextTick := none
  pendingTicks := []
  nudgeTimeCb := nudgeTimeCb

namespace CffiAppState

/-- Earliest pending tick deadline across the connection tick slot and the payload ticks. -/
def earliestTickDeadline (app : CffiAppState) : Option ℕ :=
  match app.nextTick, (app.pendingTicks.map (·.deadline)).min? with
  | some a, some b => some (min a b)
  | a, b => a.or b

/-- Every deadline the state holds. -/
def deadlines (app : CffiAppState) : List ℕ :=
  app.nextTick.toList ++ app.pendingTicks.map (·.deadline)

theorem earliestTickDeadline_eq (app : CffiAppState) :
    app.earliestTickDeadline = app.deadlines.min? := by
  unfold earliestTickDeadline deadlines
  rw [Deadline.min?_append]
  cases app.nextTick <;> cases (app.pendingTicks.map (·.deadline)).min? <;> rfl

end CffiAppState

/-- The two halves a nudge splits the list into. -/
theorem partition_due (ticks : List PendingTick) (now : ℕ) :
    (ticks.partition fun p => p.deadline ≤ now) =
      (ticks.filter fun p => p.deadline ≤ now, ticks.filter fun p => now < p.deadline) := by
  rw [List.partition_eq_filter_filter]
  have hlate : (Bool.not ∘ fun p : PendingTick => decide (p.deadline ≤ now)) =
      fun p => decide (now < p.deadline) := by
    funext p
    simp [decide_not.symm]
  rw [hlate]

theorem filter_due_perm (ticks : List PendingTick) (now : ℕ) :
    ((ticks.filter fun p => p.deadline ≤ now) ++ ticks.filter fun p => now < p.deadline).Perm
      ticks := by
  have hperm := List.filter_append_perm (fun p : PendingTick => decide (p.deadline ≤ now)) ticks
  simpa [decide_not.symm] using hperm

/-! ## Timeouts -/

/-- `i32::MAX`. -/
def i32Max : ℕ := 2 ^ 31 - 1

/-- `Duration::MAX` in nanoseconds. -/
def durationMax : ℕ := 2 ^ 64 * 1000000000 - 1

/-- The C API's millisecond timeout for a duration: positive sub-millisecond durations round up. -/
def durationToTimeoutMs (duration : ℕ) : ℕ :=
  -- `saturating_add`, then `as_millis`
  min (min (duration + 999999) durationMax / 1000000) i32Max

/-- The millisecond timeout for an outstanding deadline, never `0`. The truncated difference is
`saturating_duration_since`. -/
def deadlineToTimeoutMs (deadline now : ℕ) : ℕ :=
  max (durationToTimeoutMs (deadline - now)) 1

/-- Remaining milliseconds until `deadline`; `0` when none is pending. -/
def nudgeMsUntil (deadline : Option ℕ) (now : ℕ) : ℕ :=
  match deadline with
  | some t => deadlineToTimeoutMs t now
  | none => 0

/-- The saturation never shows: by then the timeout is cut off at `i32::MAX` anyway. -/
theorem durationToTimeoutMs_eq (duration : ℕ) :
    durationToTimeoutMs duration = min (duration ⌈/⌉ 1000000) i32Max := by
  have hmax : i32Max ≤ durationMax / 1000000 := by decide
  have hceil : duration ⌈/⌉ 1000000 = (duration + 999999) / 1000000 := by
    rw [Nat.ceilDiv_eq_add_pred_div, Nat.add_sub_assoc (by decide)]
  unfold durationToTimeoutMs
  rw [hceil]
  rcases Nat.le_total (duration + 999999) durationMax with h | h
  · rw [min_eq_left h]
  · have hle : durationMax / 1000000 ≤ (duration + 999999) / 1000000 := Nat.div_le_div_right h
    rw [min_eq_right h, min_eq_right hmax, min_eq_right (hmax.trans hle)]

theorem deadlineToTimeoutMs_eq (deadline now : ℕ) :
    deadlineToTimeoutMs deadline now = Deadline.timeout 1000000 i32Max deadline now := by
  unfold deadlineToTimeoutMs Deadline.timeout
  rw [durationToTimeoutMs_eq, max_comm]

theorem deadlineToTimeoutMs_ne_zero (deadline now : ℕ) : deadlineToTimeoutMs deadline now ≠ 0 := by
  rw [deadlineToTimeoutMs_eq]
  exact Deadline.timeout_pos.ne'

/-- `0` is handed out exactly when no deadline is outstanding. -/
theorem nudgeMsUntil_eq_zero {deadline : Option ℕ} {now : ℕ} :
    nudgeMsUntil deadline now = 0 ↔ deadline = none := by
  cases deadline with
  | none => exact iff_of_true rfl rfl
  | some t => exact iff_of_false (deadlineToTimeoutMs_ne_zero t now) (Option.some_ne_none t)

/-! ## Scheduling -/

/-- The `match` of `cffi_schedule_tick_cb`: connection ticks merge into one slot that keeps the
earliest deadline, every other tick is appended with its own. -/
def CffiAppState.store (app : CffiAppState) (deadline : ℕ) (tick : TickType) : CffiAppState :=
  if h : tick = .connectionTick then
    { app with
      nextTick := some (match app.nextTick with
        | some existing => if existing ≤ deadline then existing else deadline
        | none => deadline) }
  else
    { app with pendingTicks := app.pendingTicks ++ [⟨deadline, tick, h⟩] }

/-- `cffi_schedule_tick_cb` at the clock reading `now`: the new state, and the timeout passed to
`nudge_time_cb` if one is registered. -/
def cffiScheduleTickCb (instantMax now d : ℕ) (app : CffiAppState) (tick : TickType) :
    Option (CffiAppState × Option ℕ) :=
  if now + d ≤ instantMax then
    let deadline := now + d
    let app := app.store deadline tick
    if app.nudgeTimeCb then
      let earliest := app.earliestTickDeadline.getD deadline
      some (app, some (deadlineToTimeoutMs earliest now))
    else
      some (app, none)
  else
    none

namespace CffiAppState

@[simp]
theorem store_nudgeTimeCb (app : CffiAppState) (deadline : ℕ) (tick : TickType) :
    (app.store deadline tick).nudgeTimeCb = app.nudgeTimeCb := by
  unfold store
  split <;> rfl

theorem store_connectionTick (app : CffiAppState) (deadline : ℕ) :
    app.store deadline .connectionTick =
      { app with nextTick := Option.merge min app.nextTick (some deadline) } := by
  unfold store
  rw [dif_pos rfl]
  cases app.nextTick with
  | none => rfl
  | some existing => simp [min_def]

theorem store_payload (app : CffiAppState) (p : PendingTick) :
    app.store p.deadline p.tick = { app with pendingTicks := app.pendingTicks ++ [p] } := by
  unfold store
  rw [dif_neg p.isPayload]

/-- Storing a tick adds its deadline to those that determine the earliest one. -/
theorem earliestTickDeadline_store (app : CffiAppState) (deadline : ℕ) (tick : TickType) :
    (app.store deadline tick).earliestTickDeadline =
      Option.merge min app.earliestTickDeadline (some deadline) := by
  by_cases h : tick = .connectionTick
  · subst h
    rw [store_connectionTick]
    simp only [earliestTickDeadline_eq, deadlines, Deadline.min?_append]
    cases app.nextTick <;> cases (app.pendingTicks.map (·.deadline)).min? <;>
      simp [min_comm, min_left_comm]
  · rw [store_payload app ⟨deadline, tick, h⟩]
    simp only [earliestTickDeadline_eq, deadlines, Deadline.min?_append, List.map_append,
      List.map_cons, List.map_nil, List.min?_singleton]
    cases app.nextTick <;> cases (app.pendingTicks.map (·.deadline)).min? <;>
      simp [min_assoc]

theorem earliestTickDeadline_store_ne_none (app : CffiAppState) (deadline : ℕ) (tick : TickType) :
    (app.store deadline tick).earliestTickDeadline ≠ none := by
  rw [earliestTickDeadline_store]
  cases app.earliestTickDeadline <;> simp

end CffiAppState

/-- What the callback does when it returns: the deadline is stored, and the registered host is told
the time to the earliest stored deadline. -/
theorem cffiScheduleTickCb_eq_some {instantMax now d : ℕ} {app app' : CffiAppState}
    {tick : TickType} {timeout : Option ℕ}
    (h : cffiScheduleTickCb instantMax now d app tick = some (app', timeout)) :
    app' = app.store (now + d) tick ∧
      timeout = if app.nudgeTimeCb then
          some (nudgeMsUntil (app.store (now + d) tick).earliestTickDeadline now)
        else none := by
  unfold cffiScheduleTickCb at h
  split at h
  · simp only [CffiAppState.store_nudgeTimeCb] at h
    split at h
    · rename_i hcb
      obtain ⟨e, he⟩ := Option.ne_none_iff_exists'.1
        (app.earliestTickDeadline_store_ne_none (now + d) tick)
      rw [he] at h
      obtain ⟨rfl, rfl⟩ := Prod.mk.inj (Option.some.inj h)
      rw [if_pos hcb, he]
      exact ⟨rfl, rfl⟩
    · rename_i hcb
      obtain ⟨rfl, rfl⟩ := Prod.mk.inj (Option.some.inj h)
      exact ⟨rfl, (if_neg hcb).symm⟩
  · exact absurd h (by simp)

end LightwayCffi.Client
