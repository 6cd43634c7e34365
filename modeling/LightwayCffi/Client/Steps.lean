import LightwayCffi.Client.Api
import Mathlib.Logic.Relation

/-!
# What a call can do

Every call of the host does its work in small steps on a world and the connection the call has in
its hands. `CoreStep` lists the steps that happen inside a call into the core, `NudgeStep` adds the
three a nudge makes itself. `Outcome` then says, for each entry point and each of its exits, which
steps were made and how the call ended. The invariants of the timers and of the state callback are
proved once per step and carried to whole calls from here, so that no later proof unfolds an entry
point again.
-/

namespace LightwayCffi.Client

open Relation (ReflTransGen)

variable {env : Env}

/-! ## Steps -/

/-- The world after a tick has been scheduled: it is recorded, and a registered host is told the
time to the earliest deadline now stored. -/
def World.schedule (w : World) (app : CffiAppState) (deadline : ℕ) (tick : TickType) : World :=
  (w.log (scheduledAction deadline tick)).notify
    (if app.nudgeTimeCb then
      some (nudgeMsUntil (app.store deadline tick).earliestTickDeadline w.now)
    else none)

@[simp]
theorem World.schedule_toHeClient (w : World) (app : CffiAppState) (deadline : ℕ)
    (tick : TickType) : (w.schedule app deadline tick).toHeClient = w.toHeClient := by
  unfold schedule
  split <;> rfl

@[simp]
theorem World.schedule_now (w : World) (app : CffiAppState) (deadline : ℕ) (tick : TickType) :
    (w.schedule app deadline tick).now = w.now := by
  unfold schedule
  split <;> rfl

/-- What scheduling a tick adds to the trace. -/
theorem World.schedule_trace (w : World) (app : CffiAppState) (deadline : ℕ) (tick : TickType) :
    (w.schedule app deadline tick).trace =
      w.trace ++ ⟨scheduledAction deadline tick, w.conn.state⟩ ::
        (if app.nudgeTimeCb then
          [⟨.nudgeTime (nudgeMsUntil (app.store deadline tick).earliestTickDeadline w.now) w.now,
            w.conn.state⟩]
        else []) := by
  unfold schedule
  split
  · simp [notify]
  · simp [notify]

/-- A step inside a call into the core. -/
inductive CoreStep : World × Connection → World × Connection → Prop where
  /-- Time passes. -/
  | elapse (w : World) (c : Connection) (n : ℕ) : CoreStep (w, c) (w.advance n, c)
  /-- A tick is scheduled. -/
  | schedule (w : World) (c : Connection) (d : ℕ) (tick : TickType) :
      CoreStep (w, c) (w.schedule c.appState (w.now + d) tick,
        { c with appState := c.appState.store (w.now + d) tick })
  /-- The core reports a state. -/
  | event (w : World) (c : Connection) (s : State) : CoreStep (w, c) (w.event c.stateChangeCb s, c)
  /-- The core's own state and tick interval change. -/
  | settle (w : World) (c : Connection) (s : State) (interval : Option ℕ) :
      CoreStep (w, c) (w, { c with state := s, tickInterval := interval })

/-- A step of a nudge. -/
inductive NudgeStep : World × Connection → World × Connection → Prop where
  | core {s t : World × Connection} (h : CoreStep s t) : NudgeStep s t
  /-- A due connection tick is consumed and handed to the core. -/
  | tickConnection (w : World) (c : Connection) (t : ℕ) (hnext : c.appState.nextTick = some t)
      (hdue : t ≤ w.now) :
      NudgeStep (w, c) (w.log .tickedConnection, { c with appState.nextTick := none })
  /-- The due payload ticks are taken out of the list. -/
  | take (w : World) (c : Connection) :
      NudgeStep (w, c) (w.log (.taken w.now), { c with
        appState.pendingTicks := c.appState.pendingTicks.filter fun p => w.now < p.deadline })
  /-- One of them is handed to the core. -/
  | tickPayload (w : World) (c : Connection) (p : PendingTick) :
      NudgeStep (w, c) (w.log (.tickedPayload p), c)

/-- **Invariant rule.** What every step preserves, a sequence of steps preserves. -/
theorem preserved_of_steps {R : World × Connection → World × Connection → Prop}
    {P : World → Connection → Prop} {w w' : World} {c c' : Connection}
    (hstep : ∀ {s t}, R s t → P s.1 s.2 → P t.1 t.2) (h : ReflTransGen R (w, c) (w', c'))
    (hP : P w c) : P w' c' := by
  suffices ∀ t, ReflTransGen R (w, c) t → P t.1 t.2 from this (w', c') h
  intro t ht
  induction ht with
  | refl => exact hP
  | tail _ hlast ih => exact hstep hlast ih

theorem nudgeSteps_of_coreSteps {s t : World × Connection} (h : ReflTransGen CoreStep s t) :
    ReflTransGen NudgeStep s t :=
  h.lift id fun _ _ => .core

/-- What no step changes: the client's settings, the connection it has stored, its cached timer, and
the callbacks the connection was made with. -/
structure Framed (w : World) (c : Connection) (w' : World) (c' : Connection) : Prop where
  sslCtx : w'.sslCtx = w.sslCtx
  connection : w'.connection = w.connection
  nudgeTimeMs : w'.conn.nudgeTimeMs = w.conn.nudgeTimeMs
  stateChangeCb : c'.stateChangeCb = c.stateChangeCb
  nudgeTimeCb : c'.appState.nudgeTimeCb = c.appState.nudgeTimeCb

theorem Framed.trans {w w₁ w' : World} {c c₁ c' : Connection} (h₁ : Framed w c w₁ c₁)
    (h₂ : Framed w₁ c₁ w' c') : Framed w c w' c' where
  sslCtx := h₂.sslCtx.trans h₁.sslCtx
  connection := h₂.connection.trans h₁.connection
  nudgeTimeMs := h₂.nudgeTimeMs.trans h₁.nudgeTimeMs
  stateChangeCb := h₂.stateChangeCb.trans h₁.stateChangeCb
  nudgeTimeCb := h₂.nudgeTimeCb.trans h₁.nudgeTimeCb

theorem CoreStep.frame {s t : World × Connection} (h : CoreStep s t) :
    Framed s.1 s.2 t.1 t.2 := by
  cases h with
  | elapse w c n => exact ⟨rfl, rfl, rfl, rfl, rfl⟩
  | schedule w c d tick => constructor <;> simp
  | event w c s => exact ⟨rfl, rfl, rfl, rfl, rfl⟩
  | settle w c s interval => exact ⟨rfl, rfl, rfl, rfl, rfl⟩

theorem NudgeStep.frame {s t : World × Connection} (h : NudgeStep s t) :
    Framed s.1 s.2 t.1 t.2 := by
  cases h with
  | core h => exact h.frame
  | tickConnection w c t hnext hdue => exact ⟨rfl, rfl, rfl, rfl, rfl⟩
  | take w c => exact ⟨rfl, rfl, rfl, rfl, rfl⟩
  | tickPayload w c p => exact ⟨rfl, rfl, rfl, rfl, rfl⟩

theorem frame_of_nudgeSteps {w w' : World} {c c' : Connection}
    (h : ReflTransGen NudgeStep (w, c) (w', c')) : Framed w c w' c' := by
  apply preserved_of_steps (P := fun w' c' => Framed w c w' c') ?_ h
  · exact ⟨rfl, rfl, rfl, rfl, rfl⟩
  · exact fun hstep hframe => hframe.trans hstep.frame

theorem frame_of_coreSteps {w w' : World} {c c' : Connection}
    (h : ReflTransGen CoreStep (w, c) (w', c')) : Framed w c w' c' :=
  frame_of_nudgeSteps (nudgeSteps_of_coreSteps h)

/-! ## Calls into the core -/

theorem scheduleTick_steps {w w' : World} {c c' : Connection} {elapsed d : ℕ} {tick : TickType}
    {panicked : Bool} (h : scheduleTick env w c elapsed d tick = (w', c', panicked)) :
    ReflTransGen CoreStep (w, c) (w', c') := by
  have helapse := CoreStep.elapse w c elapsed
  unfold scheduleTick at h
  dsimp only at h
  split at h
  · -- the addition panicked: only the clock was read
    obtain ⟨rfl, rfl, -⟩ := h
    exact .single helapse
  · rename_i app timeout happ
    obtain ⟨rfl, rfl⟩ := cffiScheduleTickCb_eq_some happ
    obtain ⟨rfl, rfl, -⟩ := h
    exact .tail (.single helapse) (.schedule (w.advance elapsed) c d tick)

theorem runCall_steps {w w' : World} {c c' : Connection} {call : CoreCall} {panicked : Bool}
    (h : runCall env w c call = (w', c', panicked)) : ReflTransGen CoreStep (w, c) (w', c') := by
  cases call with
  | scheduleTick elapsed d tick => exact scheduleTick_steps h
  | stateChanged s =>
    obtain ⟨rfl, rfl, -⟩ := h
    exact .single (.event w c s)

theorem runCalls_steps {w w' : World} {c c' : Connection} {calls : List CoreCall}
    {panicked : Bool} (h : runCalls env w c calls = (w', c', panicked)) :
    ReflTransGen CoreStep (w, c) (w', c') := by
  induction calls generalizing w c with
  | nil =>
    obtain ⟨rfl, rfl, -⟩ := h
    exact .refl
  | cons call calls ih =>
    unfold runCalls at h
    split at h
    · rename_i hcall
      obtain ⟨rfl, rfl, -⟩ := h
      exact runCall_steps hcall
    · rename_i hcall
      exact (runCall_steps hcall).trans (ih h)

/-- Whatever a call into the core does, it does in core steps. -/
theorem coreCall_steps {w w' : World} {c c' : Connection} {reply : CoreReply} {r : CoreResult}
    (h : coreCall env w c reply = (w', c', r)) : ReflTransGen CoreStep (w, c) (w', c') := by
  unfold coreCall at h
  split at h
  rename_i hcalls
  obtain ⟨rfl, rfl, -⟩ := h
  exact .tail (runCalls_steps hcalls) (.settle _ _ reply.state reply.tickInterval)

/-- A call that did not panic returned what the core returned. -/
theorem coreCall_result {w w' : World} {c c' : Connection} {reply : CoreReply} {r : CoreResult}
    (h : coreCall env w c reply = (w', c', r)) (hr : r ≠ .panic) : reply.result = r := by
  unfold coreCall at h
  split at h
  obtain ⟨-, -, rfl⟩ := h
  split at hr
  · exact absurd rfl hr
  · rename_i hpanic
    exact (if_neg hpanic).symm

/-! ## The phases of a nudge -/

/-- The runs of the dispatch loop, with the replies that the core gives in them: a callback may
panic in the last one. -/
inductive Dispatching (env : Env) (ct : ConnectionType) :
    World → Connection → List PendingTick → (ℕ → CoreReply) → List CoreReply → World → Connection →
      Dispatched → Prop where
  | done (w : World) (c : Connection) (reply : ℕ → CoreReply) :
      Dispatching env ct w c [] reply [] w c .done
  | panicked {w w₁ : World} {c c₁ : Connection} {tick : PendingTick} {due : List PendingTick}
      {reply : ℕ → CoreReply}
      (hcall : coreCall env (w.log (.tickedPayload tick)) c (reply 0) = (w₁, c₁, .panic)) :
      Dispatching env ct w c (tick :: due) reply [{ reply 0 with result := .panic }] w₁ c₁ .panicked
  | fatal {w w₁ : World} {c c₁ : Connection} {tick : PendingTick} {due : List PendingTick}
      {reply : ℕ → CoreReply} {error : ConnectionError}
      (hcall : coreCall env (w.log (.tickedPayload tick)) c (reply 0) = (w₁, c₁, .err error))
      (hfatal : env.isFatal error ct = true) :
      Dispatching env ct w c (tick :: due) reply [reply 0] w₁ c₁ (.fatal error)
  | next {w w₁ w' : World} {c c₁ c' : Connection} {tick : PendingTick} {due : List PendingTick}
      {reply : ℕ → CoreReply} {r₁ : CoreResult} {answers : List CoreReply} {r : Dispatched}
      (hcall : coreCall env (w.log (.tickedPayload tick)) c (reply 0) = (w₁, c₁, r₁))
      (hr₁ : r₁ ≠ .panic) (hbenign : ∀ error, r₁ = .err error → ¬ env.isFatal error ct = true)
      (hrest : Dispatching env ct w₁ c₁ due (fun k => reply (k + 1)) answers w' c' r) :
      Dispatching env ct w c (tick :: due) reply (reply 0 :: answers) w' c' r

theorem dispatching_of_dispatch {ct : ConnectionType} {due : List PendingTick} {w w' : World}
    {c c' : Connection} {reply : ℕ → CoreReply} {r : Dispatched}
    (h : dispatch env ct w c due reply = (w', c', r)) :
    ∃ answers, Dispatching env ct w c due reply answers w' c' r := by
  induction due generalizing w c reply with
  | nil =>
    obtain ⟨rfl, rfl, rfl⟩ := h
    exact ⟨[], .done _ _ reply⟩
  | cons tick due ih =>
    unfold dispatch at h
    split at h
    · rename_i hcall
      obtain ⟨rfl, rfl, rfl⟩ := h
      exact ⟨_, .panicked hcall⟩
    · rename_i hcall
      obtain ⟨answers, hrest⟩ := ih h
      exact ⟨_, .next hcall (by simp) (by simp) hrest⟩
    · rename_i error hcall
      split at h
      · rename_i hfatal
        obtain ⟨rfl, rfl, rfl⟩ := h
        exact ⟨_, .fatal hcall hfatal⟩
      · rename_i hfatal
        obtain ⟨answers, hrest⟩ := ih h
        refine ⟨_, .next hcall (by simp) ?_ hrest⟩
        rintro _ ⟨⟩
        exact hfatal

/-- Handing over a tick, then the core's own steps. -/
theorem tickPayload_steps {w w₁ : World} {c c₁ : Connection} {tick : PendingTick}
    {reply : CoreReply} {r₁ : CoreResult}
    (hcall : coreCall env (w.log (.tickedPayload tick)) c reply = (w₁, c₁, r₁)) :
    ReflTransGen NudgeStep (w, c) (w₁, c₁) :=
  .head (.tickPayload w c tick) (nudgeSteps_of_coreSteps (coreCall_steps hcall))

theorem dispatch_steps {ct : ConnectionType} {due : List PendingTick} {w w' : World}
    {c c' : Connection} {reply : ℕ → CoreReply} {r : Dispatched}
    (h : dispatch env ct w c due reply = (w', c', r)) : ReflTransGen NudgeStep (w, c) (w', c') := by
  replace h := dispatching_of_dispatch h
  obtain ⟨answers, h⟩ := h
  induction h with
  | done => exact .refl
  | panicked hcall => exact tickPayload_steps hcall
  | fatal hcall => exact tickPayload_steps hcall
  | next hcall _ _ _ ih => exact (tickPayload_steps hcall).trans ih

theorem retryConnectionTickAfterError_steps {w w' : World} {c c' : Connection}
    {error : ConnectionError} {ct : ConnectionType} {retryDelay elapsed : ℕ} {panicked : Bool}
    (h : retryConnectionTickAfterError env w c error ct retryDelay elapsed = (w', c', panicked)) :
    ReflTransGen CoreStep (w, c) (w', c') := by
  unfold retryConnectionTickAfterError at h
  dsimp only at h
  split at h
  · exact scheduleTick_steps h
  · obtain ⟨rfl, rfl, -⟩ := h
    exact .refl

/-- Handling the error of a tick either leaves the client alone or tears the connection down with
the timer cleared. -/
theorem handleConnectionTickError_cases (w : World) (error : ConnectionError)
    (ct : ConnectionType) :
    (handleConnectionTickError env w error ct).1 = w ∨
      (handleConnectionTickError env w error ct).1 = fatalDisconnect (w.setNudgeTime 0) := by
  unfold handleConnectionTickError
  split
  · exact .inr rfl
  · split
    · exact .inr rfl
    · exact .inl rfl

/-- A fatal error of a tick tears the connection down. -/
theorem handleConnectionTickError_of_isFatal {w : World} {error : ConnectionError}
    {ct : ConnectionType} (h : env.isFatal error ct) :
    (handleConnectionTickError env w error ct).1 = fatalDisconnect (w.setNudgeTime 0) := by
  unfold handleConnectionTickError
  rw [if_pos h]
  split <;> rfl

theorem dispatch_fatal {ct : ConnectionType} {due : List PendingTick} {w w' : World}
    {c c' : Connection} {reply : ℕ → CoreReply} {error : ConnectionError}
    (h : dispatch env ct w c due reply = (w', c', .fatal error)) : env.isFatal error ct := by
  replace h := dispatching_of_dispatch h
  obtain ⟨answers, h⟩ := h
  generalize hr : Dispatched.fatal error = r at h
  induction h with
  | done => cases hr
  | panicked => cases hr
  | fatal _ hfatal =>
    cases hr
    exact hfatal
  | next _ _ _ _ ih => exact ih hr

/-- How a nudge on a live connection ends: with the timer refreshed, with the connection torn down
and the timer cleared, or in a panic. -/
inductive NudgeExit (w : World) (c : Connection) : World → Option HeReturnCode → Prop where
  | refreshed {w' : World} {c' : Connection} (n : ℕ) (code : HeReturnCode)
      (h : ReflTransGen NudgeStep (w, c) (w', c')) :
      NudgeExit w c (refreshNudgeTime (w'.put c') c' n) (some code)
  | killed {w' : World} {c' : Connection} (code : HeReturnCode)
      (h : ReflTransGen NudgeStep (w, c) (w', c')) :
      NudgeExit w c (fatalDisconnect ((w'.put c').setNudgeTime 0)) (some code)
  | panicked {w' : World} {c' : Connection} (h : ReflTransGen NudgeStep (w, c) (w', c')) :
      NudgeExit w c (w'.put c') none

theorem NudgeExit.of_steps {w w₁ w' : World} {c c₁ : Connection} {code : Option HeReturnCode}
    (hsteps : ReflTransGen NudgeStep (w, c) (w₁, c₁)) (h : NudgeExit w₁ c₁ w' code) :
    NudgeExit w c w' code := by
  cases h with
  | refreshed n code h => exact .refreshed n code (hsteps.trans h)
  | killed code h => exact .killed code (hsteps.trans h)
  | panicked h => exact .panicked (hsteps.trans h)

theorem nudgePayload_exit (w : World) (c : Connection) (i : NudgeInput) :
    NudgeExit w c (nudgePayload env w c i).1 (nudgePayload env w c i).2 := by
  unfold nudgePayload
  simp only [partition_due]
  -- reading the clock and taking the due ticks come first
  have htake := ReflTransGen.tail (.single (.core (.elapse w c i.payloadElapsed)))
    (NudgeStep.take (w.advance i.payloadElapsed) c)
  refine .of_steps htake ?_
  split
  · rename_i hdispatch
    exact .panicked (dispatch_steps hdispatch)
  · rename_i hdispatch
    rw [handleConnectionTickError_of_isFatal (dispatch_fatal hdispatch)]
    exact .killed _ (dispatch_steps hdispatch)
  · rename_i hdispatch
    exact .refreshed _ _ (dispatch_steps hdispatch)

theorem nudgeConnectionTick_exit (w : World) (c : Connection) (i : NudgeInput) (t : ℕ)
    (hnext : c.appState.nextTick = some t) (hdue : t ≤ w.now) :
    NudgeExit w c (nudgeConnectionTick env w c i).1 (nudgeConnectionTick env w c i).2 := by
  -- the due tick is consumed and handed over before the core runs
  have htick {w₁ c₁ r₁} (hcall : coreCall env (w.log .tickedConnection)
      { c with appState.nextTick := none } i.connectionTick = (w₁, c₁, r₁)) :
      ReflTransGen NudgeStep (w, c) (w₁, c₁) :=
    .head (.tickConnection w c t hnext hdue) (nudgeSteps_of_coreSteps (coreCall_steps hcall))
  unfold nudgeConnectionTick
  dsimp only
  split
  · rename_i hcall
    exact .panicked (htick hcall)
  · rename_i hcall
    exact .of_steps (htick hcall) (nudgePayload_exit _ _ _)
  · rename_i hcall
    refine .of_steps (htick hcall) ?_
    split
    · rename_i hretry
      exact .panicked (nudgeSteps_of_coreSteps (retryConnectionTickAfterError_steps hretry))
    · rename_i w₂ c₂ hretry
      have hsteps := nudgeSteps_of_coreSteps (retryConnectionTickAfterError_steps hretry)
      dsimp only
      rcases handleConnectionTickError_cases _ _ _ with h | h
      · rw [h]
        exact .refreshed _ _ hsteps
      · -- the refreshed timer is cleared again
        have hcleared : (refreshNudgeTime (w₂.put c₂) c₂ i.timeoutElapsed).setNudgeTime 0 =
            ((w₂.advance i.timeoutElapsed).put c₂).setNudgeTime 0 := rfl
        rw [h, hcleared]
        exact .killed _ (hsteps.tail (.core (.elapse _ _ i.timeoutElapsed)))

/-- A nudge runs its first half exactly when the stored connection tick is due. -/
theorem heConnNudge_cases (w : World) (c : Connection) (i : NudgeInput)
    (hc : w.connection = some c) :
    (∃ t, c.appState.nextTick = some t ∧ t ≤ (w.advance i.connectionTickElapsed).now ∧
      heConnNudge env w i = nudgeConnectionTick env (w.advance i.connectionTickElapsed) c i) ∨
    heConnNudge env w i = nudgePayload env (w.advance i.connectionTickElapsed) c i := by
  unfold heConnNudge
  simp only [World.advance_toHeClient, hc]
  cases hnext : c.appState.nextTick with
  | none => exact .inr rfl
  | some t =>
    by_cases hdue : t ≤ (w.advance i.connectionTickElapsed).now
    · exact .inl ⟨t, rfl, hdue, if_pos (decide_eq_true hdue)⟩
    · refine .inr (if_neg ?_)
      exact fun h => hdue (of_decide_eq_true h)

theorem heConnNudge_of_none {w : World} {i : NudgeInput} (hc : w.connection = none) :
    heConnNudge env w i = (w.advance i.connectionTickElapsed, some .errInvalidConnState) := by
  unfold heConnNudge
  simp only [World.advance_toHeClient, hc]

theorem heConnNudge_exit (w : World) (c : Connection) (i : NudgeInput)
    (hc : w.connection = some c) :
    NudgeExit w c (heConnNudge env w i).1 (heConnNudge env w i).2 := by
  refine .of_steps (.single (.core (.elapse w c i.connectionTickElapsed))) ?_
  rcases heConnNudge_cases w c i hc with ⟨t, hnext, hdue, heq⟩ | heq
  · rw [heq]
    exact nudgeConnectionTick_exit _ c i t hnext hdue
  · rw [heq]
    exact nudgePayload_exit _ c i

/-! ## Whole calls -/

/-- The exits of the entry points, with the steps that lead to them. -/
inductive Outcome (w : World) : ApiCall → World → Option HeReturnCode → Prop where
  /-- The call is turned down before it touches the core. -/
  | rejected (call : ApiCall) (n : ℕ) (code : HeReturnCode) (hcode : code ≠ .success) :
      Outcome w call (w.advance n) (some code)
  /-- There is nothing to rotate yet. -/
  | notDue (reply : CoreReply) (n : ℕ) :
      Outcome w (.expresslaneRotateIfDue reply n) w (some .success)
  | connectFailed {w' : World} {c' : Connection} (i : ConnectInput) (code : Option HeReturnCode)
      (hc : w.connection = none) (hcode : code ≠ some .success)
      (h : ReflTransGen CoreStep (w.log .opened, freshConnection w.toHeClient) (w', c')) :
      Outcome w (.connect i) w' code
  | connected {w' : World} {c' : Connection} (i : ConnectInput) (hc : w.connection = none)
      (h : ReflTransGen CoreStep (w.log .opened, freshConnection w.toHeClient) (w', c')) :
      Outcome w (.connect i) (completeConnect w' c') (some .success)
  | disconnectedIdle (reply : CoreReply) (hc : w.connection = none) :
      Outcome w (.disconnect reply) (completeDisconnect w) (some .success)
  | disconnected {w' : World} {c c' : Connection} (reply : CoreReply) (hc : w.connection = some c)
      (h : ReflTransGen CoreStep (w, c) (w', c')) :
      Outcome w (.disconnect reply) (completeDisconnect (w'.put c')) (some .success)
  /-- The core was called and the connection stays. -/
  | kept {w' : World} {c c' : Connection} (call : ApiCall) (code : Option HeReturnCode)
      (hcall : ∀ i, call ≠ .connect i) (hc : w.connection = some c)
      (h : ReflTransGen CoreStep (w, c) (w', c')) : Outcome w call (w'.put c') code
  /-- A fatal error on the wire. -/
  | killed {w' : World} {c c' : Connection} (reply : CoreReply) (code : HeReturnCode)
      (hc : w.connection = some c) (h : ReflTransGen CoreStep (w, c) (w', c')) :
      Outcome w (.outsideDataReceived reply) (fatalDisconnect (w'.put c')) (some code)
  | rotated {w' : World} {c c' : Connection} (reply : CoreReply) (n : ℕ) (code : HeReturnCode)
      (hc : w.connection = some c) (h : ReflTransGen CoreStep (w, c) (w', c')) :
      Outcome w (.expresslaneRotateIfDue reply n) (refreshNudgeTime (w'.put c') c' n) (some code)
  | nudged {w' : World} {c : Connection} (i : NudgeInput) (code : Option HeReturnCode)
      (hc : w.connection = some c) (h : NudgeExit w c w' code) : Outcome w (.nudge i) w' code

theorem connection_of_clientConnectChecks {client : HeClient} {i : ConnectInput}
    (h : clientConnectChecks client i = .ok ()) : client.connection = none := by
  cases hc : client.connection with
  | none => rfl
  | some c =>
    unfold clientConnectChecks at h
    rw [hc] at h
    exact absurd h (by simp [ensure, bind, Except.bind])

theorem ensure_ne_success {holds : Bool} {code : HeReturnCode} (hcode : code ≠ .success) :
    ensure holds code ≠ .error .success := by
  unfold ensure
  split
  · exact nofun
  · exact fun h => hcode (Except.error.inj h)

theorem authCheck_ne_success (conn : HeConn) : authCheck conn ≠ .error .success := by
  unfold authCheck
  split
  · exact ensure_ne_success nofun
  · split
    · exact ensure_ne_success nofun
    · exact nofun

theorem bind_ne_success {x y : Except HeReturnCode Unit} (hx : x ≠ .error .success)
    (hy : y ≠ .error .success) : (x >>= fun _ => y) ≠ .error .success := by
  cases x with
  | error code => exact hx
  | ok _ => exact hy

/-- No check fails with `HE_SUCCESS`. -/
theorem clientConnectChecks_ne_success (client : HeClient) (i : ConnectInput) :
    clientConnectChecks client i ≠ .error .success := by
  unfold clientConnectChecks
  repeat' apply bind_ne_success
  all_goals first | exact authCheck_ne_success _ | exact ensure_ne_success nofun

theorem clientConnectLocked_outcome (w : World) (i : ConnectInput) :
    Outcome w (.connect i) (clientConnectLocked env w i).1 (clientConnectLocked env w i).2 := by
  unfold clientConnectLocked
  split
  · rename_i code hchecks
    refine .rejected _ 0 code ?_
    rintro rfl
    exact clientConnectChecks_ne_success _ _ hchecks
  · rename_i hchecks
    have hc := connection_of_clientConnectChecks hchecks
    split
    · rename_i hcall
      exact .connectFailed i none hc nofun (coreCall_steps hcall)
    · rename_i hcall
      exact .connectFailed i _ hc nofun (coreCall_steps hcall)
    · rename_i hcall
      exact .connected i hc (coreCall_steps hcall)

theorem clientDisconnectLocked_outcome (w : World) (reply : CoreReply) :
    Outcome w (.disconnect reply) (clientDisconnectLocked env w reply).1
      (clientDisconnectLocked env w reply).2 := by
  unfold clientDisconnectLocked
  split
  · rename_i hc
    exact .disconnectedIdle reply hc
  · rename_i hc
    split
    · rename_i hcall
      exact .kept _ none (by simp) hc (coreCall_steps hcall)
    · rename_i hcall
      exact .disconnected reply hc (coreCall_steps hcall)

theorem heConnOutsideDataReceived_outcome (w : World) (reply : CoreReply) :
    Outcome w (.outsideDataReceived reply) (heConnOutsideDataReceived env w reply).1
      (heConnOutsideDataReceived env w reply).2 := by
  unfold heConnOutsideDataReceived
  split
  · exact .rejected _ 0 _ nofun
  · rename_i hc
    dsimp only
    split
    · rename_i hcall
      exact .kept _ none (by simp) hc (coreCall_steps hcall)
    · rename_i hcall
      exact .kept _ _ (by simp) hc (coreCall_steps hcall)
    · rename_i hcall
      split
      · exact .killed reply _ hc (coreCall_steps hcall)
      · exact .kept _ _ (by simp) hc (coreCall_steps hcall)

theorem heConnInsidePacketReceived_outcome (w : World) (reply : CoreReply) :
    Outcome w (.insidePacketReceived reply) (heConnInsidePacketReceived env w reply).1
      (heConnInsidePacketReceived env w reply).2 := by
  unfold heConnInsidePacketReceived
  split
  · exact .rejected _ 0 _ nofun
  · rename_i hc
    split <;> rename_i hcall <;> exact .kept _ _ (by simp) hc (coreCall_steps hcall)

theorem heConnExpresslaneRotateIfDue_outcome (w : World) (reply : CoreReply) (n : ℕ) :
    Outcome w (.expresslaneRotateIfDue reply n) (heConnExpresslaneRotateIfDue env w reply n).1
      (heConnExpresslaneRotateIfDue env w reply n).2 := by
  unfold heConnExpresslaneRotateIfDue
  split
  · exact .rejected _ 0 _ nofun
  · rename_i hc
    split
    · exact .notDue reply n
    · split
      · rename_i hcall
        exact .kept _ none (by simp) hc (coreCall_steps hcall)
      · rename_i hcall
        exact .rotated reply n _ hc (coreCall_steps hcall)

theorem heConnNudge_outcome (w : World) (i : NudgeInput) :
    Outcome w (.nudge i) (heConnNudge env w i).1 (heConnNudge env w i).2 := by
  cases hc : w.connection with
  | none =>
    rw [heConnNudge_of_none hc]
    exact .rejected _ _ _ nofun
  | some c => exact .nudged i _ hc (heConnNudge_exit w c i hc)

/-- **Every call ends in one of these ways.** -/
theorem body_outcome (w : World) (call : ApiCall) :
    Outcome w call (call.body env w).1 (call.body env w).2 := by
  cases call with
  | connect i => exact clientConnectLocked_outcome w i
  | disconnect reply => exact clientDisconnectLocked_outcome w reply
  | outsideDataReceived reply => exact heConnOutsideDataReceived_outcome w reply
  | insidePacketReceived reply => exact heConnInsidePacketReceived_outcome w reply
  | nudge i => exact heConnNudge_outcome w i
  | expresslaneRotateIfDue reply n => exact heConnExpresslaneRotateIfDue_outcome w reply n

/-- Reading `he_conn_get_nudge_time` changes nothing in the client. -/
@[simp]
theorem step_toHeClient (w : World) (call : ApiCall) :
    (call.step env w).toHeClient = (call.body env w).1.toHeClient := by
  cases call <;> rfl

/-- Only after a nudge does the host read the timer. -/
theorem step_of_ne_nudge {w : World} {call : ApiCall} (hcall : ∀ i, call ≠ .nudge i) :
    call.step env w = (call.body env w).1 := by
  cases call with
  | nudge i => exact absurd rfl (hcall i)
  | _ => rfl

/-! ## Invariants between calls -/

section Invariants

/-- An invariant between calls: `G` holds of the world, and `L` of the connection it has stored. -/
structure Between (G : World → Prop) (L : World → Connection → Prop) (w : World) : Prop where
  world : G w
  live : ∀ c, w.connection = some c → L w c

variable {G : World → Prop} {L : World → Connection → Prop}

theorem between_of_none {w : World} (hG : G w) (hc : w.connection = none) : Between G L w :=
  ⟨hG, fun _ hc' => absurd (hc.symm.trans hc') nofun⟩

theorem between_of_some {w : World} {c : Connection} (hG : G w) (hc : w.connection = some c)
    (hL : L w c) : Between G L w := by
  refine ⟨hG, fun c' hc' => ?_⟩
  obtain rfl := Option.some.inj (hc.symm.trans hc')
  exact hL

/-- What has to be shown of the pieces of a call. While a call is at work `L` holds of the
connection in its hands, which a world may not have stored yet. -/
structure Stable (G : World → Prop) (L : World → Connection → Prop) : Prop where
  world : ∀ {w c}, L w c → G w
  advance : ∀ {w n}, G w → G (w.advance n)
  opened : ∀ {w}, G w → w.connection = none → L (w.log .opened) (freshConnection w.toHeClient)
  core : ∀ {s t}, CoreStep s t → L s.1 s.2 → L t.1 t.2
  put : ∀ {w c}, w.connection ≠ none → L w c → L (w.put c) c
  refreshed : ∀ {w c t}, L w c → L (w.setNudgeTime t) c
  connected : ∀ {w c}, w.connection = none → L w c → L (completeConnect w c) c
  killed : ∀ {w c}, L w c → G (fatalDisconnect w)
  disconnected : ∀ {w}, G w → G (completeDisconnect w)

namespace Stable

variable (hstable : Stable G L) {w w' : World} {c c' : Connection} {code : Option HeReturnCode}
include hstable

theorem coreSteps (h : ReflTransGen CoreStep (w, c) (w', c')) (hL : L w c) : L w' c' :=
  preserved_of_steps hstable.core h hL

/-- A call that works on the stored connection and keeps it. -/
theorem between_put (hc : w'.connection ≠ none) (hL : L w' c') : Between G L (w'.put c') :=
  have hput := hstable.put hc hL
  between_of_some (hstable.world hput) rfl hput

theorem between_refresh (hc : w'.connection ≠ none) (hL : L w' c') (n : ℕ) :
    Between G L (refreshNudgeTime (w'.put c') c' n) :=
  have hput := hstable.core (.elapse (w'.put c') c' n) (hstable.put hc hL)
  have hset : L (refreshNudgeTime (w'.put c') c' n) c' := hstable.refreshed hput
  between_of_some (hstable.world hset) rfl hset

/-- **Invariant rule for calls other than a nudge.** -/
theorem outcome {call : ApiCall} (h : Outcome w call w' code) (hcall : ∀ i, call ≠ .nudge i)
    (hinv : Between G L w) : Between G L w' := by
  -- the stored connection stays in place while the core is running
  have hstored {w₁ c c₁} (hc : w.connection = some c) (h : ReflTransGen CoreStep (w, c) (w₁, c₁)) :
      w₁.connection ≠ none := by
    rw [(frame_of_coreSteps h).connection, hc]
    exact nofun
  have hfresh (hc : w.connection = none) : L (w.log .opened) (freshConnection w.toHeClient) :=
    hstable.opened hinv.world hc
  cases h with
  | rejected _ n code _ =>
    exact ⟨hstable.advance hinv.world, fun c hc => hstable.core (.elapse w c n) (hinv.live c hc)⟩
  | notDue reply n => exact hinv
  | connectFailed i code hc _ h =>
    have hL := hstable.coreSteps h (hfresh hc)
    exact between_of_none (hstable.world hL) ((frame_of_coreSteps h).connection.trans hc)
  | connected i hc h =>
    have hL := hstable.connected ((frame_of_coreSteps h).connection.trans hc)
      (hstable.coreSteps h (hfresh hc))
    exact between_of_some (hstable.world hL) (completeConnect_connection _ _) hL
  | disconnectedIdle reply hc =>
    exact between_of_none (hstable.disconnected hinv.world) (completeDisconnect_connection _)
  | disconnected reply hc h =>
    have hput := hstable.put (hstored hc h) (hstable.coreSteps h (hinv.live _ hc))
    exact between_of_none (hstable.disconnected (hstable.world hput))
      (completeDisconnect_connection _)
  | kept _ code _ hc h =>
    exact hstable.between_put (hstored hc h) (hstable.coreSteps h (hinv.live _ hc))
  | killed reply code hc h =>
    have hput := hstable.put (hstored hc h) (hstable.coreSteps h (hinv.live _ hc))
    exact between_of_none (hstable.killed hput) (fatalDisconnect_connection _)
  | rotated reply n code hc h =>
    exact hstable.between_refresh (hstored hc h) (hstable.coreSteps h (hinv.live _ hc)) n
  | nudged i => exact absurd rfl (hcall i)

/-- **Invariant rule for a nudge**, if its own steps preserve `L` as well. -/
theorem nudgeExit (hnudge : ∀ {s t}, NudgeStep s t → L s.1 s.2 → L t.1 t.2)
    (h : NudgeExit w c w' code) (hc : w.connection = some c) (hinv : Between G L w) :
    Between G L w' := by
  have hsteps {w₁ c₁} (h : ReflTransGen NudgeStep (w, c) (w₁, c₁)) :
      w₁.connection ≠ none ∧ L w₁ c₁ := by
    refine ⟨?_, preserved_of_steps hnudge h (hinv.live c hc)⟩
    rw [(frame_of_nudgeSteps h).connection, hc]
    exact nofun
  cases h with
  | refreshed n code h =>
    obtain ⟨hstored, hL⟩ := hsteps h
    exact hstable.between_refresh hstored hL n
  | killed code h =>
    obtain ⟨hstored, hL⟩ := hsteps h
    have hset := hstable.refreshed (t := 0) (hstable.put hstored hL)
    exact between_of_none (hstable.killed hset) (fatalDisconnect_connection _)
  | panicked h =>
    obtain ⟨hstored, hL⟩ := hsteps h
    exact hstable.between_put hstored hL

/-- **Invariant rule for every call**, if reading the timer after a nudge does no harm. -/
theorem step (hnudge : ∀ {s t}, NudgeStep s t → L s.1 s.2 → L t.1 t.2)
    (hpolled : ∀ {w t n}, Between G L w → Between G L (w.log (.polled t n)))
    (call : ApiCall) (hinv : Between G L w) : Between G L (call.step env w) := by
  by_cases hcall : ∃ i, call = .nudge i
  · obtain ⟨i, rfl⟩ := hcall
    refine hpolled ?_
    cases hc : w.connection with
    | none =>
      show Between G L (heConnNudge env w i).1
      rw [heConnNudge_of_none hc]
      exact between_of_none (hstable.advance hinv.world) hc
    | some c => exact hstable.nudgeExit hnudge (heConnNudge_exit w c i hc) hc hinv
  · rw [step_of_ne_nudge (not_exists.1 hcall)]
    exact hstable.outcome (body_outcome w call) (not_exists.1 hcall) hinv

end Stable

end Invariants

end LightwayCffi.Client
