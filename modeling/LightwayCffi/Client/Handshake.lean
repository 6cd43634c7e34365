import LightwayCffi.Client.FatalErrors

/-!
# The handshake keeps its timer

Until a connection is online, lightway-core drives it by connection ticks: each one sends what has
to be sent again and schedules the next. A nudge consumes the only pending tick before it runs it.
If the tick then fails, the core may have returned before it scheduled the next one, and a
connection without a tick would wait forever and report nothing.

The core is assumed to do what the shim relies on (`CoreOk`): a successful `connect()` schedules a
tick, so does a successful tick that leaves the core in the handshake, and a connection that has
left the handshake does not go back to it. `handshake_keeps_timer` then says that no run of a host
loses the timer: a live connection that is not online yet has a connection tick pending, a failed
tick is repeated within the retry delay, and in no other case does the shim schedule one of its own.
-/

namespace LightwayCffi.Client

open Relation (ReflTransGen)

variable {env : Env}

/-! ## Connection ticks in a trace -/

/-- The states of the handshake: `Connecting`, `LinkUp` and `Authenticating`. -/
def State.preOnline : State → Bool
  | .connecting | .linkUp | .authenticating => true
  | .online | .disconnecting | .disconnected => false

/-- Does the entry record that a connection tick was scheduled? -/
def Entry.arms (e : Entry) : Bool :=
  match e.action with
  | .scheduledConnection _ => true
  | _ => false

/-- How often a connection tick was scheduled in a trace. -/
def armings (trace : List Entry) : ℕ := trace.countP Entry.arms

def CoreCall.arms : CoreCall → Bool
  | .scheduleTick _ _ .connectionTick => true
  | _ => false

/-- How often the core schedules a connection tick in a call. -/
def CoreReply.armings (reply : CoreReply) : ℕ := reply.calls.countP CoreCall.arms

/-- The same for several calls. -/
def coreArmings (replies : List CoreReply) : ℕ := (replies.map CoreReply.armings).sum

theorem coreArmings_cons (reply : CoreReply) (replies : List CoreReply) :
    coreArmings (reply :: replies) = reply.armings + coreArmings replies :=
  List.sum_cons

@[simp]
theorem armings_append (s t : List Entry) : armings (s ++ t) = armings s + armings t :=
  List.countP_append

theorem armings_log (w : World) {a : Action} (ha : Entry.arms ⟨a, w.conn.state⟩ = false) :
    armings (w.log a).trace = armings w.trace := by
  rw [World.log_trace, armings_append, armings, armings, List.countP_singleton, ha]
  rfl

theorem armings_schedule (w : World) (app : CffiAppState) (deadline : ℕ) (tick : TickType) :
    armings (w.schedule app deadline tick).trace =
      armings w.trace + if tick = .connectionTick then 1 else 0 := by
  have hlog : armings (w.log (scheduledAction deadline tick)).trace =
      armings w.trace + if tick = .connectionTick then 1 else 0 := by
    unfold scheduledAction
    split
    · rw [World.log_trace, armings_append]
      rfl
    · exact armings_log w rfl
  unfold World.schedule
  split
  · exact (armings_log (a := .nudgeTime _ _) _ rfl).trans hlog
  · exact hlog

theorem CffiAppState.store_nextTick_ne_none {app : CffiAppState} {deadline : ℕ} {tick : TickType}
    (h : app.nextTick ≠ none ∨ tick = .connectionTick) :
    (app.store deadline tick).nextTick ≠ none := by
  unfold store
  split
  · simp
  · rename_i htick
    exact h.resolve_right htick

theorem CffiAppState.store_connectionTick_le (app : CffiAppState) (deadline : ℕ) :
    ∃ t, (app.store deadline .connectionTick).nextTick = some t ∧ t ≤ deadline := by
  rw [store_connectionTick]
  cases app.nextTick with
  | none => exact ⟨deadline, rfl, le_rfl⟩
  | some t => exact ⟨min t deadline, rfl, min_le_right t deadline⟩

/-! ## Calls into the core -/

/-- What scheduling a tick does, if the addition does not overflow. -/
theorem scheduleTick_eq {w w' : World} {c c' : Connection} {elapsed d : ℕ} {tick : TickType}
    (h : scheduleTick env w c elapsed d tick = (w', c', false)) :
    w' = (w.advance elapsed).schedule c.appState (w.now + elapsed + d) tick ∧
      c' = { c with appState := c.appState.store (w.now + elapsed + d) tick } := by
  unfold scheduleTick at h
  dsimp only at h
  split at h
  · obtain ⟨-, -, h⟩ := h
  · rename_i app timeout happ
    obtain ⟨rfl, rfl⟩ := cffiScheduleTickCb_eq_some happ
    obtain ⟨rfl, rfl, -⟩ := h
    exact ⟨rfl, rfl⟩

/-- Callbacks that did not panic have scheduled their connection ticks, and a tick that was or has
been scheduled is pending. -/
theorem runCalls_arms {w w' : World} {c c' : Connection} {calls : List CoreCall}
    (h : runCalls env w c calls = (w', c', false)) :
    armings w'.trace = armings w.trace + calls.countP CoreCall.arms ∧
      (c.appState.nextTick ≠ none ∨ 0 < calls.countP CoreCall.arms →
        c'.appState.nextTick ≠ none) := by
  induction calls generalizing w c with
  | nil =>
    obtain ⟨rfl, rfl, -⟩ := h
    exact ⟨rfl, fun h => h.resolve_right (lt_irrefl 0)⟩
  | cons call calls ih =>
    unfold runCalls at h
    split at h
    · obtain ⟨-, -, h⟩ := h
    · rename_i w₁ c₁ hcall
      obtain ⟨harmings, hnext⟩ := ih h
      rw [harmings, List.countP_cons]
      cases call with
      | scheduleTick elapsed d tick =>
        obtain ⟨rfl, rfl⟩ := scheduleTick_eq hcall
        rw [armings_schedule]
        have harms :
            (CoreCall.scheduleTick elapsed d tick).arms = decide (tick = .connectionTick) := by
          cases tick <;> rfl
        simp only [harms, decide_eq_true_eq, World.advance_trace]
        refine ⟨by omega, fun hpending => hnext ?_⟩
        by_cases htick : tick = .connectionTick
        · exact .inl (CffiAppState.store_nextTick_ne_none (.inr htick))
        · rw [if_neg htick, Nat.add_zero] at hpending
          exact hpending.imp_left fun hc => CffiAppState.store_nextTick_ne_none (.inl hc)
      | stateChanged s =>
        obtain ⟨rfl, rfl, -⟩ := hcall
        have hevent : armings (w.event c.stateChangeCb s).trace = armings w.trace :=
          armings_log _ rfl
        rw [hevent]
        exact ⟨rfl, hnext⟩

theorem coreCall_arms {w w' : World} {c c' : Connection} {reply : CoreReply} {r : CoreResult}
    (h : coreCall env w c reply = (w', c', r)) (hr : r ≠ .panic) :
    armings w'.trace = armings w.trace + reply.armings ∧
      (c.appState.nextTick ≠ none ∨ 0 < reply.armings → c'.appState.nextTick ≠ none) := by
  unfold coreCall at h
  split at h
  rename_i w₁ c₁ panicked hcalls
  obtain ⟨rfl, rfl, rfl⟩ := h
  cases panicked with
  | true => exact absurd rfl hr
  | false =>
    obtain ⟨harmings, hnext⟩ := runCalls_arms hcalls
    exact ⟨harmings, hnext⟩

theorem coreCall_connectionState {w w' : World} {c c' : Connection} {reply : CoreReply}
    {r : CoreResult} (h : coreCall env w c reply = (w', c', r)) : c'.state = reply.state := by
  unfold coreCall at h
  split at h
  obtain ⟨-, rfl, -⟩ := h
  rfl

/-! ## The timer of the handshake -/

/-- In the handshake a connection tick is pending. -/
def Connection.Armed (c : Connection) : Prop :=
  c.state.preOnline = true → c.appState.nextTick ≠ none

/-- The core does not go back to the handshake. -/
def Forward (s t : State) : Prop := t.preOnline = true → s.preOnline = true

/-- A call into the core keeps a pending tick, and a connection that it leaves in the handshake was
in the handshake before. -/
theorem Connection.Armed.coreCall {w w' : World} {c c' : Connection} {reply : CoreReply}
    {r : CoreResult} (harmed : c.Armed) (h : coreCall env w c reply = (w', c', r))
    (hr : r ≠ .panic) (hforward : Forward c.state reply.state) : c'.Armed := by
  intro hpre
  rw [coreCall_connectionState h] at hpre
  exact (coreCall_arms h hr).2 (.inl (harmed (hforward hpre)))

/-- A dispatch that does not panic schedules the connection ticks that its ticks ask for. -/
theorem Dispatching.armings {ct : ConnectionType} {due : List PendingTick} {w w' : World}
    {c c' : Connection} {reply : ℕ → CoreReply} {answers : List CoreReply} {r : Dispatched}
    (h : Dispatching env ct w c due reply answers w' c' r) (hr : r ≠ .panicked) :
    armings w'.trace = armings w.trace + coreArmings answers := by
  have htick {w w₁ : World} {c c₁ : Connection} {tick : PendingTick} {reply : CoreReply}
      {r₁ : CoreResult} (hcall : coreCall env (w.log (.tickedPayload tick)) c reply = (w₁, c₁, r₁))
      (hr₁ : r₁ ≠ .panic) :
      Client.armings w₁.trace = Client.armings w.trace + reply.armings := by
    rw [(coreCall_arms hcall hr₁).1, armings_log w rfl]
  induction h with
  | done => rfl
  | panicked => exact absurd rfl hr
  | fatal hcall => exact htick hcall (by simp)
  | next hcall hr₁ _ _ ih => rw [ih hr, htick hcall hr₁, coreArmings_cons, Nat.add_assoc]

/-- And it keeps the timer. -/
theorem Dispatching.armed {ct : ConnectionType} {due : List PendingTick} {w w' : World}
    {c c' : Connection} {reply : ℕ → CoreReply} {answers : List CoreReply} {r : Dispatched}
    (h : Dispatching env ct w c due reply answers w' c' r) (hr : r ≠ .panicked)
    (hchain : (c.state :: answers.map CoreReply.state).IsChain Forward) (harmed : c.Armed) :
    c'.Armed := by
  induction h with
  | done => exact harmed
  | panicked => exact absurd rfl hr
  | fatal hcall =>
    exact harmed.coreCall hcall (by simp) (List.isChain_cons_cons.1 hchain).1
  | next hcall hr₁ _ _ ih =>
    obtain ⟨hforward, hrest⟩ := List.isChain_cons_cons.1 hchain
    refine ih hr ?_ (harmed.coreCall hcall hr₁ hforward)
    rw [coreCall_connectionState hcall]
    exact hrest

/-! ## Failed ticks -/

/-- A connection tick that failed: the error, the state it left the core in, and the time at which
the shim turns to it. -/
structure FailedTick where
  error : ConnectionError
  state : State
  time : ℕ

/-- The shim schedules another tick. -/
def FailedTick.retried (failed : FailedTick) (env : Env) (connectionType : ConnectionType) : Bool :=
  !env.isFatal failed.error connectionType && failed.state.preOnline

section Failures

variable (env)

/-- The failure of the connection tick in a nudge in which it is due. -/
def tickFailure (w : World) (c : Connection) (i : NudgeInput) : Option FailedTick :=
  match coreCall env (w.log .tickedConnection) { c with appState.nextTick := none }
      i.connectionTick with
  | (w, c, .err error) => some ⟨error, c.state, w.now + i.retryElapsed⟩
  | _ => none

/-- The failure of a connection tick in a call. -/
def failedTick (w : World) (c : Connection) : ApiCall → Option FailedTick
  | .nudge i =>
    let w := w.advance i.connectionTickElapsed
    if c.appState.nextTick.any fun t => t ≤ w.now then tickFailure env w c i else none
  | _ => none

/-- How often the shim itself schedules a connection tick after a failure. -/
def retries (connectionType : ConnectionType) (failed : Option FailedTick) : ℕ :=
  if failed.any fun failed => failed.retried env connectionType then 1 else 0

/-- The replies of the core to a call on a live connection. -/
def replies (w : World) (c : Connection) : ApiCall → List CoreReply
  | .disconnect reply => [reply]
  | .expresslaneRotateIfDue reply _ => if c.state ≠ .online then [] else [reply]
  | call => answers env w c call

end Failures

theorem retries_none {ct : ConnectionType} : retries env ct none = 0 := rfl

theorem retryConnectionTickAfterError_eq (w : World) (c : Connection) (error : ConnectionError)
    (ct : ConnectionType) (retryDelay elapsed : ℕ) :
    retryConnectionTickAfterError env w c error ct retryDelay elapsed =
      if !env.isFatal error ct && c.state.preOnline then
        scheduleTick env w c elapsed retryDelay .connectionTick
      else (w, c, false) := by
  have hpre : (decide (c.state = .connecting) || decide (c.state = .linkUp) ||
      decide (c.state = .authenticating)) = c.state.preOnline := by
    cases c.state <;> rfl
  unfold retryConnectionTickAfterError
  rw [hpre]

theorem armings_fatalDisconnect (w : World) :
    armings (fatalDisconnect w).trace = armings w.trace := by
  unfold fatalDisconnect
  split
  · rfl
  · exact armings_log _ rfl

theorem armings_completeDisconnect (w : World) :
    armings (completeDisconnect w).trace = armings w.trace := by
  unfold completeDisconnect
  dsimp only
  split
  · rfl
  · exact (armings_log _ rfl).trans (armings_log _ rfl)

/-! ## One call -/

/-- What a call, or a part of one, comes to that the core has given these replies: the core's
connection ticks and `extra` more have been scheduled, and provided `P`, a connection that is still
there has a tick pending if it needs one. -/
structure Accounted (w : World) (replies : List CoreReply) (extra : ℕ) (P : Prop) (w' : World) :
    Prop where
  armings : armings w'.trace = armings w.trace + coreArmings replies + extra
  armed : P → ∀ c, w'.connection = some c → c.Armed

/-- A part that ends with its connection stored. -/
theorem accounted_of_some {w w' : World} {replies : List CoreReply} {extra : ℕ} {P : Prop}
    {c : Connection} (hcount : armings w'.trace = armings w.trace + coreArmings replies + extra)
    (hc : w'.connection = some c) (harmed : P → c.Armed) : Accounted w replies extra P w' := by
  refine ⟨hcount, fun hP c' hc' => ?_⟩
  obtain rfl := Option.some.inj (hc.symm.trans hc')
  exact harmed hP

theorem accounted_of_none {w w' : World} {replies : List CoreReply} {extra : ℕ} {P : Prop}
    (hcount : armings w'.trace = armings w.trace + coreArmings replies + extra)
    (hc : w'.connection = none) : Accounted w replies extra P w' :=
  ⟨hcount, fun _ _ hc' => absurd (hc.symm.trans hc') nofun⟩

theorem nudgePayload_accounted {w : World} {c : Connection} {i : NudgeInput}
    (hret : (nudgePayload env w c i).2 ≠ none) :
    Accounted w (payloadAnswers env w c i) 0
      ((c.state :: (payloadAnswers env w c i).map CoreReply.state).IsChain Forward ∧ c.Armed)
      (nudgePayload env w c i).1 := by
  have hlog : armings ((w.advance i.payloadElapsed).log
      (.taken (w.advance i.payloadElapsed).now)).trace = armings w.trace := armings_log _ rfl
  revert hret
  unfold nudgePayload payloadAnswers
  simp only [partition_due]
  split
  · exact fun hret => absurd rfl hret
  · rename_i hdispatch
    intro _
    have hcount := (dispatching hdispatch).armings (by simp)
    rw [hlog] at hcount
    rw [handleConnectionTickError_of_isFatal (dispatch_fatal hdispatch)]
    exact accounted_of_none ((armings_fatalDisconnect _).trans hcount)
      (fatalDisconnect_connection _)
  · rename_i hdispatch
    intro _
    have hrun := dispatching hdispatch
    have hcount := hrun.armings (by simp)
    rw [hlog] at hcount
    exact accounted_of_some hcount rfl fun h => hrun.armed (by simp) h.1 h.2

/-- What is assumed of a connection tick: if it succeeds and leaves the core in the handshake, it
has scheduled another. -/
def CoreReply.TicksOn (reply : CoreReply) : Prop :=
  reply.result = .ok → reply.state.preOnline = true → 0 < reply.armings

/-- Handling an error that has been retried keeps the account. -/
theorem handleConnectionTickError_accounted {w w' : World} {c : Connection} {ct : ConnectionType}
    {replies : List CoreReply} {extra : ℕ} {P : Prop} (error : ConnectionError)
    (hcount : armings w'.trace = armings w.trace + coreArmings replies + extra)
    (hc : w'.connection = some c) (harmed : env.isFatal error ct = false → c.Armed) :
    Accounted w replies extra P (handleConnectionTickError env w' error ct).1 := by
  by_cases hfatal : env.isFatal error ct = true
  · rw [handleConnectionTickError_of_isFatal hfatal]
    exact accounted_of_none ((armings_fatalDisconnect _).trans hcount)
      (fatalDisconnect_connection _)
  · rcases handleConnectionTickError_cases w' error ct with h | h
    · rw [h]
      exact accounted_of_some hcount hc fun _ => harmed (Bool.not_eq_true _ ▸ hfatal)
    · rw [h]
      exact accounted_of_none ((armings_fatalDisconnect _).trans hcount)
        (fatalDisconnect_connection _)

/-- A connection that is there after the handling of an error is the one that was there before. -/
theorem handleConnectionTickError_stored {w : World} {c c' : Connection} {error : ConnectionError}
    {ct : ConnectionType} (hc : w.connection = some c)
    (h : (handleConnectionTickError env w error ct).1.connection = some c') : c' = c := by
  rcases handleConnectionTickError_cases w error ct with hcases | hcases
  · rw [hcases, hc] at h
    exact (Option.some.inj h).symm
  · rw [hcases, fatalDisconnect_connection] at h
    cases h

/-- How a nudge whose connection tick has failed comes to the handling of the error: with another
tick scheduled, or at once. -/
theorem nudgeConnectionTick_of_err {w w₁ : World} {c c₁ : Connection} {i : NudgeInput}
    {error : ConnectionError}
    (hcall : coreCall env (w.log .tickedConnection) { c with appState.nextTick := none }
      i.connectionTick = (w₁, c₁, .err error))
    (hret : (nudgeConnectionTick env w c i).2 ≠ none) :
    ∃ w₂ c₂, (nudgeConnectionTick env w c i).1 = (handleConnectionTickError env
        (refreshNudgeTime (w₂.put c₂) c₂ i.timeoutElapsed) error c.connectionType).1 ∧
      ((!env.isFatal error c.connectionType && c₁.state.preOnline) = true ∧
          w₂ = (w₁.advance i.retryElapsed).schedule c₁.appState
            (w₁.now + i.retryElapsed + c.tickInterval.getD 1000000) .connectionTick ∧
          c₂ = { c₁ with
            appState := c₁.appState.store
              (w₁.now + i.retryElapsed + c.tickInterval.getD 1000000) .connectionTick } ∨
        (!env.isFatal error c.connectionType && c₁.state.preOnline) = false ∧
          w₂ = w₁ ∧ c₂ = c₁) := by
  simp only [nudgeConnectionTick, retryConnectionTickAfterError_eq, hcall] at hret ⊢
  cases hretry : !env.isFatal error c.connectionType && c₁.state.preOnline with
  | true =>
    rw [hretry, if_pos rfl] at hret
    rw [if_pos rfl]
    rcases hschedule : scheduleTick env w₁ c₁ i.retryElapsed (c.tickInterval.getD 1000000)
      .connectionTick with ⟨w₂, c₂, panicked⟩
    simp only [hschedule] at hret ⊢
    cases panicked with
    | true => exact absurd rfl hret
    | false => exact ⟨w₂, c₂, rfl, .inl ⟨trivial, scheduleTick_eq hschedule⟩⟩
  | false =>
    rw [if_neg Bool.false_ne_true]
    exact ⟨w₁, c₁, rfl, .inr ⟨rfl, rfl, rfl⟩⟩

theorem nudgeConnectionTick_accounted {w : World} {c : Connection} {i : NudgeInput}
    (hret : (nudgeConnectionTick env w c i).2 ≠ none) :
    Accounted w (connectionTickAnswers env w c i)
      (retries env c.connectionType (tickFailure env w c i))
      ((c.state :: (connectionTickAnswers env w c i).map CoreReply.state).IsChain Forward ∧
        i.connectionTick.TicksOn)
      (nudgeConnectionTick env w c i).1 := by
  have hlog : armings (w.log .tickedConnection).trace = armings w.trace := armings_log _ rfl
  rcases hcall : coreCall env (w.log .tickedConnection) { c with appState.nextTick := none }
    i.connectionTick with ⟨w₁, c₁, r₁⟩
  cases r₁ with
  | panic =>
    simp only [nudgeConnectionTick, hcall] at hret
    exact absurd rfl hret
  | ok =>
    simp only [nudgeConnectionTick, hcall] at hret
    simp only [nudgeConnectionTick, connectionTickAnswers, tickFailure, hcall]
    obtain ⟨hcount, hnext⟩ := coreCall_arms hcall (by simp)
    have hstate := coreCall_connectionState hcall
    have hpayload := nudgePayload_accounted hret
    refine ⟨?_, fun h => hpayload.armed ⟨?_, fun hpre => ?_⟩⟩
    · rw [hpayload.armings, hcount, hlog, coreArmings_cons, retries_none]
      omega
    · rw [hstate]
      exact (List.isChain_cons_cons.1 h.1).2
    · rw [hstate] at hpre
      exact hnext (.inr (h.2 (coreCall_result hcall (by simp)) hpre))
  | err error =>
    have hcount := (coreCall_arms hcall (by simp)).1
    rw [hlog] at hcount
    obtain ⟨w₂, c₂, hbody, hretry⟩ := nudgeConnectionTick_of_err hcall hret
    rw [hbody]
    simp only [connectionTickAnswers, tickFailure, hcall]
    rcases hretry with ⟨hretry, rfl, rfl⟩ | ⟨hretry, rfl, rfl⟩
    · have hone : retries env c.connectionType
          (some ⟨error, c₁.state, w₁.now + i.retryElapsed⟩) = 1 := if_pos hretry
      rw [hone]
      refine handleConnectionTickError_accounted error ?_ rfl fun _ _ => ?_
      · have hscheduled := armings_schedule (w₁.advance i.retryElapsed) c₁.appState
          (w₁.now + i.retryElapsed + c.tickInterval.getD 1000000) .connectionTick
        rw [if_pos rfl, World.advance_trace, hcount] at hscheduled
        exact hscheduled
      · exact CffiAppState.store_nextTick_ne_none (.inr rfl)
    · have hnone : retries env c.connectionType
          (some ⟨error, c₂.state, w₂.now + i.retryElapsed⟩) = 0 :=
        if_neg (Bool.eq_false_iff.1 hretry)
      rw [hnone]
      refine handleConnectionTickError_accounted error hcount rfl fun hfatal hpre => ?_
      -- the error is not fatal and the core is still in the handshake: that is the retry
      rw [hfatal, hpre] at hretry
      cases hretry

/-- After a tick that failed without killing the connection, the next one is due within the retry
delay. -/
theorem nudgeConnectionTick_deadline {w : World} {c c' : Connection} {i : NudgeInput}
    {failed : FailedTick} (hret : (nudgeConnectionTick env w c i).2 ≠ none)
    (hfailed : tickFailure env w c i = some failed)
    (hfatal : env.isFatal failed.error c.connectionType = false)
    (hc' : (nudgeConnectionTick env w c i).1.connection = some c')
    (hpre : c'.state.preOnline = true) :
    ∃ t, c'.appState.nextTick = some t ∧ t ≤ failed.time + c.tickInterval.getD 1000000 := by
  rcases hcall : coreCall env (w.log .tickedConnection) { c with appState.nextTick := none }
    i.connectionTick with ⟨w₁, c₁, r₁⟩
  simp only [tickFailure, hcall] at hfailed
  cases r₁ with
  | panic => cases hfailed
  | ok => cases hfailed
  | err error =>
    obtain rfl := Option.some.inj hfailed
    obtain ⟨w₂, c₂, hbody, hretry⟩ := nudgeConnectionTick_of_err hcall hret
    rw [hbody] at hc'
    obtain rfl := handleConnectionTickError_stored rfl hc'
    rcases hretry with ⟨-, -, rfl⟩ | ⟨hretry, -, rfl⟩
    · exact CffiAppState.store_connectionTick_le _ _
    · rw [hfatal, hpre] at hretry
      cases hretry

/-- A single call into the core. -/
theorem coreCall_accounted {w w₁ : World} {c c₁ : Connection} {reply : CoreReply} {r : CoreResult}
    (hcall : coreCall env w c reply = (w₁, c₁, r)) (hr : r ≠ .panic) :
    Accounted w [reply] 0 (Forward c.state reply.state ∧ c.Armed) (w₁.put c₁) := by
  refine accounted_of_some ?_ rfl fun h => h.2.coreCall hcall hr h.1
  exact (coreCall_arms hcall hr).1

/-- Dropping the connection keeps the account. -/
theorem Accounted.drop {w w₁ w' : World} {replies : List CoreReply} {extra : ℕ} {P : Prop}
    (h : Accounted w replies extra P w₁)
    (hcount : Client.armings w'.trace = Client.armings w₁.trace) (hc : w'.connection = none) :
    Accounted w replies extra P w' :=
  accounted_of_none (hcount.trans h.armings) hc

theorem disconnect_accounted {w : World} {c : Connection} {reply : CoreReply}
    (hc : w.connection = some c) (hret : (clientDisconnectLocked env w reply).2 ≠ none) :
    Accounted w [reply] 0 (Forward c.state reply.state ∧ c.Armed)
      (clientDisconnectLocked env w reply).1 := by
  revert hret
  unfold clientDisconnectLocked
  simp only [hc]
  split
  · exact fun hret => absurd rfl hret
  · rename_i hr hcall
    intro _
    exact (coreCall_accounted hcall hr).drop (armings_completeDisconnect _)
      (completeDisconnect_connection _)

theorem outside_accounted {w : World} {c : Connection} {reply : CoreReply}
    (hc : w.connection = some c) (hret : (heConnOutsideDataReceived env w reply).2 ≠ none) :
    Accounted w [reply] 0 (Forward c.state reply.state ∧ c.Armed)
      (heConnOutsideDataReceived env w reply).1 := by
  revert hret
  unfold heConnOutsideDataReceived
  simp only [hc]
  split
  · exact fun hret => absurd rfl hret
  · rename_i hcall
    exact fun _ => coreCall_accounted hcall nofun
  · rename_i hcall
    intro _
    have haccount := coreCall_accounted hcall nofun
    split
    · exact haccount.drop (armings_fatalDisconnect _) (fatalDisconnect_connection _)
    · exact haccount

theorem inside_accounted {w : World} {c : Connection} {reply : CoreReply}
    (hc : w.connection = some c) (hret : (heConnInsidePacketReceived env w reply).2 ≠ none) :
    Accounted w [reply] 0 (Forward c.state reply.state ∧ c.Armed)
      (heConnInsidePacketReceived env w reply).1 := by
  revert hret
  unfold heConnInsidePacketReceived
  simp only [hc]
  split
  · exact fun hret => absurd rfl hret
  all_goals
    rename_i hcall
    exact fun _ => coreCall_accounted hcall nofun

theorem rotate_accounted {w : World} {c : Connection} {reply : CoreReply} {n : ℕ}
    (hc : w.connection = some c) (hret : (heConnExpresslaneRotateIfDue env w reply n).2 ≠ none)
    (honline : c.state = .online) :
    Accounted w [reply] 0 (Forward c.state reply.state ∧ c.Armed)
      (heConnExpresslaneRotateIfDue env w reply n).1 := by
  revert hret
  unfold heConnExpresslaneRotateIfDue
  simp only [hc, honline, ne_eq, not_true_eq_false, if_false]
  split
  · exact fun hret => absurd rfl hret
  · rename_i hr hcall
    intro _
    rw [← honline]
    have haccount := coreCall_accounted hcall hr
    exact ⟨haccount.armings, haccount.armed⟩

/-- Which half of a nudge runs first, what the core replies and whether the tick fails all depend on
whether the pending tick is due. -/
theorem nudge_of_due {w : World} {c : Connection} {i : NudgeInput} (hc : w.connection = some c)
    (hdue : (c.appState.nextTick.any fun t => t ≤ (w.advance i.connectionTickElapsed).now) = true) :
    heConnNudge env w i = nudgeConnectionTick env (w.advance i.connectionTickElapsed) c i ∧
      replies env w c (.nudge i) =
        connectionTickAnswers env (w.advance i.connectionTickElapsed) c i ∧
      failedTick env w c (.nudge i) =
        tickFailure env (w.advance i.connectionTickElapsed) c i := by
  refine ⟨?_, if_pos hdue, if_pos hdue⟩
  unfold heConnNudge
  simp only [World.advance_toHeClient, hc]
  exact if_pos hdue

theorem nudge_of_not_due {w : World} {c : Connection} {i : NudgeInput} (hc : w.connection = some c)
    (hdue : ¬ (c.appState.nextTick.any fun t => t ≤ (w.advance i.connectionTickElapsed).now) =
      true) :
    heConnNudge env w i = nudgePayload env (w.advance i.connectionTickElapsed) c i ∧
      replies env w c (.nudge i) = payloadAnswers env (w.advance i.connectionTickElapsed) c i ∧
      failedTick env w c (.nudge i) = none := by
  refine ⟨?_, if_neg hdue, if_neg hdue⟩
  unfold heConnNudge
  simp only [World.advance_toHeClient, hc]
  exact if_neg hdue

theorem nudge_accounted {w : World} {c : Connection} {i : NudgeInput} (hc : w.connection = some c)
    (hret : (heConnNudge env w i).2 ≠ none) :
    Accounted w (replies env w c (.nudge i))
      (retries env c.connectionType (failedTick env w c (.nudge i)))
      ((c.state :: (replies env w c (.nudge i)).map CoreReply.state).IsChain Forward ∧
        i.connectionTick.TicksOn ∧ c.Armed)
      (heConnNudge env w i).1 := by
  by_cases hdue : (c.appState.nextTick.any fun t => t ≤ (w.advance i.connectionTickElapsed).now) =
      true
  · obtain ⟨hbody, hreplies, hfailed⟩ := @nudge_of_due env w c i hc hdue
    rw [hbody] at hret ⊢
    rw [hreplies, hfailed]
    have haccount := nudgeConnectionTick_accounted hret
    exact ⟨haccount.armings, fun h => haccount.armed ⟨h.1, h.2.1⟩⟩
  · obtain ⟨hbody, hreplies, hfailed⟩ := @nudge_of_not_due env w c i hc hdue
    rw [hbody] at hret ⊢
    rw [hreplies, hfailed]
    have haccount := nudgePayload_accounted hret
    exact ⟨haccount.armings, fun h => haccount.armed ⟨h.1, h.2.2⟩⟩

/-! ## Runs -/

/-- What is assumed of the core in a call of the host. -/
structure CoreOk (env : Env) (w : World) (call : ApiCall) : Prop where
  /-- A successful `connect()` has scheduled a connection tick. -/
  connects : ∀ i, call = .connect i → i.connect.result = .ok → 0 < i.connect.armings
  /-- So has a successful tick that leaves the core in the handshake. -/
  ticksOn : ∀ i, call = .nudge i → i.connectionTick.TicksOn
  /-- A connection that has left the handshake does not go back to it. -/
  forward : ∀ c, w.connection = some c →
    (c.state :: (replies env w c call).map CoreReply.state).IsChain Forward

/-- **The account of a call** on a live connection. -/
theorem call_accounted {w : World} {c : Connection} {call : ApiCall} (hc : w.connection = some c)
    (hret : call.Returns env w) :
    Accounted w (replies env w c call) (retries env c.connectionType (failedTick env w c call))
      (CoreOk env w call ∧ c.Armed) (call.body env w).1 := by
  have hfirst {s : State} {rest : List State} (h : CoreOk env w call)
      (hstates : (replies env w c call).map CoreReply.state = s :: rest) : Forward c.state s := by
    have hchain := h.forward c hc
    rw [hstates] at hchain
    exact (List.isChain_cons_cons.1 hchain).1
  cases call with
  | connect i =>
    have hrejected : (ApiCall.connect i).body env w = (w, some .errInvalidConnState) := by
      show clientConnectLocked env w i = _
      unfold clientConnectLocked clientConnectChecks
      rw [hc]
      rfl
    rw [hrejected]
    exact accounted_of_some rfl hc fun h => h.2
  | disconnect reply =>
    have haccount := disconnect_accounted hc hret
    exact ⟨haccount.armings, fun h => haccount.armed ⟨hfirst h.1 rfl, h.2⟩⟩
  | outsideDataReceived reply =>
    have haccount := outside_accounted hc hret
    exact ⟨haccount.armings, fun h => haccount.armed ⟨hfirst h.1 rfl, h.2⟩⟩
  | insidePacketReceived reply =>
    have haccount := inside_accounted hc hret
    exact ⟨haccount.armings, fun h => haccount.armed ⟨hfirst h.1 rfl, h.2⟩⟩
  | nudge i =>
    have haccount := nudge_accounted hc hret
    exact ⟨haccount.armings, fun h => haccount.armed ⟨h.1.forward c hc, h.1.ticksOn i rfl, h.2⟩⟩
  | expresslaneRotateIfDue reply n =>
    by_cases honline : c.state = .online
    · have hreplies : replies env w c (.expresslaneRotateIfDue reply n) = [reply] :=
        if_neg (not_not.2 honline)
      have haccount := rotate_accounted hc hret honline
      rw [hreplies]
      exact ⟨haccount.armings, fun h => haccount.armed ⟨hfirst h.1 (congrArg _ hreplies), h.2⟩⟩
    · have hreplies : replies env w c (.expresslaneRotateIfDue reply n) = [] := if_pos honline
      have hbody : (ApiCall.expresslaneRotateIfDue reply n).body env w = (w, some .success) := by
        show heConnExpresslaneRotateIfDue env w reply n = _
        unfold heConnExpresslaneRotateIfDue
        simp only [hc]
        exact if_pos honline
      rw [hreplies, hbody]
      exact accounted_of_some rfl hc fun h => h.2

/-- A host that uses a client in any way, with calls that return and a core that does its part. -/
inductive Driving (env : Env) : World → World → Prop where
  | set (w : World) (setting : Setting) : Driving env w (w.set setting)
  | call (w : World) (call : ApiCall) (hret : call.Returns env w) (hcore : CoreOk env w call) :
      Driving env w (call.step env w)

/-- Without a connection only connecting makes one. -/
theorem Outcome.idle {w w' : World} {call : ApiCall} {code : Option HeReturnCode}
    (h : Outcome w call w' code) (hc : w.connection = none) (hcall : ∀ i, call ≠ .connect i) :
    w'.connection = none := by
  have hnot {c : Connection} (hc' : w.connection = some c) : w'.connection = none :=
    absurd (hc.symm.trans hc') nofun
  cases h with
  | rejected => exact hc
  | notDue => exact hc
  | connectFailed i => exact absurd rfl (hcall i)
  | connected i => exact absurd rfl (hcall i)
  | disconnectedIdle => exact completeDisconnect_connection w
  | disconnected _ hc' => exact hnot hc'
  | kept _ _ _ hc' => exact hnot hc'
  | killed _ _ hc' => exact hnot hc'
  | rotated _ _ _ hc' => exact hnot hc'
  | nudged _ _ hc' => exact hnot hc'

/-- A new connection has a tick pending. -/
theorem connect_armed {w : World} {i : ConnectInput} (hc : w.connection = none)
    (hconnects : i.connect.result = .ok → 0 < i.connect.armings) {c : Connection}
    (hc' : (clientConnectLocked env w i).1.connection = some c) : c.Armed := by
  unfold clientConnectLocked at hc'
  have hnot {w₁ : World} {c₁ : Connection} {r : CoreResult}
      (hcall : coreCall env (w.log .opened) (freshConnection w.toHeClient) i.connect =
        (w₁, c₁, r)) : w₁.connection = none :=
    (frame_of_coreSteps (coreCall_steps hcall)).connection.trans hc
  split at hc'
  · exact absurd (hc.symm.trans hc') nofun
  · split at hc'
    · rename_i hcall
      exact absurd ((hnot hcall).symm.trans hc') nofun
    · rename_i hcall
      exact absurd ((hnot hcall).symm.trans hc') nofun
    · rename_i hcall
      obtain rfl := Option.some.inj ((completeConnect_connection _ _).symm.trans hc')
      have harms := hconnects (coreCall_result hcall nofun)
      exact fun _ => (coreCall_arms hcall nofun).2 (.inr harms)

theorem call_armed {w : World} {call : ApiCall} (hret : call.Returns env w)
    (hcore : CoreOk env w call) (harmed : ∀ c, w.connection = some c → c.Armed) {c : Connection}
    (hc : (call.step env w).connection = some c) : c.Armed := by
  rw [step_toHeClient] at hc
  cases hc₀ : w.connection with
  | some c₀ => exact (call_accounted hc₀ hret).armed ⟨hcore, harmed c₀ hc₀⟩ c hc
  | none =>
    by_cases hcall : ∃ i, call = .connect i
    · obtain ⟨i, rfl⟩ := hcall
      exact connect_armed hc₀ (hcore.connects i rfl) hc
    · have hnone : (call.body env w).1.connection = none :=
        (body_outcome w call).idle hc₀ (not_exists.1 hcall)
      exact absurd (hnone.symm.trans hc) nofun

theorem run_armed {w₀ w : World} (hnew : w₀.connection = none)
    (hrun : ReflTransGen (Driving env) w₀ w) : ∀ c, w.connection = some c → c.Armed := by
  induction hrun with
  | refl => exact fun c hc => absurd (hnew.symm.trans hc) nofun
  | @tail w₁ _ _ hstep ih =>
    cases hstep with
    | set setting =>
      intro c hc
      exact ih c ((setting.frame w₁.toHeClient).connection.symm.trans hc)
    | call call hret hcore => exact fun c hc => call_armed hret hcore ih hc

theorem armings_step (w : World) (call : ApiCall) :
    armings (call.step env w).trace = armings (call.body env w).1.trace := by
  cases call with
  | nudge i => exact armings_log _ rfl
  | _ => rfl

theorem call_deadline {w : World} {c c' : Connection} {call : ApiCall} {failed : FailedTick}
    (hc : w.connection = some c) (hret : call.Returns env w)
    (hfailed : failedTick env w c call = some failed)
    (hfatal : env.isFatal failed.error c.connectionType = false)
    (hc' : (call.step env w).connection = some c') (hpre : c'.state.preOnline = true) :
    ∃ t, c'.appState.nextTick = some t ∧ t ≤ failed.time + c.tickInterval.getD 1000000 := by
  rw [step_toHeClient] at hc'
  cases call with
  | nudge i =>
    by_cases hdue : (c.appState.nextTick.any fun t =>
        t ≤ (w.advance i.connectionTickElapsed).now) = true
    · obtain ⟨hbody, -, htick⟩ := @nudge_of_due env w c i hc hdue
      unfold ApiCall.Returns at hret
      change (heConnNudge env w i).2 ≠ none at hret
      change (heConnNudge env w i).1.connection = some c' at hc'
      rw [hbody] at hret hc'
      exact nudgeConnectionTick_deadline hret (htick.symm.trans hfailed) hfatal hc' hpre
    · have hnone := (@nudge_of_not_due env w c i hc hdue).2.2
      exact absurd (hnone.symm.trans hfailed) nofun
  | _ => exact absurd hfailed nofun

/-- **The handshake keeps its timer.** Along every run of a host with a core that does its part, a
live connection in the handshake has a connection tick pending. In every call that follows, after a
tick that failed without killing the connection the next one is due within the retry delay; and the
connection ticks that are scheduled are those that the core asks for and one more for a tick that
failed, not fatally, and left the core in the handshake. -/
theorem handshake_keeps_timer {w₀ w : World} (hnew : w₀.connection = none)
    (hrun : ReflTransGen (Driving env) w₀ w) {c : Connection} (hc : w.connection = some c) :
    (c.state.preOnline = true → c.appState.nextTick ≠ none) ∧
    ∀ call : ApiCall, call.Returns env w →
      (∀ failed, failedTick env w c call = some failed →
        env.isFatal failed.error c.connectionType = false →
          ∀ c', (call.step env w).connection = some c' → c'.state.preOnline = true →
            ∃ t, c'.appState.nextTick = some t ∧
              t ≤ failed.time + c.tickInterval.getD 1000000) ∧
      armings (call.step env w).trace = armings w.trace + coreArmings (replies env w c call) +
        retries env c.connectionType (failedTick env w c call) := by
  refine ⟨run_armed hnew hrun c hc, fun call hret => ⟨?_, ?_⟩⟩
  · intro failed hfailed hfatal c' hc' hpre
    exact call_deadline hc hret hfailed hfatal hc' hpre
  · rw [armings_step]
    exact (call_accounted hc hret).armings

/-- The first tick succeeds, leaves the core in the handshake and schedules the next one. -/
def tickingNudge : NudgeInput :=
  sampleNudge 1000000000 [.scheduleTick 0 1000000000 .connectionTick] fun _ => []

def awaitingWorld : World := (ApiCall.connect firstTickConnect).step sampleEnv sampleWorld

def awaitingConnection : Connection :=
  { freshConnection sampleWorld.toHeClient with
    tickInterval := some 1000000000, appState.nextTick := some 1000000000 }

def handshakeWorld : World := (ApiCall.nudge tickingNudge).step sampleEnv awaitingWorld

def firstTickConnection : Connection :=
  { awaitingConnection with appState.nextTick := some 2000000000 }

theorem handshakeWorld_run : ReflTransGen (Driving sampleEnv) sampleWorld handshakeWorld := by
  have hopened : awaitingWorld.connection = some awaitingConnection := by decide
  refine .tail (.single (.call _ (.connect firstTickConnect) (by decide) ⟨?_, nofun, nofun⟩))
    (.call awaitingWorld (.nudge tickingNudge) (by decide) ⟨nofun, ?_, fun c hc => ?_⟩)
  · rintro i hi -
    obtain rfl := ApiCall.connect.inj hi
    decide
  · rintro i hi - -
    obtain rfl := ApiCall.nudge.inj hi
    decide
  · obtain rfl := Option.some.inj (hopened.symm.trans hc)
    have hreplies : replies sampleEnv awaitingWorld awaitingConnection (.nudge tickingNudge) =
        [tickingNudge.connectionTick] := by decide
    rw [hreplies]
    exact List.isChain_cons_cons.2 ⟨fun _ => rfl, .singleton _⟩

/-- The tick fails while the core is resending its credentials, before it has scheduled another. -/
def failingNudge : NudgeInput :=
  { sampleNudge 1000000000 [] fun _ => [] with
    connectionTick :=
      { calls := [], result := .err (.other 0), state := .authenticating,
        tickInterval := some 1000000000 }
    retryElapsed := 5 }

/-- A client in the handshake, and a tick that fails: the shim schedules the one that is missing. -/
theorem handshake_keeps_timer_failingNudge :
    ReflTransGen (Driving sampleEnv) sampleWorld handshakeWorld ∧
    handshakeWorld.connection = some firstTickConnection ∧
    firstTickConnection.appState.nextTick ≠ none ∧
    failedTick sampleEnv handshakeWorld firstTickConnection (.nudge failingNudge) =
      some ⟨.other 0, .authenticating, 2000000005⟩ ∧
    (∀ c', ((ApiCall.nudge failingNudge).step sampleEnv handshakeWorld).connection = some c' →
      c'.state.preOnline = true → ∃ t, c'.appState.nextTick = some t ∧ t ≤ 3000000005) ∧
    armings ((ApiCall.nudge failingNudge).step sampleEnv handshakeWorld).trace =
      armings handshakeWorld.trace + 1 := by
  have hc : handshakeWorld.connection = some firstTickConnection := by decide
  obtain ⟨hpending, hcalls⟩ := handshake_keeps_timer rfl handshakeWorld_run hc
  obtain ⟨hdeadline, hcount⟩ := hcalls (.nudge failingNudge) (by decide)
  exact ⟨handshakeWorld_run, hc, hpending rfl, rfl, hdeadline _ rfl rfl, hcount⟩

end LightwayCffi.Client
