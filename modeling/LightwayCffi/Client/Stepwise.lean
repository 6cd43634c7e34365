import LightwayCffi.Client.Api
import LightwayCffi.Foundations.Routine

/-!
# The entry points, one access at a time

The bodies of the entry points as routines on the client. Each access is what lies between two
points at which the host can be heard: a callback of the core (`schedule_tick_cb`, `event`), a state
announced by the shim, a refreshed timer. Between two accesses a host callback is running, or other
threads would be if there were no lock.

A routine that is not interrupted is the body of `Api` (`ApiCall.run_routine`). While a call into
the core is running, its connection is a value of the routine; it is put back before the body goes
on.
-/

namespace LightwayCffi.Client

namespace Stepwise

variable (env : Env)

/-! ## Calls into the core -/

/-- The callbacks of one core call, up to the first that panics. -/
def runCalls (c : Connection) : List CoreCall → Routine World (Connection × Bool)
  | [] => pure (c, false)
  | call :: calls => do
    match ← Routine.of fun w => runCall env w c call with
    | (c, true) => pure (c, true)
    | (c, false) => runCalls c calls

@[simp]
theorem run_runCalls (w : World) (c : Connection) (calls : List CoreCall) :
    (runCalls env c calls).run w = Client.runCalls env w c calls := by
  induction calls generalizing w c with
  | nil => rfl
  | cons call calls ih =>
    rw [runCalls, Client.runCalls]
    simp only [Routine.run_bind, Routine.run_of]
    rcases runCall env w c call with ⟨w', c', panicked⟩
    cases panicked with
    | true => rfl
    | false => exact ih w' c'

/-- A call into the core on the connection `c`. -/
def coreCall (c : Connection) (reply : CoreReply) : Routine World (Connection × CoreResult) := do
  let (c, panicked) ← runCalls env c reply.calls
  pure ({ c with state := reply.state, tickInterval := reply.tickInterval },
    if panicked then .panic else reply.result)

@[simp]
theorem run_coreCall (w : World) (c : Connection) (reply : CoreReply) :
    (coreCall env c reply).run w = Client.coreCall env w c reply := by
  simp only [coreCall, Routine.run_bind, run_runCalls, Client.coreCall]
  rcases Client.runCalls env w c reply.calls with ⟨w', c', panicked⟩
  rfl

/-! ## Connecting and disconnecting -/

/-- The tail of `client_connect_locked`. -/
def completeConnect (c : Connection) : Routine World Unit := do
  .modify fun w => (w.put c).log .established
  let w ← .get
  if w.conn.state ≠ .connecting then .modify fun w => w.announce .connecting else pure ()

@[simp]
theorem run_completeConnect (w : World) (c : Connection) :
    (completeConnect c).run w = (Client.completeConnect w c, ()) := by
  simp only [completeConnect, Routine.run_modify_bind, Routine.run_get_bind, Routine.run_ite,
    Client.completeConnect]
  split_ifs <;> rfl

/-- `client_connect_locked`. -/
def clientConnectLocked (i : ConnectInput) : Routine World (Option HeReturnCode) := do
  let w ← .get
  match clientConnectChecks w.toHeClient i with
  | .error code => pure (some code)
  | .ok () => do
    .modify fun w => w.log .opened
    match ← coreCall env (freshConnection w.toHeClient) i.connect with
    | (_, .panic) => pure none
    | (_, .err _) => pure (some .errSslError)
    | (c, .ok) => do
      completeConnect c
      pure (some .success)

@[simp]
theorem run_clientConnectLocked (w : World) (i : ConnectInput) :
    (clientConnectLocked env i).run w = Client.clientConnectLocked env w i := by
  simp only [clientConnectLocked, Routine.run_get_bind, Client.clientConnectLocked]
  rcases clientConnectChecks w.toHeClient i with code | ⟨⟩
  · rfl
  · rw [Routine.run_modify_bind, Routine.run_bind, run_coreCall]
    rcases Client.coreCall env (w.log .opened) (freshConnection w.toHeClient) i.connect with
      ⟨w', c, result⟩
    cases result <;> simp

/-- `fatal_disconnect`. -/
def fatalDisconnect : Routine World Unit := do
  let w ← .get
  if w.conn.state = .disconnected then .modify World.drop
  else do
    .modify fun w => w.announce .disconnected
    .modify World.drop

@[simp]
theorem run_fatalDisconnect (w : World) :
    fatalDisconnect.run w = (Client.fatalDisconnect w, ()) := by
  simp only [fatalDisconnect, Routine.run_get_bind, Routine.run_ite, Client.fatalDisconnect]
  split_ifs <;> rfl

/-- The tail of `client_disconnect_locked`. -/
def completeDisconnect : Routine World Unit := do
  let w ← .get
  if w.conn.state = .disconnecting ∨ w.conn.state = .disconnected then .modify World.drop
  else do
    .modify fun w => w.announce .disconnecting
    .modify fun w => w.announce .disconnected
    .modify World.drop

@[simp]
theorem run_completeDisconnect (w : World) :
    completeDisconnect.run w = (Client.completeDisconnect w, ()) := by
  simp only [completeDisconnect, Routine.run_get_bind, Routine.run_ite, Client.completeDisconnect]
  split_ifs <;> rfl

/-- `client_disconnect_locked`. -/
def clientDisconnectLocked (reply : CoreReply) : Routine World (Option HeReturnCode) := do
  match (← .get).connection with
  | none => do
    completeDisconnect
    pure (some .success)
  | some c => do
    match ← coreCall env c reply with
    | (c, .panic) => do
      .modify fun w => w.put c
      pure none
    | (c, _) => do
      .modify fun w => w.put c
      completeDisconnect
      pure (some .success)

@[simp]
theorem run_clientDisconnectLocked (w : World) (reply : CoreReply) :
    (clientDisconnectLocked env reply).run w = Client.clientDisconnectLocked env w reply := by
  simp only [clientDisconnectLocked, Routine.run_get_bind, Client.clientDisconnectLocked]
  rcases w.connection with - | c
  · simp
  · simp only [Routine.run_bind, run_coreCall]
    rcases Client.coreCall env w c reply with ⟨w', c', result⟩
    cases result <;> simp

/-! ## The data path -/

/-- `he_conn_outside_data_received`. -/
def heConnOutsideDataReceived (reply : CoreReply) : Routine World (Option HeReturnCode) := do
  match (← .get).connection with
  | none => pure (some .errInvalidConnState)
  | some c => do
    match ← coreCall env c reply with
    | (c, .panic) => do
      .modify fun w => w.put c
      pure none
    | (c', .ok) => do
      .modify fun w => w.put c'
      pure (some .success)
    | (c', .err error) => do
      .modify fun w => w.put c'
      if env.isFatal error c.connectionType then do
        fatalDisconnect
        pure (some .errFailed)
      else pure (some .success)

@[simp]
theorem run_heConnOutsideDataReceived (w : World) (reply : CoreReply) :
    (heConnOutsideDataReceived env reply).run w =
      Client.heConnOutsideDataReceived env w reply := by
  simp only [heConnOutsideDataReceived, Routine.run_get_bind, Client.heConnOutsideDataReceived]
  rcases w.connection with - | c
  · rfl
  · simp only [Routine.run_bind, run_coreCall]
    rcases Client.coreCall env w c reply with ⟨w', c', result⟩
    cases result with
    | ok => rfl
    | panic => rfl
    | err error =>
      simp only [Routine.run_modify_bind, Routine.run_ite]
      split_ifs <;> simp

/-- `he_conn_inside_packet_received`. -/
def heConnInsidePacketReceived (reply : CoreReply) : Routine World (Option HeReturnCode) := do
  match (← .get).connection with
  | none => pure (some .errInvalidConnState)
  | some c => do
    let (c, result) ← coreCall env c reply
    .modify fun w => w.put c
    match result with
    | .panic => pure none
    | .ok => pure (some .success)
    | .err .invalidState => pure (some .errInvalidConnState)
    | .err _ => pure (some .errFailed)

@[simp]
theorem run_heConnInsidePacketReceived (w : World) (reply : CoreReply) :
    (heConnInsidePacketReceived env reply).run w =
      Client.heConnInsidePacketReceived env w reply := by
  simp only [heConnInsidePacketReceived, Routine.run_get_bind, Client.heConnInsidePacketReceived]
  rcases w.connection with - | c
  · rfl
  · simp only [Routine.run_bind, run_coreCall, Routine.run_modify]
    rcases Client.coreCall env w c reply with ⟨w', c', result⟩
    cases result with
    | ok => rfl
    | panic => rfl
    | err error => cases error <;> rfl

/-! ## Timers -/

/-- Refresh `nudge_time_ms` from the connection's earliest deadline. -/
def refreshNudgeTime (c : Connection) (elapsed : ℕ) : Routine World Unit :=
  .modify fun w => Client.refreshNudgeTime w c elapsed

/-- `he_conn_expresslane_rotate_if_due`. -/
def heConnExpresslaneRotateIfDue (reply : CoreReply) (elapsed : ℕ) :
    Routine World (Option HeReturnCode) := do
  match (← .get).connection with
  | none => pure (some .errInvalidConnState)
  | some c => do
    if c.state ≠ .online then pure (some .success)
    else do
      match ← coreCall env c reply with
      | (c, .panic) => do
        .modify fun w => w.put c
        pure none
      | (c, _) => do
        .modify fun w => w.put c
        refreshNudgeTime c elapsed
        pure (some .success)

@[simp]
theorem run_heConnExpresslaneRotateIfDue (w : World) (reply : CoreReply) (elapsed : ℕ) :
    (heConnExpresslaneRotateIfDue env reply elapsed).run w =
      Client.heConnExpresslaneRotateIfDue env w reply elapsed := by
  simp only [heConnExpresslaneRotateIfDue, Routine.run_get_bind,
    Client.heConnExpresslaneRotateIfDue]
  rcases w.connection with - | c
  · rfl
  · simp only [Routine.run_ite]
    split_ifs with hstate
    · rfl
    · simp only [Routine.run_bind, run_coreCall]
      rcases Client.coreCall env w c reply with ⟨w', c', result⟩
      cases result <;> rfl

/-- `handle_connection_tick_error`. -/
def handleConnectionTickError (error : ConnectionError) (connectionType : ConnectionType) :
    Routine World HeReturnCode := do
  if error = .timedOut then do
    .modify fun w => w.setNudgeTime 0
    fatalDisconnect
    pure .connectionTimedOut
  else if env.isFatal error connectionType then do
    .modify fun w => w.setNudgeTime 0
    fatalDisconnect
    pure .errFailed
  else pure .errFailed

@[simp]
theorem run_handleConnectionTickError (w : World) (error : ConnectionError)
    (connectionType : ConnectionType) :
    (handleConnectionTickError env error connectionType).run w =
      Client.handleConnectionTickError env w error connectionType := by
  simp only [handleConnectionTickError, Client.handleConnectionTickError, Routine.run_ite]
  split_ifs <;> simp

/-- The dispatch loop of `he_conn_nudge`. -/
def dispatch (connectionType : ConnectionType) (c : Connection) :
    List PendingTick → (ℕ → CoreReply) → Routine World (Connection × Dispatched)
  | [], _ => pure (c, .done)
  | tick :: due, reply => do
    .modify fun w => w.log (.tickedPayload tick)
    match ← coreCall env c (reply 0) with
    | (c, .panic) => pure (c, .panicked)
    | (c, .ok) => dispatch connectionType c due fun k => reply (k + 1)
    | (c, .err error) =>
      if env.isFatal error connectionType then pure (c, .fatal error)
      else dispatch connectionType c due fun k => reply (k + 1)

@[simp]
theorem run_dispatch (w : World) (connectionType : ConnectionType) (c : Connection)
    (due : List PendingTick) (reply : ℕ → CoreReply) :
    (dispatch env connectionType c due reply).run w =
      Client.dispatch env connectionType w c due reply := by
  induction due generalizing w c reply with
  | nil => rfl
  | cons tick due ih =>
    rw [dispatch, Client.dispatch]
    rw [Routine.run_modify_bind, Routine.run_bind, run_coreCall]
    rcases Client.coreCall env (w.log (.tickedPayload tick)) c (reply 0) with ⟨w', c', result⟩
    cases result with
    | panic => rfl
    | ok => exact ih w' c' _
    | err error =>
      simp only [Routine.run_ite]
      split_ifs
      · rfl
      · exact ih w' c' _

/-- The second half of `he_conn_nudge`. -/
def nudgePayload (c : Connection) (i : NudgeInput) : Routine World (Option HeReturnCode) := do
  .modify fun w => w.advance i.payloadElapsed
  let w ← .get
  let (due, remaining) := c.appState.pendingTicks.partition fun p => p.deadline ≤ w.now
  .modify fun w => w.log (.taken w.now)
  match ← dispatch env c.connectionType { c with appState.pendingTicks := remaining } due
    i.payloadTick with
  | (c, .panicked) => do
    .modify fun w => w.put c
    pure none
  | (c', .fatal error) => do
    .modify fun w => w.put c'
    let code ← handleConnectionTickError env error c.connectionType
    pure (some code)
  | (c, .done) => do
    .modify fun w => w.put c
    refreshNudgeTime c i.timeoutElapsed
    pure (some .success)

@[simp]
theorem run_nudgePayload (w : World) (c : Connection) (i : NudgeInput) :
    (nudgePayload env c i).run w = Client.nudgePayload env w c i := by
  rw [nudgePayload, Client.nudgePayload, Routine.run_modify_bind, Routine.run_get_bind]
  dsimp only
  rw [Routine.run_modify_bind, Routine.run_bind, run_dispatch]
  rcases Client.dispatch env c.connectionType _ _ _ i.payloadTick with ⟨w', c', outcome⟩
  cases outcome with
  | done => rfl
  | panicked => rfl
  | fatal error => simp

/-- The first half of `he_conn_nudge` when the connection tick is due. -/
def nudgeConnectionTick (c : Connection) (i : NudgeInput) :
    Routine World (Option HeReturnCode) := do
  .modify fun w => w.log .tickedConnection
  match ← coreCall env { c with appState.nextTick := none } i.connectionTick with
  | (c, .panic) => do
    .modify fun w => w.put c
    pure none
  | (c, .ok) => nudgePayload env c i
  | (c', .err error) => do
    match ← Routine.of fun w => retryConnectionTickAfterError env w c' error c.connectionType
      (c.tickInterval.getD 1000000) i.retryElapsed with
    | (c, true) => do
      .modify fun w => w.put c
      pure none
    | (c', false) => do
      .modify fun w => w.put c'
      refreshNudgeTime c' i.timeoutElapsed
      let code ← handleConnectionTickError env error c.connectionType
      pure (some code)

@[simp]
theorem run_nudgeConnectionTick (w : World) (c : Connection) (i : NudgeInput) :
    (nudgeConnectionTick env c i).run w = Client.nudgeConnectionTick env w c i := by
  rw [nudgeConnectionTick, Client.nudgeConnectionTick, Routine.run_modify_bind, Routine.run_bind,
    run_coreCall]
  rcases Client.coreCall env (w.log .tickedConnection) { c with appState.nextTick := none }
    i.connectionTick with ⟨w', c', result⟩
  cases result with
  | panic => rfl
  | ok => exact run_nudgePayload env w' c' i
  | err error =>
    simp only [Routine.run_bind, Routine.run_of]
    rcases retryConnectionTickAfterError env w' c' error c.connectionType
      (c.tickInterval.getD 1000000) i.retryElapsed with ⟨w'', c'', panicked⟩
    cases panicked with
    | true => rfl
    | false => simp [refreshNudgeTime]

/-- `he_conn_nudge`. -/
def heConnNudge (i : NudgeInput) : Routine World (Option HeReturnCode) := do
  .modify fun w => w.advance i.connectionTickElapsed
  let w ← .get
  match w.connection with
  | none => pure (some .errInvalidConnState)
  | some c =>
    if c.appState.nextTick.any fun t => t ≤ w.now then nudgeConnectionTick env c i
    else nudgePayload env c i

@[simp]
theorem run_heConnNudge (w : World) (i : NudgeInput) :
    (heConnNudge env i).run w = Client.heConnNudge env w i := by
  simp only [heConnNudge, Client.heConnNudge, Routine.run_modify_bind, Routine.run_get_bind]
  rcases (w.advance i.connectionTickElapsed).connection with - | c
  · rfl
  · simp only [Routine.run_ite, run_nudgeConnectionTick, run_nudgePayload]

end Stepwise

/-- The body of a call, one access at a time. -/
def ApiCall.routine (env : Env) : ApiCall → Routine World (Option HeReturnCode)
  | .connect input => Stepwise.clientConnectLocked env input
  | .disconnect reply => Stepwise.clientDisconnectLocked env reply
  | .outsideDataReceived reply => Stepwise.heConnOutsideDataReceived env reply
  | .insidePacketReceived reply => Stepwise.heConnInsidePacketReceived env reply
  | .nudge input => Stepwise.heConnNudge env input
  | .expresslaneRotateIfDue reply elapsed => Stepwise.heConnExpresslaneRotateIfDue env reply elapsed

/-- **Without interruption, the routine is the body.** -/
theorem ApiCall.run_routine (env : Env) (w : World) (call : ApiCall) :
    (call.routine env).run w = call.body env w := by
  cases call with
  | connect input => exact Stepwise.run_clientConnectLocked env w input
  | disconnect reply => exact Stepwise.run_clientDisconnectLocked env w reply
  | outsideDataReceived reply => exact Stepwise.run_heConnOutsideDataReceived env w reply
  | insidePacketReceived reply => exact Stepwise.run_heConnInsidePacketReceived env w reply
  | nudge input => exact Stepwise.run_heConnNudge env w input
  | expresslaneRotateIfDue reply elapsed =>
    exact Stepwise.run_heConnExpresslaneRotateIfDue env w reply elapsed

end LightwayCffi.Client
