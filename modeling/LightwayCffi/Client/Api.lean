import LightwayCffi.Client.Core

/-!
# The entry points of the C API (`lib.rs`)

The bodies of `he_client_connect`, `he_client_disconnect`, `he_conn_outside_data_received`,
`he_conn_inside_packet_received`, `he_conn_nudge` and `he_conn_expresslane_rotate_if_due`, as they
run for non-null pointers with the per-client lock held (`LightwayCffi.Client.Lock`). Each returns
the new world and a return code; no code means that the body panicked, and `ffi_guard` then returns
`HE_ERR_FAILED` with the client as the panic left it.

`sync_conn_info` and the fields it fills (protocol, curve and cipher names) are left out here, see
`LightwayCffi.Client.ConnInfo`, and so are the packet buffers and the settings that are only handed
on to the core: no function below reads them.
-/

namespace LightwayCffi.Client

variable (env : Env)

/-! ## Connecting -/

/-- How the core answers while the connection is being built: `ClientContextBuilder::new`,
`with_cipher` and `start_connect` succeed or not, and then `connect()` runs. -/
structure ConnectInput where
  contextBuilt : Bool
  cipherSet : Bool
  started : Bool
  connect : CoreReply

/-- `std::str::from_utf8(bytes).is_ok()`. -/
def isUtf8 (bytes : Bytes) : Bool :=
  ByteArray.validateUTF8 ⟨bytes.toArray⟩

/-- Return early with `code` unless the condition holds. -/
def ensure (holds : Bool) (code : HeReturnCode) : Except HeReturnCode Unit :=
  if holds then .ok () else .error code

/-- The choice of the authentication method: user and password if both are set, else the token. -/
def authCheck (conn : HeConn) : Except HeReturnCode Unit :=
  match conn.username, conn.password with
  | some user, some pass => ensure (isUtf8 user && isUtf8 pass) .errBadParam
  | _, _ =>
    match conn.authToken with
    | some token => ensure (isUtf8 token) .errBadParam
    | none => .error .errConfNotSet

/-- Everything `client_connect_locked` checks before it calls `connect()`, in its order. -/
def clientConnectChecks (client : HeClient) (i : ConnectInput) : Except HeReturnCode Unit := do
  ensure client.connection.isNone .errInvalidConnState
  ensure client.sslCtx.outsideWriteCb .errConfNotSet
  ensure client.sslCtx.caCert.isSome .errConfNotSet
  authCheck client.conn
  ensure i.contextBuilt .errSslError
  ensure (!client.sslCtx.useChacha20 || i.cipherSet) .errSslError
  ensure i.started .errSslError
  ensure (client.sslCtx.serverDn.all isUtf8) .errBadParam
  ensure (client.conn.sniHostname.all isUtf8) .errBadParam

/-- The connection `connect()` starts from. -/
def freshConnection (client : HeClient) : Connection where
  connectionType := client.sslCtx.connectionType
  state := .connecting
  tickInterval := none
  appState := .default client.sslCtx.nudgeTimeCb
  stateChangeCb := client.sslCtx.stateChangeCb

/-- The tail of `client_connect_locked`, once the core has handed out a connection. -/
def completeConnect (w : World) (c : Connection) : World :=
  let w := (w.put c).log .established
  -- the core does not report its initial state, so the shim does
  if w.conn.state ≠ .connecting then w.announce .connecting else w

@[simp]
theorem completeConnect_connection (w : World) (c : Connection) :
    (completeConnect w c).connection = some c := by
  unfold completeConnect
  dsimp only
  split <;> rfl

@[simp]
theorem completeConnect_sslCtx (w : World) (c : Connection) :
    (completeConnect w c).sslCtx = w.sslCtx := by
  unfold completeConnect
  dsimp only
  split <;> rfl

@[simp]
theorem completeConnect_nudgeTimeMs (w : World) (c : Connection) :
    (completeConnect w c).conn.nudgeTimeMs = w.conn.nudgeTimeMs := by
  unfold completeConnect
  dsimp only
  split <;> rfl

/-- `client_connect_locked`. -/
def clientConnectLocked (w : World) (i : ConnectInput) : World × Option HeReturnCode :=
  match clientConnectChecks w.toHeClient i with
  | .error code => (w, some code)
  | .ok () =>
    match coreCall env (w.log .opened) (freshConnection w.toHeClient) i.connect with
    | (w, _, .panic) => (w, none)
    | (w, _, .err _) => (w, some .errSslError)
    | (w, c, .ok) => (completeConnect w c, some .success)

/-! ## Disconnecting -/

/-- `fatal_disconnect`. -/
def fatalDisconnect (w : World) : World :=
  if w.conn.state = .disconnected then w.drop
  else (w.announce .disconnected).drop

/-- The tail of `client_disconnect_locked`, after the core's goodbye. -/
def completeDisconnect (w : World) : World :=
  let alreadyDisconnected := w.conn.state = .disconnecting ∨ w.conn.state = .disconnected
  if alreadyDisconnected then w.drop
  else ((w.announce .disconnecting).announce .disconnected).drop

@[simp]
theorem fatalDisconnect_connection (w : World) : (fatalDisconnect w).connection = none := by
  unfold fatalDisconnect
  split <;> rfl

@[simp]
theorem fatalDisconnect_sslCtx (w : World) : (fatalDisconnect w).sslCtx = w.sslCtx := by
  unfold fatalDisconnect
  split <;> rfl

@[simp]
theorem fatalDisconnect_nudgeTimeMs (w : World) :
    (fatalDisconnect w).conn.nudgeTimeMs = w.conn.nudgeTimeMs := by
  unfold fatalDisconnect
  split <;> rfl

@[simp]
theorem completeDisconnect_connection (w : World) : (completeDisconnect w).connection = none := by
  unfold completeDisconnect
  dsimp only
  split <;> rfl

@[simp]
theorem completeDisconnect_sslCtx (w : World) : (completeDisconnect w).sslCtx = w.sslCtx := by
  unfold completeDisconnect
  dsimp only
  split <;> rfl

@[simp]
theorem completeDisconnect_nudgeTimeMs (w : World) :
    (completeDisconnect w).conn.nudgeTimeMs = w.conn.nudgeTimeMs := by
  unfold completeDisconnect
  dsimp only
  split <;> rfl

/-- `client_disconnect_locked`. The result of the core's `disconnect()` is ignored. -/
def clientDisconnectLocked (w : World) (reply : CoreReply) : World × Option HeReturnCode :=
  match w.connection with
  | none => (completeDisconnect w, some .success)
  | some c =>
    match coreCall env w c reply with
    | (w, c, .panic) => (w.put c, none)
    | (w, c, _) => (completeDisconnect (w.put c), some .success)

/-! ## The data path -/

/-- `he_conn_outside_data_received`. -/
def heConnOutsideDataReceived (w : World) (reply : CoreReply) : World × Option HeReturnCode :=
  match w.connection with
  | none => (w, some .errInvalidConnState)
  | some c =>
    let connectionType := c.connectionType
    match coreCall env w c reply with
    | (w, c, .panic) => (w.put c, none)
    | (w, c, .ok) => (w.put c, some .success)
    | (w, c, .err error) =>
      if env.isFatal error connectionType then (fatalDisconnect (w.put c), some .errFailed)
      else (w.put c, some .success)

/-- `he_conn_inside_packet_received`. -/
def heConnInsidePacketReceived (w : World) (reply : CoreReply) : World × Option HeReturnCode :=
  match w.connection with
  | none => (w, some .errInvalidConnState)
  | some c =>
    match coreCall env w c reply with
    | (w, c, .panic) => (w.put c, none)
    | (w, c, .ok) => (w.put c, some .success)
    | (w, c, .err .invalidState) => (w.put c, some .errInvalidConnState)
    | (w, c, .err _) => (w.put c, some .errFailed)

/-! ## Timers -/

/-- Refresh `nudge_time_ms` from the connection's earliest deadline, at a new clock reading. -/
def refreshNudgeTime (w : World) (c : Connection) (elapsed : ℕ) : World :=
  let w := w.advance elapsed
  w.setNudgeTime (nudgeMsUntil c.appState.earliestTickDeadline w.now)

@[simp]
theorem refreshNudgeTime_connection (w : World) (c : Connection) (n : ℕ) :
    (refreshNudgeTime w c n).connection = w.connection := rfl

@[simp]
theorem refreshNudgeTime_nudgeTimeMs (w : World) (c : Connection) (n : ℕ) :
    (refreshNudgeTime w c n).conn.nudgeTimeMs =
      nudgeMsUntil c.appState.earliestTickDeadline (w.now + n) := rfl

@[simp]
theorem refreshNudgeTime_trace (w : World) (c : Connection) (n : ℕ) :
    (refreshNudgeTime w c n).trace = w.trace := rfl

/-- `he_conn_expresslane_rotate_if_due`; `elapsed` is the time to the clock reading at its end. -/
def heConnExpresslaneRotateIfDue (w : World) (reply : CoreReply) (elapsed : ℕ) :
    World × Option HeReturnCode :=
  match w.connection with
  | none => (w, some .errInvalidConnState)
  | some c =>
    if c.state ≠ .online then (w, some .success)
    else
      match coreCall env w c reply with
      | (w, c, .panic) => (w.put c, none)
      | (w, c, _) => (refreshNudgeTime (w.put c) c elapsed, some .success)

/-- `handle_connection_tick_error`. -/
def handleConnectionTickError (w : World) (error : ConnectionError)
    (connectionType : ConnectionType) : World × HeReturnCode :=
  if error = .timedOut then
    (fatalDisconnect (w.setNudgeTime 0), .connectionTimedOut)
  else if env.isFatal error connectionType then
    (fatalDisconnect (w.setNudgeTime 0), .errFailed)
  else
    (w, .errFailed)

/-- `retry_connection_tick_after_error`, `elapsed` before the callback reads the clock. The last
component tells whether the callback panicked. -/
def retryConnectionTickAfterError (w : World) (c : Connection) (error : ConnectionError)
    (connectionType : ConnectionType) (retryDelay elapsed : ℕ) : World × Connection × Bool :=
  let shouldRetry := !env.isFatal error connectionType &&
    (c.state = .connecting || c.state = .linkUp || c.state = .authenticating)
  if shouldRetry then scheduleTick env w c elapsed retryDelay .connectionTick
  else (w, c, false)

/-- What happens during one nudge: the time to each clock reading, the core's reply to the
connection tick, and its reply to the `k`-th payload tick it is handed. -/
structure NudgeInput where
  connectionTickElapsed : ℕ
  connectionTick : CoreReply
  retryElapsed : ℕ
  payloadElapsed : ℕ
  payloadTick : ℕ → CoreReply
  timeoutElapsed : ℕ

/-- How the dispatch of the due payload ticks ends. -/
inductive Dispatched where
  | done
  | fatal (error : ConnectionError)
  | panicked

/-- The dispatch loop of `he_conn_nudge`: hand each due tick to the core, stop at a fatal error. -/
def dispatch (connectionType : ConnectionType) (w : World) (c : Connection) :
    List PendingTick → (ℕ → CoreReply) → World × Connection × Dispatched
  | [], _ => (w, c, .done)
  | tick :: due, reply =>
    match coreCall env (w.log (.tickedPayload tick)) c (reply 0) with
    | (w, c, .panic) => (w, c, .panicked)
    | (w, c, .ok) => dispatch connectionType w c due fun k => reply (k + 1)
    | (w, c, .err error) =>
      if env.isFatal error connectionType then (w, c, .fatal error)
      else dispatch connectionType w c due fun k => reply (k + 1)

/-- The second half of `he_conn_nudge`: take the due payload ticks, store the others back, dispatch,
and refresh the timer. -/
def nudgePayload (w : World) (c : Connection) (i : NudgeInput) : World × Option HeReturnCode :=
  let connectionType := c.connectionType
  let w := w.advance i.payloadElapsed
  let (due, remaining) := c.appState.pendingTicks.partition fun p => p.deadline ≤ w.now
  let c := { c with appState.pendingTicks := remaining }
  match dispatch env connectionType (w.log (.taken w.now)) c due i.payloadTick with
  | (w, c, .panicked) => (w.put c, none)
  | (w, c, .fatal error) =>
    let (w, code) := handleConnectionTickError env (w.put c) error connectionType
    (w, some code)
  | (w, c, .done) => (refreshNudgeTime (w.put c) c i.timeoutElapsed, some .success)

/-- The first half of `he_conn_nudge` when the connection tick is due: consume it and hand it to the
core, go on to the payload ticks if it succeeds, and arm a retry and return if it fails. -/
def nudgeConnectionTick (w : World) (c : Connection) (i : NudgeInput) :
    World × Option HeReturnCode :=
  let retryDelay := c.tickInterval.getD 1000000
  let connectionType := c.connectionType
  let c := { c with appState.nextTick := none }
  match coreCall env (w.log .tickedConnection) c i.connectionTick with
  | (w, c, .panic) => (w.put c, none)
  | (w, c, .ok) => nudgePayload env w c i
  | (w, c, .err error) =>
    match retryConnectionTickAfterError env w c error connectionType retryDelay i.retryElapsed with
    | (w, c, true) => (w.put c, none)
    | (w, c, false) =>
      let (w, code) := handleConnectionTickError env
        (refreshNudgeTime (w.put c) c i.timeoutElapsed) error connectionType
      (w, some code)

/-- `he_conn_nudge`. -/
def heConnNudge (w : World) (i : NudgeInput) : World × Option HeReturnCode :=
  let w := w.advance i.connectionTickElapsed
  match w.connection with
  | none => (w, some .errInvalidConnState)
  | some c =>
    let shouldTick := c.appState.nextTick.any fun t => t ≤ w.now
    if shouldTick then nudgeConnectionTick env w c i else nudgePayload env w c i

/-! ## Runs -/

/-- A call of the host, with everything the core does and the clock shows while it runs. -/
inductive ApiCall where
  | connect (input : ConnectInput)
  | disconnect (reply : CoreReply)
  | outsideDataReceived (reply : CoreReply)
  | insidePacketReceived (reply : CoreReply)
  | nudge (input : NudgeInput)
  | expresslaneRotateIfDue (reply : CoreReply) (elapsed : ℕ)

namespace ApiCall

/-- The body of a call; no code means that it panicked. -/
def body (w : World) : ApiCall → World × Option HeReturnCode
  | .connect input => clientConnectLocked env w input
  | .disconnect reply => clientDisconnectLocked env w reply
  | .outsideDataReceived reply => heConnOutsideDataReceived env w reply
  | .insidePacketReceived reply => heConnInsidePacketReceived env w reply
  | .nudge input => heConnNudge env w input
  | .expresslaneRotateIfDue reply elapsed => heConnExpresslaneRotateIfDue env w reply elapsed

/-- What the call returns to C: `ffi_guard` turns a panic into `HE_ERR_FAILED`. -/
def code (w : World) (call : ApiCall) : HeReturnCode :=
  (call.body env w).2.getD .errFailed

/-- The world after the call. After a nudge the host reads `he_conn_get_nudge_time`. -/
def step (w : World) (call : ApiCall) : World :=
  match call with
  | .nudge _ =>
    let w := (call.body env w).1
    w.log (.polled w.conn.nudgeTimeMs w.conn.nudgeTimeAt)
  | _ => (call.body env w).1

/-- The call did not panic. -/
def Returns (w : World) (call : ApiCall) : Prop :=
  (call.body env w).2 ≠ none

instance (w : World) (call : ApiCall) : Decidable (call.Returns env w) :=
  inferInstanceAs (Decidable ((call.body env w).2 ≠ none))

end ApiCall

/-- A new client: no connection, no timer, no state yet. Its settings are arbitrary. -/
structure World.Initial (w : World) : Prop where
  connection : w.connection = none
  state : w.conn.state = .none
  nudgeTimeMs : w.conn.nudgeTimeMs = 0
  trace : w.trace = []

/-! ## A concrete client

A client with every callback registered and a token to authenticate with, and the core of an
uneventful connection: the runs that show the results below at work are built from these. -/

/-- A clock that ends far away, and a core for which only a timeout is fatal. -/
def sampleEnv : Env where
  instantMax := 2 ^ 63
  isFatal error _ := error = .timedOut

def sampleWorld : World where
  sslCtx :=
    { outsideWriteCb := true, caCert := some [], connectionType := .datagram, useChacha20 := false,
      serverDn := none, stateChangeCb := true, nudgeTimeCb := true }
  conn :=
    { username := none, password := none, authToken := some [116, 111, 107], sniHostname := none,
      state := .none, nudgeTimeMs := 0, nudgeTimeAt := 0 }
  connection := none
  now := 0
  trace := []

theorem sampleWorld_initial : sampleWorld.Initial := ⟨rfl, rfl, rfl, rfl⟩

/-- A call into the core that makes these callbacks and succeeds. -/
def okReply (calls : List CoreCall) : CoreReply where
  calls := calls
  result := .ok
  state := .connecting
  tickInterval := some 1000000000

/-- Connecting succeeds, with these callbacks on the way. -/
def sampleConnect (calls : List CoreCall) : ConnectInput where
  contextBuilt := true
  cipherSet := true
  started := true
  connect := okReply calls

/-- Connecting schedules the first connection tick a second ahead, as lightway-core does. -/
def firstTickConnect : ConnectInput :=
  sampleConnect [.scheduleTick 0 1000000000 .connectionTick]

/-- A nudge `elapsed` nanoseconds after the last clock reading, in which every tick that is due
makes the callbacks listed for it. -/
def sampleNudge (elapsed : ℕ) (connectionTick : List CoreCall) (payloadTick : ℕ → List CoreCall) :
    NudgeInput where
  connectionTickElapsed := elapsed
  connectionTick := okReply connectionTick
  retryElapsed := 0
  payloadElapsed := 0
  payloadTick k := okReply (payloadTick k)
  timeoutElapsed := 0

end LightwayCffi.Client
