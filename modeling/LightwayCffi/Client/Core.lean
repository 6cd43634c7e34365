import LightwayCffi.Client.AppState
import LightwayCffi.Foundations.Buffer

/-!
# The client and the calls it makes into lightway-core

A client owns at most one `Connection` of lightway-core. The core is not part of this repository:
a call into it may do whatever its interface allows, which is to call back into the shim any number
of times and then to return, to fail, or to panic. `CoreReply` lists that behaviour for one call;
the results of this development quantify over all replies, so they hold for every core.

Two callbacks of the core change the client. `cffi_schedule_tick_cb` records a tick, and
`CffiEventCallback::event` stores a changed state and delivers it to the host's `state_change_cb`.
The other callbacks only forward data to the host.

A `World` is a client together with the clock and a `trace`: the list of what has happened, oldest
first, each entry with the value of `he_conn_get_state` right after it. The trace is written and
never read by the model of the code. A clock reading is given by the time elapsed since the last
one, so that readings never decrease.
-/

namespace LightwayCffi.Client

/-! ## Vocabulary of the C API and of lightway-core -/

/-- `he_return_code_t`. -/
inductive HeReturnCode where
  | success
  | errFailed
  | errNullPointer
  | errNoMemory
  | errBufferTooSmall
  | errBadParam
  | errAccessDenied
  | errPayloadTooLarge
  | errStringTooLong
  | connectionTimedOut
  | errIncorrectProtocolVersion
  | errSslError
  | errConfNotSet
  | errInvalidConnState
  deriving DecidableEq

/-- `he_conn_state_t`. -/
inductive HeConnState where
  | none
  | disconnected
  | connecting
  | disconnecting
  | authenticating
  | linkUp
  | configuring
  | online
  deriving DecidableEq

/-- lightway-core's `State`. -/
inductive State where
  | connecting
  | linkUp
  | authenticating
  | online
  | disconnecting
  | disconnected
  deriving DecidableEq

/-- lightway-core's `ConnectionType`. -/
inductive ConnectionType where
  | datagram
  | stream
  deriving DecidableEq

/-- lightway-core's `ConnectionError`: the two variants the shim tells apart, and the others. -/
inductive ConnectionError where
  | timedOut
  | invalidState
  | other (code : ℕ)
  deriving DecidableEq

/-- `rust_state_to_c`. -/
def rustStateToC : State → HeConnState
  | .connecting => .connecting
  | .linkUp => .linkUp
  | .authenticating => .authenticating
  | .online => .online
  | .disconnecting => .disconnecting
  | .disconnected => .disconnected

/-- What the shim takes from outside: the last instant the platform's clock can represent, and the
core's classification of errors, `ConnectionError::is_fatal`. -/
structure Env where
  instantMax : ℕ
  isFatal : ConnectionError → ConnectionType → Bool

/-! ## The client -/

/-- The part of a live `Connection<CffiAppState>` the shim can see. `stateChangeCb` says whether the
connection's `CffiEventCallback` has a `state_change_cb`. -/
structure Connection where
  connectionType : ConnectionType
  state : State
  tickInterval : Option ℕ
  appState : CffiAppState
  stateChangeCb : Bool
  deriving DecidableEq

/-- The settings of `he_ssl_ctx_t` that connecting reads. A callback is present or absent. -/
structure HeSslCtx where
  outsideWriteCb : Bool
  caCert : Option Bytes
  connectionType : ConnectionType
  useChacha20 : Bool
  serverDn : Option Bytes
  stateChangeCb : Bool
  nudgeTimeCb : Bool
  deriving DecidableEq

/-- `he_conn_t`: the credentials, the state and timer the host can query, and, as a history
variable, the clock reading `nudge_time_ms` was last computed from. -/
structure HeConn where
  username : Option Bytes
  password : Option Bytes
  authToken : Option Bytes
  sniHostname : Option Bytes
  state : HeConnState
  nudgeTimeMs : ℕ
  nudgeTimeAt : ℕ
  deriving DecidableEq

/-- `he_client_t`. -/
structure HeClient where
  sslCtx : HeSslCtx
  conn : HeConn
  connection : Option Connection
  deriving DecidableEq

/-! ## The trace -/

/-- What a trace records. -/
inductive Action where
  /-- A fresh application state is handed to the core, which starts to connect. -/
  | opened
  /-- The connection is stored in the client. -/
  | established
  /-- A connection tick is scheduled for this deadline. -/
  | scheduledConnection (deadline : ℕ)
  /-- A payload tick is scheduled. -/
  | scheduledPayload (tick : PendingTick)
  /-- `nudge_time_cb` is called with this timeout, computed at this clock reading. -/
  | nudgeTime (timeoutMs now : ℕ)
  /-- The core fires `StateChanged`; the host hears of it if its callback is registered. -/
  | fired (state : State) (registered : Bool)
  /-- The shim itself moves to a state and announces it to a registered callback. -/
  | announced (state : HeConnState) (registered : Bool)
  /-- `Connection::tick(ConnectionTick)` is called. -/
  | tickedConnection
  /-- A nudge takes the payload ticks that are due at this clock reading out of the list. -/
  | taken (now : ℕ)
  /-- `Connection::tick` is called with a payload tick. -/
  | tickedPayload (tick : PendingTick)
  /-- A nudge has returned and the host reads `he_conn_get_nudge_time`. -/
  | polled (timeoutMs now : ℕ)
  deriving DecidableEq

/-- An action, and the state the host would read right after it. -/
structure Entry where
  action : Action
  state : HeConnState
  deriving DecidableEq

/-- A client, the last clock reading, and everything that has happened so far. -/
structure World extends HeClient where
  now : ℕ
  trace : List Entry
  deriving DecidableEq

namespace World

/-- Record an action. -/
def log (w : World) (action : Action) : World :=
  { w with trace := w.trace ++ [⟨action, w.conn.state⟩] }

/-- Read the clock after `elapsed` nanoseconds. -/
def advance (w : World) (elapsed : ℕ) : World :=
  { w with now := w.now + elapsed }

/-- Store the live connection. -/
def put (w : World) (c : Connection) : World :=
  { w with connection := some c }

/-- Drop the live connection. -/
def drop (w : World) : World :=
  { w with connection := none }

/-- Cache the time to the next deadline in `nudge_time_ms`. -/
def setNudgeTime (w : World) (timeoutMs : ℕ) : World :=
  { w with conn.nudgeTimeMs := timeoutMs, conn.nudgeTimeAt := w.now }

/-- `Event::StateChanged` as `CffiEventCallback::event` handles it. -/
def event (w : World) (registered : Bool) (state : State) : World :=
  { w with conn.state := rustStateToC state }.log (.fired state registered)

/-- The shim's own transitions: store the state, then call a registered `state_change_cb`. -/
def announce (w : World) (state : HeConnState) : World :=
  { w with conn.state := state }.log (.announced state w.sslCtx.stateChangeCb)

@[simp]
theorem log_toHeClient (w : World) (a : Action) : (w.log a).toHeClient = w.toHeClient := rfl

@[simp]
theorem log_now (w : World) (a : Action) : (w.log a).now = w.now := rfl

@[simp]
theorem log_trace (w : World) (a : Action) :
    (w.log a).trace = w.trace ++ [⟨a, w.conn.state⟩] := rfl

@[simp]
theorem advance_toHeClient (w : World) (n : ℕ) : (w.advance n).toHeClient = w.toHeClient := rfl

@[simp]
theorem advance_now (w : World) (n : ℕ) : (w.advance n).now = w.now + n := rfl

@[simp]
theorem advance_trace (w : World) (n : ℕ) : (w.advance n).trace = w.trace := rfl

@[simp]
theorem put_connection (w : World) (c : Connection) : (w.put c).connection = some c := rfl

@[simp]
theorem put_conn (w : World) (c : Connection) : (w.put c).conn = w.conn := rfl

@[simp]
theorem put_trace (w : World) (c : Connection) : (w.put c).trace = w.trace := rfl

@[simp]
theorem drop_conn (w : World) : w.drop.conn = w.conn := rfl

@[simp]
theorem drop_trace (w : World) : w.drop.trace = w.trace := rfl

@[simp]
theorem setNudgeTime_trace (w : World) (t : ℕ) : (w.setNudgeTime t).trace = w.trace := rfl

@[simp]
theorem event_trace (w : World) (b : Bool) (s : State) :
    (w.event b s).trace = w.trace ++ [⟨.fired s b, rustStateToC s⟩] := rfl

@[simp]
theorem announce_sslCtx (w : World) (s : HeConnState) : (w.announce s).sslCtx = w.sslCtx := rfl

@[simp]
theorem announce_trace (w : World) (s : HeConnState) :
    (w.announce s).trace = w.trace ++ [⟨.announced s w.sslCtx.stateChangeCb, s⟩] := rfl

end World

/-! ## Calls into the core -/

/-- A callback the core makes while it is running a call. -/
inductive CoreCall where
  /-- `schedule_tick_cb(d, app_state, tick)`, made `elapsed` after the last clock reading. -/
  | scheduleTick (elapsed d : ℕ) (tick : TickType)
  /-- `event(StateChanged(state))`. -/
  | stateChanged (state : State)
  deriving DecidableEq

/-- How a call into the core ends. -/
inductive CoreResult where
  | ok
  | err (error : ConnectionError)
  | panic
  deriving DecidableEq

/-- The core's behaviour in one call: its callbacks in order, how it ends, and what
`Connection::state()` and `Connection::tick_interval()` answer from then on. -/
structure CoreReply where
  calls : List CoreCall
  result : CoreResult
  state : State
  tickInterval : Option ℕ
  deriving DecidableEq

/-- The trace's record of a scheduled tick. -/
def scheduledAction (deadline : ℕ) (tick : TickType) : Action :=
  if h : tick = .connectionTick then .scheduledConnection deadline
  else .scheduledPayload ⟨deadline, tick, h⟩

theorem scheduledAction_payload (p : PendingTick) :
    scheduledAction p.deadline p.tick = .scheduledPayload p :=
  dif_neg p.isPayload

/-- `nudge_time_cb(timeout)`, when the callback is registered. -/
def World.notify (w : World) : Option ℕ → World
  | none => w
  | some timeoutMs => w.log (.nudgeTime timeoutMs w.now)

section Calls

variable (env : Env)

/-- `cffi_schedule_tick_cb` on the connection's application state. The last component tells whether
the addition of the delay to the clock panicked. -/
def scheduleTick (w : World) (c : Connection) (elapsed d : ℕ) (tick : TickType) :
    World × Connection × Bool :=
  let w := w.advance elapsed
  match cffiScheduleTickCb env.instantMax w.now d c.appState tick with
  | none => (w, c, true)
  | some (app, timeout) =>
    ((w.log (scheduledAction (w.now + d) tick)).notify timeout, { c with appState := app }, false)

/-- One callback of the core. -/
def runCall (w : World) (c : Connection) : CoreCall → World × Connection × Bool
  | .scheduleTick elapsed d tick => scheduleTick env w c elapsed d tick
  | .stateChanged state => (w.event c.stateChangeCb state, c, false)

/-- The callbacks of one core call, up to the first that panics. -/
def runCalls (w : World) (c : Connection) : List CoreCall → World × Connection × Bool
  | [] => (w, c, false)
  | call :: calls =>
    match runCall env w c call with
    | (w, c, true) => (w, c, true)
    | (w, c, false) => runCalls w c calls

/-- A call into the core on the connection `c`. A panic in a callback unwinds through the core. -/
def coreCall (w : World) (c : Connection) (reply : CoreReply) : World × Connection × CoreResult :=
  match runCalls env w c reply.calls with
  | (w, c, panicked) =>
    (w, { c with state := reply.state, tickInterval := reply.tickInterval },
      if panicked then .panic else reply.result)

end Calls

end LightwayCffi.Client
