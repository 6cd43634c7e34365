import LightwayCffi.Client.Steps
import LightwayCffi.Foundations.History

/-!
# The state callback

Four places write `conn.state` and call the host's `state_change_cb`: the core's own events, and
the transitions the shim makes up when it connects, disconnects, or finds the connection dead. The
host sees one sequence of states, whoever produced them. `stateCallback_protocol` says what it can
rely on:

* connecting delivers one `HE_STATE_CONNECTING` if it succeeds and nothing if it fails;
* after `HE_STATE_DISCONNECTED` nothing is delivered but the `HE_STATE_CONNECTING` of the next
  connection, so the death of a connection is reported once, in whatever order the core and the
  shim notice it;
* at every moment, `he_conn_get_state` returns the state that was delivered last.

The last point holds for every core (`run_told`). The others need the core's events to be in order:
the states one connection reports move forward only, and none is reported before the connection has
been handed out. That is a property of the trace, `Always EventOk`. Dropping a connection fires no
event either; the model has none there.
-/

namespace LightwayCffi.Client

open Relation (ReflTransGen)
open History (Always always_nil always_concat)

variable {env : Env}

/-! ## What the host hears -/

/-- The state an entry delivers to a registered callback. -/
def Entry.delivered (e : Entry) : Option HeConnState :=
  match e.action with
  | .fired s true => some (rustStateToC s)
  | .announced s true => some s
  | _ => none

/-- The states delivered in a trace, in order. -/
def deliveries (trace : List Entry) : List HeConnState :=
  trace.filterMap Entry.delivered

/-- The state delivered last, `HE_STATE_NONE` before the first. -/
def lastDelivered (trace : List Entry) : HeConnState :=
  (deliveries trace).getLast?.getD .none

theorem deliveries_concat (trace : List Entry) (e : Entry) :
    deliveries (trace ++ [e]) = deliveries trace ++ e.delivered.toList := by
  unfold deliveries
  rw [List.filterMap_append]
  cases he : e.delivered <;> simp [he]

theorem lastDelivered_concat (trace : List Entry) (e : Entry) :
    lastDelivered (trace ++ [e]) = e.delivered.getD (lastDelivered trace) := by
  unfold lastDelivered
  rw [deliveries_concat]
  cases e.delivered <;> simp

/-- Right after every action the host would read the state delivered last. -/
def MomentOk (past : List Entry) (e : Entry) : Prop :=
  e.state = lastDelivered (past ++ [e])

/-- The host's view of the state agrees with what it has been told, now and at every moment
before. -/
structure Told (w : World) : Prop where
  moments : Always MomentOk w.trace
  current : w.conn.state = lastDelivered w.trace

/-- An action that has nothing to do with states. -/
def Action.Silent (a : Action) : Prop :=
  (∀ s b, a ≠ .fired s b) ∧ (∀ s b, a ≠ .announced s b) ∧ a ≠ .opened ∧ a ≠ .established

theorem Action.Silent.delivered {a : Action} (ha : a.Silent) (state : HeConnState) :
    (⟨a, state⟩ : Entry).delivered = none := by
  cases a with
  | fired s b => exact absurd rfl (ha.1 s b)
  | announced s b => exact absurd rfl (ha.2.1 s b)
  | _ => rfl

theorem silent_nudgeTime (timeoutMs now : ℕ) : (Action.nudgeTime timeoutMs now).Silent :=
  ⟨nofun, nofun, nofun, nofun⟩

theorem silent_tickedConnection : Action.tickedConnection.Silent :=
  ⟨nofun, nofun, nofun, nofun⟩

theorem silent_taken (now : ℕ) : (Action.taken now).Silent :=
  ⟨nofun, nofun, nofun, nofun⟩

theorem silent_tickedPayload (tick : PendingTick) : (Action.tickedPayload tick).Silent :=
  ⟨nofun, nofun, nofun, nofun⟩

theorem silent_polled (timeoutMs now : ℕ) : (Action.polled timeoutMs now).Silent :=
  ⟨nofun, nofun, nofun, nofun⟩

theorem silent_scheduledAction (deadline : ℕ) (tick : TickType) :
    (scheduledAction deadline tick).Silent := by
  unfold scheduledAction Action.Silent
  split
  · simp
  · simp

/-- What every silent action preserves, scheduling a tick preserves. -/
theorem schedule_of_silent {P : World → Prop}
    (hlog : ∀ {w : World} {a : Action}, a.Silent → P w → P (w.log a)) {w : World} (h : P w)
    (app : CffiAppState) (deadline : ℕ) (tick : TickType) : P (w.schedule app deadline tick) := by
  have hscheduled := hlog (silent_scheduledAction deadline tick) h
  unfold World.schedule
  split
  · exact hlog (silent_nudgeTime _ _) hscheduled
  · exact hscheduled

/-! ## The state is the one delivered last -/

/-- An action that delivers nothing. -/
theorem Told.log {w : World} (h : Told w) {a : Action}
    (ha : (⟨a, w.conn.state⟩ : Entry).delivered = none) : Told (w.log a) where
  moments := by
    refine always_concat.2 ⟨h.moments, ?_⟩
    unfold MomentOk
    rw [lastDelivered_concat, ha]
    exact h.current
  current := by
    rw [World.log_trace, lastDelivered_concat, ha]
    exact h.current

/-- A transition that is delivered. -/
theorem Told.deliver {w w' : World} {e : Entry} (h : Told w) (htrace : w'.trace = w.trace ++ [e])
    (he : e.delivered = some e.state) (hstate : w'.conn.state = e.state) : Told w' where
  moments := by
    rw [htrace]
    refine always_concat.2 ⟨h.moments, ?_⟩
    unfold MomentOk
    rw [lastDelivered_concat, he]
    rfl
  current := by
    rw [htrace, lastDelivered_concat, he, hstate]
    rfl

theorem Told.event {w : World} (h : Told w) (s : State) : Told (w.event true s) :=
  h.deliver rfl rfl rfl

theorem Told.announce {w : World} (h : Told w) (hcb : w.sslCtx.stateChangeCb = true)
    (s : HeConnState) : Told (w.announce s) := by
  refine h.deliver rfl ?_ rfl
  rw [hcb]
  rfl

theorem Told.schedule {w : World} (h : Told w) (app : CffiAppState) (deadline : ℕ)
    (tick : TickType) : Told (w.schedule app deadline tick) :=
  schedule_of_silent (fun ha hw => hw.log (ha.delivered _)) h app deadline tick

theorem CoreStep.told {s t : World × Connection} (h : CoreStep s t)
    (hcb : s.2.stateChangeCb = true) (hs : Told s.1) : Told t.1 := by
  cases h with
  | elapse w c n => exact { hs with }
  | schedule w c d tick => exact hs.schedule _ _ _
  | event w c s =>
    have hevent := hs.event s
    rwa [← hcb] at hevent
  | settle w c s interval => exact hs

theorem NudgeStep.told {s t : World × Connection} (h : NudgeStep s t)
    (hcb : s.2.stateChangeCb = true) (hs : Told s.1) : Told t.1 := by
  cases h with
  | core h => exact h.told hcb hs
  | tickConnection w c t hnext hdue => exact hs.log rfl
  | take w c => exact hs.log rfl
  | tickPayload w c p => exact hs.log rfl

theorem told_fatalDisconnect {w : World} (h : Told w) (hcb : w.sslCtx.stateChangeCb = true) :
    Told (fatalDisconnect w) := by
  unfold fatalDisconnect
  split
  · exact { h with }
  · exact { h.announce hcb .disconnected with }

theorem told_completeDisconnect {w : World} (h : Told w) (hcb : w.sslCtx.stateChangeCb = true) :
    Told (completeDisconnect w) := by
  unfold completeDisconnect
  dsimp only
  split
  · exact { h with }
  · exact { (h.announce hcb .disconnecting).announce hcb .disconnected with }

theorem told_completeConnect {w : World} {c : Connection} (h : Told w)
    (hcb : w.sslCtx.stateChangeCb = true) : Told (completeConnect w c) := by
  have hput : Told (w.put c) := { h with }
  have hlog : Told ((w.put c).log .established) := hput.log rfl
  unfold completeConnect
  dsimp only
  split
  · exact hlog.announce hcb .connecting
  · exact hlog

/-- A client whose callback is registered, and who has been told everything. -/
structure Registered (w : World) : Prop where
  registered : w.sslCtx.stateChangeCb = true
  told : Told w

/-- A connection of such a client: it was made with the callback. -/
structure Connected (w : World) (c : Connection) : Prop extends Registered w where
  callback : c.stateChangeCb = true

theorem NudgeStep.connected {s t : World × Connection} (h : NudgeStep s t)
    (hs : Connected s.1 s.2) : Connected t.1 t.2 where
  registered := h.frame.sslCtx ▸ hs.registered
  told := h.told hs.callback hs.told
  callback := h.frame.stateChangeCb ▸ hs.callback

theorem connected_stable : Stable Registered Connected where
  world h := h.toRegistered
  advance h := ⟨h.registered, { h.told with }⟩
  opened h _ := ⟨⟨h.registered, h.told.log rfl⟩, h.registered⟩
  core hstep h := (NudgeStep.core hstep).connected h
  put _ h := ⟨⟨h.registered, { h.told with }⟩, h.callback⟩
  refreshed h := ⟨⟨h.registered, { h.told with }⟩, h.callback⟩
  connected _ h :=
    ⟨⟨(completeConnect_sslCtx _ _).symm ▸ h.registered, told_completeConnect h.told h.registered⟩,
      h.callback⟩
  killed h :=
    ⟨(fatalDisconnect_sslCtx _).symm ▸ h.registered, told_fatalDisconnect h.told h.registered⟩
  disconnected h :=
    ⟨(completeDisconnect_sslCtx _).symm ▸ h.registered,
      told_completeDisconnect h.told h.registered⟩

/-- Any call of the host. -/
def Calling (env : Env) (w w' : World) : Prop :=
  ∃ call : ApiCall, call.step env w = w'

/-- Every sequence of calls is a run. -/
theorem calling_foldl (calls : List ApiCall) (w : World) :
    ReflTransGen (Calling env) w (calls.foldl (fun w call => call.step env w) w) := by
  induction calls generalizing w with
  | nil => exact .refl
  | cons call calls ih => exact .head ⟨call, rfl⟩ (ih _)

/-- Whatever the core does, the host's view of the state agrees with what it has been told. -/
theorem run_told {w₀ w : World} (hinit : w₀.Initial) (hcb : w₀.sslCtx.stateChangeCb = true)
    (hrun : ReflTransGen (Calling env) w₀ w) : Between Registered Connected w := by
  induction hrun with
  | refl =>
    refine between_of_none ⟨hcb, ?_, ?_⟩ hinit.connection
    · rw [hinit.trace]
      exact always_nil
    · rw [hinit.trace, hinit.state]
      rfl
  | tail _ hstep ih =>
    obtain ⟨call, rfl⟩ := hstep
    refine connected_stable.step NudgeStep.connected ?_ call ih
    intro w t n hinv
    refine ⟨⟨hinv.world.registered, hinv.world.told.log rfl⟩, fun c hc => ?_⟩
    exact ⟨⟨hinv.world.registered, hinv.world.told.log rfl⟩, (hinv.live c hc).callback⟩

/-! ## The order of the core's events -/

/-- How far a connection has come. -/
def State.rank : State → ℕ
  | .connecting => 0
  | .linkUp => 1
  | .authenticating => 2
  | .online => 3
  | .disconnecting => 4
  | .disconnected => 5

/-- How an action changes the phase of the current connection: `none` while it is being made, then
`some` with the last state it has reported, if any. -/
def observePhase (phase : Option (Option State)) : Action → Option (Option State)
  | .opened => none
  | .established => some none
  | .fired s _ => phase.map fun _ => some s
  | _ => phase

/-- The phase of the current connection after a trace. -/
def phase (trace : List Entry) : Option (Option State) :=
  trace.foldl (fun p e => observePhase p e.action) none

@[simp]
theorem phase_concat (trace : List Entry) (e : Entry) :
    phase (trace ++ [e]) = observePhase (phase trace) e.action :=
  List.foldl_concat ..

/-- The core reports states of a connection that has been made, and only later ones than before. -/
def EventOk (past : List Entry) (e : Entry) : Prop :=
  ∀ s b, e.action = .fired s b →
    ∃ last, phase past = some last ∧ ∀ l ∈ last, l.rank < s.rank

/-- The check of `EventOk` on a given trace. -/
def eventOk (past : List Entry) (e : Entry) : Bool :=
  match e.action with
  | .fired s _ => (phase past).any fun last => last.all fun l => l.rank < s.rank
  | _ => true

theorem eventOk_iff (past : List Entry) (e : Entry) :
    eventOk past e = true ↔ EventOk past e := by
  unfold eventOk EventOk
  cases e.action with
  | fired s b => rcases phase past with _ | _ | l <;> simp
  | _ => simp

instance (past : List Entry) (e : Entry) : Decidable (EventOk past e) :=
  decidable_of_iff _ (eventOk_iff past e)

/-- Nothing follows a disconnect but the next connection. -/
def AfterDisconnected (past : List HeConnState) (x : HeConnState) : Prop :=
  past.getLast? = some .disconnected → x = .connecting

/-- The states a client without a connection can be in. -/
def HeConnState.Idle (s : HeConnState) : Prop :=
  s = .none ∨ s = .disconnecting ∨ s = .disconnected

theorem Action.Silent.observePhase {a : Action} (ha : a.Silent) (p : Option (Option State)) :
    observePhase p a = p := by
  cases a with
  | fired s b => exact absurd rfl (ha.1 s b)
  | opened => exact absurd rfl ha.2.2.1
  | established => exact absurd rfl ha.2.2.2
  | _ => rfl

/-- Between calls: deliveries so far are in order, and an idle client shows it. -/
structure Orderly (w : World) : Prop where
  ordered : Always AfterDisconnected (deliveries w.trace)
  idle : w.connection = none → w.conn.state.Idle

/-- During a call: while the connection is being made the client is still idle, and afterwards its
state is the one the connection reported last. -/
structure InPhase (w : World) : Prop where
  ordered : Always AfterDisconnected (deliveries w.trace)
  making : w.connection = none → phase w.trace = none ∧ w.conn.state.Idle
  made : w.connection ≠ none →
    ∃ last, phase w.trace = some last ∧
      w.conn.state = (last.map rustStateToC).getD .connecting

theorem InPhase.orderly {w : World} (h : InPhase w) : Orderly w :=
  ⟨h.ordered, fun hc => (h.making hc).2⟩

/-- A delivery is in order unless it follows a disconnect. -/
theorem ordered_deliver {w : World} {x : HeConnState} (htold : Told w)
    (h : Always AfterDisconnected (deliveries w.trace))
    (hx : w.conn.state = .disconnected → x = .connecting) :
    Always AfterDisconnected (deliveries w.trace ++ [x]) := by
  refine always_concat.2 ⟨h, fun hlast => hx ?_⟩
  rw [htold.current]
  unfold lastDelivered
  rw [hlast]
  rfl

theorem deliveries_log (w : World) {a : Action}
    (ha : (⟨a, w.conn.state⟩ : Entry).delivered = none) :
    deliveries (w.log a).trace = deliveries w.trace := by
  rw [World.log_trace, deliveries_concat, ha]
  exact List.append_nil _

theorem phase_log (w : World) {a : Action} (ha : a.Silent) :
    phase (w.log a).trace = phase w.trace :=
  (phase_concat _ _).trans (ha.observePhase _)

theorem Orderly.log {w : World} (h : Orderly w) {a : Action} (ha : a.Silent) :
    Orderly (w.log a) :=
  ⟨(deliveries_log w (ha.delivered _)).symm ▸ h.ordered, h.idle⟩

theorem InPhase.log {w : World} (h : InPhase w) {a : Action} (ha : a.Silent) :
    InPhase (w.log a) :=
  ⟨(deliveries_log w (ha.delivered _)).symm ▸ h.ordered, (phase_log w ha).symm ▸ h.making,
    (phase_log w ha).symm ▸ h.made⟩

theorem InPhase.schedule {w : World} (h : InPhase w) (app : CffiAppState) (deadline : ℕ)
    (tick : TickType) : InPhase (w.schedule app deadline tick) :=
  schedule_of_silent (fun ha hw => hw.log ha) h app deadline tick

/-- A connection that has reported a state and goes on was not disconnected. -/
theorem rustStateToC_ne_disconnected {l s : State} (h : l.rank < s.rank) :
    rustStateToC l ≠ .disconnected := by
  cases l with
  | disconnected => cases s <;> exact absurd h (by decide)
  | _ => exact nofun

theorem InPhase.event {w : World} (h : InPhase w) (htold : Told w) {s : State}
    (hok : EventOk w.trace ⟨.fired s true, rustStateToC s⟩) : InPhase (w.event true s) := by
  obtain ⟨last, hphase, hlt⟩ := hok s true rfl
  have hmade : w.connection ≠ none := by
    intro hc
    exact absurd ((h.making hc).1.symm.trans hphase) nofun
  obtain ⟨last', hphase', hstate⟩ := h.made hmade
  obtain rfl := Option.some.inj (hphase'.symm.trans hphase)
  refine ⟨?_, fun hc => absurd hc hmade, fun _ => ⟨some s, ?_, rfl⟩⟩
  · rw [World.event_trace, deliveries_concat]
    refine ordered_deliver htold h.ordered fun hdisc => ?_
    rw [hstate] at hdisc
    cases last' with
    | none => exact absurd hdisc nofun
    | some l => exact absurd hdisc (rustStateToC_ne_disconnected (hlt l rfl))
  · rw [World.event_trace, phase_concat, hphase]
    rfl

/-- Steps only add to the trace. -/
theorem NudgeStep.trace {s t : World × Connection} (h : NudgeStep s t) :
    ∃ delta, t.1.trace = s.1.trace ++ delta := by
  cases h with
  | core h =>
    cases h with
    | elapse w c n => exact ⟨[], (List.append_nil _).symm⟩
    | schedule w c d tick => exact ⟨_, w.schedule_trace ..⟩
    | event w c s => exact ⟨_, rfl⟩
    | settle w c s interval => exact ⟨[], (List.append_nil _).symm⟩
  | tickConnection w c t hnext hdue => exact ⟨_, rfl⟩
  | take w c => exact ⟨_, rfl⟩
  | tickPayload w c p => exact ⟨_, rfl⟩

theorem NudgeStep.inPhase {s t : World × Connection} (h : NudgeStep s t)
    (hs : Connected s.1 s.2) (hok : Always EventOk t.1.trace) (hphase : InPhase s.1) :
    InPhase t.1 := by
  cases h with
  | core h =>
    cases h with
    | elapse w c n => exact { hphase with }
    | schedule w c d tick => exact hphase.schedule _ _ _
    | event w c s =>
      rw [hs.callback] at hok ⊢
      exact hphase.event hs.told (always_concat.1 hok).2
    | settle w c s interval => exact hphase
  | tickConnection w c t hnext hdue => exact hphase.log silent_tickedConnection
  | take w c => exact hphase.log (silent_taken _)
  | tickPayload w c p => exact hphase.log (silent_tickedPayload p)

/-! ## Calls -/

/-- The client between calls, if the core's events have been in order. -/
structure OrderlyWorld (w : World) : Prop extends Registered w where
  orderly : Always EventOk w.trace → Orderly w

/-- The connection during a call, if the core's events have been in order. -/
structure OrderlyConnection (w : World) (c : Connection) : Prop extends Connected w c where
  inPhase : Always EventOk w.trace → InPhase w

theorem NudgeStep.orderly {s t : World × Connection} (h : NudgeStep s t)
    (hs : OrderlyConnection s.1 s.2) : OrderlyConnection t.1 t.2 := by
  refine ⟨h.connected hs.toConnected, fun hok => ?_⟩
  obtain ⟨delta, htrace⟩ := h.trace
  have hbefore : Always EventOk s.1.trace := by
    rw [htrace] at hok
    exact hok.of_append
  exact h.inPhase hs.toConnected hok (hs.inPhase hbefore)

theorem orderly_fatalDisconnect {w : World} (htold : Told w) (hcb : w.sslCtx.stateChangeCb = true)
    (h : Always AfterDisconnected (deliveries w.trace)) : Orderly (fatalDisconnect w) := by
  unfold fatalDisconnect
  split
  · rename_i hstate
    exact ⟨h, fun _ => .inr (.inr hstate)⟩
  · rename_i hstate
    refine ⟨?_, fun _ => .inr (.inr rfl)⟩
    rw [World.drop_trace, World.announce_trace, deliveries_concat, hcb]
    exact ordered_deliver htold h fun hdisc => absurd hdisc hstate

theorem orderly_completeDisconnect {w : World} (htold : Told w)
    (hcb : w.sslCtx.stateChangeCb = true) (h : Always AfterDisconnected (deliveries w.trace)) :
    Orderly (completeDisconnect w) := by
  unfold completeDisconnect
  dsimp only
  split
  · rename_i hstate
    exact ⟨h, fun _ => .inr hstate⟩
  · rename_i hstate
    have hfirst : Always AfterDisconnected (deliveries (w.announce .disconnecting).trace) := by
      rw [World.announce_trace, deliveries_concat, hcb]
      exact ordered_deliver htold h fun hdisc => absurd (.inr hdisc) hstate
    refine ⟨?_, fun _ => .inr (.inr rfl)⟩
    rw [World.drop_trace, World.announce_trace, deliveries_concat, World.announce_sslCtx, hcb]
    exact ordered_deliver (htold.announce hcb _) hfirst fun hdisc => absurd hdisc nofun

/-- The announcement of a new connection. -/
theorem completeConnect_of_idle {w : World} (c : Connection) (hidle : w.conn.state.Idle) :
    completeConnect w c = ((w.put c).log .established).announce .connecting := by
  unfold completeConnect
  dsimp only
  refine if_pos ?_
  rcases hidle with h | h | h <;> simp [h]

theorem inPhase_completeConnect {w : World} (c : Connection) (htold : Told w)
    (hcb : w.sslCtx.stateChangeCb = true) (h : InPhase w) (hc : w.connection = none) :
    InPhase (completeConnect w c) := by
  rw [completeConnect_of_idle c (h.making hc).2]
  have hput : Told (w.put c) := { htold with }
  have hlog : Told ((w.put c).log .established) := hput.log rfl
  have hdel : deliveries ((w.put c).log .established).trace = deliveries w.trace :=
    deliveries_log (w.put c) rfl
  refine ⟨?_, nofun, fun _ => ⟨none, ?_, rfl⟩⟩
  · rw [World.announce_trace, deliveries_concat]
    have hreg : ((w.put c).log .established).sslCtx.stateChangeCb = true := hcb
    rw [hreg]
    exact ordered_deliver hlog (hdel.symm ▸ h.ordered) fun _ => rfl
  · rw [World.announce_trace, phase_concat, World.log_trace, phase_concat]
    rfl

theorem eventOk_of_fatalDisconnect {w : World} (h : Always EventOk (fatalDisconnect w).trace) :
    Always EventOk w.trace := by
  unfold fatalDisconnect at h
  split at h
  · exact h
  · exact h.of_append

theorem eventOk_of_completeDisconnect {w : World}
    (h : Always EventOk (completeDisconnect w).trace) : Always EventOk w.trace := by
  unfold completeDisconnect at h
  dsimp only at h
  split at h
  · exact h
  · exact h.of_append.of_append

theorem eventOk_of_completeConnect {w : World} {c : Connection}
    (h : Always EventOk (completeConnect w c).trace) : Always EventOk w.trace := by
  unfold completeConnect at h
  dsimp only at h
  split at h
  · exact h.of_append.of_append
  · exact h.of_append

theorem orderly_stable : Stable OrderlyWorld OrderlyConnection where
  world h := ⟨h.toRegistered, fun hok => (h.inPhase hok).orderly⟩
  advance h := ⟨connected_stable.advance h.toRegistered, fun hok => { h.orderly hok with }⟩
  opened h hc := by
    refine ⟨connected_stable.opened h.toRegistered hc, fun hok => ?_⟩
    have horderly := h.orderly hok.of_append
    refine ⟨?_, fun _ => ⟨phase_concat _ _, horderly.idle hc⟩, fun hsome => absurd hc hsome⟩
    rw [deliveries_log _ rfl]
    exact horderly.ordered
  core hstep h := (NudgeStep.core hstep).orderly h
  put hc h := by
    refine ⟨connected_stable.put hc h.toConnected, fun hok => ?_⟩
    have hphase := h.inPhase hok
    exact ⟨hphase.ordered, nofun, fun _ => hphase.made hc⟩
  refreshed h := ⟨connected_stable.refreshed h.toConnected, fun hok => { h.inPhase hok with }⟩
  connected hc h :=
    ⟨connected_stable.connected hc h.toConnected, fun hok =>
      inPhase_completeConnect _ h.told h.registered (h.inPhase (eventOk_of_completeConnect hok)) hc⟩
  killed h :=
    ⟨connected_stable.killed h.toConnected, fun hok =>
      orderly_fatalDisconnect h.told h.registered
        (h.inPhase (eventOk_of_fatalDisconnect hok)).ordered⟩
  disconnected h :=
    ⟨connected_stable.disconnected h.toRegistered, fun hok =>
      orderly_completeDisconnect h.told h.registered
        (h.orderly (eventOk_of_completeDisconnect hok)).ordered⟩

theorem run_orderly {w₀ w : World} (hinit : w₀.Initial) (hcb : w₀.sslCtx.stateChangeCb = true)
    (hrun : ReflTransGen (Calling env) w₀ w) : Between OrderlyWorld OrderlyConnection w := by
  induction hrun with
  | refl =>
    refine between_of_none ⟨(run_told hinit hcb (.refl (r := Calling env))).world, fun _ => ?_⟩
      hinit.connection
    refine ⟨?_, fun _ => .inl hinit.state⟩
    rw [hinit.trace]
    exact always_nil
  | tail _ hstep ih =>
    obtain ⟨call, rfl⟩ := hstep
    refine orderly_stable.step NudgeStep.orderly ?_ call ih
    intro w t n hinv
    have hsilent := silent_polled t n
    have hreg : Registered (w.log (.polled t n)) :=
      ⟨hinv.world.registered, hinv.world.told.log rfl⟩
    refine ⟨⟨hreg, fun hok => (hinv.world.orderly hok.of_append).log hsilent⟩, fun c hc => ?_⟩
    have hlive := hinv.live c hc
    exact ⟨⟨hreg, hlive.callback⟩, fun hok => (hlive.inPhase hok.of_append).log hsilent⟩

/-! ## Connecting -/

/-- While a connection is being made an orderly core reports nothing. -/
theorem CoreStep.making {s t : World × Connection} (h : CoreStep s t)
    (hok : Always EventOk t.1.trace) (hphase : phase s.1.trace = none) :
    phase t.1.trace = none ∧ deliveries t.1.trace = deliveries s.1.trace ∧
      t.1.conn.state = s.1.conn.state := by
  cases h with
  | elapse w c n => exact ⟨hphase, rfl, rfl⟩
  | settle w c s interval => exact ⟨hphase, rfl, rfl⟩
  | schedule w c d tick =>
    refine schedule_of_silent (P := fun w' => phase w'.trace = none ∧
      deliveries w'.trace = deliveries w.trace ∧ w'.conn.state = w.conn.state) ?_
      ⟨hphase, rfl, rfl⟩ c.appState (w.now + d) tick
    rintro w' a ha ⟨hnone, hsame, hstate⟩
    exact ⟨(phase_log w' ha).trans hnone, (deliveries_log w' (ha.delivered _)).trans hsame, hstate⟩
  | event w c s =>
    obtain ⟨last, hsome, -⟩ := (always_concat.1 hok).2 s c.stateChangeCb rfl
    exact absurd (hphase.symm.trans hsome) nofun

theorem making_of_coreSteps {w w' : World} {c c' : Connection}
    (h : ReflTransGen CoreStep (w.log .opened, c) (w', c')) (hok : Always EventOk w'.trace) :
    deliveries w'.trace = deliveries w.trace ∧ w'.conn.state = w.conn.state := by
  have hopened : deliveries (w.log .opened).trace = deliveries w.trace := deliveries_log w rfl
  have hinv : Always EventOk w'.trace → phase w'.trace = none ∧
      deliveries w'.trace = deliveries w.trace ∧ w'.conn.state = w.conn.state := by
    apply preserved_of_steps (P := fun w' _ => Always EventOk w'.trace → phase w'.trace = none ∧
      deliveries w'.trace = deliveries w.trace ∧ w'.conn.state = w.conn.state) ?_ h
    · exact fun _ => ⟨phase_concat _ _, hopened, rfl⟩
    · intro s t hstep hs hok
      obtain ⟨delta, htrace⟩ := (NudgeStep.core hstep).trace
      have hbefore : Always EventOk s.1.trace := by
        rw [htrace] at hok
        exact hok.of_append
      obtain ⟨hphase, hdel, hstate⟩ := hs hbefore
      obtain ⟨hphase', hdel', hstate'⟩ := hstep.making hok hphase
      exact ⟨hphase', hdel'.trans hdel, hstate'.trans hstate⟩
  exact (hinv hok).2

/-- What connecting delivers. -/
theorem Outcome.connect_deliveries {w w' : World} {i : ConnectInput} {code : Option HeReturnCode}
    (h : Outcome w (.connect i) w' code) (hinv : Orderly w) (hcb : w.sslCtx.stateChangeCb = true)
    (hok : Always EventOk w'.trace) :
    (code = some .success → deliveries w'.trace = deliveries w.trace ++ [.connecting]) ∧
    (code ≠ some .success → deliveries w'.trace = deliveries w.trace ∧
      w'.conn.state = w.conn.state ∧ w'.connection = w.connection) := by
  cases h with
  | rejected _ n code hcode =>
    exact ⟨fun h => absurd (Option.some.inj h) hcode, fun _ => ⟨rfl, rfl, rfl⟩⟩
  | connectFailed _ code hc hcode h =>
    obtain ⟨hdel, hstate⟩ := making_of_coreSteps h hok
    exact ⟨fun h => absurd h hcode, fun _ => ⟨hdel, hstate, (frame_of_coreSteps h).connection⟩⟩
  | @connected w' c' _ hc h =>
    refine ⟨fun _ => ?_, fun h => absurd rfl h⟩
    obtain ⟨hdel, hstate⟩ := making_of_coreSteps h (eventOk_of_completeConnect hok)
    have hidle : w'.conn.state.Idle := hstate.symm ▸ hinv.idle hc
    have hreg : ((w'.put c').log .established).sslCtx.stateChangeCb = true :=
      (congrArg (·.stateChangeCb) (frame_of_coreSteps h).sslCtx).trans hcb
    rw [completeConnect_of_idle c' hidle, World.announce_trace, deliveries_concat,
      deliveries_log _ rfl, hreg, World.put_trace, hdel]
    rfl
  | kept _ code hcall => exact absurd rfl (hcall i)

/-! ## Runs -/

/-- Between two connections a disconnect is delivered at most once. -/
theorem count_disconnected_le_one {past segment rest : List HeConnState}
    (h : Always AfterDisconnected (past ++ segment ++ rest))
    (hsegment : .connecting ∉ segment) : segment.count .disconnected ≤ 1 := by
  induction segment generalizing past with
  | nil => exact Nat.zero_le 1
  | cons x segment ih =>
    rw [List.mem_cons, not_or] at hsegment
    by_cases hx : x = .disconnected
    · -- what follows in the segment would have to be a new connection
      subst hx
      cases segment with
      | nil => exact le_rfl
      | cons y segment =>
        have hy : y = .connecting := by
          refine h (past ++ [.disconnected]) y (segment ++ rest) ?_ (List.getLast?_concat ..)
          simp
        exact absurd (hy ▸ List.mem_cons_self) hsegment.2
    · rw [List.count_cons_of_ne hx]
      refine @ih (past ++ [x]) ?_ hsegment.2
      simpa using h

/-- **The state callback protocol.** For every run on a client with a registered `state_change_cb`
and every core whose events are in order:

* a successful connect delivers exactly one `HE_STATE_CONNECTING`; a failed one delivers nothing
  and leaves the state and the connection as they were;
* whatever is delivered right after an `HE_STATE_DISCONNECTED` is an `HE_STATE_CONNECTING`, and
  deliveries without an `HE_STATE_CONNECTING` among them have at most one `HE_STATE_DISCONNECTED`;
* at every moment and now, `conn.state` is the state delivered last. -/
theorem stateCallback_protocol (env : Env) {w₀ w : World} (hinit : w₀.Initial)
    (hcb : w₀.sslCtx.stateChangeCb = true) (hrun : ReflTransGen (Calling env) w₀ w)
    (hcore : Always EventOk w.trace) :
    (∀ i : ConnectInput, Always EventOk ((ApiCall.connect i).step env w).trace →
      if (ApiCall.connect i).code env w = .success then
        deliveries ((ApiCall.connect i).step env w).trace = deliveries w.trace ++ [.connecting]
      else
        deliveries ((ApiCall.connect i).step env w).trace = deliveries w.trace ∧
          ((ApiCall.connect i).step env w).conn.state = w.conn.state ∧
          ((ApiCall.connect i).step env w).connection = w.connection) ∧
    (∀ past x rest, deliveries w.trace = past ++ .disconnected :: x :: rest → x = .connecting) ∧
    (∀ past segment rest, deliveries w.trace = past ++ segment ++ rest →
      .connecting ∉ segment → segment.count .disconnected ≤ 1) ∧
    (∀ past e rest, w.trace = past ++ e :: rest → e.state = lastDelivered (past ++ [e])) ∧
    w.conn.state = lastDelivered w.trace := by
  have hinv := (run_orderly hinit hcb hrun).world
  have horderly := hinv.orderly hcore
  refine ⟨?_, ?_, ?_, hinv.told.moments, hinv.told.current⟩
  · intro i hok
    obtain ⟨hsuccess, hfailure⟩ :=
      (@body_outcome env w (.connect i)).connect_deliveries horderly hinv.registered hok
    -- a panic is reported as a failure
    have hcode : (ApiCall.connect i).code env w = .success ↔
        ((ApiCall.connect i).body env w).2 = some .success := by
      unfold ApiCall.code
      cases ((ApiCall.connect i).body env w).2 <;> simp
    split
    · rename_i h
      exact hsuccess (hcode.1 h)
    · rename_i h
      exact hfailure fun h' => h (hcode.2 h')
  · intro past x rest hdel
    have hlast := horderly.ordered (past ++ [.disconnected]) x rest
      (by rw [hdel, List.append_assoc, List.singleton_append])
    exact hlast (List.getLast?_concat ..)
  · intro past segment rest hdel hsegment
    exact count_disconnected_le_one (hdel ▸ horderly.ordered) hsegment

/-- A call that reports these states and succeeds. -/
def reportReply (states : List State) : CoreReply :=
  okReply (states.map .stateChanged)

/-- A connection that goes online, is closed by the peer, and is followed by another one. -/
def reconnectingCalls : List ApiCall :=
  [.connect (sampleConnect []), .outsideDataReceived (reportReply [.linkUp, .authenticating]),
    .outsideDataReceived (reportReply [.online]),
    .outsideDataReceived (reportReply [.disconnecting, .disconnected]),
    .disconnect (reportReply []), .connect (sampleConnect [])]

def reconnectedWorld : World :=
  reconnectingCalls.foldl (fun w call => call.step sampleEnv w) sampleWorld

/-- The host hears of the death of the first connection once. -/
theorem stateCallback_protocol_reconnectedWorld :
    deliveries reconnectedWorld.trace = [.connecting, .linkUp, .authenticating, .online,
      .disconnecting, .disconnected, .connecting] ∧
    Always EventOk reconnectedWorld.trace ∧
    (∀ past x rest, deliveries reconnectedWorld.trace = past ++ .disconnected :: x :: rest →
      x = .connecting) ∧
    reconnectedWorld.conn.state = lastDelivered reconnectedWorld.trace := by
  have hok : Always EventOk reconnectedWorld.trace := by decide
  obtain ⟨-, hordered, -, -, hcurrent⟩ :=
    stateCallback_protocol sampleEnv sampleWorld_initial rfl
      (calling_foldl reconnectingCalls sampleWorld) hok
  exact ⟨by decide, hok, hordered, hcurrent⟩

end LightwayCffi.Client
