import LightwayCffi.Client.Steps
import LightwayCffi.Foundations.History

/-!
# A host with a single timer

A host that registers `nudge_time_cb` keeps one timer. It sets the timer to every timeout the
callback is handed, and to `he_conn_get_nudge_time()` whenever a nudge has returned, where `0`
disarms it. `hostTimer_safe` says that this is enough: as long as a tick is outstanding on a live
connection the timer is armed, and it expires neither before the earliest deadline nor more than a
millisecond after it.

The deadlines are counted on the trace and not on the shim's own data: a connection tick is
outstanding from the moment it is scheduled until a connection tick is dispatched, and a payload
tick until a nudge takes it up. That a nudge *takes up* its due ticks before it dispatches them
matters in between: a tick that reschedules itself is answered with the time to the earliest
deadline that is still stored, although other ticks of the same nudge are yet to be dispatched
(`hostTimer_while_dispatching`).
-/

namespace LightwayCffi.Client

open Relation (ReflTransGen)
open History (Always always_nil always_concat)

variable {env : Env}

/-! ## Outstanding deadlines -/

/-- The deadlines of the connection ticks scheduled since the last one was dispatched, and the
payload ticks waiting to be dispatched. -/
structure Outstanding where
  connection : List ℕ
  payload : List PendingTick

namespace Outstanding

def empty : Outstanding := ⟨[], []⟩

/-- How an action changes what is outstanding. A new connection starts with nothing. -/
def observe (o : Outstanding) : Action → Outstanding
  | .opened => empty
  | .scheduledConnection deadline => { o with connection := o.connection ++ [deadline] }
  | .scheduledPayload tick => { o with payload := o.payload ++ [tick] }
  | .tickedConnection => { o with connection := [] }
  | .taken now => { o with payload := o.payload.filter fun p => now < p.deadline }
  | _ => o

def deadlines (o : Outstanding) : List ℕ :=
  o.connection ++ o.payload.map (·.deadline)

/-- The earliest outstanding deadline. -/
def earliest (o : Outstanding) : Option ℕ :=
  o.deadlines.min?

end Outstanding

/-- What is outstanding after a trace. -/
def outstanding (trace : List Entry) : Outstanding :=
  trace.foldl (fun o e => o.observe e.action) .empty

@[simp]
theorem outstanding_concat (trace : List Entry) (e : Entry) :
    outstanding (trace ++ [e]) = (outstanding trace).observe e.action :=
  List.foldl_concat ..

/-! ## The host -/

/-- A timer of the host: when it was armed, and for how many milliseconds. -/
structure Timer where
  armedAt : ℕ
  timeoutMs : ℕ

/-- The moment the timer expires. -/
def Timer.expiry (t : Timer) : ℕ :=
  t.armedAt + t.timeoutMs * 1000000

/-- What the host does with its timer. -/
def observeTimer (timer : Option Timer) : Action → Option Timer
  | .nudgeTime timeoutMs now => some ⟨now, timeoutMs⟩
  | .polled timeoutMs now => if timeoutMs = 0 then none else some ⟨now, timeoutMs⟩
  | _ => timer

/-- The host's timer after a trace. -/
def hostTimer (trace : List Entry) : Option Timer :=
  trace.foldl (fun timer e => observeTimer timer e.action) none

@[simp]
theorem hostTimer_concat (trace : List Entry) (e : Entry) :
    hostTimer (trace ++ [e]) = observeTimer (hostTimer trace) e.action :=
  List.foldl_concat ..

/-- The timeout for a deadline: the distance in milliseconds, rounded up and clamped to
`1 .. i32::MAX`. -/
abbrev timeoutFor (deadline now : ℕ) : ℕ :=
  Deadline.timeout 1000000 i32Max deadline now

/-- A timeout handed to `nudge_time_cb` is the one for the earliest outstanding deadline. -/
def HintOk (past : List Entry) (e : Entry) : Prop :=
  ∀ timeoutMs now, e.action = .nudgeTime timeoutMs now →
    ∃ E, (outstanding past).earliest = some E ∧ timeoutMs = timeoutFor E now

/-- The host's timer is armed for the earliest outstanding deadline, if there is one. -/
def TimerOk (w : World) : Prop :=
  ∀ E, (outstanding w.trace).earliest = some E →
    ∃ armedAt, armedAt ≤ w.now ∧ hostTimer w.trace = some ⟨armedAt, timeoutFor E armedAt⟩

/-- An action that neither concerns a tick nor the host's timer. -/
structure Action.Neutral (a : Action) : Prop where
  observe : ∀ o : Outstanding, o.observe a = o
  observeTimer : ∀ timer, observeTimer timer a = timer
  hint : ∀ timeoutMs now, a ≠ .nudgeTime timeoutMs now

theorem neutral_fired (s : State) (b : Bool) : (Action.fired s b).Neutral :=
  ⟨fun _ => rfl, fun _ => rfl, nofun⟩

theorem neutral_announced (s : HeConnState) (b : Bool) : (Action.announced s b).Neutral :=
  ⟨fun _ => rfl, fun _ => rfl, nofun⟩

theorem neutral_established : Action.established.Neutral :=
  ⟨fun _ => rfl, fun _ => rfl, nofun⟩

/-! ## The invariant of a connection -/

/-- The connection stores what the trace says is outstanding, its host is registered, and every
timeout so far was right. -/
structure Announced (w : World) (c : Connection) : Prop where
  registered : c.appState.nudgeTimeCb = true
  nextTick : c.appState.nextTick = (outstanding w.trace).connection.min?
  pendingTicks : c.appState.pendingTicks = (outstanding w.trace).payload
  hints : Always HintOk w.trace

/-- The shim's earliest deadline is the earliest one outstanding. -/
theorem Announced.earliest {w : World} {c : Connection} (h : Announced w c) :
    c.appState.earliestTickDeadline = (outstanding w.trace).earliest := by
  rw [CffiAppState.earliestTickDeadline_eq]
  unfold CffiAppState.deadlines Outstanding.earliest Outstanding.deadlines
  rw [Deadline.min?_append, Deadline.min?_append, h.pendingTicks, h.nextTick]
  cases (outstanding w.trace).connection.min? <;> rfl

theorem Announced.neutral {w : World} {c : Connection} {e : Entry} (h : Announced w c)
    {w' : World} (htrace : w'.trace = w.trace ++ [e]) (ha : e.action.Neutral) :
    Announced w' c where
  registered := h.registered
  nextTick := by rw [htrace, outstanding_concat, ha.observe, h.nextTick]
  pendingTicks := by rw [htrace, outstanding_concat, ha.observe, h.pendingTicks]
  hints := by
    rw [htrace, always_concat]
    exact ⟨h.hints, fun t now heq => absurd heq (ha.hint t now)⟩

theorem TimerOk.neutral {w w' : World} {e : Entry} (h : TimerOk w)
    (htrace : w'.trace = w.trace ++ [e]) (hnow : w.now ≤ w'.now) (ha : e.action.Neutral) :
    TimerOk w' := by
  intro E hE
  rw [htrace, outstanding_concat, ha.observe] at hE
  obtain ⟨a, hle, ht⟩ := h E hE
  refine ⟨a, hle.trans hnow, ?_⟩
  rw [htrace, hostTimer_concat, ha.observeTimer, ht]

theorem TimerOk.of_trace_eq {w w' : World} (h : TimerOk w) (htrace : w'.trace = w.trace)
    (hnow : w.now ≤ w'.now) : TimerOk w' := by
  intro E hE
  rw [htrace] at hE
  obtain ⟨a, hle, ht⟩ := h E hE
  exact ⟨a, hle.trans hnow, htrace ▸ ht⟩

/-! ## Steps -/

/-- Recording a scheduled tick and storing it go together. -/
theorem Announced.store {w : World} {c : Connection} (h : Announced w c) (deadline : ℕ)
    (tick : TickType) : Announced (w.log (scheduledAction deadline tick))
      { c with appState := c.appState.store deadline tick } := by
  have hhints : Always HintOk (w.log (scheduledAction deadline tick)).trace := by
    refine always_concat.2 ⟨h.hints, fun t now heq => ?_⟩
    unfold scheduledAction at heq
    split at heq <;> simp at heq
  by_cases htick : tick = .connectionTick
  · subst htick
    rw [CffiAppState.store_connectionTick]
    refine ⟨h.registered, ?_, ?_, hhints⟩
    · -- merging into the slot keeps the minimum
      rw [World.log_trace, outstanding_concat, h.nextTick]
      exact (Deadline.min?_append _ [deadline]).symm
    · rw [World.log_trace, outstanding_concat, h.pendingTicks]
      rfl
  · rw [CffiAppState.store_payload _ ⟨deadline, tick, htick⟩]
    rw [scheduledAction_payload ⟨deadline, tick, htick⟩] at hhints ⊢
    refine ⟨h.registered, ?_, ?_, hhints⟩
    · rw [World.log_trace, outstanding_concat, h.nextTick]
      rfl
    · rw [World.log_trace, outstanding_concat, h.pendingTicks]
      rfl

/-- The callback that follows tells the host the time to the earliest outstanding deadline. -/
theorem Announced.schedule {w : World} {c : Connection} (h : Announced w c) (d : ℕ)
    (tick : TickType) :
    Announced (w.schedule c.appState (w.now + d) tick)
        { c with appState := c.appState.store (w.now + d) tick } ∧
      TimerOk (w.schedule c.appState (w.now + d) tick) := by
  have hstore := h.store (w.now + d) tick
  obtain ⟨E, hE⟩ := Option.ne_none_iff_exists'.1
    (c.appState.earliestTickDeadline_store_ne_none (w.now + d) tick)
  have hout : (outstanding (w.log (scheduledAction (w.now + d) tick)).trace).earliest = some E :=
    hstore.earliest.symm.trans hE
  have htimeout : nudgeMsUntil (some E) w.now = timeoutFor E w.now := deadlineToTimeoutMs_eq E w.now
  have htrace : (w.schedule c.appState (w.now + d) tick).trace =
      (w.log (scheduledAction (w.now + d) tick)).trace ++
        [⟨.nudgeTime (timeoutFor E w.now) w.now, w.conn.state⟩] := by
    rw [World.schedule_trace, if_pos h.registered, hE, htimeout, World.log_trace,
      List.append_assoc, List.singleton_append]
  refine ⟨⟨hstore.registered, ?_, ?_, ?_⟩, ?_⟩
  · rw [htrace, outstanding_concat]
    exact hstore.nextTick
  · rw [htrace, outstanding_concat]
    exact hstore.pendingTicks
  · rw [htrace, always_concat]
    refine ⟨hstore.hints, fun t now heq => ⟨E, hout, ?_⟩⟩
    obtain ⟨rfl, rfl⟩ := Action.nudgeTime.inj heq
    rfl
  · intro E' hE'
    rw [htrace, outstanding_concat] at hE'
    obtain rfl := Option.some.inj (hout.symm.trans hE')
    refine ⟨w.now, (w.schedule_now ..).ge, ?_⟩
    rw [htrace, hostTimer_concat]
    rfl

/-- A call into the core keeps the shim in step with the trace and the timer armed. -/
theorem CoreStep.announced {s t : World × Connection} (h : CoreStep s t)
    (hs : Announced s.1 s.2) : Announced t.1 t.2 := by
  cases h with
  | elapse w c n => exact { hs with }
  | schedule w c d tick => exact (hs.schedule d tick).1
  | event w c s => exact hs.neutral rfl (neutral_fired s c.stateChangeCb)
  | settle w c s interval => exact { hs with }

theorem CoreStep.timerOk {s t : World × Connection} (h : CoreStep s t) (hs : Announced s.1 s.2)
    (htimer : TimerOk s.1) : TimerOk t.1 := by
  cases h with
  | elapse w c n => exact htimer.of_trace_eq rfl (Nat.le_add_right _ _)
  | schedule w c d tick => exact (hs.schedule d tick).2
  | event w c s => exact htimer.neutral rfl le_rfl (neutral_fired s c.stateChangeCb)
  | settle w c s interval => exact htimer

theorem NudgeStep.announced {s t : World × Connection} (h : NudgeStep s t)
    (hs : Announced s.1 s.2) : Announced t.1 t.2 := by
  cases h with
  | core h => exact h.announced hs
  | tickConnection w c t hnext hdue =>
    refine ⟨hs.registered, ?_, ?_, always_concat.2 ⟨hs.hints, nofun⟩⟩
    · rw [World.log_trace, outstanding_concat]
      rfl
    · rw [World.log_trace, outstanding_concat]
      exact hs.pendingTicks
  | take w c =>
    refine ⟨hs.registered, ?_, ?_, always_concat.2 ⟨hs.hints, nofun⟩⟩
    · rw [World.log_trace, outstanding_concat]
      exact hs.nextTick
    · rw [World.log_trace, outstanding_concat]
      exact congrArg _ hs.pendingTicks
  | tickPayload w c p =>
    refine ⟨hs.registered, ?_, ?_, always_concat.2 ⟨hs.hints, nofun⟩⟩
    · rw [World.log_trace, outstanding_concat]
      exact hs.nextTick
    · rw [World.log_trace, outstanding_concat]
      exact hs.pendingTicks

theorem Announced.nudgeSteps {w w' : World} {c c' : Connection} (h : Announced w c)
    (hsteps : ReflTransGen NudgeStep (w, c) (w', c')) : Announced w' c' :=
  preserved_of_steps NudgeStep.announced hsteps h

/-! ## Calls -/

theorem hints_neutral {trace : List Entry} {e : Entry} (h : Always HintOk trace)
    (ha : e.action.Neutral) : Always HintOk (trace ++ [e]) :=
  always_concat.2 ⟨h, fun t now heq => absurd heq (ha.hint t now)⟩

theorem hints_fatalDisconnect {w : World} (h : Always HintOk w.trace) :
    Always HintOk (fatalDisconnect w).trace := by
  unfold fatalDisconnect
  split
  · exact h
  · exact hints_neutral h (neutral_announced _ _)

theorem hints_completeDisconnect {w : World} (h : Always HintOk w.trace) :
    Always HintOk (completeDisconnect w).trace := by
  unfold completeDisconnect
  dsimp only
  split
  · exact h
  · exact hints_neutral (hints_neutral h (neutral_announced _ _)) (neutral_announced _ _)

theorem Announced.completeConnect {w : World} {c : Connection} (h : Announced w c)
    (htimer : TimerOk w) :
    Announced (completeConnect w c) c ∧ TimerOk (Client.completeConnect w c) := by
  have hput : Announced ((w.put c).log .established) c := h.neutral rfl neutral_established
  have htput : TimerOk ((w.put c).log .established) := htimer.neutral rfl le_rfl neutral_established
  unfold Client.completeConnect
  dsimp only
  split
  · exact ⟨hput.neutral rfl (neutral_announced _ _),
      htput.neutral rfl le_rfl (neutral_announced _ _)⟩
  · exact ⟨hput, htput⟩

/-- A fresh connection has nothing outstanding. -/
theorem announced_opened {w : World} (hreg : w.sslCtx.nudgeTimeCb = true)
    (hhints : Always HintOk w.trace) :
    Announced (w.log .opened) (freshConnection w.toHeClient) ∧ TimerOk (w.log .opened) := by
  have hempty : outstanding (w.log .opened).trace = .empty := outstanding_concat ..
  refine ⟨⟨hreg, ?_, ?_, always_concat.2 ⟨hhints, nofun⟩⟩, ?_⟩
  · rw [hempty]
    rfl
  · rw [hempty]
    rfl
  · intro E hE
    rw [hempty] at hE
    exact nomatch hE

/-- The host is registered and every timeout it was handed was right. -/
structure HostTold (w : World) : Prop where
  registered : w.sslCtx.nudgeTimeCb = true
  hints : Always HintOk w.trace

/-- On a live connection the host's timer is right as well. -/
structure HostArmed (w : World) (c : Connection) : Prop where
  registered : w.sslCtx.nudgeTimeCb = true
  announced : Announced w c
  timer : TimerOk w

/-- What holds between calls. -/
abbrev HostInv : World → Prop := Between HostTold HostArmed

theorem hostArmed_stable : Stable HostTold HostArmed where
  world h := ⟨h.registered, h.announced.hints⟩
  advance h := ⟨h.registered, h.hints⟩
  opened h _ :=
    have hopened := announced_opened h.registered h.hints
    ⟨h.registered, hopened.1, hopened.2⟩
  core hstep h :=
    ⟨hstep.frame.sslCtx ▸ h.registered, hstep.announced h.announced,
      hstep.timerOk h.announced h.timer⟩
  put _ h := ⟨h.registered, { h.announced with }, h.timer⟩
  refreshed h := ⟨h.registered, { h.announced with }, h.timer⟩
  connected _ h :=
    have hmade := h.announced.completeConnect h.timer
    ⟨(completeConnect_sslCtx _ _).symm ▸ h.registered, hmade.1, hmade.2⟩
  killed h :=
    ⟨(fatalDisconnect_sslCtx _).symm ▸ h.registered, hints_fatalDisconnect h.announced.hints⟩
  disconnected h :=
    ⟨(completeDisconnect_sslCtx _).symm ▸ h.registered, hints_completeDisconnect h.hints⟩

/-- The timeout the host reads from `nudge_time_ms` is the one for the earliest outstanding
deadline. -/
def PolledOk (w : World) : Prop :=
  w.conn.nudgeTimeMs =
    (match (outstanding w.trace).earliest with
      | none => 0
      | some E => timeoutFor E w.conn.nudgeTimeAt)

/-- A nudge that leaves the connection alive has refreshed the timer. -/
theorem NudgeExit.refreshed_of_some {w w' : World} {c c' : Connection} {code : Option HeReturnCode}
    (hexit : NudgeExit w c w' code) (hret : code ≠ none) (hc' : w'.connection = some c')
    (hann : Announced w c) :
    Announced w' c' ∧ PolledOk w' ∧ w'.conn.nudgeTimeAt = w'.now := by
  cases hexit with
  | @refreshed w₁ c₁ n code h =>
    obtain rfl := Option.some.inj hc'
    have hann₁ := hann.nudgeSteps h
    refine ⟨{ hann₁ with }, ?_, rfl⟩
    unfold PolledOk
    rw [refreshNudgeTime_nudgeTimeMs, hann₁.earliest, refreshNudgeTime_trace, World.put_trace]
    cases (outstanding w₁.trace).earliest with
    | none => rfl
    | some E => exact deadlineToTimeoutMs_eq E _
  | killed code h => simp at hc'
  | panicked h => exact absurd rfl hret

theorem NudgeExit.hints {w w' : World} {c : Connection} {code : Option HeReturnCode}
    (hexit : NudgeExit w c w' code) (hann : Announced w c) : Always HintOk w'.trace := by
  cases hexit with
  | refreshed n code h => exact (hann.nudgeSteps h).hints
  | killed code h => exact hints_fatalDisconnect (hann.nudgeSteps h).hints
  | panicked h => exact (hann.nudgeSteps h).hints

theorem NudgeExit.sslCtx {w w' : World} {c : Connection} {code : Option HeReturnCode}
    (hexit : NudgeExit w c w' code) : w'.sslCtx = w.sslCtx := by
  cases hexit with
  | refreshed n code h => exact (frame_of_nudgeSteps h).sslCtx
  | killed code h => exact (fatalDisconnect_sslCtx _).trans (frame_of_nudgeSteps h).sslCtx
  | panicked h => exact (frame_of_nudgeSteps h).sslCtx

/-- Reading the timer after a nudge arms the host's timer for the earliest outstanding deadline. -/
theorem timerOk_polled {w : World} {c : Connection} (hann : Announced w c) (hpolled : PolledOk w)
    (hat : w.conn.nudgeTimeAt = w.now) :
    Announced (w.log (.polled w.conn.nudgeTimeMs w.conn.nudgeTimeAt)) c ∧
      TimerOk (w.log (.polled w.conn.nudgeTimeMs w.conn.nudgeTimeAt)) := by
  have hsame : outstanding (w.log (.polled w.conn.nudgeTimeMs w.conn.nudgeTimeAt)).trace =
      outstanding w.trace := outstanding_concat ..
  refine ⟨⟨hann.registered, hsame ▸ hann.nextTick, hsame ▸ hann.pendingTicks,
    always_concat.2 ⟨hann.hints, nofun⟩⟩, ?_⟩
  intro E hE
  rw [hsame] at hE
  unfold PolledOk at hpolled
  rw [hE] at hpolled
  refine ⟨w.conn.nudgeTimeAt, hat.le, ?_⟩
  rw [World.log_trace, hostTimer_concat, hpolled]
  exact if_neg Deadline.timeout_pos.ne'

/-- A nudge, after which the host reads the timer. -/
theorem nudge_hostInv {w : World} {i : NudgeInput} (hinv : HostInv w)
    (hret : (ApiCall.nudge i).Returns env w) : HostInv ((ApiCall.nudge i).step env w) := by
  show HostInv ((heConnNudge env w i).1.log (.polled (heConnNudge env w i).1.conn.nudgeTimeMs
    (heConnNudge env w i).1.conn.nudgeTimeAt))
  cases hc : w.connection with
  | none =>
    rw [heConnNudge_of_none hc]
    exact between_of_none
      ⟨hinv.world.registered, always_concat.2 ⟨hinv.world.hints, nofun⟩⟩ hc
  | some c =>
    have hann := (hinv.live c hc).announced
    have hexit := @heConnNudge_exit env w c i hc
    have hreg : (heConnNudge env w i).1.sslCtx.nudgeTimeCb = true :=
      hexit.sslCtx ▸ hinv.world.registered
    refine ⟨⟨hreg, always_concat.2 ⟨hexit.hints hann, nofun⟩⟩, fun c' hc' => ?_⟩
    obtain ⟨hann', hpolled, hat⟩ := hexit.refreshed_of_some hret hc' hann
    obtain ⟨hann'', htimer⟩ := timerOk_polled hann' hpolled hat
    exact ⟨hreg, hann'', htimer⟩

/-! ## Runs -/

/-- A call that does not panic: the core's calls return, and every deadline it asks for can be
represented by the platform's clock. -/
def Returning (env : Env) (w w' : World) : Prop :=
  ∃ call : ApiCall, call.Returns env w ∧ call.step env w = w'

theorem Returning.hostInv {w w' : World} (h : Returning env w w') (hinv : HostInv w) :
    HostInv w' := by
  obtain ⟨call, hret, rfl⟩ := h
  by_cases hcall : ∃ i, call = .nudge i
  · obtain ⟨i, rfl⟩ := hcall
    exact nudge_hostInv hinv hret
  · rw [step_of_ne_nudge (not_exists.1 hcall)]
    exact hostArmed_stable.outcome (body_outcome w call) (not_exists.1 hcall) hinv

theorem run_hostInv {w₀ w : World} (hinit : w₀.Initial) (hcb : w₀.sslCtx.nudgeTimeCb = true)
    (hrun : ReflTransGen (Returning env) w₀ w) : HostInv w := by
  induction hrun with
  | refl =>
    refine between_of_none ⟨hcb, ?_⟩ hinit.connection
    rw [hinit.trace]
    exact always_nil
  | tail _ hstep ih => exact hstep.hostInv ih

/-- **A single timer is enough.** For every run of calls that return, on a client with a registered
`nudge_time_cb`, and with the outstanding deadlines read off the trace:

* every timeout handed to the callback is the one for the earliest outstanding deadline;
* so is the timeout the host reads after a nudge that leaves the connection alive, where `0` means
  that nothing is outstanding;
* between calls, while a deadline is outstanding on a live connection, the host's timer is armed.
  It expires at most a millisecond after the deadline (or after it was armed, if the deadline was
  over by then), and not before the deadline unless the timeout was cut off; and the deadline is
  the one the next nudge will go by. -/
theorem hostTimer_safe (env : Env) {w₀ w : World} (hinit : w₀.Initial)
    (hcb : w₀.sslCtx.nudgeTimeCb = true) (hrun : ReflTransGen (Returning env) w₀ w) :
    (∀ past timeoutMs now state rest,
      w.trace = past ++ ⟨.nudgeTime timeoutMs now, state⟩ :: rest →
        ∃ E, (outstanding past).earliest = some E ∧ timeoutMs = timeoutFor E now) ∧
    (∀ i c, (ApiCall.nudge i).Returns env w →
      ((ApiCall.nudge i).step env w).connection = some c →
        PolledOk ((ApiCall.nudge i).step env w)) ∧
    (∀ c E, w.connection = some c → (outstanding w.trace).earliest = some E →
      ∃ timer, hostTimer w.trace = some timer ∧ timer.armedAt ≤ w.now ∧
        timer.expiry ≤ max E timer.armedAt + 1000000 ∧
        (timer.timeoutMs < i32Max → E ≤ timer.expiry) ∧
        c.appState.earliestTickDeadline = some E) := by
  have hinv := run_hostInv hinit hcb hrun
  refine ⟨?_, ?_, ?_⟩
  · intro past timeoutMs now state rest htrace
    exact hinv.world.hints past _ rest htrace timeoutMs now rfl
  · intro i c hret hc
    cases hc₀ : w.connection with
    | none =>
      have hnone : ((ApiCall.nudge i).step env w).connection = none := by
        rw [step_toHeClient]
        exact (congrArg (·.1.connection) (heConnNudge_of_none hc₀)).trans hc₀
      exact absurd (hnone.symm.trans hc) nofun
    | some c₀ =>
      have hann := (hinv.live c₀ hc₀).announced
      have hsame : outstanding ((ApiCall.nudge i).step env w).trace =
          outstanding (heConnNudge env w i).1.trace := outstanding_concat ..
      unfold PolledOk
      rw [hsame]
      exact ((heConnNudge_exit w c₀ i hc₀).refreshed_of_some hret hc hann).2.1
  · intro c E hc hE
    have harmed := hinv.live c hc
    obtain ⟨a, hle, ht⟩ := harmed.timer E hE
    exact ⟨_, ht, hle, Deadline.expiry_le, Deadline.le_expiry (by decide),
      harmed.announced.earliest.trans hE⟩

/-! ## Ticks that are taken but not yet dispatched -/

/-- The other way to count: a payload tick is outstanding until it is handed to the core. -/
def Outstanding.observeDispatch (o : Outstanding) : Action → Outstanding
  | .taken _ => o
  | .tickedPayload tick => { o with payload := o.payload.erase tick }
  | a => o.observe a

/-- The ticks that have not been dispatched after a trace. -/
def undispatched (trace : List Entry) : Outstanding :=
  trace.foldl (fun o e => o.observeDispatch e.action) .empty

/-- Connecting schedules two payload ticks for the same moment. -/
def dispatchingConnect : ConnectInput :=
  sampleConnect [.scheduleTick 0 1000000 (.expresslaneKeyShareTick 1),
    .scheduleTick 0 1000000 (.pktCodecTick 2)]

/-- Both are due in this nudge, and the first one schedules its successor. -/
def dispatchingNudge : NudgeInput :=
  sampleNudge 2000000 [] fun k =>
    if k = 0 then [.scheduleTick 0 500000000 (.expresslaneKeyShareTick 3)] else []

def dispatchingWorld : World :=
  (ApiCall.nudge dispatchingNudge).step sampleEnv
    ((ApiCall.connect dispatchingConnect).step sampleEnv sampleWorld)

theorem dispatchingWorld_run : ReflTransGen (Returning sampleEnv) sampleWorld dispatchingWorld :=
  .tail (.single ⟨.connect dispatchingConnect, by decide, rfl⟩)
    ⟨.nudge dispatchingNudge, by decide, rfl⟩

/-- While the second tick, overdue, is still waiting for its turn in the nudge, the host is told
half a second, the time to the successor of the first. -/
theorem hostTimer_while_dispatching :
    ReflTransGen (Returning sampleEnv) sampleWorld dispatchingWorld ∧
    ∃ past timeoutMs now state rest E,
      dispatchingWorld.trace = past ++ ⟨.nudgeTime timeoutMs now, state⟩ :: rest ∧
      (undispatched past).earliest = some E ∧ E ≤ now ∧ timeoutMs ≠ timeoutFor E now := by
  refine ⟨dispatchingWorld_run, dispatchingWorld.trace.take 10, 500, 2000000, .connecting,
    dispatchingWorld.trace.drop 11, 1000000, by decide +kernel, by decide, by decide, ?_⟩
  -- an overdue deadline would be announced as one millisecond
  rw [timeoutFor, Deadline.timeout_of_le (by decide)]
  decide

/-- After that nudge the host's timer is armed for the successor's deadline. -/
theorem hostTimer_safe_dispatchingWorld :
    (outstanding dispatchingWorld.trace).earliest = some 502000000 ∧
    ∃ timer, hostTimer dispatchingWorld.trace = some timer ∧
      timer.armedAt ≤ dispatchingWorld.now ∧
      timer.expiry ≤ max 502000000 timer.armedAt + 1000000 ∧
      (timer.timeoutMs < i32Max → 502000000 ≤ timer.expiry) := by
  have hsafe := hostTimer_safe sampleEnv sampleWorld_initial rfl dispatchingWorld_run
  have hE : (outstanding dispatchingWorld.trace).earliest = some 502000000 := by decide
  obtain ⟨timer, ht, hle, hlate, hearly, -⟩ :=
    hsafe.2.2 (dispatchingWorld.connection.get (by decide)) _ (Option.some_get _).symm hE
  exact ⟨hE, timer, ht, hle, hlate, hearly⟩

end LightwayCffi.Client
