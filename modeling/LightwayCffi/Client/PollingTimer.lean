import LightwayCffi.Client.Steps

/-!
# A host that polls

A host without `nudge_time_cb` reads `he_conn_get_nudge_time()` and takes `0` for "no timer". The
value is a copy, `nudge_time_ms`, of what the connection's deadlines say. `TimerLaw` says that the
copy is `0` exactly when no tick is pending.

Nudges and key rotations refresh the copy. The other entry points do not, although the core may
schedule a tick in them and although they may drop the connection. `timerLaw_iff` says precisely
which calls keep the law: it holds in every state of a run whose calls all satisfy `KeepsTimer`,
and the first call that does not satisfy it breaks the law. Connecting is the case that matters
most (`timerLaw_broken_by_connect`): the core schedules its first connection tick there, and a host
that polls is told that there is none.
-/

namespace LightwayCffi.Client

open Relation (ReflTransGen)

variable {env : Env}

/-- `he_conn_get_nudge_time()` is `0` exactly when there is no live connection or the connection
has no pending tick. -/
def TimerLaw (w : World) : Prop :=
  w.conn.nudgeTimeMs = 0 ↔ ∀ c, w.connection = some c → c.appState.earliestTickDeadline = none

/-! ## What the core schedules -/

/-- The core asks for a tick during the call. -/
def CoreReply.Schedules (reply : CoreReply) : Prop :=
  ∃ elapsed d tick, CoreCall.scheduleTick elapsed d tick ∈ reply.calls

theorem scheduleTick_earliest {w w' : World} {c c' : Connection} {elapsed d : ℕ} {tick : TickType}
    (h : scheduleTick env w c elapsed d tick = (w', c', false)) :
    c'.appState.earliestTickDeadline ≠ none := by
  unfold scheduleTick at h
  dsimp only at h
  split at h
  · exact absurd (congrArg (·.2.2) h) nofun
  · rename_i happ
    obtain ⟨rfl, -⟩ := cffiScheduleTickCb_eq_some happ
    obtain ⟨-, rfl, -⟩ := h
    exact c.appState.earliestTickDeadline_store_ne_none _ _

/-- After callbacks that all returned, nothing is pending exactly when nothing was pending before
and none of them scheduled a tick. -/
theorem runCalls_earliest {w w' : World} {c c' : Connection} {calls : List CoreCall}
    (h : runCalls env w c calls = (w', c', false)) :
    c'.appState.earliestTickDeadline = none ↔
      c.appState.earliestTickDeadline = none ∧
        ∀ elapsed d tick, CoreCall.scheduleTick elapsed d tick ∉ calls := by
  induction calls generalizing w c with
  | nil =>
    obtain ⟨-, rfl, -⟩ := h
    simp
  | cons call calls ih =>
    unfold runCalls at h
    split at h
    · exact absurd (congrArg (·.2.2) h) nofun
    · rename_i w₁ c₁ hcall
      rw [ih h]
      cases call with
      | scheduleTick elapsed d tick =>
        have hsome := scheduleTick_earliest hcall
        constructor
        · exact fun hnone => absurd hnone.1 hsome
        · exact fun hnone => absurd List.mem_cons_self (hnone.2 elapsed d tick)
      | stateChanged s =>
        obtain ⟨-, rfl, -⟩ := hcall
        simp

theorem coreCall_earliest {w w' : World} {c c' : Connection} {reply : CoreReply} {r : CoreResult}
    (h : coreCall env w c reply = (w', c', r)) (hr : r ≠ .panic) :
    c'.appState.earliestTickDeadline = none ↔
      c.appState.earliestTickDeadline = none ∧ ¬ reply.Schedules := by
  unfold coreCall at h
  split at h
  rename_i w₁ c₁ panicked hcalls
  obtain ⟨-, rfl, rfl⟩ := h
  cases panicked with
  | true => exact absurd rfl hr
  | false =>
    rw [runCalls_earliest hcalls]
    simp [CoreReply.Schedules]

/-! ## The calls that keep the law -/

/-- The core's answer ends the connection. -/
def CoreReply.Kills (env : Env) (reply : CoreReply) (connectionType : ConnectionType) : Prop :=
  ∃ error, reply.result = .err error ∧ env.isFatal error connectionType = true

/-- The calls that leave `nudge_time_ms` true, if it is true before:

* connecting, if it fails or the core schedules no tick in it;
* disconnecting, and receiving a packet with a fatal outcome, if no tick is pending;
* receiving a packet otherwise, if a tick is already pending or the core schedules none;
* every nudge and every rotation. -/
def KeepsTimer (env : Env) (w : World) : ApiCall → Prop
  | .connect i =>
    clientConnectChecks w.toHeClient i = .ok () → i.connect.result = .ok → ¬ i.connect.Schedules
  | .disconnect _ => ∀ c, w.connection = some c → c.appState.earliestTickDeadline = none
  | .outsideDataReceived reply => ∀ c, w.connection = some c →
      (reply.Kills env c.connectionType → c.appState.earliestTickDeadline = none) ∧
      (¬ reply.Kills env c.connectionType → c.appState.earliestTickDeadline = none →
        ¬ reply.Schedules)
  | .insidePacketReceived reply => ∀ c, w.connection = some c →
      c.appState.earliestTickDeadline = none → ¬ reply.Schedules
  | .nudge _ => True
  | .expresslaneRotateIfDue _ _ => True

/-- Without a connection the timer has to be clear. -/
theorem timerLaw_of_none {w : World} (hc : w.connection = none) :
    TimerLaw w ↔ w.conn.nudgeTimeMs = 0 := by
  unfold TimerLaw
  simp [hc]

theorem timerLaw_of_some {w : World} {c : Connection} (hc : w.connection = some c) :
    TimerLaw w ↔ (w.conn.nudgeTimeMs = 0 ↔ c.appState.earliestTickDeadline = none) := by
  unfold TimerLaw
  simp [hc]

/-- A refreshed timer is true. -/
theorem timerLaw_refreshNudgeTime (w : World) (c : Connection) (n : ℕ) :
    TimerLaw (refreshNudgeTime (w.put c) c n) := by
  rw [timerLaw_of_some (refreshNudgeTime_connection _ _ _), refreshNudgeTime_nudgeTimeMs]
  exact nudgeMsUntil_eq_zero

/-! ## Call by call -/

theorem connect_timerLaw {w : World} {i : ConnectInput} (hlaw : TimerLaw w)
    (hret : (ApiCall.connect i).Returns env w) :
    TimerLaw ((ApiCall.connect i).step env w) ↔ KeepsTimer env w (.connect i) := by
  show TimerLaw (clientConnectLocked env w i).1 ↔ _
  have hret' : (clientConnectLocked env w i).2 ≠ none := hret
  unfold KeepsTimer
  unfold clientConnectLocked at hret' ⊢
  cases hchecks : clientConnectChecks w.toHeClient i with
  | error code => exact iff_of_true hlaw fun h => absurd (hchecks.symm.trans h) nofun
  | ok u =>
    simp only [hchecks] at hret' ⊢
    have hnone := connection_of_clientConnectChecks hchecks
    have hzero := (timerLaw_of_none hnone).1 hlaw
    rcases hcall : coreCall env (w.log .opened) (freshConnection w.toHeClient) i.connect with
      ⟨w', c', r⟩
    rw [hcall] at hret'
    have hframe := frame_of_coreSteps (coreCall_steps hcall)
    have hzero' : w'.conn.nudgeTimeMs = 0 := hframe.nudgeTimeMs.trans hzero
    cases r with
    | panic => exact absurd rfl hret'
    | err error =>
      refine iff_of_true ((timerLaw_of_none (hframe.connection.trans hnone)).2 hzero') ?_
      exact fun _ hok => absurd (hok.symm.trans (coreCall_result hcall nofun)) nofun
    | ok =>
      have hok := coreCall_result hcall nofun
      have hfresh : (freshConnection w.toHeClient).appState.earliestTickDeadline = none := rfl
      have hpending := coreCall_earliest hcall nofun
      simp only [hfresh, true_and] at hpending
      simp only [timerLaw_of_some (completeConnect_connection w' c'), completeConnect_nudgeTimeMs,
        hzero', hpending, hok, true_iff, true_implies]

theorem disconnect_timerLaw {w : World} {reply : CoreReply} (hlaw : TimerLaw w)
    (hret : (ApiCall.disconnect reply).Returns env w) :
    TimerLaw ((ApiCall.disconnect reply).step env w) ↔ KeepsTimer env w (.disconnect reply) := by
  have hret' : (clientDisconnectLocked env w reply).2 ≠ none := hret
  -- the timer stays what it was, and the connection is gone
  have hafter : (clientDisconnectLocked env w reply).1.connection = none ∧
      (clientDisconnectLocked env w reply).1.conn.nudgeTimeMs = w.conn.nudgeTimeMs := by
    unfold clientDisconnectLocked at hret' ⊢
    cases hc : w.connection with
    | none => simp
    | some c =>
      simp only [hc] at hret' ⊢
      rcases hcall : coreCall env w c reply with ⟨w', c', r⟩
      rw [hcall] at hret'
      have hframe := frame_of_coreSteps (coreCall_steps hcall)
      cases r with
      | panic => exact absurd rfl hret'
      | ok => simp [hframe.nudgeTimeMs]
      | err error => simp [hframe.nudgeTimeMs]
  show TimerLaw (clientDisconnectLocked env w reply).1 ↔ _
  rw [timerLaw_of_none hafter.1, hafter.2]
  exact hlaw

/-- A packet that leaves the connection alive: the timer stays what it was, so the law survives
exactly if the connection does not go from no pending tick to some. -/
theorem timerLaw_put {w w' : World} {c c' : Connection} {reply : CoreReply} {r : CoreResult}
    (hlaw : TimerLaw w) (hc : w.connection = some c)
    (hcall : coreCall env w c reply = (w', c', r)) (hr : r ≠ .panic) :
    TimerLaw (w'.put c') ↔ (c.appState.earliestTickDeadline = none → ¬ reply.Schedules) := by
  have hbefore := (timerLaw_of_some hc).1 hlaw
  have hframe := frame_of_coreSteps (coreCall_steps hcall)
  rw [timerLaw_of_some rfl, World.put_conn, hframe.nudgeTimeMs, hbefore,
    coreCall_earliest hcall hr]
  exact iff_self_and

theorem outside_timerLaw {w : World} {reply : CoreReply} (hlaw : TimerLaw w)
    (hret : (ApiCall.outsideDataReceived reply).Returns env w) :
    TimerLaw ((ApiCall.outsideDataReceived reply).step env w) ↔
      KeepsTimer env w (.outsideDataReceived reply) := by
  show TimerLaw (heConnOutsideDataReceived env w reply).1 ↔ _
  have hret' : (heConnOutsideDataReceived env w reply).2 ≠ none := hret
  unfold KeepsTimer
  unfold heConnOutsideDataReceived at hret' ⊢
  cases hc : w.connection with
  | none => exact iff_of_true hlaw fun _ h => nomatch h
  | some c =>
    simp only [hc] at hret' ⊢
    rcases hcall : coreCall env w c reply with ⟨w', c', r⟩
    rw [hcall] at hret'
    have hput := timerLaw_put hlaw hc hcall
    have hframe := frame_of_coreSteps (coreCall_steps hcall)
    simp only [Option.some.injEq, forall_eq']
    cases r with
    | panic => exact absurd rfl hret'
    | ok =>
      have halive : ¬ reply.Kills env c.connectionType := by
        rintro ⟨error, herr, -⟩
        exact absurd (herr.symm.trans (coreCall_result hcall nofun)) nofun
      simp only [hput nofun, halive, false_implies, not_false_eq_true, true_implies, true_and]
    | err error =>
      have herr := coreCall_result hcall nofun
      dsimp only
      split
      · -- torn down: the timer must have been clear
        rename_i hfatal
        have hkills : reply.Kills env c.connectionType := ⟨error, herr, hfatal⟩
        rw [timerLaw_of_none (fatalDisconnect_connection _), fatalDisconnect_nudgeTimeMs,
          World.put_conn, hframe.nudgeTimeMs, (timerLaw_of_some hc).1 hlaw]
        simp only [hkills, true_implies, not_true_eq_false, false_implies, and_true]
      · rename_i hfatal
        have halive : ¬ reply.Kills env c.connectionType := by
          rintro ⟨error', herr', hfatal'⟩
          obtain rfl := CoreResult.err.inj (herr.symm.trans herr')
          exact hfatal hfatal'
        simp only [hput nofun, halive, false_implies, not_false_eq_true, true_implies, true_and]

theorem inside_timerLaw {w : World} {reply : CoreReply} (hlaw : TimerLaw w)
    (hret : (ApiCall.insidePacketReceived reply).Returns env w) :
    TimerLaw ((ApiCall.insidePacketReceived reply).step env w) ↔
      KeepsTimer env w (.insidePacketReceived reply) := by
  show TimerLaw (heConnInsidePacketReceived env w reply).1 ↔ _
  have hret' : (heConnInsidePacketReceived env w reply).2 ≠ none := hret
  unfold KeepsTimer
  unfold heConnInsidePacketReceived at hret' ⊢
  cases hc : w.connection with
  | none => exact iff_of_true hlaw fun _ h => nomatch h
  | some c =>
    simp only [hc] at hret' ⊢
    rcases hcall : coreCall env w c reply with ⟨w', c', r⟩
    rw [hcall] at hret'
    have hput := timerLaw_put hlaw hc hcall
    simp only [Option.some.injEq, forall_eq']
    cases r with
    | panic => exact absurd rfl hret'
    | ok => exact hput nofun
    | err error => cases error <;> exact hput nofun

/-- A nudge refreshes the timer, or clears it when it tears the connection down. -/
theorem NudgeExit.timerLaw {w w' : World} {c : Connection} {code : Option HeReturnCode}
    (hexit : NudgeExit w c w' code) (hret : code ≠ none) : TimerLaw w' := by
  cases hexit with
  | refreshed n code h => exact timerLaw_refreshNudgeTime _ _ n
  | killed code h =>
    rw [timerLaw_of_none (fatalDisconnect_connection _), fatalDisconnect_nudgeTimeMs]
    rfl
  | panicked h => exact absurd rfl hret

theorem nudge_timerLaw {w : World} {i : NudgeInput} (hlaw : TimerLaw w)
    (hret : (ApiCall.nudge i).Returns env w) : TimerLaw ((ApiCall.nudge i).step env w) := by
  show TimerLaw (heConnNudge env w i).1
  cases hc : w.connection with
  | none =>
    rw [heConnNudge_of_none hc]
    exact hlaw
  | some c => exact (heConnNudge_exit w c i hc).timerLaw hret

theorem rotate_timerLaw {w : World} {reply : CoreReply} {n : ℕ} (hlaw : TimerLaw w)
    (hret : (ApiCall.expresslaneRotateIfDue reply n).Returns env w) :
    TimerLaw ((ApiCall.expresslaneRotateIfDue reply n).step env w) := by
  show TimerLaw (heConnExpresslaneRotateIfDue env w reply n).1
  have hret' : (heConnExpresslaneRotateIfDue env w reply n).2 ≠ none := hret
  unfold heConnExpresslaneRotateIfDue at hret' ⊢
  cases hc : w.connection with
  | none => exact hlaw
  | some c =>
    simp only [hc] at hret' ⊢
    split
    · exact hlaw
    · rename_i hstate
      rw [if_neg hstate] at hret'
      rcases hcall : coreCall env w c reply with ⟨w', c', r⟩
      rw [hcall] at hret'
      cases r with
      | panic => exact absurd rfl hret'
      | ok => exact timerLaw_refreshNudgeTime w' c' n
      | err error => exact timerLaw_refreshNudgeTime w' c' n

/-! ## Runs -/

/-- A call that returns and keeps the timer true. -/
def Polite (env : Env) (w w' : World) : Prop :=
  ∃ call : ApiCall, call.Returns env w ∧ KeepsTimer env w call ∧ call.step env w = w'

/-- One call keeps the law exactly if it satisfies `KeepsTimer`. -/
theorem step_timerLaw {w : World} {call : ApiCall} (hlaw : TimerLaw w)
    (hret : call.Returns env w) : TimerLaw (call.step env w) ↔ KeepsTimer env w call := by
  cases call with
  | connect i => exact connect_timerLaw hlaw hret
  | disconnect reply => exact disconnect_timerLaw hlaw hret
  | outsideDataReceived reply => exact outside_timerLaw hlaw hret
  | insidePacketReceived reply => exact inside_timerLaw hlaw hret
  | nudge i => exact iff_of_true (nudge_timerLaw hlaw hret) trivial
  | expresslaneRotateIfDue reply n => exact iff_of_true (rotate_timerLaw hlaw hret) trivial

theorem run_timerLaw {w₀ w : World} (hinit : w₀.Initial) (hrun : ReflTransGen (Polite env) w₀ w) :
    TimerLaw w := by
  induction hrun with
  | refl => exact (timerLaw_of_none hinit.connection).2 hinit.nudgeTimeMs
  | tail _ hstep ih =>
    obtain ⟨call, hret, hkeeps, rfl⟩ := hstep
    exact (step_timerLaw ih hret).2 hkeeps

/-- **When the polled timer can be trusted.** In every run whose calls return and satisfy
`KeepsTimer`, the law holds in every state; and in each of these states a call keeps it exactly if
it satisfies `KeepsTimer`. -/
theorem timerLaw_iff (env : Env) {w₀ w : World} (hinit : w₀.Initial)
    (hrun : ReflTransGen (Polite env) w₀ w) :
    TimerLaw w ∧
      ∀ call : ApiCall, call.Returns env w →
        (TimerLaw (call.step env w) ↔ KeepsTimer env w call) := by
  have hlaw := run_timerLaw hinit hrun
  exact ⟨hlaw, fun call hret => step_timerLaw hlaw hret⟩

theorem not_timerLaw_firstTickConnect :
    ¬ TimerLaw ((ApiCall.connect firstTickConnect).step sampleEnv sampleWorld) := by
  intro hlaw
  have hpending := hlaw.1 (by decide) (Option.get _ (by decide)) (Option.some_get _).symm
  exact absurd hpending (by decide)

/-- A new client connects successfully and has a tick pending, and the host reads that no timer is
needed. -/
theorem timerLaw_broken_by_connect :
    sampleWorld.Initial ∧
    (ApiCall.connect firstTickConnect).code sampleEnv sampleWorld = .success ∧
    ((ApiCall.connect firstTickConnect).step sampleEnv sampleWorld).conn.nudgeTimeMs = 0 ∧
    ¬ TimerLaw ((ApiCall.connect firstTickConnect).step sampleEnv sampleWorld) :=
  ⟨sampleWorld_initial, by decide, by decide, not_timerLaw_firstTickConnect⟩

/-- A run that keeps the law: the client connects without a tick and goes online, a rotation
schedules the next one a second ahead, and a nudge finds it 400 ms later. -/
def politeCalls : List ApiCall :=
  [.connect (sampleConnect []), .outsideDataReceived { okReply [] with state := .online },
    .expresslaneRotateIfDue
      { okReply [.scheduleTick 0 1000000000 (.expresslaneKeyShareTick 0)] with state := .online } 0,
    .nudge (sampleNudge 400000000 [] fun _ => [])]

def politeWorld (n : ℕ) : World :=
  (politeCalls.take n).foldl (fun w call => call.step sampleEnv w) sampleWorld

theorem politeWorld_run : ReflTransGen (Polite sampleEnv) sampleWorld (politeWorld 4) := by
  have hconnect : Polite sampleEnv sampleWorld (politeWorld 1) := by
    refine ⟨.connect (sampleConnect []), by decide, ?_, rfl⟩
    rintro - - ⟨elapsed, d, tick, hmem⟩
    exact nomatch hmem
  have honline : Polite sampleEnv (politeWorld 1) (politeWorld 2) := by
    refine ⟨.outsideDataReceived { okReply [] with state := .online }, by decide,
      fun c _ => ⟨?_, ?_⟩, rfl⟩
    · rintro ⟨error, herr, -⟩
      exact nomatch herr
    · rintro - - ⟨elapsed, d, tick, hmem⟩
      exact nomatch hmem
  have hrotate : Polite sampleEnv (politeWorld 2) (politeWorld 3) := by
    refine ⟨.expresslaneRotateIfDue _ 0, ?_, trivial, rfl⟩
    decide
  have hnudge : Polite sampleEnv (politeWorld 3) (politeWorld 4) :=
    ⟨.nudge (sampleNudge 400000000 [] fun _ => []), by decide, trivial, rfl⟩
  exact .tail (.tail (.tail (.single hconnect) honline) hrotate) hnudge

/-- The host reads the 600 ms that are left to the tick; connecting with a tick would have broken
the law. -/
theorem timerLaw_iff_politeWorld :
    TimerLaw (politeWorld 4) ∧ (politeWorld 4).conn.nudgeTimeMs = 600 ∧
      ((politeWorld 4).connection.bind fun c => c.appState.earliestTickDeadline) =
        some 1000000000 ∧
      ¬ KeepsTimer sampleEnv sampleWorld (.connect firstTickConnect) := by
  refine ⟨(timerLaw_iff sampleEnv sampleWorld_initial politeWorld_run).1, by decide, by decide, ?_⟩
  have hiff := (timerLaw_iff sampleEnv sampleWorld_initial .refl).2 (.connect firstTickConnect)
    (by decide)
  rw [← hiff]
  exact not_timerLaw_firstTickConnect

end LightwayCffi.Client
