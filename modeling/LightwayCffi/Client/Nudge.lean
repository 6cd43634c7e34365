import LightwayCffi.Client.Steps

/-!
# No timer tick is lost

lightway-core's retransmissions live on ticks: a payload tick that the shim dropped would never be
retried. A nudge takes the list of payload ticks apart, stores the part that is not due back, and
then runs ticks that may push new entries onto the stored list, with several early returns on the
way.

`tick_conservation` says what becomes of every tick. For one nudge: the connection tick is called
at most once and only when due; if it fails, no payload tick is touched; otherwise the due payload
ticks are handed to the core, each once and in order, and all the others stay. For a run on one
connection: the payload ticks scheduled are those dispatched together with those still pending.

A trace tells which ticks were scheduled and dispatched; the new part of the trace of a call is
called `delta` below.
-/

namespace LightwayCffi.Client

open Relation (ReflTransGen)
open scoped List

variable {env : Env}

/-! ## Reading a trace -/

/-- The payload ticks scheduled in a trace, in order. -/
def scheduledTicks (trace : List Entry) : List PendingTick :=
  trace.filterMap fun e =>
    match e.action with
    | .scheduledPayload p => some p
    | _ => none

/-- The payload ticks handed to `Connection::tick` in a trace, in order. -/
def tickedTicks (trace : List Entry) : List PendingTick :=
  trace.filterMap fun e =>
    match e.action with
    | .tickedPayload p => some p
    | _ => none

/-- How often `Connection::tick(ConnectionTick)` is called in a trace. -/
def connectionTicks (trace : List Entry) : ℕ :=
  trace.countP fun e => e.action = .tickedConnection

@[simp]
theorem scheduledTicks_append (s t : List Entry) :
    scheduledTicks (s ++ t) = scheduledTicks s ++ scheduledTicks t :=
  List.filterMap_append

@[simp]
theorem tickedTicks_append (s t : List Entry) :
    tickedTicks (s ++ t) = tickedTicks s ++ tickedTicks t :=
  List.filterMap_append

@[simp]
theorem connectionTicks_append (s t : List Entry) :
    connectionTicks (s ++ t) = connectionTicks s + connectionTicks t :=
  List.countP_append

/-! ## Calls into the core -/

/-- The account of a part of a call: it hands the payload ticks `ticked` to the core, makes no
connection tick, and whatever payload ticks it schedules are appended to the pending list. -/
structure TickDelta (w : World) (c : Connection) (w' : World) (c' : Connection)
    (ticked : List PendingTick) (delta : List Entry) : Prop where
  trace : w'.trace = w.trace ++ delta
  ticked : tickedTicks delta = ticked
  connectionTicks : connectionTicks delta = 0
  pending : c'.appState.pendingTicks = c.appState.pendingTicks ++ scheduledTicks delta
  now : w.now ≤ w'.now

theorem TickDelta.refl (w : World) (c : Connection) : TickDelta w c w c [] [] where
  trace := (List.append_nil _).symm
  ticked := rfl
  connectionTicks := rfl
  pending := (List.append_nil _).symm
  now := le_rfl

theorem TickDelta.trans {w w₁ w' : World} {c c₁ c' : Connection} {k₁ k₂ : List PendingTick}
    {d₁ d₂ : List Entry} (h₁ : TickDelta w c w₁ c₁ k₁ d₁) (h₂ : TickDelta w₁ c₁ w' c' k₂ d₂) :
    TickDelta w c w' c' (k₁ ++ k₂) (d₁ ++ d₂) where
  trace := by rw [h₂.trace, h₁.trace, List.append_assoc]
  ticked := by rw [tickedTicks_append, h₁.ticked, h₂.ticked]
  connectionTicks := by rw [connectionTicks_append, h₁.connectionTicks, h₂.connectionTicks]
  pending := by rw [h₂.pending, h₁.pending, scheduledTicks_append, List.append_assoc]
  now := h₁.now.trans h₂.now

theorem CoreStep.delta {s t : World × Connection} (h : CoreStep s t) :
    ∃ delta, TickDelta s.1 s.2 t.1 t.2 [] delta := by
  cases h with
  | elapse w c n => exact ⟨[], { TickDelta.refl w c with now := Nat.le_add_right _ _ }⟩
  | event w c s =>
    exact ⟨[⟨.fired s c.stateChangeCb, rustStateToC s⟩],
      { TickDelta.refl w c with trace := rfl, connectionTicks := rfl, ticked := rfl }⟩
  | settle w c s interval => exact ⟨[], { TickDelta.refl w c with }⟩
  | schedule w c d tick =>
    refine ⟨_, w.schedule_trace c.appState (w.now + d) tick, ?_, ?_, ?_, (w.schedule_now ..).ge⟩
    all_goals by_cases htick : tick = .connectionTick
    -- a connection tick goes to its own slot, any other to the list
    · subst htick
      split <;> rfl
    · rw [scheduledAction_payload ⟨w.now + d, tick, htick⟩]
      split <;> rfl
    · subst htick
      split <;> rfl
    · rw [scheduledAction_payload ⟨w.now + d, tick, htick⟩]
      split <;> rfl
    · subst htick
      rw [CffiAppState.store_connectionTick]
      split <;> exact (List.append_nil _).symm
    · rw [scheduledAction_payload ⟨w.now + d, tick, htick⟩,
        CffiAppState.store_payload _ ⟨w.now + d, tick, htick⟩]
      split <;> rfl

/-- A call into the core dispatches nothing by itself. -/
theorem tickDelta_of_coreSteps {w w' : World} {c c' : Connection}
    (h : ReflTransGen CoreStep (w, c) (w', c')) : ∃ delta, TickDelta w c w' c' [] delta := by
  apply preserved_of_steps (P := fun w' c' => ∃ delta, TickDelta w c w' c' [] delta) ?_ h
  · exact ⟨[], .refl w c⟩
  · rintro s t hstep ⟨d₁, h₁⟩
    obtain ⟨d₂, h₂⟩ := hstep.delta
    exact ⟨d₁ ++ d₂, h₁.trans h₂⟩

/-! ## The dispatch loop -/

theorem tickDelta_tickPayload (w : World) (c : Connection) (tick : PendingTick) :
    TickDelta w c (w.log (.tickedPayload tick)) c [tick]
      [⟨.tickedPayload tick, w.conn.state⟩] where
  trace := rfl
  ticked := rfl
  connectionTicks := rfl
  pending := (List.append_nil _).symm
  now := le_rfl

/-- A loop that runs to its end has handed over exactly the due ticks, in order; whatever they made
the core schedule stays pending. -/
theorem dispatch_delta {ct : ConnectionType} {due : List PendingTick} {w w' : World}
    {c c' : Connection} {reply : ℕ → CoreReply} {r : Dispatched}
    (h : dispatch env ct w c due reply = (w', c', r)) :
    ∃ ticked delta, TickDelta w c w' c' ticked delta ∧ (r = .done → ticked = due) := by
  -- one tick and what the core does with it
  have htick {w w₁ : World} {c c₁ : Connection} {tick : PendingTick} {reply : CoreReply}
      {r₁ : CoreResult}
      (hcall : coreCall env (w.log (.tickedPayload tick)) c reply = (w₁, c₁, r₁)) :
      ∃ d, TickDelta w c w₁ c₁ [tick] d := by
    obtain ⟨d, hd⟩ := tickDelta_of_coreSteps (coreCall_steps hcall)
    exact ⟨_, (tickDelta_tickPayload w c tick).trans hd⟩
  replace h := dispatching_of_dispatch h
  obtain ⟨answers, h⟩ := h
  induction h with
  | done w c => exact ⟨[], [], .refl w c, fun _ => rfl⟩
  | panicked hcall =>
    obtain ⟨d, hd⟩ := htick hcall
    exact ⟨_, d, hd, nofun⟩
  | fatal hcall =>
    obtain ⟨d, hd⟩ := htick hcall
    exact ⟨_, d, hd, nofun⟩
  | next hcall _ _ _ ih =>
    obtain ⟨d₁, h₁⟩ := htick hcall
    obtain ⟨k, d₂, h₂, hk⟩ := ih
    exact ⟨_, _, h₁.trans h₂, fun hdone => by rw [hk hdone, List.singleton_append]⟩

/-! ## One nudge -/

/-- Tearing a connection down dispatches nothing. -/
theorem fatalDisconnect_trace (w : World) :
    ∃ delta, (fatalDisconnect w).trace = w.trace ++ delta ∧ connectionTicks delta = 0 := by
  unfold fatalDisconnect
  split
  · exact ⟨[], (List.append_nil _).symm, rfl⟩
  · exact ⟨[⟨.announced .disconnected w.sslCtx.stateChangeCb, .disconnected⟩], rfl, rfl⟩

/-- What a nudge does with the payload ticks `pending` it finds when it takes the due ones at the
clock reading `now`: `after` is what it adds to the trace from then on. -/
structure PayloadSpec (pending : List PendingTick) (now : ℕ) (after : List Entry)
    (c' : Connection) : Prop where
  ticked : tickedTicks after = pending.filter fun p => p.deadline ≤ now
  pending : c'.appState.pendingTicks =
    (pending.filter fun p => now < p.deadline) ++ scheduledTicks after

theorem nudgePayload_delta (w : World) (c : Connection) (i : NudgeInput) :
    ∃ now after, (nudgePayload env w c i).1.trace =
        w.trace ++ ⟨.taken now, w.conn.state⟩ :: after ∧
      w.now ≤ now ∧ connectionTicks after = 0 ∧
      ∀ c', (nudgePayload env w c i).1.connection = some c' →
        (nudgePayload env w c i).2 ≠ none →
          PayloadSpec c.appState.pendingTicks now after c' := by
  refine ⟨w.now + i.payloadElapsed, ?_⟩
  unfold nudgePayload
  simp only [partition_due]
  split
  · rename_i hdispatch
    obtain ⟨k, d, hd, -⟩ := dispatch_delta hdispatch
    exact ⟨d, by rw [World.put_trace, hd.trace]; simp, Nat.le_add_right _ _, hd.connectionTicks,
      fun _ _ h => absurd rfl h⟩
  · rename_i hdispatch
    obtain ⟨k, d, hd, -⟩ := dispatch_delta hdispatch
    rw [handleConnectionTickError_of_isFatal (dispatch_fatal hdispatch)]
    obtain ⟨d', ht', hc'⟩ := fatalDisconnect_trace ((World.put _ _).setNudgeTime 0)
    refine ⟨d ++ d', ?_, Nat.le_add_right _ _, ?_, ?_⟩
    · rw [ht', World.setNudgeTime_trace, World.put_trace, hd.trace]
      simp
    · rw [connectionTicks_append, hd.connectionTicks, hc']
    · intro c' hconn
      rw [fatalDisconnect_connection] at hconn
      exact nomatch hconn
  · rename_i hdispatch
    obtain ⟨k, d, hd, hdone⟩ := dispatch_delta hdispatch
    refine ⟨d, ?_, Nat.le_add_right _ _, hd.connectionTicks, ?_⟩
    · rw [refreshNudgeTime_trace, World.put_trace, hd.trace]
      simp
    · intro c' hconn _
      rw [refreshNudgeTime_connection, World.put_connection] at hconn
      obtain rfl := Option.some.inj hconn
      exact ⟨hd.ticked.trans (hdone rfl), hd.pending⟩

/-- The account of one nudge on the connection `c`: `r` is what it returns and `delta` what it adds
to the trace. -/
structure NudgeSpec (w : World) (c : Connection) (i : NudgeInput)
    (r : World × Option HeReturnCode) (delta : List Entry) : Prop where
  trace : r.1.trace = w.trace ++ delta
  /-- The connection tick is called at most once, -/
  once : connectionTicks delta ≤ 1
  /-- and only if it was due. -/
  due : connectionTicks delta ≠ 0 →
    ∃ t, c.appState.nextTick = some t ∧ t ≤ w.now + i.connectionTickElapsed
  /-- If it fails and the connection survives, no payload tick is dispatched and all stay. -/
  failed : ∀ c' error, r.1.connection = some c' → connectionTicks delta ≠ 0 →
    i.connectionTick.result = .err error →
      tickedTicks delta = [] ∧
        c'.appState.pendingTicks = c.appState.pendingTicks ++ scheduledTicks delta
  /-- Otherwise, if the connection survives and no tick call panics, the due payload ticks are
  taken at some clock reading `now` of the call, and nothing is dispatched before. -/
  dispatched : ∀ c', r.1.connection = some c' → r.2 ≠ none →
    ¬ (connectionTicks delta ≠ 0 ∧ ∃ error, i.connectionTick.result = .err error) →
      ∃ before now state after, delta = before ++ ⟨.taken now, state⟩ :: after ∧
        w.now + i.connectionTickElapsed ≤ now ∧ tickedTicks before = [] ∧
        PayloadSpec (c.appState.pendingTicks ++ scheduledTicks before) now after c'

/-- The entry a nudge writes when it calls the connection tick. -/
theorem connectionTicks_tickedConnection (state : HeConnState) (delta : List Entry) :
    connectionTicks (⟨.tickedConnection, state⟩ :: delta) = connectionTicks delta + 1 := by
  simp [connectionTicks]

theorem connectionTicks_taken (now : ℕ) (state : HeConnState) (delta : List Entry) :
    connectionTicks (⟨.taken now, state⟩ :: delta) = connectionTicks delta := by
  simp [connectionTicks]

/-- A nudge whose connection tick is not due. -/
theorem nudgePayload_spec (w : World) (c : Connection) (i : NudgeInput) :
    ∃ delta, NudgeSpec w c i (nudgePayload env (w.advance i.connectionTickElapsed) c i) delta := by
  obtain ⟨now, after, htrace, hnow, hconn, hspec⟩ :=
    nudgePayload_delta (w.advance i.connectionTickElapsed) c i
  have hzero := (connectionTicks_taken now w.conn.state after).trans hconn
  refine ⟨⟨.taken now, w.conn.state⟩ :: after, htrace, hzero.le.trans (Nat.zero_le 1), ?_, ?_, ?_⟩
  · exact fun h => absurd hzero h
  · exact fun _ _ _ h => absurd hzero h
  · intro c' hc' hret _
    refine ⟨[], now, w.conn.state, after, rfl, hnow, rfl, ?_⟩
    rw [show scheduledTicks [] = [] from rfl, List.append_nil]
    exact hspec c' hc' hret

/-- A nudge that stops after the connection tick, because it failed or because of a panic: `d` is
what the core did, and `e` what is left to say when the connection is torn down. -/
theorem nudgeSpec_of_stopped {w w₁ : World} {c c₁ : Connection} {i : NudgeInput}
    {r : World × Option HeReturnCode} {t : ℕ} {d e : List Entry}
    (hnext : c.appState.nextTick = some t) (hdue : t ≤ (w.advance i.connectionTickElapsed).now)
    (hd : TickDelta ((w.advance i.connectionTickElapsed).log .tickedConnection)
      { c with appState.nextTick := none } w₁ c₁ [] d)
    (htrace : r.1.trace = w₁.trace ++ e) (he : connectionTicks e = 0)
    (hconn : ∀ c', r.1.connection = some c' → c' = c₁ ∧ e = [])
    (hstop : r.2 = none ∨ ∃ error, i.connectionTick.result = .err error) :
    ∃ delta, NudgeSpec w c i r delta := by
  have hone : connectionTicks (⟨.tickedConnection, w.conn.state⟩ :: (d ++ e)) = 1 := by
    rw [connectionTicks_tickedConnection, connectionTicks_append, hd.connectionTicks, he]
  refine ⟨⟨.tickedConnection, w.conn.state⟩ :: (d ++ e), ?_, hone.le, ?_, ?_, ?_⟩
  · rw [htrace, hd.trace]
    simp
  · exact fun _ => ⟨t, hnext, hdue⟩
  · intro c' error hc' _ _
    obtain ⟨rfl, rfl⟩ := hconn c' hc'
    rw [List.append_nil]
    exact ⟨hd.ticked, hd.pending⟩
  · intro c' _ hret hok
    rcases hstop with hnone | herr
    · exact absurd hnone hret
    · exact absurd ⟨hone.trans_ne Nat.one_ne_zero, herr⟩ hok

/-- A nudge whose connection tick is due. -/
theorem nudgeConnectionTick_spec (w : World) (c : Connection) (i : NudgeInput) (t : ℕ)
    (hnext : c.appState.nextTick = some t) (hdue : t ≤ (w.advance i.connectionTickElapsed).now) :
    ∃ delta, NudgeSpec w c i (nudgeConnectionTick env (w.advance i.connectionTickElapsed) c i)
      delta := by
  unfold nudgeConnectionTick
  dsimp only
  split
  · rename_i hcall
    obtain ⟨d, hd⟩ := tickDelta_of_coreSteps (coreCall_steps hcall)
    exact nudgeSpec_of_stopped hnext hdue hd (List.append_nil _).symm rfl
      (fun c' hc' => ⟨(Option.some.inj hc').symm, rfl⟩) (.inl rfl)
  · -- the tick succeeded: what the core scheduled joins the list before the due ticks are taken
    rename_i w₁ c₁ hcall
    obtain ⟨d, hd⟩ := tickDelta_of_coreSteps (coreCall_steps hcall)
    have hok := coreCall_result hcall nofun
    obtain ⟨now, after, htrace, hnow, hconn, hspec⟩ := @nudgePayload_delta env w₁ c₁ i
    have hone : connectionTicks (⟨.tickedConnection, w.conn.state⟩ :: d ++
        ⟨.taken now, w₁.conn.state⟩ :: after) = 1 := by
      rw [connectionTicks_append, connectionTicks_tickedConnection, connectionTicks_taken,
        hd.connectionTicks, hconn]
    refine ⟨_, ?_, hone.le, fun _ => ⟨t, hnext, hdue⟩, ?_, ?_⟩
    · rw [htrace, hd.trace]
      simp
    · intro c' error _ _ herr
      rw [hok] at herr
      exact nomatch herr
    · intro c' hc' hret _
      refine ⟨⟨.tickedConnection, w.conn.state⟩ :: d, now, w₁.conn.state, after, rfl,
        hd.now.trans hnow, hd.ticked, ?_⟩
      have hpending : c₁.appState.pendingTicks = c.appState.pendingTicks ++
          scheduledTicks (⟨.tickedConnection, w.conn.state⟩ :: d) := hd.pending
      rw [← hpending]
      exact hspec c' hc' hret
  · rename_i error hcall
    obtain ⟨d₁, hd₁⟩ := tickDelta_of_coreSteps (coreCall_steps hcall)
    have herr := coreCall_result hcall nofun
    split
    · rename_i hretry
      obtain ⟨d₂, hd₂⟩ := tickDelta_of_coreSteps (retryConnectionTickAfterError_steps hretry)
      exact nudgeSpec_of_stopped hnext hdue (hd₁.trans hd₂) (List.append_nil _).symm rfl
        (fun c' hc' => ⟨(Option.some.inj hc').symm, rfl⟩) (.inl rfl)
    · rename_i w₂ c₂ hretry
      obtain ⟨d₂, hd₂⟩ := tickDelta_of_coreSteps (retryConnectionTickAfterError_steps hretry)
      rcases handleConnectionTickError_cases _ _ _ with h | h
      · rw [h]
        exact nudgeSpec_of_stopped hnext hdue (hd₁.trans hd₂) (List.append_nil _).symm rfl
          (fun c' hc' => ⟨(Option.some.inj hc').symm, rfl⟩) (.inr ⟨error, herr⟩)
      · rw [h]
        obtain ⟨e, hte, he⟩ := fatalDisconnect_trace
          ((refreshNudgeTime (w₂.put c₂) c₂ i.timeoutElapsed).setNudgeTime 0)
        refine nudgeSpec_of_stopped hnext hdue (hd₁.trans hd₂) hte he ?_ (.inr ⟨error, herr⟩)
        intro c' hc'
        rw [fatalDisconnect_connection] at hc'
        exact nomatch hc'

theorem heConnNudge_spec (w : World) (c : Connection) (i : NudgeInput)
    (hc : w.connection = some c) : ∃ delta, NudgeSpec w c i (heConnNudge env w i) delta := by
  rcases heConnNudge_cases w c i hc with ⟨t, hnext, hdue, heq⟩ | heq
  · rw [heq]
    exact nudgeConnectionTick_spec w c i t hnext hdue
  · rw [heq]
    exact nudgePayload_spec w c i

/-! ## Runs on one connection -/

/-- Between two worlds with the connections `c` and `c'`, no payload tick is lost or invented: the
pending ones and those scheduled since are those dispatched since and the ones still pending. -/
def Conserved (w : World) (c : Connection) (w' : World) (c' : Connection) : Prop :=
  ∃ delta, w'.trace = w.trace ++ delta ∧
    c.appState.pendingTicks ++ scheduledTicks delta ~
      tickedTicks delta ++ c'.appState.pendingTicks

theorem TickDelta.conserved {w w' : World} {c c' : Connection} {delta : List Entry}
    (h : TickDelta w c w' c' [] delta) : Conserved w c w' c' := by
  refine ⟨delta, h.trace, ?_⟩
  rw [h.ticked, List.nil_append, h.pending]

theorem Conserved.trans {w w₁ w' : World} {c c₁ c' : Connection} (h₁ : Conserved w c w₁ c₁)
    (h₂ : Conserved w₁ c₁ w' c') : Conserved w c w' c' := by
  obtain ⟨d₁, ht₁, hp₁⟩ := h₁
  obtain ⟨d₂, ht₂, hp₂⟩ := h₂
  refine ⟨d₁ ++ d₂, by rw [ht₂, ht₁, List.append_assoc], ?_⟩
  rw [scheduledTicks_append, tickedTicks_append]
  calc c.appState.pendingTicks ++ (scheduledTicks d₁ ++ scheduledTicks d₂)
    _ = c.appState.pendingTicks ++ scheduledTicks d₁ ++ scheduledTicks d₂ :=
        (List.append_assoc ..).symm
    _ ~ tickedTicks d₁ ++ c₁.appState.pendingTicks ++ scheduledTicks d₂ := hp₁.append_right _
    _ = tickedTicks d₁ ++ (c₁.appState.pendingTicks ++ scheduledTicks d₂) := List.append_assoc ..
    _ ~ tickedTicks d₁ ++ (tickedTicks d₂ ++ c'.appState.pendingTicks) := hp₂.append_left _
    _ = tickedTicks d₁ ++ tickedTicks d₂ ++ c'.appState.pendingTicks :=
        (List.append_assoc ..).symm

/-- A part of the trace without payload ticks may be added freely. -/
theorem Conserved.of_trace {w w₁ w' : World} {c c' : Connection} {e : List Entry}
    (h : Conserved w c w₁ c') (he : w'.trace = w₁.trace ++ e) (hs : scheduledTicks e = [])
    (hk : tickedTicks e = []) : Conserved w c w' c' := by
  obtain ⟨d, ht, hp⟩ := h
  refine ⟨d ++ e, by rw [he, ht, List.append_assoc], ?_⟩
  rw [scheduledTicks_append, tickedTicks_append, hs, hk, List.append_nil, List.append_nil]
  exact hp

theorem NudgeSpec.conserved {w : World} {c c' : Connection} {i : NudgeInput}
    {r : World × Option HeReturnCode} {delta : List Entry} (h : NudgeSpec w c i r delta)
    (hret : r.2 ≠ none) (hc' : r.1.connection = some c') : Conserved w c r.1 c' := by
  refine ⟨delta, h.trace, ?_⟩
  by_cases hfail : connectionTicks delta ≠ 0 ∧ ∃ error, i.connectionTick.result = .err error
  · obtain ⟨htick, error, herr⟩ := hfail
    obtain ⟨hk, hp⟩ := h.failed c' error hc' htick herr
    rw [hk, hp, List.nil_append]
  · obtain ⟨before, now, state, after, rfl, -, hbefore, hspec⟩ := h.dispatched c' hc' hret hfail
    have hsnapshot := filter_due_perm (c.appState.pendingTicks ++ scheduledTicks before) now
    have hs : scheduledTicks (before ++ ⟨.taken now, state⟩ :: after) =
        scheduledTicks before ++ scheduledTicks after := scheduledTicks_append ..
    have hk : tickedTicks (before ++ ⟨.taken now, state⟩ :: after) =
        tickedTicks before ++ tickedTicks after := tickedTicks_append ..
    rw [hs, hk, hbefore, hspec.ticked, hspec.pending, List.nil_append, ← List.append_assoc,
      ← List.append_assoc]
    exact hsnapshot.symm.append_right _

/-- A call other than a nudge dispatches nothing. -/
theorem Outcome.conserved {w w' : World} {c c' : Connection} {call : ApiCall}
    {code : Option HeReturnCode} (h : Outcome w call w' code) (hcall : ∀ i, call ≠ .nudge i)
    (hc : w.connection = some c) (hc' : w'.connection = some c') : Conserved w c w' c' := by
  -- the call works on the connection the client holds
  have hown {c₀ : Connection} (h₀ : w.connection = some c₀) : c₀ = c :=
    Option.some.inj (h₀.symm.trans hc)
  cases h with
  | rejected _ n code _ =>
    obtain rfl := hown hc'
    exact ((TickDelta.refl w c').conserved).of_trace (e := []) (List.append_nil _).symm rfl rfl
  | notDue reply n =>
    obtain rfl := hown hc'
    exact (TickDelta.refl w c').conserved
  | connectFailed i code h₀ | connected i h₀ | disconnectedIdle reply h₀ =>
    exact absurd (h₀.symm.trans hc) nofun
  | disconnected reply h₀ h => simp at hc'
  | killed reply code h₀ h => simp at hc'
  | kept _ code _ h₀ h =>
    obtain rfl := hown h₀
    obtain rfl := Option.some.inj hc'
    obtain ⟨delta, hdelta⟩ := tickDelta_of_coreSteps h
    exact hdelta.conserved.of_trace (e := []) (List.append_nil _).symm rfl rfl
  | rotated reply n code h₀ h =>
    obtain rfl := hown h₀
    obtain rfl := Option.some.inj hc'
    obtain ⟨delta, hdelta⟩ := tickDelta_of_coreSteps h
    exact hdelta.conserved.of_trace (e := []) (List.append_nil _).symm rfl rfl
  | nudged i => exact absurd rfl (hcall i)

/-- One call on a connection that survives it. -/
theorem step_conserved {w : World} {c c' : Connection} {call : ApiCall}
    (hc : w.connection = some c) (hret : call.Returns env w)
    (hc' : (call.step env w).connection = some c') : Conserved w c (call.step env w) c' := by
  rw [step_toHeClient] at hc'
  by_cases hcall : ∃ i, call = .nudge i
  · obtain ⟨i, rfl⟩ := hcall
    obtain ⟨delta, hspec⟩ := @heConnNudge_spec env w c i hc
    exact (hspec.conserved hret hc').of_trace rfl rfl rfl
  · rw [step_of_ne_nudge (not_exists.1 hcall)]
    exact (body_outcome w call).conserved (not_exists.1 hcall) hc hc'

/-- One call that returns and leaves the connection alive. -/
def Surviving (env : Env) (w w' : World) : Prop :=
  ∃ call : ApiCall, call.Returns env w ∧ call.step env w = w' ∧ w'.connection ≠ none

theorem run_conserved {w w' : World} {c : Connection} (hc : w.connection = some c)
    (h : ReflTransGen (Surviving env) w w') :
    ∃ c', w'.connection = some c' ∧ Conserved w c w' c' := by
  induction h with
  | refl => exact ⟨c, hc, (TickDelta.refl w c).conserved⟩
  | tail _ hstep ih =>
    obtain ⟨c₁, hc₁, hcons⟩ := ih
    obtain ⟨call, hret, rfl, hlive⟩ := hstep
    obtain ⟨c', hc'⟩ := Option.ne_none_iff_exists'.1 hlive
    exact ⟨c', hc', hcons.trans (step_conserved hc₁ hret hc')⟩

theorem completeConnect_trace (w : World) (c : Connection) :
    ∃ e, (completeConnect w c).trace = w.trace ++ e ∧ scheduledTicks e = [] ∧
      tickedTicks e = [] := by
  unfold completeConnect
  dsimp only
  split
  · exact ⟨_, List.append_assoc .., rfl, rfl⟩
  · exact ⟨_, rfl, rfl, rfl⟩

/-- A new connection starts with the ticks the core schedules while it connects. -/
theorem Outcome.connect_conserved {w w' : World} {c : Connection} {i : ConnectInput}
    {code : Option HeReturnCode} (h : Outcome w (.connect i) w' code) (hc : w.connection = none)
    (hc' : w'.connection = some c) : Conserved w (freshConnection w.toHeClient) w' c := by
  have hopened : Conserved w (freshConnection w.toHeClient) (w.log .opened)
      (freshConnection w.toHeClient) :=
    (TickDelta.refl w _).conserved.of_trace rfl rfl rfl
  cases h with
  | rejected _ n code _ => exact absurd (hc.symm.trans hc') nofun
  | connectFailed _ code _ _ h =>
    exact absurd (((frame_of_coreSteps h).connection.trans hc).symm.trans hc') nofun
  | connected _ _ h =>
    rw [completeConnect_connection] at hc'
    obtain rfl := Option.some.inj hc'
    obtain ⟨delta, hdelta⟩ := tickDelta_of_coreSteps h
    obtain ⟨e, he, hs, hk⟩ := completeConnect_trace _ _
    exact (hopened.trans hdelta.conserved).of_trace he hs hk
  | kept _ code hcall => exact absurd rfl (hcall i)

/-- **No tick is lost, duplicated, retyped or invented.** The account `NudgeSpec` holds of every
nudge on a live connection, whatever the core does in it. Consequently, from the call that makes a
connection and as long as it lives, the payload ticks that were scheduled are, as a multiset, those
that were dispatched together with those that are pending. -/
theorem tick_conservation (env : Env) :
    (∀ (w : World) (c : Connection) (i : NudgeInput), w.connection = some c →
      ∃ delta, NudgeSpec w c i (heConnNudge env w i) delta) ∧
    (∀ (w₀ w : World) (c : Connection) (i : ConnectInput), w₀.connection = none →
      ((ApiCall.connect i).step env w₀).connection ≠ none →
      ReflTransGen (Surviving env) ((ApiCall.connect i).step env w₀) w →
      w.connection = some c →
        ∃ delta, w.trace = w₀.trace ++ delta ∧
          scheduledTicks delta ~ tickedTicks delta ++ c.appState.pendingTicks) := by
  refine ⟨fun w c i hc => heConnNudge_spec w c i hc, ?_⟩
  intro w₀ w c i hc₀ hlive hrun hc
  obtain ⟨c₁, hc₁⟩ := Option.ne_none_iff_exists'.1 hlive
  have hconnect := (@body_outcome env w₀ (.connect i)).connect_conserved hc₀ hc₁
  obtain ⟨c', hc', hcons⟩ := run_conserved hc₁ hrun
  obtain rfl := Option.some.inj (hc'.symm.trans hc)
  exact hconnect.trans hcons

/-- Connecting schedules a connection tick and two payload ticks, one of them far off. -/
def retransmittingConnect : ConnectInput :=
  sampleConnect [.scheduleTick 0 1000000 .connectionTick,
    .scheduleTick 0 2000000 (.expresslaneKeyShareTick 7),
    .scheduleTick 0 9000000000 (.pktCodecTick 1)]

def retransmittingWorld : World :=
  (ApiCall.connect retransmittingConnect).step sampleEnv sampleWorld

/-- A nudge after both earlier deadlines: each tick schedules its successor. -/
def retransmittingNudge : NudgeInput :=
  sampleNudge 3000000 [.scheduleTick 0 1000000000 .connectionTick]
    fun _ => [.scheduleTick 0 500000000 (.expresslaneKeyShareTick 8)]

/-- The nudge dispatches the key-share tick and keeps the other payload tick and the successor. -/
theorem tick_conservation_retransmittingNudge :
    (∃ delta, NudgeSpec retransmittingWorld (retransmittingWorld.connection.get (by decide))
      retransmittingNudge (heConnNudge sampleEnv retransmittingWorld retransmittingNudge) delta) ∧
    tickedTicks ((ApiCall.nudge retransmittingNudge).step sampleEnv retransmittingWorld).trace =
      [⟨2000000, .expresslaneKeyShareTick 7, by decide⟩] ∧
    ∃ delta, ((ApiCall.nudge retransmittingNudge).step sampleEnv retransmittingWorld).trace =
        sampleWorld.trace ++ delta ∧
      scheduledTicks delta ~ tickedTicks delta ++
        (((ApiCall.nudge retransmittingNudge).step sampleEnv retransmittingWorld).connection.get
          (by decide)).appState.pendingTicks := by
  obtain ⟨hnudge, hrun⟩ := tick_conservation sampleEnv
  refine ⟨hnudge _ _ _ (Option.some_get _).symm, by decide, ?_⟩
  refine hrun sampleWorld _ _ retransmittingConnect rfl (by decide) (.single ?_)
    (Option.some_get _).symm
  exact ⟨.nudge retransmittingNudge, by decide, rfl, by decide⟩

end LightwayCffi.Client
