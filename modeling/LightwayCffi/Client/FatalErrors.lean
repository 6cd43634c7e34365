import LightwayCffi.Client.Teardown

/-!
# Fatal errors

A fatal error of the core means that the connection is dead. Four entry paths meet such errors: the
wire, the tunnel side, the connection tick, and the payload ticks. Each of them has to drop the
connection, to say so in its return code, and to make sure that the host hears of
`HE_STATE_DISCONNECTED` once, whether the core has reported it or not.

`Life` is what the trace says about the current connection: the states it has reported, those from
before it was handed out apart, and what the host has heard. `Reporting` ties it to the client along
every run of a host that uses the client in any way, setters included. The one assumption about the
core is that a connection reports nothing after `Disconnected` (`ReportOk`).

`fatalError_buries_iff` says which fatal errors are handled: those of every path but the tunnel
side, `he_conn_inside_packet_received`, which returns an error and keeps the dead connection.
-/

namespace LightwayCffi.Client

open Relation (ReflTransGen)
open History (Always always_nil always_concat)

variable {env : Env}

/-! ## The life of a connection -/

/-- What a trace says about the current connection: the states that the core reported while it was
being made and those since, and what the host has heard of it. -/
structure Life where
  early : List State
  late : Option (List State)
  heard : List HeConnState

namespace Life

/-- Everything the core has reported. -/
def reported (life : Life) : List State := life.early ++ life.late.getD []

/-- How an entry of the trace changes it. -/
def observe (life : Life) (e : Entry) : Life :=
  match e.action with
  | .opened => ⟨[], none, []⟩
  | .established => { life with late := some [] }
  | .fired s _ =>
    match life.late with
    | none => ⟨life.early ++ [s], none, life.heard ++ e.delivered.toList⟩
    | some late => ⟨life.early, some (late ++ [s]), life.heard ++ e.delivered.toList⟩
  | _ => { life with heard := life.heard ++ e.delivered.toList }

end Life

/-- The life of the current connection after a trace. -/
def life (trace : List Entry) : Life := trace.foldl Life.observe ⟨[], none, []⟩

@[simp]
theorem life_concat (trace : List Entry) (e : Entry) :
    life (trace ++ [e]) = (life trace).observe e :=
  List.foldl_concat ..

/-- The core reports nothing of a connection after `Disconnected`. -/
def ReportOk (past : List Entry) (e : Entry) : Prop :=
  match e.action with
  | .fired _ _ => .disconnected ∉ (life past).reported
  | _ => True

instance (past : List Entry) (e : Entry) : Decidable (ReportOk past e) := by
  unfold ReportOk
  split <;> infer_instance

/-- The same on a list of states. -/
def EndsDisconnected (states : List State) : Prop :=
  Always (fun past _ => State.disconnected ∉ past) states

theorem EndsDisconnected.count_le_one {states : List State} (h : EndsDisconnected states) :
    states.count .disconnected ≤ 1 := by
  induction states using List.reverseRecOn with
  | nil => exact Nat.zero_le 1
  | append_singleton states s ih =>
    obtain ⟨hstates, hs⟩ := always_concat.1 h
    rw [List.count_append, List.count_eq_zero.2 hs, Nat.zero_add]
    exact List.count_le_length

/-- Nothing follows `Disconnected`, so it can only be the last state. -/
theorem EndsDisconnected.getLast? {states : List State} (h : EndsDisconnected states)
    (hmem : .disconnected ∈ states) : states.getLast? = some .disconnected := by
  induction states using List.reverseRecOn with
  | nil => exact absurd hmem List.not_mem_nil
  | append_singleton states s ih =>
    have hs := (always_concat.1 h).2
    rcases List.mem_append.1 hmem with hmem | hmem
    · exact absurd hmem hs
    · rw [List.mem_singleton.1 hmem, List.getLast?_concat]

/-- What is shown after the reports `late` is `HE_STATE_DISCONNECTED` if and only if one of them is
`Disconnected`. -/
theorem EndsDisconnected.shown_iff {early late : List State}
    (h : EndsDisconnected (early ++ late)) :
    (late.getLast?.map rustStateToC).getD .connecting = .disconnected ↔ .disconnected ∈ late := by
  constructor
  · intro hlast
    cases hget : late.getLast? with
    | none =>
      rw [hget] at hlast
      cases hlast
    | some s =>
      rw [hget] at hlast
      cases s <;> cases hlast
      exact List.mem_of_getLast? hget
  · intro hmem
    have hlast := h.getLast? (List.mem_append_right _ hmem)
    rw [List.getLast?_append, Option.or_of_isSome] at hlast
    · rw [hlast]
      rfl
    · exact List.getLast?_isSome.2 (List.ne_nil_of_mem hmem)

theorem Action.Silent.observe {a : Action} (ha : a.Silent) (life : Life) (state : HeConnState) :
    life.observe ⟨a, state⟩ = life := by
  have hheard : life.heard ++ (⟨a, state⟩ : Entry).delivered.toList = life.heard := by
    rw [ha.delivered]
    exact List.append_nil _
  cases a with
  | fired s b => exact absurd rfl (ha.1 s b)
  | announced s b => exact absurd rfl (ha.2.1 s b)
  | opened => exact absurd rfl ha.2.2.1
  | established => exact absurd rfl ha.2.2.2
  | _ => rw [Life.observe, hheard]

theorem life_log (w : World) {a : Action} (ha : a.Silent) :
    life (w.log a).trace = life w.trace := by
  rw [World.log_trace, life_concat, ha.observe]

theorem life_schedule (w : World) (app : CffiAppState) (deadline : ℕ) (tick : TickType) :
    life (w.schedule app deadline tick).trace = life w.trace :=
  schedule_of_silent (P := fun w' => life w'.trace = life w.trace)
    (fun ha hw => (life_log _ ha).trans hw) rfl app deadline tick

/-- In a trace of an orderly core, `Disconnected` is the last report. -/
theorem endsDisconnected_of_reportOk {trace : List Entry} (h : Always ReportOk trace) :
    EndsDisconnected (life trace).reported := by
  induction trace using List.reverseRecOn with
  | nil => exact always_nil
  | append_singleton trace e ih =>
    obtain ⟨htrace, he⟩ := always_concat.1 h
    have hends := ih htrace
    rw [life_concat, Life.observe]
    split
    · exact always_nil
    · rw [Life.reported] at hends ⊢
      rw [Option.getD_some, List.append_nil]
      exact hends.of_append
    · rename_i s b haction
      rw [ReportOk, haction] at he
      have hnew : EndsDisconnected ((life trace).reported ++ [s]) := always_concat.2 ⟨hends, he⟩
      cases hlate : (life trace).late with
      | none => simpa [Life.reported, hlate] using hnew
      | some late => simpa [Life.reported, hlate] using hnew
    · exact hends

/-- An event of the core is one more report, early or late. -/
theorem reported_event (w : World) (b : Bool) (s : State) :
    (life (w.event b s).trace).reported = (life w.trace).reported ++ [s] := by
  rw [World.event_trace, life_concat, Life.observe]
  dsimp only
  cases hlate : (life w.trace).late with
  | none => simp [Life.reported, hlate]
  | some late => simp [Life.reported, hlate]

theorem count_concat_rustStateToC (heard : List HeConnState) (states : List State) (s : State)
    (h : heard.count .disconnected = states.count .disconnected) :
    (heard ++ [rustStateToC s]).count .disconnected = (states ++ [s]).count .disconnected := by
  rw [List.count_append, List.count_append, h]
  cases s <;> rfl

/-! ## The invariant -/

/-- A connection and what the trace says of it: a connection that was made with a callback belongs
to a client that has one; the host has heard of every `Disconnected` that such a connection has
reported, and of none from a connection without; and once it has been handed out, the client shows
what it has reported last. -/
structure Reporting (w : World) (c : Connection) : Prop where
  callback : c.stateChangeCb = true → w.sslCtx.stateChangeCb = true
  heard : (life w.trace).heard.count .disconnected =
    if c.stateChangeCb then (life w.trace).reported.count .disconnected else 0
  making : w.connection = none → (life w.trace).late = none
  made : w.connection ≠ none → ∃ late, (life w.trace).late = some late ∧
    w.conn.state = (late.getLast?.map rustStateToC).getD .connecting

/-- A change that is not recorded. -/
theorem Reporting.of_eq {w w' : World} {c c' : Connection} (h : Reporting w c)
    (hlife : life w'.trace = life w.trace) (hstate : w'.conn.state = w.conn.state)
    (hconn : w'.connection = none ↔ w.connection = none)
    (hcb : w.sslCtx.stateChangeCb = true → w'.sslCtx.stateChangeCb = true)
    (hc : c'.stateChangeCb = c.stateChangeCb) : Reporting w' c' where
  callback h' := hcb (h.callback (hc ▸ h'))
  heard := by
    rw [hlife, hc]
    exact h.heard
  making h' := by
    rw [hlife]
    exact h.making (hconn.1 h')
  made h' := by
    rw [hlife, hstate]
    exact h.made fun hnone => h' (hconn.2 hnone)

theorem Reporting.event {w : World} {c : Connection} (h : Reporting w c) (s : State) :
    Reporting (w.event c.stateChangeCb s) c where
  callback := h.callback
  heard := by
    have hheard : (life (w.event c.stateChangeCb s).trace).heard =
        (life w.trace).heard ++ if c.stateChangeCb then [rustStateToC s] else [] := by
      rw [World.event_trace, life_concat, Life.observe]
      dsimp only
      cases (life w.trace).late <;> cases c.stateChangeCb <;> rfl
    have hcount := h.heard
    rw [reported_event, hheard]
    cases hcb : c.stateChangeCb with
    | true =>
      rw [hcb] at hcount
      exact count_concat_rustStateToC _ _ s hcount
    | false =>
      rw [hcb] at hcount
      rw [if_neg Bool.false_ne_true, if_neg Bool.false_ne_true, List.append_nil]
      exact hcount
  making hnone := by
    rw [World.event_trace, life_concat, Life.observe]
    dsimp only
    rw [h.making hnone]
  made hsome := by
    obtain ⟨late, hlate, -⟩ := h.made hsome
    refine ⟨late ++ [s], ?_, ?_⟩
    · rw [World.event_trace, life_concat, Life.observe]
      dsimp only
      rw [hlate]
    · rw [List.getLast?_concat]
      rfl

theorem NudgeStep.reporting {s t : World × Connection} (h : NudgeStep s t)
    (hs : Reporting s.1 s.2) : Reporting t.1 t.2 := by
  have hsilent {w : World} {c c' : Connection} {a : Action} (hrep : Reporting w c) (ha : a.Silent)
      (hc : c'.stateChangeCb = c.stateChangeCb) : Reporting (w.log a) c' :=
    hrep.of_eq (life_log w ha) rfl Iff.rfl id hc
  cases h with
  | core h =>
    cases h with
    | elapse w c n => exact hs.of_eq rfl rfl Iff.rfl id rfl
    | schedule w c d tick =>
      refine hs.of_eq (life_schedule _ _ _ _) ?_ ?_ ?_ rfl
      all_goals simp
    | event w c s => exact hs.event s
    | settle w c s interval => exact hs.of_eq rfl rfl Iff.rfl id rfl
  | tickConnection w c t hnext hdue => exact hsilent hs silent_tickedConnection rfl
  | take w c => exact hsilent hs (silent_taken _) rfl
  | tickPayload w c p => exact hsilent hs (silent_tickedPayload p) rfl

/-- A new connection has reported nothing late, and the client shows it as connecting. -/
theorem Reporting.completeConnect {w : World} {c : Connection} (h : Reporting w c)
    (hc : w.connection = none) : Reporting (completeConnect w c) c := by
  have hlate := h.making hc
  have hlife : life ((w.put c).log .established).trace = { life w.trace with late := some [] } :=
    life_concat _ _
  have hreported :
      (life ((w.put c).log .established).trace).reported = (life w.trace).reported := by
    rw [hlife, Life.reported, Life.reported, hlate]
    rfl
  have hheard : (life ((w.put c).log .established).trace).heard.count .disconnected =
      if c.stateChangeCb then
        (life ((w.put c).log .established).trace).reported.count .disconnected
      else 0 := by
    rw [hreported, hlife]
    exact h.heard
  unfold Client.completeConnect
  dsimp only
  split
  · -- the announcement is not a disconnect
    have hann : life (((w.put c).log .established).announce .connecting).trace =
        { life ((w.put c).log .established).trace with
          heard := (life ((w.put c).log .established).trace).heard ++
            (if w.sslCtx.stateChangeCb then [.connecting] else []) } := by
      rw [World.announce_trace, life_concat, Life.observe]
      cases hcb : w.sslCtx.stateChangeCb <;> simp [Entry.delivered, hcb, World.put, World.log]
    have hnone : (if w.sslCtx.stateChangeCb then [HeConnState.connecting] else []).count
        .disconnected = 0 := by
      split <;> rfl
    refine ⟨h.callback, ?_, nofun, fun _ => ⟨[], ?_, rfl⟩⟩
    · rw [hann]
      dsimp only
      rw [List.count_append, hnone]
      exact hheard
    · rw [hann, hlife]
  · rename_i hstate
    refine ⟨h.callback, hheard, nofun, fun _ => ⟨[], by rw [hlife], ?_⟩⟩
    exact not_not.1 hstate

theorem reporting_stable : Stable (fun _ => True) Reporting where
  world _ := trivial
  advance _ := trivial
  opened {w} _ hc := by
    have hlife : life (w.log .opened).trace = ⟨[], none, []⟩ := life_concat _ _
    refine ⟨id, ?_, fun _ => ?_, fun hsome => absurd hc hsome⟩
    · rw [hlife]
      split <;> rfl
    · rw [hlife]
  core hstep h := (NudgeStep.core hstep).reporting h
  put hc h := h.of_eq rfl rfl ⟨nofun, fun hnone => absurd hnone hc⟩ id rfl
  refreshed h := h.of_eq rfl rfl Iff.rfl id rfl
  connected hc h := h.completeConnect hc
  killed _ := trivial
  disconnected _ := trivial

theorem run_reporting {w₀ w : World} (hnew : w₀.connection = none)
    (hrun : ReflTransGen (Using env) w₀ w) : Between (fun _ => True) Reporting w := by
  induction hrun with
  | refl => exact between_of_none trivial hnew
  | @tail w₁ _ _ hstep ih =>
    cases hstep with
    | set setting =>
      refine ⟨trivial, fun c hc => ?_⟩
      have hframe := setting.frame w₁.toHeClient
      have hlive := ih.live c (hframe.connection.symm.trans hc)
      exact hlive.of_eq rfl hframe.state (by rw [← hframe.connection]; rfl) hframe.stateChangeCb rfl
    | call call =>
      refine reporting_stable.step NudgeStep.reporting ?_ call ih
      intro w t n hinv
      refine ⟨trivial, fun c hc => ?_⟩
      exact (hinv.live c hc).of_eq (life_log w (silent_polled t n)) rfl Iff.rfl id rfl

/-! ## The teardown -/

/-- The reports that mislead the shim about what the host has heard. From a connection with a
callback they are the early ones: the host has heard of them, and then the shim announced
`HE_STATE_CONNECTING`. From a connection without, the late ones: the client shows them, and the host
has heard nothing. -/
def Life.misleading (life : Life) (stateChangeCb : Bool) : List State :=
  if stateChangeCb then life.early else life.late.getD []

/-- **A dead connection is dropped**, and a registered host has heard of its end once if and only if
no report of it misled the shim. -/
theorem fatalDisconnect_reported {w : World} {c : Connection} (h : Reporting w c)
    (hc : w.connection ≠ none) (hok : Always ReportOk w.trace) :
    (fatalDisconnect w).conn.state = .disconnected ∧
      (w.sslCtx.stateChangeCb = true →
        ((life (fatalDisconnect w).trace).heard.count .disconnected = 1 ↔
          .disconnected ∉ (life w.trace).misleading c.stateChangeCb)) := by
  obtain ⟨late, hlate, hstate⟩ := h.made hc
  have hreported : (life w.trace).reported = (life w.trace).early ++ late := by
    rw [Life.reported, hlate]
    rfl
  have hends : EndsDisconnected ((life w.trace).early ++ late) :=
    hreported ▸ endsDisconnected_of_reportOk hok
  have hle := hends.count_le_one
  rw [List.count_append] at hle
  have hshown : w.conn.state = .disconnected ↔ .disconnected ∈ late := by
    rw [hstate]
    exact hends.shown_iff
  -- what the host has heard so far, and what it must not have heard, counted in both lists
  have hheard := h.heard
  rw [hreported, List.count_append] at hheard
  rw [Life.misleading, hlate, Option.getD_some, ← List.count_eq_zero]
  unfold fatalDisconnect
  split
  · rename_i hdisconnected
    refine ⟨hdisconnected, fun _ => ?_⟩
    have hpos := List.count_pos_iff.2 (hshown.1 hdisconnected)
    rw [World.drop_trace, hheard]
    cases c.stateChangeCb with
    | true =>
      simp only [if_true]
      omega
    | false =>
      simp only [Bool.false_eq_true, if_false]
      omega
  · rename_i hdisconnected
    refine ⟨rfl, fun hcb => ?_⟩
    have hannounced : (life (w.announce .disconnected).trace).heard =
        (life w.trace).heard ++ [.disconnected] := by
      rw [World.announce_trace, life_concat, hcb]
      rfl
    have hnone : late.count .disconnected = 0 :=
      List.count_eq_zero.2 fun hmem => hdisconnected (hshown.2 hmem)
    rw [World.drop_trace, hannounced, List.count_append, List.count_singleton_self, hheard, hnone]
    cases c.stateChangeCb with
    | true =>
      simp only [if_true]
      omega
    | false => exact iff_of_true rfl hnone

/-- What a teardown adds to the trace comes after everything else. -/
theorem fatalDisconnect_trace_append (w : World) :
    ∃ entries, (fatalDisconnect w).trace = w.trace ++ entries := by
  unfold fatalDisconnect
  split
  · exact ⟨[], (List.append_nil _).symm⟩
  · exact ⟨_, World.announce_trace w _⟩

/-! ## What the core answers -/

/-- The states that the core reports in a call. -/
def CoreReply.reports (reply : CoreReply) : List State := reply.calls.filterMap CoreCall.reported

/-- The error that a call into the core returns. -/
def CoreReply.error (reply : CoreReply) : Option ConnectionError :=
  match reply.result with
  | .err e => some e
  | _ => none

section Answers

variable (env)

/-- The answers of the core to the payload ticks that a dispatch hands out. Here and below an answer
is a reply with the result that the shim gets to see: a callback may have panicked. -/
def dispatchAnswers (connectionType : ConnectionType) (w : World) (c : Connection) :
    List PendingTick → (ℕ → CoreReply) → List CoreReply
  | [], _ => []
  | tick :: due, reply =>
    match coreCall env (w.log (.tickedPayload tick)) c (reply 0) with
    | (_, _, .panic) => [{ reply 0 with result := .panic }]
    | (w, c, .ok) => reply 0 :: dispatchAnswers connectionType w c due fun k => reply (k + 1)
    | (w, c, .err error) =>
      if env.isFatal error connectionType then [reply 0]
      else reply 0 :: dispatchAnswers connectionType w c due fun k => reply (k + 1)

/-- The answers to the payload ticks of a nudge. -/
def payloadAnswers (w : World) (c : Connection) (i : NudgeInput) : List CoreReply :=
  let w := w.advance i.payloadElapsed
  let (due, remaining) := c.appState.pendingTicks.partition fun p => p.deadline ≤ w.now
  dispatchAnswers env c.connectionType (w.log (.taken w.now))
    { c with appState.pendingTicks := remaining } due i.payloadTick

/-- The answers to the ticks of a nudge in which the connection tick is due. -/
def connectionTickAnswers (w : World) (c : Connection) (i : NudgeInput) : List CoreReply :=
  match coreCall env (w.log .tickedConnection) { c with appState.nextTick := none }
      i.connectionTick with
  | (_, _, .panic) => [{ i.connectionTick with result := .panic }]
  | (w, c, .ok) => i.connectionTick :: payloadAnswers env w c i
  | (_, _, .err _) => [i.connectionTick]

/-- The answers of the core to the calls whose errors the shim classifies. -/
def answers (w : World) (c : Connection) : ApiCall → List CoreReply
  | .outsideDataReceived reply | .insidePacketReceived reply =>
    [{ reply with result := (coreCall env w c reply).2.2 }]
  | .nudge i =>
    let w := w.advance i.connectionTickElapsed
    if c.appState.nextTick.any fun t => t ≤ w.now then connectionTickAnswers env w c i
    else payloadAnswers env w c i
  | _ => []

end Answers

/-- One of the answers is a fatal error. -/
def HasFatal (env : Env) (connectionType : ConnectionType) (answers : List CoreReply) : Prop :=
  ∃ e ∈ answers.filterMap CoreReply.error, env.isFatal e connectionType = true

theorem hasFatal_nil {ct : ConnectionType} : ¬ HasFatal env ct [] := by
  rintro ⟨e, he, -⟩
  exact absurd he List.not_mem_nil

theorem hasFatal_cons_of_err {ct : ConnectionType} {reply : CoreReply} {replies : List CoreReply}
    {e : ConnectionError} (he : reply.result = .err e) :
    HasFatal env ct (reply :: replies) ↔ env.isFatal e ct = true ∨ HasFatal env ct replies := by
  have herror : reply.error = some e := by
    unfold CoreReply.error
    rw [he]
  unfold HasFatal
  rw [List.filterMap_cons_some herror]
  simp only [List.mem_cons, exists_eq_or_imp]

theorem hasFatal_cons_of_ne_err {ct : ConnectionType} {reply : CoreReply}
    {replies : List CoreReply} (he : ∀ e, reply.result ≠ .err e) :
    HasFatal env ct (reply :: replies) ↔ HasFatal env ct replies := by
  have herror : reply.error = none := by
    unfold CoreReply.error
    split
    · exact absurd ‹_› (he _)
    · rfl
  unfold HasFatal
  rw [List.filterMap_cons_none herror]

theorem hasFatal_singleton_of_err {ct : ConnectionType} {reply : CoreReply} {e : ConnectionError}
    (he : reply.result = .err e) : HasFatal env ct [reply] ↔ env.isFatal e ct = true :=
  (hasFatal_cons_of_err he).trans (or_iff_left hasFatal_nil)

theorem not_hasFatal_singleton {ct : ConnectionType} {reply : CoreReply}
    (he : ∀ e, reply.result ≠ .err e) : ¬ HasFatal env ct [reply] :=
  (hasFatal_cons_of_ne_err he).not.2 hasFatal_nil

/-- From `w` to `w'` the connection, which had been handed out before, has reported these states. -/
def Grown (w w' : World) (states : List State) : Prop :=
  (life w.trace).late ≠ none →
    (life w'.trace).early = (life w.trace).early ∧
      (life w'.trace).late = (life w.trace).late.map (· ++ states)

theorem Grown.of_eq {w w' : World} (h : life w'.trace = life w.trace) : Grown w w' [] := by
  intro _
  rw [h]
  simp

theorem Grown.trans {w w₁ w' : World} {states states' : List State} (h : Grown w w₁ states)
    (h' : Grown w₁ w' states') : Grown w w' (states ++ states') := by
  intro hlate
  obtain ⟨hearly₁, hlate₁⟩ := h hlate
  have hmade : (life w₁.trace).late ≠ none := by
    rw [hlate₁]
    simpa using hlate
  obtain ⟨hearly', hlate'⟩ := h' hmade
  refine ⟨hearly'.trans hearly₁, ?_⟩
  rw [hlate', hlate₁, Option.map_map]
  congr 1
  funext late
  exact List.append_assoc _ _ _

theorem Grown.event (w : World) (b : Bool) (s : State) : Grown w (w.event b s) [s] := by
  intro hmade
  rw [World.event_trace, life_concat, Life.observe]
  dsimp only
  cases hlate : (life w.trace).late with
  | none => exact absurd hlate hmade
  | some late => exact ⟨rfl, rfl⟩

theorem runCall_grown {w w' : World} {c c' : Connection} {call : CoreCall} {panicked : Bool}
    (h : runCall env w c call = (w', c', panicked)) : Grown w w' call.reported.toList := by
  cases call with
  | scheduleTick elapsed d tick =>
    unfold runCall scheduleTick at h
    dsimp only at h
    split at h
    · obtain ⟨rfl, -, -⟩ := h
      exact .of_eq rfl
    · rename_i app timeout happ
      obtain ⟨rfl, rfl⟩ := cffiScheduleTickCb_eq_some happ
      obtain ⟨rfl, -, -⟩ := h
      exact .of_eq (life_schedule (w.advance elapsed) c.appState _ tick)
  | stateChanged s =>
    obtain ⟨rfl, -, -⟩ := h
    exact .event w _ s

theorem runCalls_grown {w w' : World} {c c' : Connection} {calls : List CoreCall}
    (h : runCalls env w c calls = (w', c', false)) :
    Grown w w' (calls.filterMap CoreCall.reported) := by
  induction calls generalizing w c with
  | nil =>
    obtain ⟨rfl, -, -⟩ := h
    exact .of_eq rfl
  | cons call calls ih =>
    unfold runCalls at h
    split at h
    · obtain ⟨-, -, h⟩ := h
    · rename_i hcall
      have hgrown := (runCall_grown hcall).trans (ih h)
      cases hreport : call.reported with
      | none =>
        rw [hreport] at hgrown
        rw [List.filterMap_cons_none hreport]
        exact hgrown
      | some s =>
        rw [hreport] at hgrown
        rw [List.filterMap_cons_some hreport]
        exact hgrown

/-- A call into the core that did not panic has made all its reports. -/
theorem coreCall_grown {w w' : World} {c c' : Connection} {reply : CoreReply} {r : CoreResult}
    (h : coreCall env w c reply = (w', c', r)) (hr : r ≠ .panic) : Grown w w' reply.reports := by
  unfold coreCall at h
  split at h
  rename_i w₁ c₁ panicked hcalls
  obtain ⟨rfl, -, rfl⟩ := h
  cases panicked with
  | true => exact absurd rfl hr
  | false => exact runCalls_grown hcalls

theorem coreCall_connectionType {w w' : World} {c c' : Connection} {reply : CoreReply}
    {r : CoreResult} (h : coreCall env w c reply = (w', c', r)) :
    c'.connectionType = c.connectionType := by
  apply preserved_of_steps (P := fun _ c' => c'.connectionType = c.connectionType) ?_
    (coreCall_steps h) rfl
  intro s t hstep hs
  cases hstep <;> exact hs

/-! ## How the entry points handle errors -/

theorem Dispatching.answers_eq {ct : ConnectionType} {due : List PendingTick} {w w' : World}
    {c c' : Connection} {reply : ℕ → CoreReply} {answers : List CoreReply} {r : Dispatched}
    (h : Dispatching env ct w c due reply answers w' c' r) :
    answers = dispatchAnswers env ct w c due reply := by
  induction h with
  | done => rfl
  | panicked hcall => simp only [dispatchAnswers, hcall]
  | fatal hcall hfatal =>
    simp only [dispatchAnswers, hcall]
    rw [if_pos hfatal]
  | @next _ _ _ _ _ _ _ _ _ r₁ _ _ hcall hr₁ hbenign _ ih =>
    rw [ih]
    cases r₁ with
    | panic => exact absurd rfl hr₁
    | ok => simp only [dispatchAnswers, hcall]
    | err error =>
      simp only [dispatchAnswers, hcall]
      rw [if_neg (hbenign error rfl)]

theorem dispatching {ct : ConnectionType} {due : List PendingTick} {w w' : World}
    {c c' : Connection} {reply : ℕ → CoreReply} {r : Dispatched}
    (h : dispatch env ct w c due reply = (w', c', r)) :
    Dispatching env ct w c due reply (dispatchAnswers env ct w c due reply) w' c' r := by
  obtain ⟨answers, h⟩ := dispatching_of_dispatch h
  exact h.answers_eq ▸ h

/-- An answer that does not stop the loop is not fatal. -/
theorem hasFatal_cons_of_benign {ct : ConnectionType} {w w₁ : World} {c c₁ : Connection}
    {reply : CoreReply} {replies : List CoreReply} {r : CoreResult}
    (hcall : coreCall env w c reply = (w₁, c₁, r)) (hr : r ≠ .panic)
    (hbenign : ∀ error, r = .err error → ¬ env.isFatal error ct = true) :
    HasFatal env ct (reply :: replies) ↔ HasFatal env ct replies := by
  have hresult := coreCall_result hcall hr
  cases r with
  | panic => exact absurd rfl hr
  | ok => exact hasFatal_cons_of_ne_err (by simp [hresult])
  | err error => rw [hasFatal_cons_of_err hresult, or_iff_right (hbenign error rfl)]

/-- A dispatch stops at a fatal error if and only if there is one. -/
theorem Dispatching.hasFatal_iff {ct : ConnectionType} {due : List PendingTick} {w w' : World}
    {c c' : Connection} {reply : ℕ → CoreReply} {answers : List CoreReply} {r : Dispatched}
    (h : Dispatching env ct w c due reply answers w' c' r) :
    HasFatal env ct answers ↔ ∃ e, r = .fatal e := by
  induction h with
  | done => exact iff_of_false hasFatal_nil (by simp)
  | panicked => exact iff_of_false (not_hasFatal_singleton (by simp)) (by simp)
  | fatal hcall hfatal =>
    have herr := coreCall_result hcall (by simp)
    exact iff_of_true ((hasFatal_singleton_of_err herr).2 hfatal) ⟨_, rfl⟩
  | next hcall hr hbenign _ ih => exact (hasFatal_cons_of_benign hcall hr hbenign).trans ih

/-- A dispatch that does not panic has made all the reports of its ticks. -/
theorem Dispatching.grown {ct : ConnectionType} {due : List PendingTick} {w w' : World}
    {c c' : Connection} {reply : ℕ → CoreReply} {answers : List CoreReply} {r : Dispatched}
    (h : Dispatching env ct w c due reply answers w' c' r) (hr : r ≠ .panicked) :
    Grown w w' (answers.flatMap CoreReply.reports) := by
  have htick {w w₁ : World} {c c₁ : Connection} {tick : PendingTick} {reply : CoreReply}
      {r₁ : CoreResult} (hcall : coreCall env (w.log (.tickedPayload tick)) c reply = (w₁, c₁, r₁))
      (hr₁ : r₁ ≠ .panic) : Grown w w₁ reply.reports :=
    (Grown.of_eq (life_log w (silent_tickedPayload tick))).trans (coreCall_grown hcall hr₁)
  induction h with
  | done => exact .of_eq rfl
  | panicked => exact absurd rfl hr
  | fatal hcall =>
    rw [List.flatMap_singleton]
    exact htick hcall (by simp)
  | next hcall hr₁ _ _ ih => exact (htick hcall hr₁).trans (ih hr)

/-- How a call ends that the core has given these answers: the connection stays, or there was a
fatal error and the connection is torn down. -/
inductive ErrorExit (env : Env) (w : World) (c : Connection) (answers : List CoreReply) :
    World × Option HeReturnCode → Prop where
  | kept {w' : World} {code : Option HeReturnCode}
      (hfatal : ¬ HasFatal env c.connectionType answers) (hc : w'.connection ≠ none) :
      ErrorExit env w c answers (w', code)
  | torn {w₁ w' : World} {c' : Connection} {code : HeReturnCode}
      (hfatal : HasFatal env c.connectionType answers)
      (hsteps : ReflTransGen NudgeStep (w, c) (w₁, c'))
      (hgrown : Grown w w₁ (answers.flatMap CoreReply.reports)) (hcode : code ≠ .success)
      (hw : w' = w₁.put c' ∨ w' = (w₁.put c').setNudgeTime 0) :
      ErrorExit env w c answers (fatalDisconnect w', some code)

/-- Something that the core has no part in happens before. -/
theorem ErrorExit.of_step {w w₁ : World} {c c₁ : Connection} {answers : List CoreReply}
    {r : World × Option HeReturnCode} (hstep : NudgeStep (w, c) (w₁, c₁))
    (hlife : life w₁.trace = life w.trace) (htype : c₁.connectionType = c.connectionType)
    (h : ErrorExit env w₁ c₁ answers r) : ErrorExit env w c answers r := by
  cases h with
  | kept hfatal hc => exact .kept (htype ▸ hfatal) hc
  | torn hfatal hsteps hgrown hcode hw =>
    exact .torn (htype ▸ hfatal) (.head hstep hsteps) ((Grown.of_eq hlife).trans hgrown) hcode hw

/-- The core is called with success before. -/
theorem ErrorExit.of_coreCall {w w₁ : World} {c c₁ : Connection} {reply : CoreReply}
    {answers : List CoreReply} {r : World × Option HeReturnCode}
    (hcall : coreCall env w c reply = (w₁, c₁, .ok)) (h : ErrorExit env w₁ c₁ answers r) :
    ErrorExit env w c (reply :: answers) r := by
  have htype := coreCall_connectionType hcall
  have hok : reply.result = .ok := coreCall_result hcall nofun
  have hiff : HasFatal env c.connectionType (reply :: answers) ↔
      HasFatal env c₁.connectionType answers := by
    rw [htype]
    exact hasFatal_cons_of_ne_err (by simp [hok])
  cases h with
  | kept hfatal hc => exact .kept (hiff.not.2 hfatal) hc
  | torn hfatal hsteps hgrown hcode hw =>
    exact .torn (hiff.2 hfatal) ((nudgeSteps_of_coreSteps (coreCall_steps hcall)).trans hsteps)
      ((coreCall_grown hcall nofun).trans hgrown) hcode hw

theorem handleConnectionTickError_code (w : World) (error : ConnectionError)
    (ct : ConnectionType) : (handleConnectionTickError env w error ct).2 ≠ .success := by
  unfold handleConnectionTickError
  split
  · simp
  · split <;> simp

theorem nudgePayload_errorExit (w : World) (c : Connection) (i : NudgeInput) :
    ErrorExit env w c (payloadAnswers env w c i) (nudgePayload env w c i) := by
  unfold nudgePayload payloadAnswers
  simp only [partition_due]
  refine .of_step (.core (.elapse w c i.payloadElapsed)) rfl rfl ?_
  refine .of_step (.take (w.advance i.payloadElapsed) c)
    (life_log _ (silent_taken _)) rfl ?_
  split
  · rename_i hdispatch
    exact .kept ((dispatching hdispatch).hasFatal_iff.not.2 (by simp)) nofun
  · rename_i error hdispatch
    have hrun := dispatching hdispatch
    rw [handleConnectionTickError_of_isFatal (dispatch_fatal hdispatch)]
    exact .torn (hrun.hasFatal_iff.2 ⟨error, rfl⟩) (dispatch_steps hdispatch) (hrun.grown (by simp))
      (handleConnectionTickError_code _ _ _) (.inr rfl)
  · rename_i hdispatch
    exact .kept ((dispatching hdispatch).hasFatal_iff.not.2 (by simp)) nofun

/-- A fatal error arms no retry. -/
theorem retryConnectionTickAfterError_of_isFatal {w : World} {c : Connection}
    {error : ConnectionError} {ct : ConnectionType} {retryDelay elapsed : ℕ}
    (h : env.isFatal error ct = true) :
    retryConnectionTickAfterError env w c error ct retryDelay elapsed = (w, c, false) := by
  unfold retryConnectionTickAfterError
  simp [h]

/-- Provided that a timeout is fatal, an error that is not leaves the client alone. -/
theorem handleConnectionTickError_of_not_isFatal {w : World} {error : ConnectionError}
    {ct : ConnectionType} (htimedOut : env.isFatal .timedOut ct = true)
    (h : ¬ env.isFatal error ct = true) :
    handleConnectionTickError env w error ct = (w, .errFailed) := by
  have hne : error ≠ .timedOut := by
    rintro rfl
    exact h htimedOut
  unfold handleConnectionTickError
  rw [if_neg hne, if_neg h]

/-- Connecting a connected client changes nothing. -/
theorem connect_stored {w w' : World} {c : Connection} {i : ConnectInput}
    {code : Option HeReturnCode} (h : Outcome w (.connect i) w' code)
    (hc : w.connection = some c) : w'.connection ≠ none := by
  have hstored : w.connection ≠ none := Option.ne_none_iff_exists'.2 ⟨c, hc⟩
  cases h with
  | rejected => exact hstored
  | connectFailed _ _ hc' => exact absurd hc' hstored
  | connected _ hc' => exact absurd hc' hstored
  | kept => exact nofun

theorem inside_stored {w w' : World} {c : Connection} {reply : CoreReply}
    {code : Option HeReturnCode} (h : Outcome w (.insidePacketReceived reply) w' code)
    (hc : w.connection = some c) : w'.connection ≠ none := by
  cases h with
  | rejected => exact Option.ne_none_iff_exists'.2 ⟨c, hc⟩
  | kept => exact nofun

/-- A rotation keeps the connection, whatever the core says. -/
theorem rotate_stored {w w' : World} {c : Connection} {reply : CoreReply} {n : ℕ}
    {code : Option HeReturnCode} (h : Outcome w (.expresslaneRotateIfDue reply n) w' code)
    (hc : w.connection = some c) : w'.connection ≠ none := by
  have hstored : w.connection ≠ none := Option.ne_none_iff_exists'.2 ⟨c, hc⟩
  cases h with
  | rejected => exact hstored
  | notDue => exact hstored
  | kept => exact nofun
  | rotated => exact nofun

section Exits

variable (htimedOut : ∀ ct, env.isFatal .timedOut ct = true)
include htimedOut

theorem nudgeConnectionTick_errorExit (w : World) (c : Connection) (i : NudgeInput) {t : ℕ}
    (hnext : c.appState.nextTick = some t) (hdue : t ≤ w.now) :
    ErrorExit env w c (connectionTickAnswers env w c i) (nudgeConnectionTick env w c i) := by
  refine .of_step (.tickConnection w c t hnext hdue)
    (life_log w silent_tickedConnection) rfl ?_
  rcases hcall : coreCall env (w.log .tickedConnection) { c with appState.nextTick := none }
    i.connectionTick with ⟨w₁, c₁, r₁⟩
  cases r₁ with
  | panic =>
    simp only [nudgeConnectionTick, connectionTickAnswers, hcall]
    exact .kept (not_hasFatal_singleton (by simp)) nofun
  | ok =>
    simp only [nudgeConnectionTick, connectionTickAnswers, hcall]
    exact .of_coreCall hcall (nudgePayload_errorExit _ _ i)
  | err error =>
    have herr : i.connectionTick.result = .err error := coreCall_result hcall nofun
    have hiff : HasFatal env c.connectionType [i.connectionTick] ↔
        env.isFatal error c.connectionType = true := hasFatal_singleton_of_err herr
    simp only [nudgeConnectionTick, connectionTickAnswers, hcall]
    by_cases hfatal : env.isFatal error c.connectionType = true
    · rw [retryConnectionTickAfterError_of_isFatal hfatal]
      dsimp only
      rw [handleConnectionTickError_of_isFatal hfatal]
      -- the refreshed timer is cleared again
      have hsteps := (nudgeSteps_of_coreSteps (coreCall_steps hcall)).tail
        (.core (.elapse _ _ i.timeoutElapsed))
      have hgrown := coreCall_grown hcall nofun
      refine .torn (hiff.2 hfatal) hsteps ?_ (handleConnectionTickError_code _ _ _) (.inr rfl)
      rw [List.flatMap_singleton]
      exact hgrown
    · split
      · exact .kept (hiff.not.2 hfatal) nofun
      · rw [handleConnectionTickError_of_not_isFatal (htimedOut _) hfatal]
        exact .kept (hiff.not.2 hfatal) nofun

theorem heConnNudge_errorExit {w : World} {c : Connection} (i : NudgeInput)
    (hc : w.connection = some c) :
    ErrorExit env w c (answers env w c (.nudge i)) (heConnNudge env w i) := by
  refine .of_step (.core (.elapse w c i.connectionTickElapsed)) rfl rfl ?_
  unfold heConnNudge answers
  simp only [World.advance_toHeClient, hc]
  split
  · rename_i hdue
    obtain ⟨t, hnext, ht⟩ := (Option.any_eq_true _ _).1 hdue
    exact nudgeConnectionTick_errorExit htimedOut _ c i hnext (of_decide_eq_true ht)
  · exact nudgePayload_errorExit _ c i

omit htimedOut in
theorem heConnOutsideDataReceived_errorExit {w : World} {c : Connection} (reply : CoreReply)
    (hc : w.connection = some c) :
    ErrorExit env w c (answers env w c (.outsideDataReceived reply))
      (heConnOutsideDataReceived env w reply) := by
  rcases hcall : coreCall env w c reply with ⟨w₁, c₁, r₁⟩
  cases r₁ with
  | panic =>
    simp only [heConnOutsideDataReceived, answers, hc, hcall]
    exact .kept (not_hasFatal_singleton (by simp)) nofun
  | ok =>
    simp only [heConnOutsideDataReceived, answers, hc, hcall]
    exact .kept (not_hasFatal_singleton (by simp)) nofun
  | err error =>
    simp only [heConnOutsideDataReceived, answers, hc, hcall]
    by_cases hfatal : env.isFatal error c.connectionType = true
    · rw [if_pos hfatal]
      have hgrown := coreCall_grown hcall nofun
      refine .torn ((hasFatal_singleton_of_err rfl).2 hfatal)
        (nudgeSteps_of_coreSteps (coreCall_steps hcall)) ?_ nofun (.inl rfl)
      rw [List.flatMap_singleton]
      exact hgrown
    · rw [if_neg hfatal]
      exact .kept ((hasFatal_singleton_of_err rfl).not.2 hfatal) nofun

/-- **Every call but two** tears the connection down at a fatal error, and only then: a disconnect
drops it anyway, and the tunnel side does not look. -/
theorem body_errorExit {w : World} {c : Connection} {call : ApiCall} (hc : w.connection = some c)
    (hdisconnect : ∀ reply, call ≠ .disconnect reply)
    (hinside : ∀ reply, call ≠ .insidePacketReceived reply) :
    ErrorExit env w c (answers env w c call) (call.body env w) := by
  cases call with
  | connect i => exact .kept hasFatal_nil (connect_stored (body_outcome w _) hc)
  | disconnect reply => exact absurd rfl (hdisconnect reply)
  | outsideDataReceived reply => exact heConnOutsideDataReceived_errorExit reply hc
  | insidePacketReceived reply => exact absurd rfl (hinside reply)
  | nudge i => exact heConnNudge_errorExit htimedOut i hc
  | expresslaneRotateIfDue reply n => exact .kept hasFatal_nil (rotate_stored (body_outcome w _) hc)

end Exits

/-! ## Which errors are handled -/

/-- What a fatal error should lead to: no connection is left, the client shows the end, the call
fails, and a registered host has heard of the end once. -/
structure Buried (env : Env) (w : World) (call : ApiCall) : Prop where
  connection : (call.step env w).connection = none
  state : (call.step env w).conn.state = .disconnected
  code : call.code env w ≠ .success
  heard : w.sslCtx.stateChangeCb = true →
    (life (call.step env w).trace).heard.count .disconnected = 1

/-- More late reports. -/
def Life.extend (life : Life) (states : List State) : Life :=
  { life with late := life.late.map (· ++ states) }

theorem Grown.misleading {w w' : World} {states : List State} (h : Grown w w' states)
    (hmade : (life w.trace).late ≠ none) (stateChangeCb : Bool) :
    (life w'.trace).misleading stateChangeCb =
      ((life w.trace).extend states).misleading stateChangeCb := by
  obtain ⟨hearly, hlate⟩ := h hmade
  unfold Life.misleading
  rw [hearly, hlate]
  rfl

/-- Reading the timer after a nudge is the only thing that a call adds to its body. -/
theorem step_trace_append (w : World) (call : ApiCall) :
    life (call.step env w).trace = life (call.body env w).1.trace ∧
      ∃ entries, (call.step env w).trace = (call.body env w).1.trace ++ entries := by
  cases call with
  | nudge i => exact ⟨life_log _ (silent_polled _ _), _, rfl⟩
  | _ => exact ⟨rfl, [], (List.append_nil _).symm⟩

/-- A call that ends in a teardown buries the connection if no report misled the shim. -/
theorem ErrorExit.buried_iff {w : World} {c : Connection} {call : ApiCall}
    (hexit : ErrorExit env w c (answers env w c call) (call.body env w))
    (hfatal : HasFatal env c.connectionType (answers env w c call)) (hc : w.connection = some c)
    (hreporting : Reporting w c) (hok : Always ReportOk (call.step env w).trace) :
    Buried env w call ↔ (w.sslCtx.stateChangeCb = true → .disconnected ∉
      ((life w.trace).extend ((answers env w c call).flatMap CoreReply.reports)).misleading
        c.stateChangeCb) := by
  obtain ⟨hlife, entries, htrace⟩ := @step_trace_append env w call
  have hclient := @step_toHeClient env w call
  generalize hbody : call.body env w = r at hexit
  cases hexit with
  | kept hno => exact absurd hfatal hno
  | @torn w₁ w' c' code _ hsteps hgrown hcode hw =>
    rw [hbody] at hlife htrace hclient
    have hframe := frame_of_nudgeSteps hsteps
    have hstored : w₁.connection ≠ none := by
      rw [hframe.connection, hc]
      exact nofun
    have hreporting₁ : Reporting w₁ c' := preserved_of_steps NudgeStep.reporting hsteps hreporting
    have hput := reporting_stable.put hstored hreporting₁
    obtain ⟨hsame, hctx, hreporting', hstored'⟩ : w'.trace = w₁.trace ∧ w'.sslCtx = w₁.sslCtx ∧
        Reporting w' c' ∧ w'.connection ≠ none := by
      rcases hw with rfl | rfl
      · exact ⟨rfl, rfl, hput, nofun⟩
      · exact ⟨rfl, rfl, reporting_stable.refreshed hput, nofun⟩
    obtain ⟨entries', htrace'⟩ := fatalDisconnect_trace_append w'
    have hok' : Always ReportOk w'.trace := by
      rw [htrace, htrace', List.append_assoc] at hok
      exact hok.of_append
    obtain ⟨hstate, hheard⟩ := fatalDisconnect_reported hreporting' hstored' hok'
    have hmade : (life w.trace).late ≠ none := by
      obtain ⟨late, hlate, -⟩ := hreporting.made (Option.ne_none_iff_exists'.2 ⟨c, hc⟩)
      rw [hlate]
      exact nofun
    rw [hctx, hframe.sslCtx, hsame, hframe.stateChangeCb, hgrown.misleading hmade] at hheard
    constructor
    · rintro ⟨-, -, -, honce⟩ hcb
      refine (hheard hcb).1 ?_
      rw [← hlife]
      exact honce hcb
    · intro hnone
      refine ⟨?_, ?_, ?_, fun hcb => ?_⟩
      · rw [hclient]
        exact fatalDisconnect_connection w'
      · rw [hclient]
        exact hstate
      · rw [ApiCall.code, hbody]
        exact hcode
      · rw [hlife]
        exact (hheard hcb).2 (hnone hcb)

/-- **Which fatal errors are handled.** In every client that a host can come to have, with any
settings and any history, a fatal error of the core leaves no dead connection behind if and only if
it was not met on the tunnel side; and there the host of a registered callback hears of the end
exactly once unless a report of the core misled the shim: one from before the connection was handed
out, or one of a connection made before the callback was registered. An error that is not fatal
never costs the connection. -/
theorem fatalError_buries_iff {w₀ w : World} {c : Connection} {call : ApiCall}
    (htimedOut : ∀ ct, env.isFatal .timedOut ct = true) (hnew : w₀.connection = none)
    (hrun : ReflTransGen (Using env) w₀ w) (hc : w.connection = some c)
    (hok : Always ReportOk (call.step env w).trace) :
    (∀ e ∈ (answers env w c call).filterMap CoreReply.error,
      env.isFatal e c.connectionType = true →
        (Buried env w call ↔ (∀ reply, call ≠ .insidePacketReceived reply) ∧
          (w.sslCtx.stateChangeCb = true → .disconnected ∉
            ((life w.trace).extend ((answers env w c call).flatMap CoreReply.reports)).misleading
              c.stateChangeCb))) ∧
    ((∀ e ∈ (answers env w c call).filterMap CoreReply.error,
      env.isFatal e c.connectionType = false) →
        (∀ reply, call ≠ .disconnect reply) → (call.step env w).connection ≠ none) := by
  have hreporting := (run_reporting hnew hrun).live c hc
  by_cases hinside : ∃ reply, call = .insidePacketReceived reply
  · -- the tunnel side keeps the connection whatever the error
    obtain ⟨reply, rfl⟩ := hinside
    have hkept : ((ApiCall.insidePacketReceived reply).step env w).connection ≠ none :=
      inside_stored (body_outcome w _) hc
    refine ⟨fun e _ _ => iff_of_false (fun hburied => ?_) fun h => h.1 reply rfl, fun _ _ => hkept⟩
    exact hkept hburied.connection
  · have hpath := not_exists.1 hinside
    refine ⟨fun e he hfatal => ?_, fun hnone hdisconnect => ?_⟩
    · have hdisconnect (reply : CoreReply) : call ≠ .disconnect reply := by
        rintro rfl
        exact absurd he List.not_mem_nil
      have hexit := body_errorExit htimedOut hc hdisconnect hpath
      rw [hexit.buried_iff ⟨e, he, hfatal⟩ hc hreporting hok, and_iff_right hpath]
    · have hexit := body_errorExit htimedOut hc hdisconnect hpath
      rw [step_toHeClient]
      generalize call.body env w = r at hexit
      cases hexit with
      | kept _ hstored => exact hstored
      | torn hfatal =>
        obtain ⟨e, he, hfatal⟩ := hfatal
        rw [hnone e he] at hfatal
        cases hfatal

/-- A core for which every error but `InvalidState` is fatal. -/
def strictEnv : Env where
  instantMax := 2 ^ 63
  isFatal error _ := error ≠ .invalidState

/-- A client with a callback, connected. -/
def connectedWorld : World := (ApiCall.connect (sampleConnect [])).step strictEnv sampleWorld

def connectedConnection : Connection :=
  { freshConnection sampleWorld.toHeClient with tickInterval := some 1000000000 }

/-- The connection dies: the core reports it and returns an error. -/
def dyingReply : CoreReply where
  calls := [.stateChanged .disconnected]
  result := .err (.other 0)
  state := .disconnected
  tickInterval := none

/-- A fatal error on the tunnel side: the core has reported the end of the connection and the host
has heard of it, and still the client keeps the connection that has died. -/
theorem fatalError_inside_kept :
    sampleWorld.connection = none ∧ ReflTransGen (Using strictEnv) sampleWorld connectedWorld ∧
    connectedWorld.connection = some connectedConnection ∧
    .other 0 ∈ (answers strictEnv connectedWorld connectedConnection
      (.insidePacketReceived dyingReply)).filterMap CoreReply.error ∧
    strictEnv.isFatal (.other 0) connectedConnection.connectionType = true ∧
    Always ReportOk
      ((ApiCall.insidePacketReceived dyingReply).step strictEnv connectedWorld).trace ∧
    ((ApiCall.insidePacketReceived dyingReply).step strictEnv connectedWorld).connection =
      some { connectedConnection with state := .disconnected, tickInterval := none } := by
  refine ⟨rfl, .single (.call _ _), ?_⟩
  decide

/-- The same error on the wire. -/
theorem fatalError_buries_iff_outside :
    ReflTransGen (Using strictEnv) sampleWorld connectedWorld ∧
    connectedWorld.connection = some connectedConnection ∧
    Always ReportOk
      ((ApiCall.outsideDataReceived dyingReply).step strictEnv connectedWorld).trace ∧
    Buried strictEnv connectedWorld (.outsideDataReceived dyingReply) := by
  have hrun : ReflTransGen (Using strictEnv) sampleWorld connectedWorld := .single (.call _ _)
  have hc : connectedWorld.connection = some connectedConnection := by decide
  have hok : Always ReportOk
      ((ApiCall.outsideDataReceived dyingReply).step strictEnv connectedWorld).trace := by
    decide
  have htimedOut (ct : ConnectionType) : strictEnv.isFatal .timedOut ct = true := by
    cases ct <;> rfl
  refine ⟨hrun, hc, hok, ?_⟩
  obtain ⟨hfatal, -⟩ := fatalError_buries_iff htimedOut rfl hrun hc hok
  exact (hfatal (.other 0) (by decide) (by decide)).2 ⟨by simp, by decide⟩

end LightwayCffi.Client
