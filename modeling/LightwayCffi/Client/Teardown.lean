import LightwayCffi.Client.Callbacks

/-!
# Tearing a connection down

`he_client_disconnect` lets the core say goodbye, completes the transitions the core did not report
itself, and drops the connection. Whether the core did report them is read off `conn.state`: both
`HE_STATE_DISCONNECTING` and `HE_STATE_DISCONNECTED` count as done. A goodbye that reports
`Disconnecting` and then fails therefore leaves the client without a connection in
`HE_STATE_DISCONNECTING`, and the host waits for an `HE_STATE_DISCONNECTED` that never comes
(`teardown_stuck_disconnecting`); `fatal_disconnect`, which asks for `HE_STATE_DISCONNECTED` alone,
does not have the gap.

The host may register another `state_change_cb` at any time. The shim calls the one that is
registered, but the events of a connection go to the one that was registered when the connection was
made (`Callbacks`), and a state that counts as done is announced to nobody.

`teardown_iff` says when the teardown is complete and announced, in every state that a host can
bring a new client to with setters and calls: exactly if the core's goodbye does not leave the
client disconnecting, and a callback that the shim does not call has heard of the end before or
hears of it from the connection. In a run whose goodbyes do not leave the client disconnecting, a
client without a connection is in one of its two resting states. As everywhere, the core is assumed
to report nothing while it connects.
-/

namespace LightwayCffi.Client

open Relation (ReflTransGen)

variable {env : Env}

/-! ## The state after a call into the core -/

/-- The state a callback of the core reports. -/
def CoreCall.reported : CoreCall → Option State
  | .stateChanged s => some s
  | .scheduleTick _ _ _ => none

/-- The state the host reads after these callbacks. -/
def stateAfter (calls : List CoreCall) (before : HeConnState) : HeConnState :=
  ((calls.filterMap CoreCall.reported).getLast?.map rustStateToC).getD before

theorem stateAfter_cons (call : CoreCall) (calls : List CoreCall) (before : HeConnState) :
    stateAfter (call :: calls) before =
      stateAfter calls ((call.reported.map rustStateToC).getD before) := by
  unfold stateAfter
  cases call with
  | scheduleTick elapsed d tick => rfl
  | stateChanged s =>
    have hcons : (CoreCall.stateChanged s :: calls).filterMap CoreCall.reported =
        s :: calls.filterMap CoreCall.reported := rfl
    rw [hcons, List.getLast?_cons]
    cases (calls.filterMap CoreCall.reported).getLast? <;> rfl

/-- One callback writes the state it reports and no other. -/
theorem runCall_state {w w' : World} {c c' : Connection} {call : CoreCall} {panicked : Bool}
    (h : runCall env w c call = (w', c', panicked)) :
    w'.conn.state = (call.reported.map rustStateToC).getD w.conn.state := by
  cases call with
  | stateChanged s =>
    obtain ⟨rfl, -, -⟩ := h
    rfl
  | scheduleTick elapsed d tick =>
    have h' : scheduleTick env w c elapsed d tick = (w', c', panicked) := h
    unfold scheduleTick at h'
    dsimp only at h'
    split at h'
    · obtain ⟨rfl, -, -⟩ := h'
      rfl
    · rename_i timeout _
      obtain ⟨rfl, -, -⟩ := h'
      cases timeout <;> rfl

/-- The callbacks that were made, all of them unless one panicked, determine the state. -/
theorem runCalls_state {w w' : World} {c c' : Connection} {calls : List CoreCall}
    {panicked : Bool} (h : runCalls env w c calls = (w', c', panicked)) :
    ∃ made, made <+: calls ∧ (panicked = false → made = calls) ∧
      w'.conn.state = stateAfter made w.conn.state := by
  induction calls generalizing w c with
  | nil =>
    obtain ⟨rfl, -, -⟩ := h
    exact ⟨[], List.prefix_rfl, fun _ => rfl, rfl⟩
  | cons call calls ih =>
    unfold runCalls at h
    split at h
    · rename_i hcall
      obtain ⟨rfl, -, rfl⟩ := h
      refine ⟨[call], ?_, nofun, ?_⟩
      · exact ⟨calls, rfl⟩
      · rw [stateAfter_cons]
        exact runCall_state hcall
    · rename_i hcall
      obtain ⟨made, ⟨rest, hrest⟩, hall, hstate⟩ := ih h
      refine ⟨call :: made, ⟨rest, congrArg (call :: ·) hrest⟩, ?_, ?_⟩
      · exact fun hp => congrArg (call :: ·) (hall hp)
      · rw [stateAfter_cons, ← runCall_state hcall]
        exact hstate

theorem coreCall_state {w w' : World} {c c' : Connection} {reply : CoreReply} {r : CoreResult}
    (h : coreCall env w c reply = (w', c', r)) (hr : r ≠ .panic) :
    w'.conn.state = stateAfter reply.calls w.conn.state := by
  unfold coreCall at h
  split at h
  rename_i w₁ c₁ panicked hcalls
  obtain ⟨rfl, -, rfl⟩ := h
  obtain ⟨made, -, hall, hstate⟩ := runCalls_state hcalls
  cases panicked with
  | true => exact absurd rfl hr
  | false => rw [hstate, hall rfl]

/-- The core reports nothing during the call. -/
def CoreReply.Silent (reply : CoreReply) : Prop :=
  ∀ s, CoreCall.stateChanged s ∉ reply.calls

theorem coreCall_state_of_silent {w w' : World} {c c' : Connection} {reply : CoreReply}
    {r : CoreResult} (h : coreCall env w c reply = (w', c', r)) (hsilent : reply.Silent) :
    w'.conn.state = w.conn.state := by
  unfold coreCall at h
  split at h
  rename_i w₁ c₁ panicked hcalls
  obtain ⟨rfl, -, -⟩ := h
  obtain ⟨made, hmade, -, hstate⟩ := runCalls_state hcalls
  have hnone : made.filterMap CoreCall.reported = [] := by
    refine List.filterMap_eq_nil_iff.2 fun call hcall => ?_
    cases call with
    | scheduleTick elapsed d tick => rfl
    | stateChanged s => exact absurd (hmade.subset hcall) (hsilent s)
  rw [hstate]
  unfold stateAfter
  rw [hnone]
  rfl

/-! ## Disconnecting -/

/-- The state after the core's goodbye, or as it is if there is no connection to say goodbye on. -/
def stateAfterGoodbye (w : World) (reply : CoreReply) : HeConnState :=
  match w.connection with
  | none => w.conn.state
  | some _ => stateAfter reply.calls w.conn.state

/-- The shim completes the transitions unless it takes them for complete already. -/
theorem completeDisconnect_state (w : World) :
    (completeDisconnect w).conn.state = .disconnected ↔ w.conn.state ≠ .disconnecting := by
  unfold completeDisconnect
  dsimp only
  split
  · rename_i h
    rcases h with h | h <;> simp [h]
  · rename_i h
    exact iff_of_true rfl fun h' => h (.inl h')

theorem clientDisconnectLocked_state {w : World} {reply : CoreReply}
    (hret : (clientDisconnectLocked env w reply).2 ≠ none) :
    (clientDisconnectLocked env w reply).1.connection = none ∧
      ((clientDisconnectLocked env w reply).1.conn.state = .disconnected ↔
        stateAfterGoodbye w reply ≠ .disconnecting) := by
  unfold stateAfterGoodbye
  unfold clientDisconnectLocked at hret ⊢
  cases hc : w.connection with
  | none => exact ⟨completeDisconnect_connection w, completeDisconnect_state w⟩
  | some c =>
    simp only [hc] at hret ⊢
    rcases hcall : coreCall env w c reply with ⟨w', c', r⟩
    rw [hcall] at hret
    cases r with
    | panic => exact absurd rfl hret
    | ok =>
      rw [← coreCall_state hcall nofun]
      exact ⟨completeDisconnect_connection _, completeDisconnect_state (w'.put c')⟩
    | err error =>
      rw [← coreCall_state hcall nofun]
      exact ⟨completeDisconnect_connection _, completeDisconnect_state (w'.put c')⟩

/-! ## Calls -/

/-- The calls after which a client without a connection is at rest: connecting, with a core that
reports nothing yet; disconnecting, unless the core's goodbye leaves the client disconnecting; and
every other call. -/
def Completes (w : World) : ApiCall → Prop
  | .connect i => i.connect.Silent
  | .disconnect reply => stateAfterGoodbye w reply ≠ .disconnecting
  | _ => True

/-- Without a connection the client is new or disconnected. -/
def AtRest (w : World) : Prop :=
  w.connection = none → w.conn.state = .none ∨ w.conn.state = .disconnected

theorem atRest_of_some {w : World} {c : Connection} (hc : w.connection = some c) : AtRest w :=
  fun hnone => absurd (hnone.symm.trans hc) nofun

theorem atRest_fatalDisconnect (w : World) : AtRest (fatalDisconnect w) := by
  intro _
  unfold fatalDisconnect
  split
  · rename_i h
    exact .inr h
  · exact .inr rfl

theorem connect_atRest {w : World} {i : ConnectInput} (hrest : AtRest w)
    (hsilent : i.connect.Silent) : AtRest (clientConnectLocked env w i).1 := by
  unfold clientConnectLocked
  split
  · exact hrest
  · -- if the core fails, the state is the one before
    have hsame {w' c' r} (hcall : coreCall env (w.log .opened) (freshConnection w.toHeClient)
        i.connect = (w', c', r)) : AtRest w' := by
      intro hnone
      rw [(frame_of_coreSteps (coreCall_steps hcall)).connection] at hnone
      rw [coreCall_state_of_silent hcall hsilent]
      exact hrest hnone
    split
    · rename_i hcall
      exact hsame hcall
    · rename_i hcall
      exact hsame hcall
    · exact atRest_of_some (completeConnect_connection _ _)

theorem disconnect_atRest {w : World} {reply : CoreReply}
    (hdone : stateAfterGoodbye w reply ≠ .disconnecting) :
    AtRest (clientDisconnectLocked env w reply).1 := by
  by_cases hret : (clientDisconnectLocked env w reply).2 = none
  · -- a panic in the goodbye leaves the connection in place
    unfold clientDisconnectLocked at hret ⊢
    cases hc : w.connection with
    | none => simp [hc] at hret
    | some c =>
      simp only [hc] at hret ⊢
      rcases hcall : coreCall env w c reply with ⟨w', c', r⟩
      rw [hcall] at hret
      cases r with
      | panic => exact atRest_of_some rfl
      | ok => exact absurd hret nofun
      | err error => exact absurd hret nofun
  · exact fun _ => .inr ((clientDisconnectLocked_state hret).2.2 hdone)

theorem NudgeExit.atRest {w w' : World} {c : Connection} {code : Option HeReturnCode}
    (h : NudgeExit w c w' code) : AtRest w' := by
  cases h with
  | refreshed n code h => exact atRest_of_some rfl
  | killed code h => exact atRest_fatalDisconnect _
  | panicked h => exact atRest_of_some rfl

/-- The other calls drop a connection only by announcing its death. -/
theorem Outcome.atRest {w w' : World} {call : ApiCall} {code : Option HeReturnCode}
    (h : Outcome w call w' code) (hconnect : ∀ i, call ≠ .connect i)
    (hdisconnect : ∀ reply, call ≠ .disconnect reply) (hrest : AtRest w) : AtRest w' := by
  cases h with
  | rejected _ n code _ => exact hrest
  | notDue reply n => exact hrest
  | connectFailed i | connected i => exact absurd rfl (hconnect i)
  | disconnectedIdle reply | disconnected reply => exact absurd rfl (hdisconnect reply)
  | kept _ code _ hc h => exact atRest_of_some rfl
  | killed reply code hc h => exact atRest_fatalDisconnect _
  | rotated reply n code hc h => exact atRest_of_some rfl
  | nudged i code hc h => exact h.atRest

theorem step_atRest {w : World} {call : ApiCall} (hrest : AtRest w) (hdone : Completes w call) :
    AtRest (call.step env w) := by
  have hout := @body_outcome env w call
  cases call with
  | connect i => exact connect_atRest hrest hdone
  | disconnect reply => exact disconnect_atRest hdone
  | _ => exact hout.atRest (fun _ h => nomatch h) (fun _ h => nomatch h) hrest

/-! ## When a teardown is complete -/

/-- The teardown is complete and has been announced. -/
structure TornDown (h : Hosted) : Prop where
  connection : h.world.connection = none
  state : h.world.conn.state = .disconnected
  announced : ∀ cb, h.host.registered = some cb → h.host.lastCall cb = some .disconnected

/-- If the shim takes the teardown for complete, the registered callback has heard of it: it is the
one that the connection was made with, or it was called with `HE_STATE_DISCONNECTED` last. -/
def Informed (h : Hosted) (reply : CoreReply) : Prop :=
  ∀ cb, h.host.registered = some cb → stateAfterGoodbye h.world reply = .disconnected →
    (h.world.connection ≠ none ∧ h.host.captured = some cb) ∨
      h.host.lastCall cb = some .disconnected

section Goodbye

variable {host : Host} {n : ℕ} {w w' : World} {c c' : Connection}

/-- While the core is running, only the callback of the connection is called. -/
theorem Sees.coreSteps {cb : ℕ} {captured : Option ℕ} {last : Option HeConnState}
    (hsteps : ReflTransGen CoreStep (w, c) (w', c'))
    (h : Sees host n w fun host => host.captured = captured ∧
      (captured ≠ some cb → host.lastCall cb = last)) :
    Sees host n w' fun host => host.captured = captured ∧
      (captured ≠ some cb → host.lastCall cb = last) := by
  refine preserved_of_steps (P := fun w _ => Sees host n w fun host => host.captured = captured ∧
    (captured ≠ some cb → host.lastCall cb = last)) (fun hstep h => ?_) hsteps h
  cases hstep with
  | elapse w c m => exact h.imp rfl fun _ h => h
  | settle w c s interval => exact h
  | schedule w c d tick =>
    refine schedule_of_silent (P := fun w => Sees host n w fun host => host.captured = captured ∧
      (captured ≠ some cb → host.lastCall cb = last)) (fun ha hw => ?_) h c.appState _ tick
    exact hw.concat rfl fun host h => by rwa [Host.observe_of_silent host ha]
  | event w c s =>
    refine h.concat rfl fun host h => ⟨h.1, fun hother => ?_⟩
    refine (host.lastCall_hear _ _ cb).trans ((if_neg ?_).trans (h.2 hother))
    rw [h.1]
    exact hother

/-- The shim announces the end unless it takes the teardown for complete. -/
theorem Sees.completeDisconnect {cb : ℕ} (h : Sees host n w fun host => host.registered = some cb) :
    (host.after n (completeDisconnect w)).lastCall cb = some .disconnected ↔
      (w.conn.state = .disconnecting ∨ w.conn.state = .disconnected →
        (host.after n w).lastCall cb = some .disconnected) := by
  unfold Client.completeDisconnect
  dsimp only
  split
  · rename_i hdone
    exact ⟨fun hlast _ => hlast, fun hlast => hlast hdone⟩
  · rename_i hdone
    refine iff_of_true ?_ fun h => absurd h hdone
    have hann : Sees host n (w.announce .disconnecting) fun host => host.registered = some cb :=
      h.concat rfl fun _ h => h
    have hlast : Sees host n ((w.announce .disconnecting).announce .disconnected)
        fun host => host.lastCall cb = some .disconnected :=
      hann.concat rfl fun host h => (host.lastCall_hear _ _ cb).trans (if_pos h)
    exact hlast.holds

end Goodbye

/-- What the registered callback has heard when the goodbye is over and the shim completes the
teardown. -/
structure Goodbye (h : Hosted) (reply : CoreReply) (cb : ℕ) (w : World) : Prop where
  state : w.conn.state = stateAfterGoodbye h.world reply
  sees : Sees h.host h.world.trace.length w fun host => host.registered = some cb
  lastCall : w.conn.state = .disconnected →
    ((h.host.after h.world.trace.length w).lastCall cb = some .disconnected ↔
      (h.world.connection ≠ none ∧ h.host.captured = some cb) ∨
        h.host.lastCall cb = some .disconnected)

theorem goodbye_of_none {h : Hosted} {reply : CoreReply} {cb : ℕ} (hc : h.world.connection = none)
    (hcb : h.host.registered = some cb) : Goodbye h reply cb h.world where
  state := by
    unfold stateAfterGoodbye
    rw [hc]
  sees := ⟨le_rfl, by rw [after_self, hcb]⟩
  lastCall _ := by
    rw [after_self, hc]
    simp

theorem goodbye_of_some {h : Hosted} {reply : CoreReply} {cb : ℕ} {w' : World} {c c' : Connection}
    {r : CoreResult} (hinv : Between h.host.Matches h.host.Follows h.world)
    (hc : h.world.connection = some c) (hcb : h.host.registered = some cb)
    (hcall : coreCall env h.world c reply = (w', c', r)) (hr : r ≠ .panic) :
    Goodbye h reply cb (w'.put c') := by
  have hsteps := coreCall_steps hcall
  have hsome : w'.connection ≠ none := by
    rw [(frame_of_coreSteps hsteps).connection, hc]
    nofun
  have hfollows : Sees h.host h.world.trace.length w' fun host => host.Follows w' c' :=
    (follows_stable h.host _).coreSteps hsteps ⟨le_rfl, by rw [after_self]; exact hinv.live c hc⟩
  have hlast : Sees h.host h.world.trace.length w' fun host =>
      host.captured = h.host.captured ∧
        (h.host.captured ≠ some cb → host.lastCall cb = h.host.lastCall cb) :=
    Sees.coreSteps hsteps ⟨le_rfl, by rw [after_self]; exact ⟨rfl, fun _ => rfl⟩⟩
  refine ⟨?_, ?_, fun hended => ?_⟩
  · unfold stateAfterGoodbye
    rw [hc]
    change w'.conn.state = _
    exact coreCall_state hcall hr
  · exact ⟨hfollows.length, (h.host.after_registered _ _).trans hcb⟩
  · by_cases hcaptured : h.host.captured = some cb
    · refine iff_of_true ?_ (.inl ⟨by rw [hc]; nofun, hcaptured⟩)
      exact hfollows.holds.ended hsome hended cb (hlast.holds.1.trans hcaptured)
    · have hother : (h.host.after h.world.trace.length (w'.put c')).lastCall cb =
          h.host.lastCall cb := hlast.holds.2 hcaptured
      rw [hother]
      simp [hcaptured]

/-- **What a disconnect leaves behind**, for every callback that may be registered. -/
theorem exists_goodbye {h : Hosted} {reply : CoreReply} {cb : ℕ}
    (hinv : Between h.host.Matches h.host.Follows h.world)
    (hret : (clientDisconnectLocked env h.world reply).2 ≠ none)
    (hcb : h.host.registered = some cb) :
    ∃ w, Goodbye h reply cb w ∧
      (clientDisconnectLocked env h.world reply).1 = completeDisconnect w := by
  unfold clientDisconnectLocked at hret ⊢
  cases hc : h.world.connection with
  | none => exact ⟨h.world, goodbye_of_none hc hcb, rfl⟩
  | some c =>
    simp only [hc] at hret ⊢
    rcases hcall : coreCall env h.world c reply with ⟨w', c', r⟩
    rw [hcall] at hret
    cases r with
    | panic => exact absurd rfl hret
    | ok => exact ⟨_, goodbye_of_some hinv hc hcb hcall nofun, rfl⟩
    | err error => exact ⟨_, goodbye_of_some hinv hc hcb hcall nofun, rfl⟩

/-- A disconnect that returns tears down and announces exactly under these two conditions. -/
theorem tornDown_iff {h : Hosted} {reply : CoreReply}
    (hinv : Between h.host.Matches h.host.Follows h.world)
    (hret : (clientDisconnectLocked env h.world reply).2 ≠ none) :
    TornDown (h.call env (.disconnect reply)) ↔
      Completes h.world (.disconnect reply) ∧ Informed h reply := by
  obtain ⟨hnone, hstate⟩ := clientDisconnectLocked_state hret
  have hregistered : (h.call env (.disconnect reply)).host.registered = h.host.registered :=
    h.host.after_registered _ _
  -- what a registered callback was called with last
  have hlast {cb : ℕ} (hcb : h.host.registered = some cb)
      (hdone : stateAfterGoodbye h.world reply ≠ .disconnecting) :
      (h.call env (.disconnect reply)).host.lastCall cb = some .disconnected ↔
        (stateAfterGoodbye h.world reply = .disconnected →
          (h.world.connection ≠ none ∧ h.host.captured = some cb) ∨
            h.host.lastCall cb = some .disconnected) := by
    obtain ⟨w, hbye, heq⟩ := exists_goodbye hinv hret hcb
    have hhost : (h.call env (.disconnect reply)).host =
        h.host.after h.world.trace.length (completeDisconnect w) := by
      rw [← heq]
      rfl
    rw [hhost, hbye.sees.completeDisconnect, ← hbye.state, or_iff_right (hbye.state ▸ hdone)]
    exact forall_congr' hbye.lastCall
  constructor
  · rintro ⟨-, hdisconnected, hannounced⟩
    have hdone := hstate.1 hdisconnected
    refine ⟨hdone, fun cb hcb => (hlast hcb hdone).1 ?_⟩
    exact hannounced cb (hregistered.trans hcb)
  · rintro ⟨hdone, hinformed⟩
    refine ⟨hnone, hstate.2 hdone, fun cb hcb => ?_⟩
    rw [hregistered] at hcb
    exact (hlast hcb hdone).2 (hinformed cb hcb)

/-! ## Runs -/

theorem run_atRest {now : ℕ} {h : Hosted}
    (hrun : ReflTransGen (Hosting env Completes) (.create now) h) : AtRest h.world := by
  induction hrun with
  | refl => exact fun _ => .inl rfl
  | @tail h _ _ hstep ih =>
    cases hstep with
    | set setting cb =>
      have hframe := setting.frame h.world.toHeClient
      intro hnone
      have hrest := ih (hframe.connection.symm.trans hnone)
      rwa [← hframe.state] at hrest
    | call call hok => exact step_atRest ih hok

/-- **When a teardown is complete.** From a new client, in every run of setters and calls that
satisfy `Completes`, a client without a connection is in `HE_STATE_NONE` or `HE_STATE_DISCONNECTED`.
And in every state that any run of setters and calls leads to, a disconnect that returns
`HE_SUCCESS` leaves no connection, `HE_STATE_DISCONNECTED`, and this state as the last one that the
registered callback was called with, exactly if the core's goodbye does not leave the client
disconnecting (`Completes`), and, should the client be disconnected without the shim's doing, the
registered callback is the connection's own or was called with `HE_STATE_DISCONNECTED` last
(`Informed`). -/
theorem teardown_iff (env : Env) (now : ℕ) :
    (∀ h, ReflTransGen (Hosting env Completes) (.create now) h → h.world.connection = none →
      h.world.conn.state = .none ∨ h.world.conn.state = .disconnected) ∧
    ∀ h, ReflTransGen (Hosting env fun _ _ => True) (.create now) h → ∀ reply : CoreReply,
      (ApiCall.disconnect reply).code env h.world = .success →
        (TornDown (h.call env (.disconnect reply)) ↔
          Completes h.world (.disconnect reply) ∧ Informed h reply) := by
  refine ⟨fun h hrun => run_atRest hrun, fun h hrun reply hcode => ?_⟩
  refine tornDown_iff (run_follows hrun) fun hnone => ?_
  have hcode' : (clientDisconnectLocked env h.world reply).2.getD .errFailed = .success := hcode
  rw [hnone] at hcode'
  exact nomatch hcode'

theorem hosting_set {ok : World → ApiCall → Prop} (cb : ℕ) (settings : List Setting) (h : Hosted) :
    ReflTransGen (Hosting env ok) h (settings.foldl (fun h setting => h.set setting cb) h) := by
  induction settings generalizing h with
  | nil => exact .refl
  | cons setting settings ih => exact .head (.set h setting cb) (ih _)

/-- A client with all that it needs, of a host that has registered the callback 1. -/
def sampleHosted : Hosted :=
  (.stateChangeCb :: tokenSettings [116, 111, 107]).foldl (fun h setting => h.set setting 1)
    (.create 0)

/-- The client online, and connected with the callback 1. -/
def onlineHosted : Hosted :=
  (sampleHosted.call sampleEnv (.connect (sampleConnect []))).call sampleEnv
    (.outsideDataReceived (reportReply [.linkUp, .authenticating, .online]))

theorem onlineHosted_run {ok : World → ApiCall → Prop}
    (hconnect : ok sampleHosted.world (.connect (sampleConnect [])))
    (hdata : ok (sampleHosted.call sampleEnv (.connect (sampleConnect []))).world
      (.outsideDataReceived (reportReply [.linkUp, .authenticating, .online]))) :
    ReflTransGen (Hosting sampleEnv ok) (.create 0) onlineHosted :=
  ((hosting_set 1 _ _).tail (.call sampleHosted _ hconnect)).tail (.call _ _ hdata)

/-- A goodbye that reports both transitions completes the teardown of a client that has kept its
callback. -/
theorem teardown_iff_onlineHosted :
    TornDown (onlineHosted.call sampleEnv
      (.disconnect (reportReply [.disconnecting, .disconnected]))) ∧
    ((onlineHosted.call sampleEnv
      (.disconnect (reportReply [.disconnecting, .disconnected]))).world.conn.state = .none ∨
    (onlineHosted.call sampleEnv
      (.disconnect (reportReply [.disconnecting, .disconnected]))).world.conn.state =
        .disconnected) := by
  obtain ⟨hrest, htorn⟩ := teardown_iff sampleEnv 0
  have hcompletes : Completes onlineHosted.world
      (.disconnect (reportReply [.disconnecting, .disconnected])) := by
    unfold Completes
    decide
  have hinformed : Informed onlineHosted (reportReply [.disconnecting, .disconnected]) := by
    rintro cb hcb -
    exact .inl ⟨by decide, hcb⟩
  have hrun : ReflTransGen (Hosting sampleEnv Completes) (.create 0) onlineHosted :=
    onlineHosted_run (fun _ => List.not_mem_nil) trivial
  refine ⟨(htorn _ (onlineHosted_run trivial trivial) _ (by decide)).2 ⟨hcompletes, hinformed⟩, ?_⟩
  exact hrest _ (hrun.tail (.call _ _ hcompletes)) (by decide)

/-! ## Two incomplete teardowns -/

/-- The core reports that it is disconnecting and then fails to send its goodbye. -/
def failedGoodbye : CoreReply :=
  { calls := [.stateChanged .disconnecting], result := .err (.other 0), state := .disconnecting,
    tickInterval := none }

/-- The client after a disconnect during which the core fails to send its goodbye. -/
def stuckHosted : Hosted := onlineHosted.call sampleEnv (.disconnect failedGoodbye)

/-- The disconnect succeeds and the connection is gone, but the client stays in
`HE_STATE_DISCONNECTING`. Disconnecting once more does not help: it succeeds and delivers
nothing. -/
theorem teardown_stuck_disconnecting :
    ReflTransGen (Hosting sampleEnv fun _ _ => True) (.create 0) onlineHosted ∧
    (ApiCall.disconnect failedGoodbye).code sampleEnv onlineHosted.world = .success ∧
    stuckHosted.world.connection = none ∧ stuckHosted.world.conn.state = .disconnecting ∧
    stuckHosted.host.registered = some 1 ∧
    stuckHosted.host.lastCall 1 = some .disconnecting ∧
    (ApiCall.disconnect (okReply [])).code sampleEnv stuckHosted.world = .success ∧
    (stuckHosted.call sampleEnv (.disconnect (okReply []))).world.conn.state = .disconnecting ∧
    (stuckHosted.call sampleEnv (.disconnect (okReply []))).host = stuckHosted.host := by
  refine ⟨onlineHosted_run trivial trivial, ?_⟩
  decide

/-- The host replaces its callback on a live connection, and the core says goodbye properly: the old
callback hears of it and the new one, 2, of nothing. -/
theorem teardown_replaced_callback :
    (ApiCall.disconnect (reportReply [.disconnecting, .disconnected])).code sampleEnv
      (onlineHosted.set .stateChangeCb 2).world = .success ∧
    ((onlineHosted.set .stateChangeCb 2).call sampleEnv
      (.disconnect (reportReply [.disconnecting, .disconnected]))).host =
      { registered := some 2, captured := some 1,
        calls := [(1, .connecting), (1, .linkUp), (1, .authenticating), (1, .online),
          (1, .disconnecting), (1, .disconnected)] } := by
  decide

end LightwayCffi.Client
