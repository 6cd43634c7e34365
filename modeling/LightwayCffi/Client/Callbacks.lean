import LightwayCffi.Client.Config

/-!
# The callbacks of a host

A client knows of its `state_change_cb` only whether there is one. The host may register another one
at any time, also on a live connection, and it makes a difference which one is called: the events of
a connection go to the callback that was registered when the connection was made, and what the shim
announces itself goes to the one that is registered now. `Host` tells the callbacks apart by number
and keeps what each has been called with, which it reads off the trace of the client.

Every use of a client is one by such a host (`exists_hosted_iff`). In all of them, the calls of all
callbacks together are what the client has delivered, and the callback of a live connection that
shows its end was called with it last (`run_follows`).
-/

namespace LightwayCffi.Client

open Relation (ReflTransGen)

variable {env : Env}

/-! ## Hosts -/

/-- The state callbacks of a host, which a number tells apart: the one it has registered last, the
one that the current connection was made with, and each call of one of them with the state that it
was called with. -/
structure Host where
  registered : Option ℕ
  captured : Option ℕ
  calls : List (ℕ × HeConnState)
  deriving DecidableEq

namespace Host

/-- A callback, if there is one, is called with a state. -/
def hear (host : Host) (callback : Option ℕ) (s : HeConnState) : Host :=
  { host with calls := host.calls ++ (callback.map fun cb => (cb, s)).toList }

/-- What an entry of the trace means to the host. A connection that is opened takes the callback
that is registered at the time, and its events go to this one; the transitions that the shim makes
itself go to the one that is registered now. -/
def observe (host : Host) (e : Entry) : Host :=
  match e.action with
  | .opened => { host with captured := host.registered }
  | .fired s _ => host.hear host.captured (rustStateToC s)
  | .announced s _ => host.hear host.registered s
  | _ => host

/-- The state that a callback was called with last. -/
def lastCall (host : Host) (cb : ℕ) : Option HeConnState :=
  (host.calls.filter fun call => call.1 = cb).getLast?.map Prod.snd

/-- The last call of a callback is this one, or the one before. -/
theorem lastCall_hear (host : Host) (callback : Option ℕ) (s : HeConnState) (cb : ℕ) :
    (host.hear callback s).lastCall cb =
      if callback = some cb then some s else host.lastCall cb := by
  unfold lastCall hear
  rw [List.filter_append]
  cases callback with
  | none => simp
  | some cb' =>
    by_cases h : cb' = cb
    · simp [h]
    · simp [h]

theorem calls_hear (host : Host) (callback : Option ℕ) (s : HeConnState) :
    (host.hear callback s).calls.map Prod.snd =
      host.calls.map Prod.snd ++ if callback.isSome then [s] else [] := by
  unfold hear
  cases callback <;> simp

@[simp]
theorem observe_registered (host : Host) (e : Entry) :
    (host.observe e).registered = host.registered := by
  unfold observe
  split <;> rfl

theorem observe_of_silent (host : Host) {a : Action} (ha : a.Silent) (state : HeConnState) :
    host.observe ⟨a, state⟩ = host := by
  cases a with
  | fired s b => exact absurd rfl (ha.1 s b)
  | announced s b => exact absurd rfl (ha.2.1 s b)
  | opened => exact absurd rfl ha.2.2.1
  | _ => rfl

/-- The host after it has observed the trace from the `n`-th entry on. -/
def after (host : Host) (n : ℕ) (w : World) : Host := (w.trace.drop n).foldl observe host

theorem after_registered (host : Host) (n : ℕ) (w : World) :
    (host.after n w).registered = host.registered := by
  unfold after
  induction w.trace.drop n generalizing host with
  | nil => rfl
  | cons e entries ih =>
    rw [List.foldl_cons, ih, observe_registered]

theorem after_concat {host : Host} {n : ℕ} {w w' : World} {e : Entry} (hn : n ≤ w.trace.length)
    (htrace : w'.trace = w.trace ++ [e]) : host.after n w' = (host.after n w).observe e := by
  unfold after
  rw [htrace, List.drop_append_of_le_length hn, List.foldl_concat]

end Host

/-- A client and its host. -/
structure Hosted where
  world : World
  host : Host

namespace Hosted

/-- A new client, of a host that has registered nothing. -/
def create (now : ℕ) : Hosted where
  world := { toHeClient := heClientCreate, now := now, trace := [] }
  host := { registered := none, captured := none, calls := [] }

/-- The host calls a setter; `cb` is the callback if the setter is that of the state callback. -/
def set (h : Hosted) (setting : Setting) (cb : ℕ) : Hosted where
  world := h.world.set setting
  host := match setting with
    | .stateChangeCb => { h.host with registered := some cb }
    | _ => h.host

/-- The host calls an entry point and observes what the call adds to the trace. -/
def call (env : Env) (h : Hosted) (call : ApiCall) : Hosted where
  world := call.step env h.world
  host := h.host.after h.world.trace.length (call.step env h.world)

end Hosted

/-- A host that uses the client and makes only calls with the property `ok`. -/
inductive Hosting (env : Env) (ok : World → ApiCall → Prop) : Hosted → Hosted → Prop
  | set (h : Hosted) (setting : Setting) (cb : ℕ) : Hosting env ok h (h.set setting cb)
  | call (h : Hosted) (call : ApiCall) (hok : ok h.world call) : Hosting env ok h (h.call env call)

/-- **Every use of a client has a host**: the clients that appear in the runs of hosts are those
that setters and calls lead to. -/
theorem exists_hosted_iff {now : ℕ} {w : World} :
    (∃ h, ReflTransGen (Hosting env fun _ _ => True) (.create now) h ∧ h.world = w) ↔
      ReflTransGen (Using env) (Hosted.create now).world w := by
  constructor
  · rintro ⟨h, hrun, rfl⟩
    refine hrun.lift Hosted.world fun h h' hstep => ?_
    cases hstep with
    | set setting cb => exact .set h.world setting
    | call call hok => exact .call h.world call
  · intro hrun
    induction hrun with
    | refl => exact ⟨_, .refl, rfl⟩
    | tail _ hstep ih =>
      obtain ⟨h, hrun, rfl⟩ := ih
      cases hstep with
      | set setting => exact ⟨_, hrun.tail (.set h setting 0), rfl⟩
      | call call => exact ⟨_, hrun.tail (.call h call trivial), rfl⟩

/-! ## What the host has heard -/

/-- The host and the client agree: a callback is registered, and the calls of all callbacks
together are what the client has delivered. -/
structure Host.Matches (host : Host) (w : World) : Prop where
  registered : w.sslCtx.stateChangeCb = host.registered.isSome
  calls : host.calls.map Prod.snd = deliveries w.trace

/-- They agree about the connection: it was made with a callback, and once it shows its end, this
callback has been told. -/
structure Host.Follows (host : Host) (w : World) (c : Connection) : Prop extends
    host.Matches w where
  captured : c.stateChangeCb = host.captured.isSome
  ended : w.connection ≠ none → w.conn.state = .disconnected →
    ∀ cb, host.captured = some cb → host.lastCall cb = some .disconnected

section Observed

variable {host : Host} {n : ℕ} {w : World} {c : Connection}

/-- The host sees the part of the trace that starts at the `n`-th entry, and `P` holds of what it
knows then. -/
structure Sees (host : Host) (n : ℕ) (w : World) (P : Host → Prop) : Prop where
  length : n ≤ w.trace.length
  holds : P (host.after n w)

/-- One more entry. -/
theorem Sees.concat {P Q : Host → Prop} {w' : World} {e : Entry} (h : Sees host n w P)
    (htrace : w'.trace = w.trace ++ [e]) (hpq : ∀ host, P host → Q (host.observe e)) :
    Sees host n w' Q where
  length := by
    rw [htrace, List.length_append]
    exact Nat.le_add_right_of_le h.length
  holds := by
    rw [Host.after_concat h.length htrace]
    exact hpq _ h.holds

theorem Sees.imp {P Q : Host → Prop} {w' : World} (h : Sees host n w P)
    (htrace : w'.trace = w.trace) (hpq : ∀ host, P host → Q host) : Sees host n w' Q where
  length := htrace ▸ h.length
  holds := by
    unfold Host.after
    rw [htrace]
    exact hpq _ h.holds

/-- A change that the host does not see. -/
theorem Host.Follows.of_eq {w' : World} {c' : Connection} (h : host.Follows w c)
    (hctx : w'.sslCtx = w.sslCtx) (hconn : w'.connection ≠ none → w.connection ≠ none)
    (hstate : w'.conn.state = w.conn.state) (htrace : deliveries w'.trace = deliveries w.trace)
    (hc : c'.stateChangeCb = c.stateChangeCb) : host.Follows w' c' where
  registered := hctx ▸ h.registered
  calls := h.calls.trans htrace.symm
  captured := hc.trans h.captured
  ended hsome hended := h.ended (hconn hsome) (hstate.symm.trans hended)

theorem Sees.silent (h : Sees host n w fun host => host.Follows w c) {c' : Connection}
    {a : Action} (ha : a.Silent) (hc : c'.stateChangeCb = c.stateChangeCb) :
    Sees host n (w.log a) fun host => host.Follows (w.log a) c' := by
  refine h.concat rfl fun host hfollows => ?_
  rw [Host.observe_of_silent host ha]
  refine hfollows.of_eq rfl id rfl ?_ hc
  rw [World.log_trace, deliveries_concat, ha.delivered]
  exact List.append_nil _

theorem NudgeStep.sees {s t : World × Connection} (hstep : NudgeStep s t)
    (h : Sees host n s.1 fun host => host.Follows s.1 s.2) :
    Sees host n t.1 fun host => host.Follows t.1 t.2 := by
  cases hstep with
  | core hstep =>
    cases hstep with
    | elapse w c m => exact h.imp rfl fun _ hf => hf.of_eq rfl id rfl rfl rfl
    | settle w c s interval => exact h.imp rfl fun _ hf => hf.of_eq rfl id rfl rfl rfl
    | schedule w c d tick =>
      have hseen := schedule_of_silent (P := fun w => Sees host n w fun host => host.Follows w c)
        (fun ha hw => hw.silent ha rfl) h c.appState (w.now + d) tick
      exact hseen.imp rfl fun _ hf => hf.of_eq rfl id rfl rfl rfl
    | event w c s =>
      refine h.concat rfl fun host hf => ?_
      refine ⟨⟨hf.registered, ?_⟩, hf.captured, fun _ hended cb hcb => ?_⟩
      · refine (host.calls_hear _ _).trans ?_
        rw [World.event_trace, deliveries_concat, hf.calls, hf.captured]
        cases host.captured <;> rfl
      · refine (host.lastCall_hear _ _ cb).trans ((if_pos hcb).trans ?_)
        exact congrArg some hended
  | tickConnection w c t hnext hdue => exact h.silent silent_tickedConnection rfl
  | take w c => exact h.silent (silent_taken _) rfl
  | tickPayload w c p => exact h.silent (silent_tickedPayload p) rfl

/-- An announcement goes to the registered callback. -/
theorem Host.Matches.announce (h : host.Matches w) (s : HeConnState) :
    (host.observe ⟨.announced s w.sslCtx.stateChangeCb, s⟩).Matches (w.announce s) where
  registered := h.registered
  calls := by
    refine (host.calls_hear _ _).trans ?_
    rw [World.announce_trace, deliveries_concat, h.calls, h.registered]
    cases host.registered <;> rfl

theorem Sees.announce (h : Sees host n w fun host => host.Matches w) (s : HeConnState) :
    Sees host n (w.announce s) fun host => host.Matches (w.announce s) :=
  h.concat rfl fun _ hm => hm.announce s

theorem follows_stable (host : Host) (n : ℕ) :
    Stable (fun w => Sees host n w fun host => host.Matches w)
      fun w c => Sees host n w fun host => host.Follows w c where
  world h := h.imp rfl fun _ hf => hf.toMatches
  advance h := h.imp rfl fun _ hm => ⟨hm.registered, hm.calls⟩
  opened h hc := by
    refine h.concat rfl fun host hm => ⟨⟨hm.registered, ?_⟩, hm.registered, fun hsome => ?_⟩
    · rw [World.log_trace, deliveries_concat, ← hm.calls]
      exact (List.append_nil _).symm
    · exact absurd hc hsome
  core hstep h := (NudgeStep.core hstep).sees h
  put hc h := h.imp rfl fun _ hf => hf.of_eq rfl (fun _ => hc) rfl rfl rfl
  refreshed h := h.imp rfl fun _ hf => hf.of_eq rfl id rfl rfl rfl
  connected {w c} _ h := by
    -- the new connection is shown as connecting, whatever the client showed before
    have hput : Sees host n ((w.put c).log .established) fun host =>
        host.Matches ((w.put c).log .established) ∧ c.stateChangeCb = host.captured.isSome := by
      refine h.concat rfl fun host hf => ⟨⟨hf.registered, ?_⟩, hf.captured⟩
      rw [World.log_trace, deliveries_concat]
      exact hf.calls.trans (List.append_nil _).symm
    unfold completeConnect
    dsimp only
    split
    · exact hput.concat rfl fun host h => ⟨h.1.announce _, h.2, fun _ hended => nomatch hended⟩
    · rename_i hstate
      refine hput.imp rfl fun host h => ⟨h.1, h.2, fun _ hended => ?_⟩
      rw [not_not.1 hstate] at hended
      cases hended
  killed h := by
    have hmatches := h.imp rfl fun _ hf => hf.toMatches
    unfold fatalDisconnect
    split
    · exact hmatches.imp rfl fun _ hm => ⟨hm.registered, hm.calls⟩
    · exact (hmatches.announce _).imp rfl fun _ hm => ⟨hm.registered, hm.calls⟩
  disconnected h := by
    unfold completeDisconnect
    dsimp only
    split
    · exact h.imp rfl fun _ hm => ⟨hm.registered, hm.calls⟩
    · exact ((h.announce _).announce _).imp rfl fun _ hm => ⟨hm.registered, hm.calls⟩

end Observed

/-- A setter changes nothing that the host has heard. -/
theorem between_set {h : Hosted} (hinv : Between h.host.Matches h.host.Follows h.world)
    (setting : Setting) (cb : ℕ) :
    Between (h.set setting cb).host.Matches (h.set setting cb).host.Follows
      (h.set setting cb).world := by
  have hframe := setting.frame h.world.toHeClient
  have hmatches : (h.set setting cb).host.Matches (h.set setting cb).world := by
    by_cases hcb : setting = .stateChangeCb
    · subst hcb
      exact ⟨rfl, hinv.world.calls⟩
    · have hhost : (h.set setting cb).host = h.host := by
        cases setting with
        | stateChangeCb => exact absurd rfl hcb
        | _ => rfl
      rw [hhost]
      exact ⟨(Setting.apply_stateChangeCb hcb _).trans hinv.world.registered, hinv.world.calls⟩
  refine ⟨hmatches, fun c hc => ?_⟩
  have hlive := hinv.live c (hframe.connection.symm.trans hc)
  refine ⟨hmatches, ?_, fun hsome hended => ?_⟩
  · cases setting <;> exact hlive.captured
  · have htold := hlive.ended (fun hnone => hsome (hframe.connection.trans hnone))
      (hframe.state.symm.trans hended)
    cases setting <;> exact htold

/-- Between calls the host has seen the whole trace. -/
theorem after_self (h : Hosted) : h.host.after h.world.trace.length h.world = h.host := by
  rw [Host.after, List.drop_length, List.foldl_nil]

theorem between_call {h : Hosted} (hinv : Between h.host.Matches h.host.Follows h.world)
    (call : ApiCall) :
    Between (h.call env call).host.Matches (h.call env call).host.Follows
      (h.call env call).world := by
  have hstart : Between (fun w => Sees h.host h.world.trace.length w fun host => host.Matches w)
      (fun w c => Sees h.host h.world.trace.length w fun host => host.Follows w c) h.world := by
    refine ⟨⟨le_rfl, ?_⟩, fun c hc => ⟨le_rfl, ?_⟩⟩
    · rw [after_self]
      exact hinv.world
    · rw [after_self]
      exact hinv.live c hc
  have hend : Between (fun w => Sees h.host h.world.trace.length w fun host => host.Matches w)
      (fun w c => Sees h.host h.world.trace.length w fun host => host.Follows w c)
      (call.step env h.world) := by
    refine (follows_stable h.host _).step NudgeStep.sees ?_ call hstart
    intro w t m hinv
    refine ⟨hinv.world.concat rfl fun host hm => ⟨hm.registered, ?_⟩, fun c hc => ?_⟩
    · rw [World.log_trace, deliveries_concat]
      exact hm.calls.trans (List.append_nil _).symm
    · exact (hinv.live c hc).silent (silent_polled t m) rfl
  exact ⟨hend.world.holds, fun c hc => (hend.live c hc).holds⟩

/-- Whatever host and core do, what the callbacks have been called with is what the client has
delivered, and the callback of a connection that shows its end has been told. -/
theorem run_follows {ok : World → ApiCall → Prop} {now : ℕ} {h : Hosted}
    (hrun : ReflTransGen (Hosting env ok) (.create now) h) :
    Between h.host.Matches h.host.Follows h.world := by
  induction hrun with
  | refl => exact between_of_none ⟨rfl, rfl⟩ rfl
  | tail _ hstep ih =>
    cases hstep with
    | set setting cb => exact between_set ih setting cb
    | call call => exact between_call ih call

end LightwayCffi.Client
