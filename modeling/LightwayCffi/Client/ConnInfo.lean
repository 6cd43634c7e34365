import LightwayCffi.Client.Api
import LightwayCffi.Client.Config
import LightwayCffi.Foundations.OnceCell

/-!
# What the host is told about the handshake

`sync_conn_info` copies the protocol version and the names of the curve and the cipher from the core
into the client, where the getters find them. It runs in the data path and in the nudge, and takes
each of them exactly once: the pointers that C has got from `he_conn_get_curve_name` and
`he_conn_get_cipher_name` would dangle if a name were allocated anew with every packet. A successful
`he_client_connect` starts over.

The names are allocated blocks here, so that a pointer can be followed. `conn_info_stable` says what
the host can rely on, at any time of a run: the getters return what the core first answered on this
connection, and the pointers stay as they are, with the names behind them, until a connect succeeds.
This includes the time after the connection was lost.
-/

namespace LightwayCffi.Client

open OnceCell

/-- wolfSSL's `ProtocolVersion`; `other` are the versions that have no counterpart in C. -/
inductive ProtocolVersion where
  | dtlsV12
  | dtlsV13
  | tlsV12
  | tlsV13
  | other
  deriving DecidableEq

/-- `he_connection_protocol_t`. -/
inductive HeConnectionProtocol where
  | none
  | dtls12
  | dtls13
  | tls12
  | tls13
  deriving DecidableEq

/-- The protocol of a version. -/
def HeConnectionProtocol.ofVersion : ProtocolVersion → HeConnectionProtocol
  | .dtlsV12 => .dtls12
  | .dtlsV13 => .dtls13
  | .tlsV12 => .tls12
  | .tlsV13 => .tls13
  | .other => .none

/-- The fields of `he_conn_t` that describe the connection, and the blocks that are allocated for
the names. -/
structure ConnInfo where
  outsideMtu : UInt16
  outsideMtuNegotiated : UInt16
  currentProtocol : HeConnectionProtocol
  curveName : Option ℕ
  cipherName : Option ℕ
  heap : Heap Bytes

/-- What the core answers when `sync_conn_info` asks, and the blocks that the allocator returns. -/
structure Answers where
  tlsProtocolVersion : ProtocolVersion
  currentCurve : Option Bytes
  currentCipher : Option Bytes
  curveAddress : ℕ
  cipherAddress : ℕ

namespace ConnInfo

/-- `he_conn_t::default`. -/
def default : ConnInfo where
  outsideMtu := 1500
  outsideMtuNegotiated := 1500
  currentProtocol := .none
  curveName := none
  cipherName := none
  heap _ := none

/-- `sync_conn_info`, on a client with a connection. -/
def syncConnInfo (info : ConnInfo) (answers : Answers) : Option ConnInfo := do
  let currentProtocol :=
    if info.currentProtocol = .none then .ofVersion answers.tlsProtocolVersion
    else info.currentProtocol
  let (heap, curveName) ← fill info.heap info.curveName
    (answers.currentCurve.bind cStringNew) answers.curveAddress
  let (heap, cipherName) ← fill heap info.cipherName
    (answers.currentCipher.bind cStringNew) answers.cipherAddress
  pure { info with currentProtocol, curveName, cipherName, heap }

/-- What `client_connect_locked` does when the connection is there. -/
def reset (info : ConnInfo) : ConnInfo where
  outsideMtu := info.outsideMtu
  outsideMtuNegotiated := info.outsideMtu
  currentProtocol := .none
  curveName := none
  cipherName := none
  heap := free (free info.heap info.curveName) info.cipherName

/-- `he_conn_set_outside_mtu`. -/
def heConnSetOutsideMtu (info : ConnInfo) (mtu : UInt16) : ConnInfo :=
  { info with outsideMtu := mtu }

/-- `he_conn_get_outside_mtu`. -/
def heConnGetOutsideMtu (info : ConnInfo) : UInt16 := info.outsideMtuNegotiated

/-- `he_conn_get_current_protocol`. -/
def heConnGetCurrentProtocol (info : ConnInfo) : HeConnectionProtocol := info.currentProtocol

/-- `he_conn_get_cipher_name`. -/
def heConnGetCipherName (info : ConnInfo) : ℕ := info.cipherName.getD 0

/-- `he_conn_get_curve_name`. -/
def heConnGetCurveName (info : ConnInfo) : ℕ := info.curveName.getD 0

end ConnInfo

/-! ## Runs -/

/-- What a call does to the information. -/
inductive InfoEffect where
  | keeps
  | syncs
  | resets

section Run

variable (env : Env)

/-- Which calls reach `sync_conn_info`. The data path does unless the core panics or the error is
fatal; a nudge does, before it looks at the payload ticks, unless the connection tick has failed. -/
def ApiCall.infoEffect (w : World) : ApiCall → InfoEffect
  | .connect input =>
    if (clientConnectLocked env w input).2 = some .success then .resets else .keeps
  | .disconnect _ => .keeps
  | .outsideDataReceived reply =>
    match w.connection with
    | none => .keeps
    | some c =>
      match (coreCall env w c reply).2.2 with
      | .panic => .keeps
      | .ok => .syncs
      | .err error => if env.isFatal error c.connectionType then .keeps else .syncs
  | .insidePacketReceived reply =>
    match w.connection with
    | none => .keeps
    | some c =>
      match (coreCall env w c reply).2.2 with
      | .panic => .keeps
      | .ok | .err _ => .syncs
  | .nudge i =>
    let w := w.advance i.connectionTickElapsed
    match w.connection with
    | none => .keeps
    | some c =>
      if c.appState.nextTick.any fun t => t ≤ w.now then
        match (coreCall env (w.log .tickedConnection) { c with appState.nextTick := none }
          i.connectionTick).2.2 with
        | .ok => .syncs
        | .panic | .err _ => .keeps
      else .syncs
  | .expresslaneRotateIfDue _ _ => .keeps

/-- The information after a call. -/
def ConnInfo.after (info : ConnInfo) (answers : Answers) : InfoEffect → Option ConnInfo
  | .keeps => some info
  | .syncs => info.syncConnInfo answers
  | .resets => some info.reset

/-- The present connection: what the core has answered since it was established, oldest first, and
the MTU that was configured then. -/
structure Present where
  answers : List Answers
  mtu : UInt16

/-- The present connection after a call. -/
def Present.after (present : Present) (info : ConnInfo) (answers : Answers) : InfoEffect → Present
  | .keeps => present
  | .syncs => { present with answers := present.answers ++ [answers] }
  | .resets => ⟨[], info.outsideMtu⟩

/-- The protocol that the core answered first. -/
def Present.protocol (present : Present) : HeConnectionProtocol :=
  ((present.answers.map fun a => .ofVersion a.tlsProtocolVersion).find? (· ≠ .none)).getD .none

/-- The name of the curve that the core answered first. -/
def Present.curve (present : Present) : Option Bytes :=
  present.answers.findSome? fun a => a.currentCurve.bind cStringNew

/-- The name of the cipher that the core answered first. -/
def Present.cipher (present : Present) : Option Bytes :=
  present.answers.findSome? fun a => a.currentCipher.bind cStringNew

/-- The host goes on, with setters and with calls whose effect is `allowed`. The setter of the MTU
is the only one that writes to the information. -/
inductive Goes (allowed : InfoEffect → Prop) (w : World) (info : ConnInfo) (present : Present) :
    World → ConnInfo → Present → Prop
  | refl : Goes allowed w info present w info present
  | call {w' : World} {info' info'' : ConnInfo} {present' : Present}
    (h : Goes allowed w info present w' info' present') (call : ApiCall) (answers : Answers)
    (hallowed : allowed (call.infoEffect env w'))
    (hcall : info'.after answers (call.infoEffect env w') = some info'') :
    Goes allowed w info present (call.step env w') info''
      (present'.after info' answers (call.infoEffect env w'))
  | setOutsideMtu {w' : World} {info' : ConnInfo} {present' : Present}
    (h : Goes allowed w info present w' info' present') (mtu : UInt16) :
    Goes allowed w info present w' (info'.heConnSetOutsideMtu mtu) present'
  | set {w' : World} {info' : ConnInfo} {present' : Present}
    (h : Goes allowed w info present w' info' present') (setting : Setting) :
    Goes allowed w info present (w'.set setting) info' present'

end Run

/-! ## What the fields are -/

/-- The fields are what the core has answered on the present connection, and the blocks that are
allocated are those of the two names. -/
structure Faithful (info : ConnInfo) (present : Present) : Prop where
  mtu : info.outsideMtuNegotiated = present.mtu
  protocol : info.currentProtocol = present.protocol
  curve : Holds info.heap info.curveName present.curve
  cipher : Holds info.heap info.cipherName present.cipher
  owned : ∀ a name, info.heap a = some name → info.curveName = some a ∨ info.cipherName = some a
  apart : ∀ a, info.curveName = some a → info.cipherName ≠ some a

section Faithful

variable {env : Env} {allowed : InfoEffect → Prop} {w w' : World} {info info' : ConnInfo}
  {present present' : Present} {answers : Answers}

theorem faithful_default : Faithful .default ⟨[], 1500⟩ where
  mtu := rfl
  protocol := rfl
  curve := .empty
  cipher := .empty
  owned _ _ h := nomatch h
  apart _ h := nomatch h

/-- Once it is known, the protocol stays. -/
theorem protocol_after_sync (present : Present) (info : ConnInfo) (answers : Answers) :
    (present.after info answers .syncs).protocol =
      if present.protocol = .none then .ofVersion answers.tlsProtocolVersion
      else present.protocol := by
  have hfirst : ∀ (known : Option HeConnectionProtocol) (protocol : HeConnectionProtocol),
      (∀ q, known = some q → q ≠ .none) →
      (known.or ([protocol].find? (· ≠ .none))).getD .none =
        if known.getD .none = .none then protocol else known.getD .none := by
    intro known protocol hknown
    cases known with
    | none => cases protocol <;> rfl
    | some q => exact (if_neg (hknown q rfl)).symm
  simp only [Present.protocol, Present.after, List.map_append, List.find?_append]
  exact hfirst _ _ fun q hq => by simpa using List.find?_some hq

/-- `sync_conn_info` keeps a field that is set, and takes the answer for one that is not. -/
theorem Faithful.syncConnInfo (h : Faithful info present)
    (hsync : info.syncConnInfo answers = some info') :
    Faithful info' (present.after info answers .syncs) := by
  obtain ⟨⟨heap₁, curveName⟩, hcurve, hsync⟩ := Option.bind_eq_some_iff.1 hsync
  obtain ⟨⟨heap₂, cipherName⟩, hcipher, hsync⟩ := Option.bind_eq_some_iff.1 hsync
  obtain rfl := (Option.some.inj hsync).symm
  have hkeeps : ∀ a name, heap₁ a = some name → heap₂ a = some name :=
    fun a name => fill_keeps hcipher
  refine ⟨h.mtu, ?_, ?_, ?_, ?_, ?_⟩
  · rw [protocol_after_sync, ← h.protocol]
  · have hholds := (h.curve.fill hcurve).mono hkeeps
    simpa [Present.curve, Present.after, List.findSome?_append] using hholds
  · have hholds := (h.cipher.mono fun a name => fill_keeps hcurve).fill hcipher
    simpa [Present.cipher, Present.after, List.findSome?_append] using hholds
  · intro a name hlive
    rcases fill_blocks hcipher hlive with hlive | hnew
    · rcases fill_blocks hcurve hlive with hlive | hnew
      · exact (h.owned a name hlive).imp (fill_of_some hcurve) (fill_of_some hcipher)
      · exact Or.inl hnew
    · exact Or.inr hnew
  · intro a ha
    -- the block of the curve is live, whether it was there or is new, and is not the cipher's
    obtain ⟨name, hlive⟩ := (h.curve.fill hcurve).live ha
    refine fill_fresh hcipher hlive fun hc => ?_
    obtain ⟨old, hold⟩ := h.cipher.live hc
    exact fill_fresh hcurve hold (fun hcurve' => h.apart a hcurve' hc) ha

theorem Faithful.reset (h : Faithful info present) (answers : Answers) :
    Faithful info.reset (present.after info answers .resets) where
  mtu := rfl
  protocol := rfl
  curve := .empty
  cipher := .empty
  owned a name hlive := by
    obtain ⟨hlive, hcipher⟩ := free_live hlive
    obtain ⟨hlive, hcurve⟩ := free_live hlive
    rcases h.owned a name hlive with ha | ha
    · exact absurd ha hcurve
    · exact absurd ha hcipher
  apart _ h := nomatch h

theorem Faithful.after (h : Faithful info present) {effect : InfoEffect}
    (hafter : info.after answers effect = some info') :
    Faithful info' (present.after info answers effect) := by
  cases effect with
  | keeps =>
    obtain rfl := Option.some.inj hafter
    exact h
  | syncs => exact h.syncConnInfo hafter
  | resets =>
    obtain rfl := Option.some.inj hafter
    exact h.reset answers

theorem Goes.faithful (h : Goes env allowed w info present w' info' present')
    (hstart : Faithful info present) : Faithful info' present' := by
  induction h with
  | refl => exact hstart
  | call _ call answers _ hcall ih => exact ih.after hcall
  | setOutsideMtu _ mtu ih => exact ⟨ih.mtu, ih.protocol, ih.curve, ih.cipher, ih.owned, ih.apart⟩
  | set _ setting ih => exact ih

end Faithful

/-! ## What stays -/

/-- What was known stays, and so do the blocks. -/
structure Keeps (info info' : ConnInfo) : Prop where
  protocol : info.currentProtocol ≠ .none → info'.currentProtocol = info.currentProtocol
  curve : ∀ a, info.curveName = some a → info'.curveName = some a
  cipher : ∀ a, info.cipherName = some a → info'.cipherName = some a
  blocks : ∀ a name, info.heap a = some name → info'.heap a = some name

section Keeps

variable {env : Env} {w w' : World} {info info' info'' : ConnInfo} {present present' : Present}
  {answers : Answers}

theorem Keeps.refl (info : ConnInfo) : Keeps info info :=
  ⟨fun _ => rfl, fun _ h => h, fun _ h => h, fun _ _ h => h⟩

theorem Keeps.trans (h : Keeps info info') (h' : Keeps info' info'') : Keeps info info'' where
  protocol hne := by
    have heq := h.protocol hne
    rw [h'.protocol (by rwa [heq]), heq]
  curve a ha := h'.curve a (h.curve a ha)
  cipher a ha := h'.cipher a (h.cipher a ha)
  blocks a name hlive := h'.blocks a name (h.blocks a name hlive)

theorem keeps_after {effect : InfoEffect} (heffect : effect ≠ .resets)
    (hafter : info.after answers effect = some info') : Keeps info info' := by
  cases effect with
  | resets => exact absurd rfl heffect
  | keeps =>
    obtain rfl := Option.some.inj hafter
    exact .refl info
  | syncs =>
    obtain ⟨⟨heap₁, curveName⟩, hcurve, hsync⟩ := Option.bind_eq_some_iff.1 hafter
    obtain ⟨⟨heap₂, cipherName⟩, hcipher, hsync⟩ := Option.bind_eq_some_iff.1 hsync
    obtain rfl := (Option.some.inj hsync).symm
    exact ⟨fun hne => if_neg hne, fun _ => fill_of_some hcurve, fun _ => fill_of_some hcipher,
      fun _ _ hlive => fill_keeps hcipher (fill_keeps hcurve hlive)⟩

theorem Goes.keeps (h : Goes env (· ≠ .resets) w info present w' info' present') :
    Keeps info info' := by
  induction h with
  | refl => exact .refl info
  | call _ call answers hallowed hcall ih => exact ih.trans (keeps_after hallowed hcall)
  | setOutsideMtu _ mtu ih => exact ⟨ih.protocol, ih.curve, ih.cipher, ih.blocks⟩
  | set _ setting ih => exact ih

end Keeps

/-! ## What the host can rely on -/

/-- What is found through a pointer: the null pointer stands for no name. -/
def PointsTo (info : ConnInfo) (ptr : ℕ) : Option Bytes → Prop
  | none => ptr = 0
  | some name => ptr ≠ 0 ∧ info.heap ptr = some name

theorem pointsTo_of_holds {info : ConnInfo} {cell : Option ℕ} {name : Option Bytes}
    (h : Holds info.heap cell name) : PointsTo info (cell.getD 0) name := by
  cases h with
  | empty => rfl
  | full hne hlive => exact ⟨hne, hlive⟩

/-- A pointer that C has cached is still the one that the getter returns, and still good. -/
theorem cached_of_holds {info info' : ConnInfo} {cell cell' : Option ℕ} {name : Option Bytes}
    (h : Holds info.heap cell name) (hcell : ∀ a, cell = some a → cell' = some a)
    (hblocks : ∀ a name, info.heap a = some name → info'.heap a = some name)
    (hne : cell.getD 0 ≠ 0) :
    cell'.getD 0 = cell.getD 0 ∧ info'.heap (cell.getD 0) = info.heap (cell.getD 0) := by
  cases h with
  | empty => exact absurd rfl hne
  | full _ hlive =>
    rw [hcell _ rfl]
    exact ⟨rfl, (hblocks _ _ hlive).trans hlive.symm⟩

/-- **What the host is told stays true.** At any time of a run, the getters return the MTU that was
configured when the present connection was established, and what the core has first answered on it:
the protocol, and pointers to the names of the curve and the cipher, or null. No other names are
allocated. As long as no connect succeeds, whatever else happens, the protocol stays, and a pointer
that is not null is returned again and points to the same name. -/
theorem conn_info_stable {env : Env} {w₀ w : World} {info : ConnInfo} {present : Present}
    (h : Goes env (fun _ => True) w₀ .default ⟨[], 1500⟩ w info present) :
    info.heConnGetOutsideMtu = present.mtu ∧
    info.heConnGetCurrentProtocol = present.protocol ∧
    PointsTo info info.heConnGetCurveName present.curve ∧
    PointsTo info info.heConnGetCipherName present.cipher ∧
    (∀ a, info.heap a ≠ none → a = info.heConnGetCurveName ∨ a = info.heConnGetCipherName) ∧
    ∀ w' info' present', Goes env (· ≠ .resets) w info present w' info' present' →
      (info.heConnGetCurrentProtocol ≠ .none →
        info'.heConnGetCurrentProtocol = info.heConnGetCurrentProtocol) ∧
      (info.heConnGetCurveName ≠ 0 →
        info'.heConnGetCurveName = info.heConnGetCurveName ∧
        info'.heap info.heConnGetCurveName = info.heap info.heConnGetCurveName) ∧
      (info.heConnGetCipherName ≠ 0 →
        info'.heConnGetCipherName = info.heConnGetCipherName ∧
        info'.heap info.heConnGetCipherName = info.heap info.heConnGetCipherName) := by
  have hfaithful := h.faithful faithful_default
  refine ⟨hfaithful.mtu, hfaithful.protocol, pointsTo_of_holds hfaithful.curve,
    pointsTo_of_holds hfaithful.cipher, fun a ha => ?_, fun w' info' present' hgoes => ?_⟩
  · obtain ⟨name, hname⟩ := Option.ne_none_iff_exists'.1 ha
    refine (hfaithful.owned a name hname).imp (fun hcell => ?_) fun hcell => ?_
    · rw [ConnInfo.heConnGetCurveName, hcell, Option.getD_some]
    · rw [ConnInfo.heConnGetCipherName, hcell, Option.getD_some]
  · have hkeeps := hgoes.keeps
    exact ⟨hkeeps.protocol, cached_of_holds hfaithful.curve hkeeps.curve hkeeps.blocks,
      cached_of_holds hfaithful.cipher hkeeps.cipher hkeeps.blocks⟩

/-- The core knows the version and the curve, but not the cipher. -/
def sampleAnswers : Answers where
  tlsProtocolVersion := .dtlsV13
  currentCurve := some [88, 50, 53]
  currentCipher := none
  curveAddress := 64
  cipherAddress := 80

/-- The client has connected. -/
def openedWorld : World := (ApiCall.connect (sampleConnect [])).step sampleEnv sampleWorld

/-- It has received a packet, after which the core knew the curve. -/
def syncedInfo : ConnInfo where
  outsideMtu := 1400
  outsideMtuNegotiated := 1400
  currentProtocol := .dtls13
  curveName := some 64
  cipherName := none
  heap := Function.update (fun _ => none) 64 (some [88, 50, 53])

theorem goes_syncedInfo : Goes sampleEnv (fun _ => True) sampleWorld .default ⟨[], 1500⟩
    ((ApiCall.outsideDataReceived (okReply [])).step sampleEnv openedWorld) syncedInfo
    ⟨[sampleAnswers], 1400⟩ := by
  have hresets : (ApiCall.connect (sampleConnect [])).infoEffect sampleEnv sampleWorld = .resets :=
    rfl
  have hsyncs : (ApiCall.outsideDataReceived (okReply [])).infoEffect sampleEnv openedWorld =
      .syncs := rfl
  have hmtu : Goes sampleEnv (fun _ => True) sampleWorld .default ⟨[], 1500⟩ sampleWorld _ _ :=
    Goes.refl.setOutsideMtu 1400
  have hconnect := hmtu.call (.connect (sampleConnect [])) sampleAnswers trivial
    (by rw [hresets]; rfl)
  rw [hresets] at hconnect
  have hsync := hconnect.call (.outsideDataReceived (okReply [])) sampleAnswers trivial
    (by rw [← openedWorld, hsyncs]; rfl)
  rwa [← openedWorld, hsyncs] at hsync

/-- The pointer to the name of the curve. -/
theorem conn_info_stable_syncedInfo :
    PointsTo syncedInfo syncedInfo.heConnGetCurveName (some [88, 50, 53]) :=
  (conn_info_stable goes_syncedInfo).2.2.1

end LightwayCffi.Client
