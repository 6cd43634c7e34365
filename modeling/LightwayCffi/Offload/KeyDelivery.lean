import LightwayCffi.Client.Core
import LightwayCffi.Expresslane.CLedger

/-!
# Key delivery

When lightway-core has exchanged ExpressLane keys, the client packages them into a
`he_expresslane_keys_t` on its stack, calls the host with a pointer to it, and scrubs the two keys
when the host has returned (`update`). The host creates a packet session of the version it was told
and installs the keys (`installKeys`).

`key_delivery` follows the keys into the traffic. Two ends that are given each other's keys both end
up with a session, and no key is left on a stack; from then on, and until the host changes the keys
of the session or destroys it, whatever one end seals the other can open, in both directions. In the
meantime the hosts may do anything else, on this session and on others.

The health monitor of lightway-core asks for the counters of the session through another callback
(`getStats`). With the callback that its documentation describes, it is told the numbers of packets
that the host has sent and received (`getStats_exact`).
-/

namespace LightwayCffi.Offload

open Client (HeReturnCode)
open Expresslane Expresslane.Process Buffer Memory

/-! ## The callback -/

/-- lightway-core's `ExpresslaneCbData`. -/
structure ExpresslaneCbData where
  selfKey : ExpresslaneKey
  peerKey : ExpresslaneKey
  version : ExpresslaneVersion

/-- `he_expresslane_keys_t`. -/
structure HeExpresslaneKeys where
  sessionId : Vector UInt8 8
  selfKey : Vector UInt8 32
  peerKey : Vector UInt8 32
  version : UInt8

/-- The struct in memory; its fields need no padding. -/
def HeExpresslaneKeys.toBytes (keys : HeExpresslaneKeys) : Bytes :=
  keys.sessionId.toList ++ (keys.selfKey.toList ++ (keys.peerKey.toList ++ [keys.version]))

/-- `scrub_bytes`. -/
def scrubBytes (p : Process) (buf len : ℕ) : Process :=
  (List.range len).foldl (fun p i => p.storeBytes (buf + i) [0]) p

/-- `CffiExpresslaneCb::update`; `stack` is the address of `keys`, and `R` is what the host keeps
of the call. -/
def update {R : Type} (p : Process) (stack : ℕ) (cb : Process → ℕ → Option (Process × R))
    (sessionId : Vector UInt8 8) (data : ExpresslaneCbData) : Option (Process × R) := do
  let keys : HeExpresslaneKeys :=
    { sessionId := sessionId
      selfKey := data.selfKey.bytes
      peerKey := data.peerKey.bytes
      version := data.version.toU8 }
  let (p, r) ← cb (p.storeBytes stack keys.toBytes) stack
  pure (scrubBytes (scrubBytes p (stack + 8) 32) (stack + 40) 32, r)

/-- The host: it creates a session of the version in the struct, with the send key staged and
promoted and with the receive key. -/
def installKeys (address : ℕ) (p : Process) (keys : ℕ) :
    Option (Process × ℕ × HeExpresslaneReturnCode × HeExpresslaneReturnCode) := do
  let (p, session) ← heExpresslaneSessionCreate p (p.bytes (keys + 72)) address
  let (p, codeSelf) ← heExpresslaneSetNextSelfKey p session (keys + 8)
  let (p, _) ← heExpresslanePromoteSelfKey p session
  let (p, codePeer) ← heExpresslaneSetPeerKey p session (keys + 40)
  pure (p, session, codeSelf, codePeer)

/-- `CffiExpresslaneMetrics::get_stats`: the packets sent and received. -/
def getStats (p : Process)
    (cb : Process → Vector UInt8 8 → Option (Process × HeReturnCode × BitVec 64 × BitVec 64))
    (sessionId : Vector UInt8 8) : Option (Process × BitVec 64 × BitVec 64) := do
  let (p, rc, sent, received) ← cb p sessionId
  pure (if rc = .success then (p, sent, received) else (p, 0, 0))

/-- The callback that `he_expresslane_metrics_cb_t` asks for: it knows its session by the
connection, not by the session id. -/
def metricsCb (session : ℕ) (p : Process) (_sessionId : Vector UInt8 8) :
    Option (Process × HeReturnCode × BitVec 64 × BitVec 64) := do
  let (p, sent) ← heExpresslanePacketsSent p session
  let (p, received) ← heExpresslanePacketsReceived p session
  pure (p, .success, sent, received)

/-! ## The struct -/

theorem ofU8_toU8 (version : ExpresslaneVersion) :
    ExpresslaneVersion.ofU8 version.toU8 = version := by
  cases version <;> rfl

theorem loadVector_of_load {m : ℕ → UInt8} {a n : ℕ} {v : Vector UInt8 n}
    (h : load m a n = v.toList) : loadVector m a n = v :=
  Vector.toList_inj.1 ((toList_loadVector m a n).trans h)

/-- The fields are where the host looks for them. -/
theorem HeExpresslaneKeys.fields (keys : HeExpresslaneKeys) (m : ℕ → UInt8) (a : ℕ) :
    loadVector (store m a keys.toBytes) (a + 8) 32 = keys.selfKey ∧
      loadVector (store m a keys.toBytes) (a + 40) 32 = keys.peerKey ∧
      store m a keys.toBytes (a + 72) = keys.version := by
  have hload : load (store m a keys.toBytes) a (8 + (32 + (32 + 1))) = keys.toBytes :=
    load_store_of_length _ _ (by simp [toBytes])
  rw [load_add, load_add, load_add] at hload
  obtain ⟨-, hload⟩ := List.append_inj hload (by simp)
  obtain ⟨hself, hload⟩ := List.append_inj hload (by simp)
  obtain ⟨hpeer, hversion⟩ := List.append_inj hload (by simp)
  refine ⟨loadVector_of_load hself, loadVector_of_load hpeer, ?_⟩
  simpa [load] using hversion

/-- Scrubbing stores zeros. -/
theorem scrubBytes_eq (p : Process) (buf len : ℕ) :
    scrubBytes p buf len = p.storeBytes buf (List.replicate len 0) := by
  induction len with
  | zero =>
    have hnone : store p.bytes buf [] = p.bytes :=
      funext fun x => store_of_outside (by simp; omega)
    rw [List.replicate_zero, storeBytes, hnone]
    rfl
  | succ len ih =>
    rw [scrubBytes] at ih
    rw [scrubBytes, List.range_succ, List.foldl_append, ih, List.replicate_succ', storeBytes,
      storeBytes, store_append, List.length_replicate]
    rfl

/-! ## Installing the keys -/

/-- A session with these keys and no others. -/
structure Keyed (data : ExpresslaneCbData) (s : ExpresslaneSession) : Prop where
  version : s.version = data.version
  self : s.currentSelf = some ⟨data.selfKey⟩
  staged : s.nextSelf = none
  peer : s.rx.currentPeer = some ⟨data.peerKey⟩
  prev : s.rx.prevPeer = none

/-- The version is one of those in use, and the keys are not the all-zero sentinel. -/
structure Usable (data : ExpresslaneCbData) : Prop where
  version_ne : data.version ≠ .unknown
  selfKey_valid : data.selfKey.isInvalid = false
  peerKey_valid : data.peerKey.isInvalid = false

/-- One end: a host in a run, at the time of the callback. -/
structure End (A : Aead) where
  process : Process
  ledger : Ledger
  run : Run A process ledger
  /-- where the client has its struct -/
  stack : ℕ
  /-- the block that the allocator returns -/
  address : ℕ
  address_ne : address ≠ 0
  fresh : process.sessions address = none

section Install

variable {A : Aead} {data : ExpresslaneCbData}

/-- The ledger with the new handle. -/
def End.opened (e : End A) (version : ExpresslaneVersion) : Ledger :=
  Function.update e.ledger e.address (some ⟨version, [], []⟩)

theorem updateNextSelfKey_of_valid (s : ExpresslaneSession) {key : ExpresslaneKey}
    (h : key.isInvalid = false) :
    s.updateNextSelfKey key = ({ s with nextSelf := some ⟨key⟩ }, .ok ()) := by
  rw [ExpresslaneSession.updateNextSelfKey, if_neg (by simp [h]), Cipher.new_eq]

theorem updatePeerKey_of_valid (s : ExpresslaneSession) {key : ExpresslaneKey}
    (h : key.isInvalid = false) :
    s.updatePeerKey key = ({ s with
      rx := { s.rx with currentPeer := some ⟨key⟩, prevPeer := s.rx.currentPeer }
      peerKeyInstalled := true }, .ok ()) := by
  rw [ExpresslaneSession.updatePeerKey, if_neg (by simp [h]), Cipher.new_eq]

/-- `set_key_from_ptr` with a key that the session takes. -/
theorem setKeyFromPtr_of_ok {p : Process} {session ptr : ℕ} {s s' : ExpresslaneSession}
    {key : ExpresslaneKey} {install : ExpresslaneSession → ExpresslaneKey →
      ExpresslaneSession × Except ExpresslaneError Unit} (hsession : session ≠ 0) (hptr : ptr ≠ 0)
    (hlive : p.sessions session = some s) (hkey : loadVector p.bytes ptr 32 = key.bytes)
    (hinstall : install s key = (s', .ok ())) :
    setKeyFromPtr p session ptr install = some (p.storeSession session s', .success) := by
  have hread : (⟨loadVector p.bytes ptr 32⟩ : ExpresslaneKey) = key :=
    congrArg ExpresslaneKey.mk hkey
  rw [setKeyFromPtr_eq hsession hptr hlive, hread, hinstall]

section Calls

variable {p : Process} {l : Ledger} {s : ExpresslaneSession} {session ptr : ℕ}

theorem sessions_storeSession (p : Process) (session : ℕ) (s : ExpresslaneSession) :
    (p.storeSession session s).sessions session = some s :=
  Function.update_self _ _ _

theorem run_create (hrun : Run A p l) (hsession : session ≠ 0) (hfresh : p.sessions session = none)
    {version : ExpresslaneVersion} (hknown : version ≠ .unknown) :
    heExpresslaneSessionCreate p version.toU8 session =
        some (p.storeSession session (.new version), session) ∧
      Run A (p.storeSession session (.new version))
        (Function.update l session (some ⟨version, [], []⟩)) := by
  have hcreate : heExpresslaneSessionCreate p version.toU8 session =
      some (p.storeSession session (.new version), session) := by
    rw [heExpresslaneSessionCreate, ofU8_toU8, if_neg hknown, if_neg (by simp [hsession, hfresh])]
  have hcall := hrun.call (.create version.toU8 session) (by rw [Call.run, hcreate]; rfl)
  rw [Ledger.record, if_neg hsession, ofU8_toU8] at hcall
  exact ⟨hcreate, hcall⟩

theorem run_setNextSelfKey (hrun : Run A p l) (hsession : session ≠ 0) (hptr : ptr ≠ 0)
    (hlive : p.sessions session = some s) {key : ExpresslaneKey}
    (hkey : loadVector p.bytes ptr 32 = key.bytes) (hvalid : key.isInvalid = false) :
    heExpresslaneSetNextSelfKey p session ptr =
        some (p.storeSession session { s with nextSelf := some ⟨key⟩ }, .success) ∧
      Run A (p.storeSession session { s with nextSelf := some ⟨key⟩ }) l := by
  have hset := setKeyFromPtr_of_ok hsession hptr hlive hkey (updateNextSelfKey_of_valid s hvalid)
  exact ⟨hset, hrun.call (.setNextSelfKey session ptr)
    (by rw [Call.run, heExpresslaneSetNextSelfKey, hset]; rfl)⟩

theorem run_promoteSelfKey (hrun : Run A p l) (hsession : session ≠ 0)
    (hlive : p.sessions session = some s) :
    heExpresslanePromoteSelfKey p session =
        some (p.storeSession session s.promoteSelfKey, ()) ∧
      Run A (p.storeSession session s.promoteSelfKey) l := by
  have hpromote : heExpresslanePromoteSelfKey p session =
      some (p.storeSession session s.promoteSelfKey, ()) := by
    rw [heExpresslanePromoteSelfKey, if_neg hsession, hlive]
    rfl
  exact ⟨hpromote, hrun.call (.promoteSelfKey session) (by rw [Call.run, hpromote]; rfl)⟩

theorem run_setPeerKey (hrun : Run A p l) (hsession : session ≠ 0) (hptr : ptr ≠ 0)
    (hlive : p.sessions session = some s) {key : ExpresslaneKey}
    (hkey : loadVector p.bytes ptr 32 = key.bytes) (hvalid : key.isInvalid = false) :
    ∃ s', s.updatePeerKey key = (s', .ok ()) ∧
      heExpresslaneSetPeerKey p session ptr = some (p.storeSession session s', .success) ∧
      Run A (p.storeSession session s') l := by
  have hset := setKeyFromPtr_of_ok hsession hptr hlive hkey (updatePeerKey_of_valid s hvalid)
  exact ⟨_, updatePeerKey_of_valid s hvalid, hset, hrun.call (.setPeerKey session ptr)
    (by rw [Call.run, heExpresslaneSetPeerKey, hset]; rfl)⟩

end Calls

/-- The calls of the host succeed one after the other, and are part of its run. -/
theorem exists_installKeys {p : Process} {l : Ledger} (hrun : Run A p l) {keys address : ℕ}
    (haddress : address ≠ 0) (hfresh : p.sessions address = none) (h : Usable data)
    (hself : loadVector p.bytes (keys + 8) 32 = data.selfKey.bytes)
    (hpeer : loadVector p.bytes (keys + 40) 32 = data.peerKey.bytes)
    (hversion : p.bytes (keys + 72) = data.version.toU8) :
    ∃ p' s, installKeys address p keys = some (p', address, .success, .success) ∧
      Run A p' (Function.update l address (some ⟨data.version, [], []⟩)) ∧
      p'.sessions address = some s ∧ Keyed data s ∧ s.hasValidKeys = true := by
  obtain ⟨hknown, hselfKey, hpeerKey⟩ := h
  have hself₀ : keys + 8 ≠ 0 := by omega
  have hpeer₀ : keys + 40 ≠ 0 := by omega
  obtain ⟨hcreate, hrun₁⟩ := run_create hrun haddress hfresh hknown
  obtain ⟨hstage, hrun₂⟩ := run_setNextSelfKey hrun₁ haddress hself₀
    (sessions_storeSession p address _) hself hselfKey
  obtain ⟨hpromote, hrun₃⟩ := run_promoteSelfKey hrun₂ haddress (sessions_storeSession _ address _)
  obtain ⟨s, hs, hinstall, hrun₄⟩ := run_setPeerKey hrun₃ haddress hpeer₀
    (sessions_storeSession _ address _) hpeer hpeerKey
  refine ⟨_, s, ?_, hrun₄, sessions_storeSession _ address s, ?_⟩
  · rw [installKeys, hversion, hcreate]
    simp only [Option.bind_eq_bind, Option.bind_some, hstage, hpromote, hinstall]
    rfl
  · rw [updatePeerKey_of_valid _ hpeerKey] at hs
    obtain rfl := (congrArg Prod.fst hs).symm
    exact ⟨⟨rfl, rfl, rfl, rfl, rfl⟩, rfl⟩

/-- The callback as a whole. -/
theorem exists_update (e : End A) (sessionId : Vector UInt8 8) (h : Usable data) :
    ∃ p s, update e.process e.stack (installKeys e.address) sessionId data =
        some (p, e.address, .success, .success) ∧
      Run A p (e.opened data.version) ∧ p.sessions e.address = some s ∧ Keyed data s ∧
      s.hasValidKeys = true ∧ load p.bytes (e.stack + 8) 64 = List.replicate 64 0 := by
  let keys : HeExpresslaneKeys :=
    ⟨sessionId, data.selfKey.bytes, data.peerKey.bytes, data.version.toU8⟩
  obtain ⟨hself, hpeer, hversion⟩ := keys.fields e.process.bytes e.stack
  obtain ⟨p, s, hinstall, hrun, hlive, hkeyed, hvalid⟩ := exists_installKeys
    (e.run.program (store e.process.bytes e.stack keys.toBytes) e.process.lengths e.process.flags)
    e.address_ne e.fresh h hself hpeer hversion
  have hscrub : scrubBytes (scrubBytes p (e.stack + 8) 32) (e.stack + 40) 32 =
      p.storeBytes (e.stack + 8) (List.replicate 64 0) := by
    have hsplit := store_append p.bytes (e.stack + 8) (List.replicate 32 0) (List.replicate 32 0)
    rw [List.replicate_append_replicate, List.length_replicate] at hsplit
    rw [scrubBytes_eq, scrubBytes_eq, storeBytes, storeBytes, storeBytes, hsplit]
  refine ⟨p.storeBytes (e.stack + 8) (List.replicate 64 0), s, ?_, hrun.program _ _ _, hlive,
    hkeyed, hvalid, load_store_of_length _ _ List.length_replicate⟩
  rw [← hscrub]
  exact congrArg (Option.bind · _) hinstall

end Install

/-! ## Using the sessions -/

/-- A call that leaves the keys of a session alone. -/
def keepsKeys (session : ℕ) : Call → Prop
  | .destroy session' | .setNextSelfKey session' _ | .setPeerKey session' _ => session' ≠ session
  | _ => True

/-- A host goes on, and leaves the keys of a session alone. -/
inductive Uses (A : Aead) (session : ℕ) (p : Process) (l : Ledger) : Process → Ledger → Prop
  | refl : Uses A session p l p l
  | program {p' : Process} {l' : Ledger} (h : Uses A session p l p' l') (bytes : ℕ → UInt8)
    (lengths : ℕ → ℕ) (flags : ℕ → Bool) :
    Uses A session p l ⟨bytes, lengths, flags, p'.sessions⟩ l'
  | call {p' p'' : Process} {l' : Ledger} {r : Reply} (h : Uses A session p l p' l') (call : Call)
    (hkeeps : keepsKeys session call) (hrun : call.run A p' = some (p'', r)) :
    Uses A session p l p'' (l'.record p' p'' call r)

section Uses

variable {A : Aead} {data : ExpresslaneCbData} {p p' : Process} {l l' : Ledger} {session : ℕ}
  {s s' : ExpresslaneSession}

theorem Uses.run (h : Uses A session p l p' l') (hrun : Run A p l) : Run A p' l' := by
  induction h with
  | refl => exact hrun
  | program _ bytes lengths flags ih => exact ih.program bytes lengths flags
  | call _ call _ hcall ih => exact ih.call call hcall

/-- The operations that change keys. -/
def changesKeys : Op → Bool
  | .updateNextSelfKey _ | .updatePeerKey _ => true
  | _ => false

/-- With no key staged, the other operations keep the keys. -/
theorem Keyed.step (h : Keyed data s) {op : Op} {fresh : List Event}
    (hrun : op.run A s = some (s', fresh)) (hop : changesKeys op = false) : Keyed data s' := by
  cases op with
  | updateNextSelfKey key => cases hop
  | updatePeerKey key => cases hop
  | reserveCounter =>
    obtain ⟨rfl, -⟩ := Prod.mk.inj (Option.some.inj hrun)
    exact ⟨h.version, h.self, h.staged, h.peer, h.prev⟩
  | promoteSelfKey =>
    obtain ⟨rfl, -⟩ := Prod.mk.inj (Option.some.inj hrun)
    rw [ExpresslaneSession.promoteSelfKey, h.staged]
    exact h
  | encrypt counter sessionId plainText iv isEncoded out left =>
    obtain ⟨⟨s₁, out', result⟩, hencrypt, hrun⟩ := Option.bind_eq_some_iff.1 hrun
    obtain ⟨rfl, -⟩ := Prod.mk.inj (Option.some.inj hrun)
    cases result with
    | error e =>
      rw [ExpresslaneSession.encrypt_error A s _ _ _ _ _ _ hencrypt]
      exact h
    | ok n =>
      obtain ⟨-, -, rfl, -⟩ := ExpresslaneSession.encrypt_ok A s _ _ _ _ _ _ hencrypt
      exact ⟨h.version, h.self, h.staged, h.peer, h.prev⟩
  | decrypt sessionId wirePacket out left leftPrev =>
    obtain ⟨⟨s₁, out', result⟩, hdecrypt, hrun⟩ := Option.bind_eq_some_iff.1 hrun
    obtain ⟨rfl, -⟩ := Prod.mk.inj (Option.some.inj hrun)
    rcases result with e | ⟨n, b⟩
    · rw [ExpresslaneSession.decrypt_error A s _ hdecrypt]
      exact h
    · obtain ⟨hdr, body, call, plain, -, -, -, rfl, -⟩ :=
        ExpresslaneSession.decrypt_ok A s _ hdecrypt
      exact ⟨h.version, h.self, h.staged, h.peer, h.prev⟩

/-- A process whose session has these keys and no others. -/
def HasKeyed (data : ExpresslaneCbData) (session : ℕ) (p : Process) : Prop :=
  ∃ s, p.sessions session = some s ∧ Keyed data s

/-- A session is changed, by an operation that keeps the keys if it is this one. -/
theorem HasKeyed.update (h : HasKeyed data session p) {session' : ℕ} {op : Op}
    {fresh : List Event} (hlive : p.sessions session' = some s)
    (hrun : op.run A s = some (s', fresh)) (hop : session' = session → changesKeys op = false)
    (hp' : p'.sessions = Function.update p.sessions session' (some s')) :
    HasKeyed data session p' := by
  obtain ⟨t, ht, hkeyed⟩ := h
  rcases eq_or_ne session session' with rfl | hne
  · obtain rfl := Option.some.inj (ht.symm.trans hlive)
    exact ⟨s', by rw [hp', Function.update_self], hkeyed.step hrun (hop rfl)⟩
  · exact ⟨t, by rw [hp', Function.update_of_ne hne, ht], hkeyed⟩

theorem HasKeyed.call (h : HasKeyed data session p) {call : Call} {r : Reply}
    (hkeeps : keepsKeys session call) (heffect : Effect A p call p' r) :
    HasKeyed data session p' := by
  cases heffect with
  | idle _ => exact h
  | @created version address _ _ hfresh =>
    obtain ⟨t, ht, hkeyed⟩ := h
    have hne : session ≠ address := by
      rintro rfl
      rw [hfresh] at ht
      cases ht
    exact ⟨t, (Function.update_of_ne hne _ _).trans ht, hkeyed⟩
  | @destroyed session' _ =>
    obtain ⟨t, ht, hkeyed⟩ := h
    exact ⟨t, (Function.update_of_ne (Ne.symm hkeeps) _ _).trans ht, hkeyed⟩
  | managed hcall _ hlive hrun _ =>
    refine h.update hlive hrun (fun hsession => ?_) rfl
    cases hcall with
    | reserveCounter | promoteSelfKey => rfl
    | setNextSelfKey session' key => exact absurd hsession hkeeps
    | setPeerKey session' key => exact absurd hsession hkeeps
  | @encrypted x t t' out' result _ hlive hrun =>
    have hop : ∃ fresh, (Op.encrypt x.counter (loadVector p.bytes x.sessionId 8)
        (load p.bytes x.plainText x.plainTextLen) (loadVector p.bytes x.iv 12) x.isEncoded
        (load p.bytes x.out x.outCapacity) x.left).run A t = some (t', fresh) :=
      ⟨_, by rw [Op.run, hrun]; rfl⟩
    obtain ⟨fresh, hop⟩ := hop
    refine h.update hlive hop (fun _ => rfl) ?_
    cases result <;> rfl
  | @decrypted x t t' out' result _ hlive hrun =>
    have hop : ∃ fresh, (Op.decrypt (loadVector p.bytes x.sessionId 8)
        (load p.bytes x.wirePacket x.wirePacketLen) (load p.bytes x.out x.outCapacity) x.left
        x.leftPrev).run A t = some (t', fresh) := ⟨_, by rw [Op.run, hrun]; rfl⟩
    obtain ⟨fresh, hop⟩ := hop
    refine h.update hlive hop (fun _ => rfl) ?_
    cases result <;> rfl

theorem Uses.hasKeyed (h : Uses A session p l p' l') (hkeyed : HasKeyed data session p) :
    HasKeyed data session p' := by
  induction h with
  | refl => exact hkeyed
  | program _ _ _ _ ih => exact ih
  | call _ _ hkeeps hcall ih => exact ih.call hkeeps (Call.effect hcall)

end Uses

/-! ## The traffic -/

/-- Whatever the process `p` seals on its session, the process `q` can open on its own: after any
use of the two, a packet that `q` finds in its memory, perhaps with bytes behind it, is decrypted to
the plaintext, unless its counter was received before or is 8192 or more below one that was. -/
def Carries (A : Aead) (session : ℕ) (p : Process) (l : Ledger) (session' : ℕ) (q : Process)
    (k : Ledger) : Prop :=
  ∀ ⦃p₁ p₂ q₁ : Process⦄ ⦃l₁ k₁ : Ledger⦄, Uses A session p l p₁ l₁ → Uses A session' q k q₁ k₁ →
    ∀ ⦃x : EncryptParams⦄ ⦃y : DecryptParams⦄ ⦃record : Record⦄ ⦃trailing : Bytes⦄,
      x.session = session → y.session = session' →
      heExpresslaneEncrypt A p₁ x = some (p₂, .success) →
      k₁ session' = some record → x.counter ∉ record.received.map Prod.fst →
      (∀ c ∈ record.received.map Prod.fst, c.toNat < x.counter.toNat + 8192) →
      load q₁.bytes y.sessionId 8 = load p₁.bytes x.sessionId 8 →
      load q₁.bytes y.wirePacket y.wirePacketLen =
        load p₂.bytes x.out (p₂.lengths x.outLen) ++ trailing →
      y.anyNull = false → y.Apart → x.plainTextLen ≤ y.outCapacity →
      ∃ q₂, heExpresslaneDecrypt A q₁ y = some (q₂, .success) ∧
        q₂.lengths y.outLen = x.plainTextLen ∧ q₂.flags y.isEncoded = x.isEncoded ∧
        load q₂.bytes y.out x.plainTextLen = load p₁.bytes x.plainText x.plainTextLen

section Traffic

variable {A : Aead} {data data' : ExpresslaneCbData}

/-- With one key, there is none to confuse it with. -/
theorem keySeparation_of_keyed {s : ExpresslaneSession} (h : Keyed data s) :
    KeySeparation A s.rx := by
  intro c c' hc hc' hne
  rw [h.peer, h.prev] at hc hc'
  simp only [Option.some.injEq, reduceCtorEq, or_false] at hc hc'
  exact absurd (hc.symm.trans hc') hne

theorem carries_of_keyed {session session' : ℕ} {p q : Process} {l k : Ledger} (hq : Run A q k)
    (hp : HasKeyed data session p) (hkeyed : HasKeyed data' session' q)
    (hversion : data'.version = data.version) (hkey : data'.peerKey = data.selfKey) :
    Carries A session p l session' q k := by
  intro p₁ p₂ q₁ l₁ k₁ huses huses' x y record trailing hx hy hencrypt hrecord hfresh hwindow hid
    hwire hnull hapart hroom
  subst hx hy
  obtain ⟨sender, hsender, hself⟩ := huses.hasKeyed hp
  obtain ⟨receiver, hreceiver, hpeer⟩ := huses'.hasKeyed hkeyed
  have hrun := huses'.run hq
  obtain ⟨record', hrecord', hacc⟩ := hrun.balanced.exists_record hreceiver
  obtain rfl := Option.some.inj (hrecord.symm.trans hrecord')
  obtain ⟨events, hreach, -⟩ := hacc.history
  have hawaits : Awaits A receiver sender record x.counter :=
    { version := by rw [hself.version, ← hreach.version_eq, hpeer.version, hversion]
      key := ⟨_, hself.self, Or.inl (by rw [hpeer.peer, hkey])⟩
      separation := keySeparation_of_keyed hpeer
      fresh := hfresh
      window := hwindow }
  exact exists_decrypt_of_encrypt hsender hencrypt hrun hreceiver hrecord hawaits hid hwire hnull
    hapart hroom

/-- **Key delivery.** Two ends are given usable keys of one version, each other's as send and
receive key. Both hosts end up with a session that has valid keys, with every call a success, and no
byte of the keys is left on the clients' stacks. Until a host changes the keys of its session or
destroys it, each end can open what the other one seals. -/
theorem key_delivery (a b : End A) (sessionId : Vector UInt8 8) (hdata : Usable data)
    (hversion : data'.version = data.version) (hself : data'.selfKey = data.peerKey)
    (hpeer : data'.peerKey = data.selfKey) :
    ∃ p q, update a.process a.stack (installKeys a.address) sessionId data =
        some (p, a.address, .success, .success) ∧
      update b.process b.stack (installKeys b.address) sessionId data' =
        some (q, b.address, .success, .success) ∧
      heExpresslaneHasValidKeys p a.address = some (p, true) ∧
      heExpresslaneHasValidKeys q b.address = some (q, true) ∧
      load p.bytes (a.stack + 8) 64 = List.replicate 64 0 ∧
      load q.bytes (b.stack + 8) 64 = List.replicate 64 0 ∧
      Carries A a.address p (a.opened data.version) b.address q (b.opened data.version) ∧
      Carries A b.address q (b.opened data.version) a.address p (a.opened data.version) := by
  have hdata' : Usable data' :=
    ⟨hversion ▸ hdata.version_ne, hself ▸ hdata.peerKey_valid, hpeer ▸ hdata.selfKey_valid⟩
  obtain ⟨p, s, hp, hrunp, hlivep, hkeyedp, hvalidp, hscrubp⟩ := exists_update a sessionId hdata
  obtain ⟨q, t, hq, hrunq, hliveq, hkeyedq, hvalidq, hscrubq⟩ := exists_update b sessionId hdata'
  rw [hversion] at hrunq
  refine ⟨p, q, hp, hq, ?_, ?_, hscrubp, hscrubq, ?_, ?_⟩
  · rw [heExpresslaneHasValidKeys, inspect_live a.address_ne hlivep, hvalidp]
  · rw [heExpresslaneHasValidKeys, inspect_live b.address_ne hliveq, hvalidq]
  · exact carries_of_keyed hrunq ⟨s, hlivep, hkeyedp⟩ ⟨t, hliveq, hkeyedq⟩ hversion hpeer
  · exact carries_of_keyed hrunp ⟨t, hliveq, hkeyedq⟩ ⟨s, hlivep, hkeyedp⟩ hversion.symm hself.symm

end Traffic

/-- A host that has just started. -/
def sampleEnd : End keyTagAead where
  process := ⟨fun _ => 7, fun _ => 0, fun _ => false, fun _ => none⟩
  ledger _ := none
  run := .start _ fun _ => rfl
  stack := 5000
  address := 1
  address_ne := by decide
  fresh := rfl

/-- Two such hosts. -/
theorem key_delivery_sampleEnd : ∃ p q,
    update sampleEnd.process 5000 (installKeys 1) (Vector.replicate 8 3)
        ⟨constKey 1, constKey 2, .version2⟩ = some (p, 1, .success, .success) ∧
      update sampleEnd.process 5000 (installKeys 1) (Vector.replicate 8 3)
        ⟨constKey 2, constKey 1, .version2⟩ = some (q, 1, .success, .success) ∧
      Carries keyTagAead 1 p (sampleEnd.opened .version2) 1 q (sampleEnd.opened .version2) := by
  have husable : Usable ⟨constKey 1, constKey 2, .version2⟩ := ⟨by decide, by decide, by decide⟩
  obtain ⟨p, q, hp, hq, -, -, -, -, hcarries, -⟩ := @key_delivery keyTagAead _
    ⟨constKey 2, constKey 1, .version2⟩ sampleEnd sampleEnd (Vector.replicate 8 3) husable rfl rfl
    rfl
  exact ⟨p, q, hp, hq, hcarries⟩

/-! ## The metrics -/

/-- **The health monitor is told the traffic of the host.** In every run of a host, with the
callback that the documentation of `he_expresslane_metrics_cb_t` describes and whatever session id
lightway-core asks for, the counters are the numbers of packets sent and received on the session. -/
theorem getStats_exact {A : Aead} {p : Process} {l : Ledger} (h : Run A p l) {session : ℕ}
    {r : Record} (hr : l session = some r) (sessionId : Vector UInt8 8) :
    getStats p (metricsCb session) sessionId =
      some (p, BitVec.ofNat 64 r.sent.length, BitVec.ofNat 64 r.received.length) := by
  have hcb : metricsCb session p sessionId =
      some (p, .success, BitVec.ofNat 64 r.sent.length, BitVec.ofNat 64 r.received.length) := by
    rw [metricsCb, h.packetsSent_eq hr]
    simp only [Option.bind_eq_bind, Option.bind_some, h.packetsReceived_eq hr]
    rfl
  rw [getStats, hcb]
  rfl

end LightwayCffi.Offload
