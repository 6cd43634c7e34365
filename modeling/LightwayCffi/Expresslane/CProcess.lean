import LightwayCffi.Expresslane.CApi

/-!
# Calls of the C interface

`Call.run` is one call of a process, and `Effect` says once what a call can do: which of the
sessions it runs an operation on, and what it stores. `call_footprint` is what a caller can rely on:
a call stays within the buffer and the out-parameters it was given, it does not touch the other
sessions, it does not panic, and a call that fails leaves the sessions alone and the out-parameters
at their defaults.
-/

namespace LightwayCffi.Expresslane

open Buffer Memory

/-! ## The buffers of one packet -/

/-- The first `n` bytes of a buffer were written, and the others were left alone. -/
def Fills (out out' : Bytes) (n : ℕ) : Prop :=
  ∃ written : Bytes, written.length = n ∧ n ≤ out.length ∧ out' = written ++ out.drop n

theorem Fills.length_eq {out out' : Bytes} {n : ℕ} (h : Fills out out' n) :
    out'.length = out.length := by
  obtain ⟨written, hlen, hle, rfl⟩ := h
  rw [List.length_append, List.length_drop]
  omega

theorem Fills.le {out out' : Bytes} {n : ℕ} (h : Fills out out' n) : n ≤ out'.length := by
  obtain ⟨written, hlen, -, rfl⟩ := h
  rw [List.length_append]
  omega

namespace ExpresslaneSession

section Frame

variable {A : Aead} {s s' : ExpresslaneSession} {sessionId : Vector UInt8 8} {out out' : Bytes}

/-- `encrypt` stays within its buffer, and a packet is as long as it says. -/
theorem encrypt_frame {counter : BitVec 64} {plainText : Bytes} {iv : Vector UInt8 12}
    {isEncoded : Bool} {left : Leftover} {result : Except ExpresslaneError ℕ}
    (h : s.encrypt A counter sessionId plainText iv isEncoded out left =
      some (s', out', result)) :
    out'.length = out.length ∧ ∀ n, result = .ok n → Fills out out' n := by
  rw [encrypt_eq] at h
  split_ifs at h with hroom hlong hkey
  · obtain ⟨-, rfl, rfl⟩ := by simpa using h
    exact ⟨rfl, fun n hn => nomatch hn⟩
  · obtain ⟨-, rfl, rfl⟩ := by simpa using h
    exact ⟨rfl, fun n hn => nomatch hn⟩
  · obtain ⟨-, rfl, rfl⟩ := by simpa using h
    exact ⟨rfl, fun n hn => nomatch hn⟩
  cases hseal : s.sealPacket A counter sessionId plainText iv isEncoded with
  | none =>
    rw [hseal] at h
    obtain ⟨-, rfl, rfl⟩ := by simpa using h
    exact ⟨(getElem?_scrubbed plainText iv out (Nat.le_of_not_lt hroom)).1, fun n hn => nomatch hn⟩
  | some call =>
    rw [hseal] at h
    simp only [Option.some.injEq, Prod.mk.injEq] at h
    obtain ⟨-, rfl, rfl⟩ := h
    have hct : call.ciphertext.length = plainText.length := by
      obtain ⟨-, cipher, -, hcall⟩ := sealPacket_eq_some A s _ _ _ _ _ hseal
      exact A.length_seal hcall
    have hfills : Fills out ((headerOf counter plainText isEncoded call).encode ++
        (call.ciphertext ++ out.drop (40 + plainText.length))) (40 + plainText.length) :=
      ⟨(headerOf counter plainText isEncoded call).encode ++ call.ciphertext, by simp [hct],
        Nat.le_of_not_lt hroom, (List.append_assoc _ _ _).symm⟩
    refine ⟨hfills.length_eq, fun n hn => ?_⟩
    rwa [← Except.ok.inj hn]

/-- `decrypt` stays within its buffer, and a plaintext is as long as it says. -/
theorem decrypt_frame {wire : Bytes} {left leftPrev : Leftover}
    {result : Except ExpresslaneError (ℕ × Bool)}
    (h : s.decrypt A sessionId wire out left leftPrev = some (s', out', result)) :
    out'.length = out.length ∧ ∀ r, result = .ok r → Fills out out' r.1 := by
  rcases decrypt_cases s sessionId wire out with ⟨-, e, hrun⟩ | ⟨hdr, body, hatt, -, hbody, hrun⟩
  · rw [hrun A left leftPrev] at h
    obtain ⟨-, rfl, rfl⟩ := by simpa using h
    exact ⟨rfl, fun r hr => nomatch hr⟩
  rw [hrun A left leftPrev] at h
  cases hopen : s.openPacket A sessionId hdr body with
  | none =>
    rw [hopen] at h
    obtain ⟨-, rfl, rfl⟩ := by simpa using h
    refine ⟨?_, fun r hr => nomatch hr⟩
    have := hatt.room
    rw [List.length_append, List.length_replicate, List.length_drop]
    omega
  | some opened =>
    rw [hopen] at h
    simp only [Option.some.injEq, Prod.mk.injEq] at h
    obtain ⟨-, rfl, rfl⟩ := h
    have hfills : Fills out (opened.2 ++ out.drop hdr.dataLen.toNat) hdr.dataLen.toNat :=
      ⟨opened.2, length_openPacket A s sessionId hdr hopen hbody, hatt.room, rfl⟩
    refine ⟨hfills.length_eq, fun r hr => ?_⟩
    rwa [← Except.ok.inj hr]

theorem exists_encrypt (A : Aead) (s : ExpresslaneSession) (counter : BitVec 64)
    (sessionId : Vector UInt8 8) (plainText : Bytes) (iv : Vector UInt8 12) (isEncoded : Bool)
    (out : Bytes) (left : Leftover) :
    ∃ s' out' result,
      s.encrypt A counter sessionId plainText iv isEncoded out left = some (s', out', result) :=
  ⟨_, _, _, encrypt_eq A s counter sessionId plainText iv isEncoded out left⟩

theorem exists_decrypt (A : Aead) (s : ExpresslaneSession) (sessionId : Vector UInt8 8)
    (wire out : Bytes) (left leftPrev : Leftover) :
    ∃ s' out' result,
      s.decrypt A sessionId wire out left leftPrev = some (s', out', result) := by
  rcases decrypt_cases s sessionId wire out with ⟨-, e, hrun⟩ | ⟨hdr, body, -, -, -, hrun⟩
  · exact ⟨_, _, _, hrun A left leftPrev⟩
  · exact ⟨_, _, _, hrun A left leftPrev⟩

end Frame

end ExpresslaneSession

namespace Process

/-! ## One call -/

/-- A call of the C interface. -/
inductive Call where
  | create (version : UInt8) (address : ℕ)
  | destroy (session : ℕ)
  | reserveCounter (session : ℕ)
  | setNextSelfKey (session key : ℕ)
  | promoteSelfKey (session : ℕ)
  | packetsSent (session : ℕ)
  | encrypt (x : EncryptParams)
  | setPeerKey (session key : ℕ)
  | hasValidKeys (session : ℕ)
  | packetsReceived (session : ℕ)
  | decrypt (x : DecryptParams)

/-- What a call returns. -/
inductive Reply where
  | handle (session : ℕ)
  | void
  | count (n : BitVec 64)
  | flag (b : Bool)
  | code (code : HeExpresslaneReturnCode)
  deriving DecidableEq

/-- Wrap what a function returns. -/
def reply {R : Type} (wrap : R → Reply) (r : Option (Process × R)) : Option (Process × Reply) :=
  r.map fun r => (r.1, wrap r.2)

/-- One call. -/
def Call.run (A : Aead) (p : Process) : Call → Option (Process × Reply)
  | .create version address => reply .handle (heExpresslaneSessionCreate p version address)
  | .destroy session => reply (fun _ => .void) (heExpresslaneSessionDestroy p session)
  | .reserveCounter session => reply .count (heExpresslaneReserveCounter p session)
  | .setNextSelfKey session key => reply .code (heExpresslaneSetNextSelfKey p session key)
  | .promoteSelfKey session => reply (fun _ => .void) (heExpresslanePromoteSelfKey p session)
  | .packetsSent session => reply .count (heExpresslanePacketsSent p session)
  | .encrypt x => reply .code (heExpresslaneEncrypt A p x)
  | .setPeerKey session key => reply .code (heExpresslaneSetPeerKey p session key)
  | .hasValidKeys session => reply .flag (heExpresslaneHasValidKeys p session)
  | .packetsReceived session => reply .count (heExpresslanePacketsReceived p session)
  | .decrypt x => reply .code (heExpresslaneDecrypt A p x)

/-- The handle that a call is about. -/
def Call.session : Call → ℕ
  | .create _ session | .destroy session | .reserveCounter session | .setNextSelfKey session _
  | .promoteSelfKey session | .packetsSent session | .setPeerKey session _
  | .hasValidKeys session | .packetsReceived session => session
  | .encrypt x => x.session
  | .decrypt x => x.session

/-- The buffer that a call may write, and its capacity. -/
def Call.outBuffer : Call → ℕ × ℕ
  | .encrypt x => (x.out, x.outCapacity)
  | .decrypt x => (x.out, x.outCapacity)
  | _ => (0, 0)

/-- The length that a call stores. -/
def Call.outLen : Call → Option ℕ
  | .encrypt x => some x.outLen
  | .decrypt x => some x.outLen
  | _ => none

/-- The flag that a call stores. -/
def Call.outFlag : Call → Option ℕ
  | .decrypt x => some x.isEncoded
  | _ => none

/-- The operations that a call may run on a session without a packet. -/
inductive Manages (p : Process) : Call → Op → Prop
  | reserveCounter (session : ℕ) : Manages p (.reserveCounter session) .reserveCounter
  | setNextSelfKey (session key : ℕ) :
    Manages p (.setNextSelfKey session key) (.updateNextSelfKey ⟨loadVector p.bytes key 32⟩)
  | promoteSelfKey (session : ℕ) : Manages p (.promoteSelfKey session) .promoteSelfKey
  | setPeerKey (session key : ℕ) :
    Manages p (.setPeerKey session key) (.updatePeerKey ⟨loadVector p.bytes key 32⟩)

/-- A call that returns without looking further than its arguments and the session. -/
def Idle : Call → Reply → Prop
  | .create _ _, reply => reply = .handle 0
  | .destroy session, reply => session = 0 ∧ reply = .void
  | _, .code code => code = .errNullPointer
  | _, _ => True

/-- What a call can do. -/
inductive Effect (A : Aead) (p : Process) : Call → Process → Reply → Prop
  | idle {call : Call} {reply : Reply} (h : Idle call reply) : Effect A p call p reply
  | created {version : UInt8} {address : ℕ} (hversion : ExpresslaneVersion.ofU8 version ≠ .unknown)
    (haddress : address ≠ 0) (hfresh : p.sessions address = none) :
    Effect A p (.create version address)
      (p.storeSession address (.new (ExpresslaneVersion.ofU8 version))) (.handle address)
  | destroyed {session : ℕ} (hsession : session ≠ 0) :
    Effect A p (.destroy session)
      { p with sessions := Function.update p.sessions session none } .void
  | managed {call : Call} {op : Op} {s s' : ExpresslaneSession} {reply : Reply}
    (hcall : Manages p call op) (hsession : call.session ≠ 0)
    (hlive : p.sessions call.session = some s) (hrun : op.run A s = some (s', []))
    (hreply : ∀ code, reply = .code code →
      code = .success ∨ (s' = s ∧ ∃ e, code = .ofError e)) :
    Effect A p call (p.storeSession call.session s') reply
  | encrypted {x : EncryptParams} {s s' : ExpresslaneSession} {out' : Bytes}
    {result : Except ExpresslaneError ℕ} (hsession : x.session ≠ 0)
    (hlive : p.sessions x.session = some s)
    (hrun : s.encrypt A x.counter (loadVector p.bytes x.sessionId 8)
      (load p.bytes x.plainText x.plainTextLen) (loadVector p.bytes x.iv 12) x.isEncoded
      (load p.bytes x.out x.outCapacity) x.left = some (s', out', result)) :
    Effect A p (.encrypt x) (x.finish p s' out' result).1
      (.code (x.finish p s' out' result).2)
  | decrypted {x : DecryptParams} {s s' : ExpresslaneSession} {out' : Bytes}
    {result : Except ExpresslaneError (ℕ × Bool)} (hsession : x.session ≠ 0)
    (hlive : p.sessions x.session = some s)
    (hrun : s.decrypt A (loadVector p.bytes x.sessionId 8)
      (load p.bytes x.wirePacket x.wirePacketLen) (load p.bytes x.out x.outCapacity) x.left
      x.leftPrev = some (s', out', result)) :
    Effect A p (.decrypt x) (x.finish p s' out' result).1
      (.code (x.finish p s' out' result).2)

section Effect

variable {A : Aead} {p p' : Process} {call : Call} {r : Reply}

theorem effect_of_inspect {R : Type} {session : ℕ} {default : R} {f : ExpresslaneSession → R}
    {wrap : R → Reply} (hidle : ∀ v, Idle call (wrap v))
    (h : reply wrap (inspect p session default f) = some (p', r)) : Effect A p call p' r := by
  obtain ⟨⟨q, v⟩, hv, heq⟩ := Option.map_eq_some_iff.1 h
  obtain ⟨rfl, rfl⟩ := Prod.mk.inj heq
  have hq : q = p := by
    rw [inspect] at hv
    split_ifs at hv
    · exact (congrArg Prod.fst (Option.some.inj hv)).symm
    · obtain ⟨s, -, hs⟩ := Option.map_eq_some_iff.1 hv
      exact (congrArg Prod.fst hs).symm
  subst hq
  exact .idle (hidle v)

theorem effect_of_setKey {session key : ℕ} {op : ExpresslaneKey → Op}
    {install : ExpresslaneSession → ExpresslaneKey →
      ExpresslaneSession × Except ExpresslaneError Unit}
    (hnull : Idle call (.code .errNullPointer)) (hcall : call.session = session)
    (hmanages : Manages p call (op ⟨loadVector p.bytes key 32⟩))
    (hop : ∀ s key, (op key).run A s = some ((install s key).1, []))
    (hinstall : ∀ s key e, (install s key).2 = .error e → (install s key).1 = s)
    (h : reply .code (setKeyFromPtr p session key install) = some (p', r)) :
    Effect A p call p' r := by
  obtain ⟨⟨q, code⟩, hv, heq⟩ := Option.map_eq_some_iff.1 h
  obtain ⟨rfl, rfl⟩ := Prod.mk.inj heq
  by_cases hz : session = 0 ∨ key = 0
  · rw [setKeyFromPtr, if_pos hz] at hv
    obtain ⟨rfl, rfl⟩ := Prod.mk.inj (Option.some.inj hv)
    exact .idle hnull
  obtain ⟨hsession, hkey⟩ := not_or.1 hz
  cases hlive : p.sessions session with
  | none =>
    rw [setKeyFromPtr, if_neg hz, hlive] at hv
    cases hv
  | some s =>
    rw [setKeyFromPtr_eq hsession hkey hlive] at hv
    obtain ⟨rfl, rfl⟩ := Prod.mk.inj (Option.some.inj hv)
    subst hcall
    refine .managed hmanages hsession hlive (hop s _) fun code hcode => ?_
    rw [← Reply.code.inj hcode]
    cases hres : (install s ⟨loadVector p.bytes key 32⟩).2 with
    | ok u => exact Or.inl rfl
    | error e => exact Or.inr ⟨hinstall s _ e hres, e, rfl⟩

theorem updateNextSelfKey_error (s : ExpresslaneSession) (key : ExpresslaneKey)
    {e : ExpresslaneError} (h : (s.updateNextSelfKey key).2 = .error e) :
    (s.updateNextSelfKey key).1 = s := by
  rw [ExpresslaneSession.updateNextSelfKey, Cipher.new_eq] at h ⊢
  split_ifs at h ⊢
  rfl

theorem updatePeerKey_error (s : ExpresslaneSession) (key : ExpresslaneKey)
    {e : ExpresslaneError} (h : (s.updatePeerKey key).2 = .error e) :
    (s.updatePeerKey key).1 = s := by
  rw [ExpresslaneSession.updatePeerKey, Cipher.new_eq] at h ⊢
  split_ifs at h ⊢
  rfl

theorem effect_of_encrypt {x : EncryptParams}
    (h : reply .code (heExpresslaneEncrypt A p x) = some (p', r)) :
    Effect A p (.encrypt x) p' r := by
  obtain ⟨⟨q, code⟩, hv, heq⟩ := Option.map_eq_some_iff.1 h
  obtain ⟨rfl, rfl⟩ := Prod.mk.inj heq
  cases hnull : x.anyNull with
  | true =>
    rw [heExpresslaneEncrypt, if_pos hnull] at hv
    obtain ⟨rfl, rfl⟩ := Prod.mk.inj (Option.some.inj hv)
    exact .idle rfl
  | false =>
    have hsession : x.session ≠ 0 := by
      simp only [EncryptParams.anyNull, Bool.or_eq_false_iff, decide_eq_false_iff_not] at hnull
      exact hnull.1.1.1.1.1
    by_cases hapart : x.Apart
    · cases hlive : p.sessions x.session with
      | none =>
        rw [heExpresslaneEncrypt, if_neg (by simp [hnull]), if_neg (not_not.2 hapart)] at hv
        simp [storeLength, hlive] at hv
      | some s =>
        obtain ⟨s', out', result, hrun⟩ := s.exists_encrypt A x.counter
          (loadVector p.bytes x.sessionId 8) (load p.bytes x.plainText x.plainTextLen)
          (loadVector p.bytes x.iv 12) x.isEncoded (load p.bytes x.out x.outCapacity) x.left
        rw [heExpresslaneEncrypt_eq hnull hapart hlive hrun] at hv
        have hfinish := Option.some.inj hv
        have heffect := Effect.encrypted hsession hlive hrun
        rwa [hfinish] at heffect
    · rw [heExpresslaneEncrypt, if_neg (by simp [hnull]), if_pos hapart] at hv
      cases hv

theorem effect_of_decrypt {x : DecryptParams}
    (h : reply .code (heExpresslaneDecrypt A p x) = some (p', r)) :
    Effect A p (.decrypt x) p' r := by
  obtain ⟨⟨q, code⟩, hv, heq⟩ := Option.map_eq_some_iff.1 h
  obtain ⟨rfl, rfl⟩ := Prod.mk.inj heq
  cases hnull : x.anyNull with
  | true =>
    rw [heExpresslaneDecrypt, if_pos hnull] at hv
    obtain ⟨rfl, rfl⟩ := Prod.mk.inj (Option.some.inj hv)
    exact .idle rfl
  | false =>
    have hsession : x.session ≠ 0 := by
      simp only [DecryptParams.anyNull, Bool.or_eq_false_iff, decide_eq_false_iff_not] at hnull
      exact hnull.1.1.1.1.1
    by_cases hapart : x.Apart
    · cases hlive : p.sessions x.session with
      | none =>
        rw [heExpresslaneDecrypt, if_neg (by simp [hnull]), if_neg (not_not.2 hapart)] at hv
        simp [storeLength, storeFlag, hlive] at hv
      | some s =>
        obtain ⟨s', out', result, hrun⟩ := s.exists_decrypt A
          (loadVector p.bytes x.sessionId 8) (load p.bytes x.wirePacket x.wirePacketLen)
          (load p.bytes x.out x.outCapacity) x.left x.leftPrev
        rw [heExpresslaneDecrypt_eq hnull hapart hlive hrun] at hv
        have hfinish := Option.some.inj hv
        have heffect := Effect.decrypted hsession hlive hrun
        rwa [hfinish] at heffect
    · rw [heExpresslaneDecrypt, if_neg (by simp [hnull]), if_pos hapart] at hv
      cases hv

/-- The inversion of a call. -/
theorem Call.effect (h : call.run A p = some (p', r)) : Effect A p call p' r := by
  cases call with
  | create version address =>
    obtain ⟨⟨q, v⟩, hv, heq⟩ := Option.map_eq_some_iff.1 h
    obtain ⟨rfl, rfl⟩ := Prod.mk.inj heq
    rw [heExpresslaneSessionCreate] at hv
    split_ifs at hv with hversion haddress
    · obtain ⟨rfl, rfl⟩ := Prod.mk.inj (Option.some.inj hv)
      exact .idle rfl
    · obtain ⟨rfl, rfl⟩ := Prod.mk.inj (Option.some.inj hv)
      obtain ⟨hne, hfresh⟩ := not_or.1 haddress
      exact .created hversion hne (Option.not_isSome_iff_eq_none.1 hfresh)
  | destroy session =>
    obtain ⟨⟨q, v⟩, hv, heq⟩ := Option.map_eq_some_iff.1 h
    obtain ⟨rfl, rfl⟩ := Prod.mk.inj heq
    rw [heExpresslaneSessionDestroy] at hv
    split_ifs at hv with hz
    · obtain ⟨rfl, -⟩ := Prod.mk.inj (Option.some.inj hv)
      exact .idle ⟨hz, rfl⟩
    · obtain ⟨s, -, hs⟩ := Option.map_eq_some_iff.1 hv
      obtain ⟨rfl, -⟩ := Prod.mk.inj hs
      exact .destroyed hz
  | reserveCounter session =>
    obtain ⟨⟨q, v⟩, hv, heq⟩ := Option.map_eq_some_iff.1 h
    obtain ⟨rfl, rfl⟩ := Prod.mk.inj heq
    rw [heExpresslaneReserveCounter] at hv
    split_ifs at hv with hz
    · obtain ⟨rfl, -⟩ := Prod.mk.inj (Option.some.inj hv)
      exact .idle trivial
    · obtain ⟨s, hlive, hs⟩ := Option.map_eq_some_iff.1 hv
      obtain ⟨rfl, -⟩ := Prod.mk.inj hs
      exact .managed (.reserveCounter session) hz hlive rfl fun code hcode => nomatch hcode
  | promoteSelfKey session =>
    obtain ⟨⟨q, v⟩, hv, heq⟩ := Option.map_eq_some_iff.1 h
    obtain ⟨rfl, rfl⟩ := Prod.mk.inj heq
    rw [heExpresslanePromoteSelfKey] at hv
    split_ifs at hv with hz
    · obtain ⟨rfl, -⟩ := Prod.mk.inj (Option.some.inj hv)
      exact .idle trivial
    · obtain ⟨s, hlive, hs⟩ := Option.map_eq_some_iff.1 hv
      obtain ⟨rfl, -⟩ := Prod.mk.inj hs
      exact .managed (.promoteSelfKey session) hz hlive rfl fun code hcode => nomatch hcode
  | setNextSelfKey session key =>
    exact effect_of_setKey rfl rfl (.setNextSelfKey session key) (fun _ _ => rfl)
      (fun s key _ => updateNextSelfKey_error s key) h
  | setPeerKey session key =>
    exact effect_of_setKey rfl rfl (.setPeerKey session key) (fun _ _ => rfl)
      (fun s key _ => updatePeerKey_error s key) h
  | packetsSent session =>
    refine effect_of_inspect (fun v => ?_) h
    trivial
  | hasValidKeys session =>
    refine effect_of_inspect (fun v => ?_) h
    trivial
  | packetsReceived session =>
    refine effect_of_inspect (fun v => ?_) h
    trivial
  | encrypt x => exact effect_of_encrypt h
  | decrypt x => exact effect_of_decrypt h

end Effect

/-! ## The footprint of a call -/

/-- What a caller can rely on, whatever a call returns. -/
structure Footprint (p : Process) (call : Call) (p' : Process) (r : Reply) : Prop where
  noPanic : r ≠ .code .errPanic
  null : r = .code .errNullPointer → p' = p
  sessions : ∀ session, session ≠ call.session → p'.sessions session = p.sessions session
  bytes : ∀ a, a < call.outBuffer.1 ∨ call.outBuffer.1 + call.outBuffer.2 ≤ a →
    p'.bytes a = p.bytes a
  lengths : ∀ a, call.outLen ≠ some a → p'.lengths a = p.lengths a
  flags : ∀ a, call.outFlag ≠ some a → p'.flags a = p.flags a
  /-- A failure is seen in the out-parameters, and the sessions are as they were. -/
  failed : ∀ e, r = .code (.ofError e) → p'.sessions = p.sessions ∧
    (∀ a, call.outLen = some a → p'.lengths a = 0) ∧
    ∀ a, call.outFlag = some a → p'.flags a = false
  /-- A success has written as many bytes as it says. -/
  succeeded : r = .code .success → ∀ a, call.outLen = some a →
    p'.lengths a ≤ call.outBuffer.2 ∧
    ∀ b, call.outBuffer.1 + p'.lengths a ≤ b → p'.bytes b = p.bytes b

section Footprint

variable {A : Aead} {p p' : Process} {call : Call} {r : Reply} {s s' : ExpresslaneSession}

theorem ofError_ne_success (e : ExpresslaneError) :
    HeExpresslaneReturnCode.ofError e ≠ .success := by
  cases e <;> decide

theorem ofError_ne_errPanic (e : ExpresslaneError) :
    HeExpresslaneReturnCode.ofError e ≠ .errPanic := by
  cases e <;> decide

theorem ofError_ne_errNullPointer (e : ExpresslaneError) :
    HeExpresslaneReturnCode.ofError e ≠ .errNullPointer := by
  cases e <;> decide

/-- A call that does no more than change its session. -/
theorem footprint_of_update {v : Option ExpresslaneSession}
    (hcode : ∀ code, r = .code code → code = .success ∨
      (Function.update p.sessions call.session v = p.sessions ∧ ∃ e, code = .ofError e))
    (hlen : call.outLen = none) (hflag : call.outFlag = none) :
    Footprint p call { p with sessions := Function.update p.sessions call.session v } r where
  noPanic h := by
    rcases hcode _ h with hcode | ⟨-, e, hcode⟩
    · cases hcode
    · exact ofError_ne_errPanic e hcode.symm
  null h := by
    rcases hcode _ h with hcode | ⟨-, e, hcode⟩
    · cases hcode
    · exact absurd hcode.symm (ofError_ne_errNullPointer e)
  sessions _ hne := Function.update_of_ne hne _ _
  bytes _ _ := rfl
  lengths _ _ := rfl
  flags _ _ := rfl
  failed e h := by
    rcases hcode _ h with hcode | ⟨hsame, -⟩
    · exact absurd hcode (ofError_ne_success e)
    · exact ⟨hsame, by simp [hlen], by simp [hflag]⟩
  succeeded _ := by simp [hlen]

/-- A call that writes a packet or a plaintext. -/
theorem footprint_of_packet {out' : Bytes} {n cell : ℕ} {flags' : ℕ → Bool}
    {code : HeExpresslaneReturnCode} (hlive : p.sessions call.session = some s)
    (hlen : call.outLen = some cell) (hout : out'.length = call.outBuffer.2)
    (hflags : ∀ a, call.outFlag ≠ some a → flags' a = p.flags a)
    (hcode : code = .success ∧ Fills (load p.bytes call.outBuffer.1 call.outBuffer.2) out' n ∨
      n = 0 ∧ s' = s ∧ (∀ a, call.outFlag = some a → flags' a = false) ∧ ∃ e, code = .ofError e) :
    Footprint p call
      { bytes := store p.bytes call.outBuffer.1 out'
        lengths := Function.update p.lengths cell n
        flags := flags'
        sessions := Function.update p.sessions call.session (some s') }
      (.code code) where
  noPanic h := by
    rcases hcode with ⟨rfl, -⟩ | ⟨-, -, -, e, rfl⟩
    · cases h
    · exact ofError_ne_errPanic e (Reply.code.inj h)
  null h := by
    rcases hcode with ⟨rfl, -⟩ | ⟨-, -, -, e, rfl⟩
    · cases h
    · exact absurd (Reply.code.inj h) (ofError_ne_errNullPointer e)
  sessions _ hne := Function.update_of_ne hne _ _
  bytes a ha := store_of_outside (hout ▸ ha)
  lengths a ha := Function.update_of_ne (fun h => ha (hlen.trans (congrArg some h.symm))) _ _
  flags := hflags
  failed e h := by
    rcases hcode with ⟨rfl, -⟩ | ⟨rfl, rfl, hflag, -⟩
    · exact absurd (Reply.code.inj h).symm (ofError_ne_success e)
    · refine ⟨?_, fun a ha => ?_, hflag⟩
      · rw [← hlive, Function.update_eq_self]
      · rw [Option.some.inj (ha.symm.trans hlen)]
        exact Function.update_self _ _ _
  succeeded h a ha := by
    rcases hcode with ⟨-, written, rfl, hle, rfl⟩ | ⟨-, -, -, e, rfl⟩
    · rw [Option.some.inj (ha.symm.trans hlen)]
      simp only [Function.update_self]
      rw [length_load] at hle
      refine ⟨hle, fun b hb => ?_⟩
      rw [store_append_drop p.bytes _ hle, store_of_outside (Or.inr hb)]
    · exact absurd (Reply.code.inj h) (ofError_ne_success e)

theorem footprint_of_encrypt {x : EncryptParams} {out' : Bytes}
    {result : Except ExpresslaneError ℕ} (hlive : p.sessions x.session = some s)
    (hrun : s.encrypt A x.counter (loadVector p.bytes x.sessionId 8)
      (load p.bytes x.plainText x.plainTextLen) (loadVector p.bytes x.iv 12) x.isEncoded
      (load p.bytes x.out x.outCapacity) x.left = some (s', out', result)) :
    Footprint p (.encrypt x) (x.finish p s' out' result).1
      (.code (x.finish p s' out' result).2) := by
  obtain ⟨hlen, hfills⟩ := ExpresslaneSession.encrypt_frame hrun
  rw [length_load] at hlen
  cases result with
  | ok n =>
    exact footprint_of_packet hlive rfl hlen (fun _ _ => rfl) (Or.inl ⟨rfl, hfills n rfl⟩)
  | error e =>
    have hs := ExpresslaneSession.encrypt_error A s _ _ _ _ _ _ hrun
    exact footprint_of_packet hlive rfl hlen (fun _ _ => rfl)
      (Or.inr ⟨rfl, hs, fun _ h => (nomatch h), e, rfl⟩)

theorem footprint_of_decrypt {x : DecryptParams} {out' : Bytes}
    {result : Except ExpresslaneError (ℕ × Bool)} (hlive : p.sessions x.session = some s)
    (hrun : s.decrypt A (loadVector p.bytes x.sessionId 8)
      (load p.bytes x.wirePacket x.wirePacketLen) (load p.bytes x.out x.outCapacity) x.left
      x.leftPrev = some (s', out', result)) :
    Footprint p (.decrypt x) (x.finish p s' out' result).1
      (.code (x.finish p s' out' result).2) := by
  obtain ⟨hlen, hfills⟩ := ExpresslaneSession.decrypt_frame hrun
  rw [length_load] at hlen
  have hflags : ∀ b a, Call.outFlag (.decrypt x) ≠ some a →
      Function.update p.flags x.isEncoded b a = p.flags a := fun b a ha =>
    Function.update_of_ne (fun h => ha (congrArg some h.symm)) _ _
  rcases result with e | ⟨n, b⟩
  · have hs := ExpresslaneSession.decrypt_error A s _ hrun
    refine footprint_of_packet hlive rfl hlen (hflags false)
      (Or.inr ⟨rfl, hs, fun a ha => ?_, e, rfl⟩)
    rw [← Option.some.inj ha, Function.update_self]
  · exact footprint_of_packet hlive rfl hlen (hflags b) (Or.inl ⟨rfl, hfills _ rfl⟩)

theorem Idle.code_eq {code : HeExpresslaneReturnCode} (h : Idle call (.code code)) :
    code = .errNullPointer := by
  cases call with
  | create => exact nomatch h
  | destroy => exact nomatch h.2
  | _ => exact h

/-- **What a call does to the process.** Whatever a call returns, it did not panic; it changed at
most the session it was given, the bytes of its buffer and its out-parameters. With a null pointer
nothing has changed; after an error the sessions are as before, the length is 0 and the flag is
`false`; after a success the length is within the capacity and no byte behind it has changed. -/
theorem call_footprint (h : call.run A p = some (p', r)) : Footprint p call p' r := by
  cases Call.effect h with
  | idle hidle =>
    have hcode : ∀ code, r = .code code → code = .errNullPointer := by
      rintro code rfl
      exact hidle.code_eq
    refine ⟨fun hr => (nomatch hcode _ hr), fun _ => rfl, fun _ _ => rfl, fun _ _ => rfl,
      fun _ _ => rfl, fun _ _ => rfl, fun e hr => ?_, fun hr => nomatch hcode _ hr⟩
    exact absurd (hcode _ hr) (ofError_ne_errNullPointer e)
  | created _ _ _ => exact footprint_of_update (fun _ h => nomatch h) rfl rfl
  | destroyed _ => exact footprint_of_update (fun _ h => nomatch h) rfl rfl
  | @managed _ _ s s' _ hcall _ hlive _ hreply =>
    refine footprint_of_update (fun code hr => ?_) (by cases hcall <;> rfl) (by cases hcall <;> rfl)
    refine (hreply code hr).imp_right fun hfailed => ⟨?_, hfailed.2⟩
    rw [hfailed.1, ← hlive, Function.update_eq_self]
  | encrypted _ hlive hrun => exact footprint_of_encrypt hlive hrun
  | decrypted _ hlive hrun => exact footprint_of_decrypt hlive hrun

/-- A memory with keys at 10 and 100, a session id at 200, a nonce at 300 and a plaintext at 400. -/
def sampleBytes (a : ℕ) : UInt8 :=
  if a < 100 then 1 else if a < 200 then 2 else if a < 300 then 3 else if a < 400 then 6
  else UInt8.ofNat (a - 399)

/-- A process with the sender of a packet at the address 1. -/
def senderProcess : Process where
  bytes := sampleBytes
  lengths _ := 5
  flags _ := true
  sessions := Function.update (fun _ => none) 1 (some laggingSender)

/-- It sends three bytes. -/
def sampleEncrypt : EncryptParams where
  session := 1
  counter := 7#64
  sessionId := 200
  plainText := 400
  plainTextLen := 3
  iv := 300
  isEncoded := true
  out := 1000
  outCapacity := 43
  outLen := 8
  left := zeroLeftover

/-- The sender with the packet in its buffer. -/
def sentProcess : Process where
  bytes := store sampleBytes 1000 laggingPacket
  lengths := Function.update (fun _ => 5) 8 43
  flags _ := true
  sessions := Function.update (Function.update (fun _ => none) 1 (some laggingSender)) 1
    (some { laggingSender with packetsSent := 1#64 })

theorem encrypt_sampleEncrypt :
    heExpresslaneEncrypt keyTagAead senderProcess sampleEncrypt = some (sentProcess, .success) := by
  have hlive : senderProcess.sessions sampleEncrypt.session = some laggingSender := rfl
  have hrun : laggingSender.encrypt keyTagAead 7#64 (loadVector sampleBytes 200 8)
      (load sampleBytes 400 3) (loadVector sampleBytes 300 12) true (load sampleBytes 1000 43)
      zeroLeftover = some ({ laggingSender with packetsSent := 1#64 }, laggingPacket, .ok 43) := rfl
  exact heExpresslaneEncrypt_eq (by decide) (by decide) hlive hrun

/-- A packet that is sent stays within its buffer. -/
theorem call_footprint_sampleEncrypt :
    (Call.encrypt sampleEncrypt).run keyTagAead senderProcess =
      some (sentProcess, .code .success) ∧
    Footprint senderProcess (.encrypt sampleEncrypt) sentProcess (.code .success) := by
  have hrun : (Call.encrypt sampleEncrypt).run keyTagAead senderProcess =
      some (sentProcess, .code .success) := by
    rw [Call.run, encrypt_sampleEncrypt]
    rfl
  exact ⟨hrun, call_footprint hrun⟩

end Footprint

end Process

end LightwayCffi.Expresslane
