import LightwayCffi.Expresslane.Contract
import LightwayCffi.Expresslane.RoundTrip
import LightwayCffi.Foundations.Memory

/-!
# The C interface of the packet sessions

`lightway-expresslane-cffi` hands packet sessions out to C: as opaque handles, with buffers passed
as pointer and length, and results stored through pointers. The model is the process that calls it.
A `Process` has a memory of bytes, the `uintptr_t` and `bool` objects that out-parameters point to,
and the live sessions by address; address 0 is the null pointer.

A call is `none` where its documented contract is broken: a handle that is not live, an output
buffer that overlaps an input, an allocator that does not return a fresh block. The body of an
entry point runs under `ffi_guard`, where a panic is a `none` that becomes the function's default;
the functions below keep the out-parameters they had set by then.
-/

namespace LightwayCffi.Expresslane

open Buffer Memory

/-- `he_expresslane_return_code_t`. -/
inductive HeExpresslaneReturnCode where
  | success
  | errNullPointer
  | errBufferTooSmall
  | errInsufficientData
  | errInvalidData
  | errReplayed
  | errKeyNotSet
  | errInvalidKey
  | errPanic
  deriving DecidableEq

/-- `From<ExpresslaneError>`. -/
def HeExpresslaneReturnCode.ofError : ExpresslaneError → HeExpresslaneReturnCode
  | .insufficientData => errInsufficientData
  | .bufferTooSmall => errBufferTooSmall
  | .invalidData => errInvalidData
  | .replayed => errReplayed
  | .keyNotSet => errKeyNotSet
  | .invalidKey => errInvalidKey

/-- `ExpresslaneVersion::from(u8)`. -/
def ExpresslaneVersion.ofU8 (value : UInt8) : ExpresslaneVersion :=
  if value = 1 then .version1 else if value = 2 then .version2 else .unknown

/-- The process that uses the sessions. -/
structure Process where
  bytes : ℕ → UInt8
  /-- the objects of type `uintptr_t` -/
  lengths : ℕ → ℕ
  /-- the objects of type `bool` -/
  flags : ℕ → Bool
  sessions : ℕ → Option ExpresslaneSession

namespace Process

/-- Store through a pointer to `uintptr_t`. -/
def storeLength (p : Process) (address value : ℕ) : Process :=
  { p with lengths := Function.update p.lengths address value }

/-- Store through a pointer to `bool`. -/
def storeFlag (p : Process) (address : ℕ) (value : Bool) : Process :=
  { p with flags := Function.update p.flags address value }

/-- Store a byte buffer. -/
def storeBytes (p : Process) (address : ℕ) (bs : Bytes) : Process :=
  { p with bytes := store p.bytes address bs }

/-- The session behind a handle has changed. -/
def storeSession (p : Process) (session : ℕ) (s : ExpresslaneSession) : Process :=
  { p with sessions := Function.update p.sessions session (some s) }

end Process

/-- `ffi_guard`: a body that panics yields the default and leaves the process as it was. -/
def ffiGuard {R : Type} (p : Process) (default : R) (body : Option (Process × R)) : Process × R :=
  body.getD (p, default)

/-! ## Handles -/

/-- `he_expresslane_session_create`; `address` is the block that the allocator returns. -/
def heExpresslaneSessionCreate (p : Process) (version : UInt8) (address : ℕ) :
    Option (Process × ℕ) :=
  if ExpresslaneVersion.ofU8 version = .unknown then some (p, 0)
  else if address = 0 ∨ (p.sessions address).isSome then none
  else some (p.storeSession address (.new (ExpresslaneVersion.ofU8 version)), address)

/-- `he_expresslane_session_destroy`. -/
def heExpresslaneSessionDestroy (p : Process) (session : ℕ) : Option (Process × Unit) :=
  if session = 0 then some (p, ())
  else (p.sessions session).map fun _ =>
    ({ p with sessions := Function.update p.sessions session none }, ())

/-- The functions that only look at a session, with what they return for a null pointer. -/
def inspect {R : Type} (p : Process) (session : ℕ) (default : R) (f : ExpresslaneSession → R) :
    Option (Process × R) :=
  if session = 0 then some (p, default)
  else (p.sessions session).map fun s => ffiGuard p default (some (p, f s))

/-- `he_expresslane_packets_sent`. -/
def heExpresslanePacketsSent (p : Process) (session : ℕ) : Option (Process × BitVec 64) :=
  inspect p session 0 ExpresslaneSession.packetsSent

/-- `he_expresslane_packets_received`. -/
def heExpresslanePacketsReceived (p : Process) (session : ℕ) : Option (Process × BitVec 64) :=
  inspect p session 0 ExpresslaneSession.packetsReceived

/-- `he_expresslane_has_valid_keys`. -/
def heExpresslaneHasValidKeys (p : Process) (session : ℕ) : Option (Process × Bool) :=
  inspect p session false ExpresslaneSession.hasValidKeys

/-- `he_expresslane_wire_overhead`. -/
def heExpresslaneWireOverhead : ℕ := wireOverhead

/-- `he_expresslane_reserve_counter`. -/
def heExpresslaneReserveCounter (p : Process) (session : ℕ) : Option (Process × BitVec 64) :=
  if session = 0 then some (p, 0)
  else (p.sessions session).map fun s =>
    ffiGuard p 0 (some (p.storeSession session s.reserveCounter.1, s.reserveCounter.2))

/-- `he_expresslane_promote_self_key`. -/
def heExpresslanePromoteSelfKey (p : Process) (session : ℕ) : Option (Process × Unit) :=
  if session = 0 then some (p, ())
  else (p.sessions session).map fun s =>
    ffiGuard p () (some (p.storeSession session s.promoteSelfKey, ()))

/-! ## Keys -/

/-- `set_key_from_ptr`. -/
def setKeyFromPtr (p : Process) (session key : ℕ)
    (install : ExpresslaneSession → ExpresslaneKey →
      ExpresslaneSession × Except ExpresslaneError Unit) :
    Option (Process × HeExpresslaneReturnCode) :=
  if session = 0 ∨ key = 0 then some (p, .errNullPointer)
  else (p.sessions session).map fun s => ffiGuard p .errPanic do
    let keyBytes ← tryInto 32 (load p.bytes key 32)
    match install s ⟨keyBytes⟩ with
    | (s', .ok ()) => pure (p.storeSession session s', .success)
    | (s', .error e) => pure (p.storeSession session s', .ofError e)

/-- `he_expresslane_set_next_self_key`. -/
def heExpresslaneSetNextSelfKey (p : Process) (session key : ℕ) :
    Option (Process × HeExpresslaneReturnCode) :=
  setKeyFromPtr p session key ExpresslaneSession.updateNextSelfKey

/-- `he_expresslane_set_peer_key`. -/
def heExpresslaneSetPeerKey (p : Process) (session key : ℕ) :
    Option (Process × HeExpresslaneReturnCode) :=
  setKeyFromPtr p session key ExpresslaneSession.updatePeerKey

/-! ## Packets -/

/-- The parameters of `he_expresslane_encrypt`; `left` is what a failed seal leaves in the
buffer. -/
structure EncryptParams where
  session : ℕ
  counter : BitVec 64
  sessionId : ℕ
  plainText : ℕ
  plainTextLen : ℕ
  iv : ℕ
  isEncoded : Bool
  out : ℕ
  outCapacity : ℕ
  outLen : ℕ
  left : Leftover

namespace EncryptParams

/-- A pointer that must not be null is null. -/
def anyNull (x : EncryptParams) : Bool :=
  x.session = 0 || x.sessionId = 0 || (x.plainText = 0 && 0 < x.plainTextLen) || x.iv = 0 ||
    x.out = 0 || x.outLen = 0

/-- The output buffer does not overlap the inputs. -/
def Apart (x : EncryptParams) : Prop :=
  Memory.Disjoint x.out x.outCapacity x.sessionId 8 ∧
    Memory.Disjoint x.out x.outCapacity x.plainText x.plainTextLen ∧
    Memory.Disjoint x.out x.outCapacity x.iv 12

instance (x : EncryptParams) : Decidable x.Apart := by
  unfold Apart
  infer_instance

end EncryptParams

/-- `he_expresslane_encrypt`. -/
def heExpresslaneEncrypt (A : Aead) (p : Process) (x : EncryptParams) :
    Option (Process × HeExpresslaneReturnCode) :=
  if x.anyNull then some (p, .errNullPointer)
  else if ¬x.Apart then none
  else
    let p := p.storeLength x.outLen 0
    (p.sessions x.session).map fun s => ffiGuard p .errPanic do
      let sessionId ← tryInto 8 (load p.bytes x.sessionId 8)
      let plainText := if x.plainTextLen = 0 then [] else load p.bytes x.plainText x.plainTextLen
      let iv ← tryInto 12 (load p.bytes x.iv 12)
      let out := load p.bytes x.out x.outCapacity
      let (s', out', result) ← s.encrypt A x.counter sessionId plainText iv x.isEncoded out x.left
      let p := (p.storeSession x.session s').storeBytes x.out out'
      match result with
      | .ok written => pure (p.storeLength x.outLen written, .success)
      | .error e => pure (p, .ofError e)

/-- The parameters of `he_expresslane_decrypt`; `left` and `leftPrev` are what the failed attempts
leave in the buffer. -/
structure DecryptParams where
  session : ℕ
  sessionId : ℕ
  wirePacket : ℕ
  wirePacketLen : ℕ
  out : ℕ
  outCapacity : ℕ
  outLen : ℕ
  isEncoded : ℕ
  left : Leftover
  leftPrev : Leftover

namespace DecryptParams

/-- A pointer that must not be null is null. -/
def anyNull (x : DecryptParams) : Bool :=
  x.session = 0 || x.sessionId = 0 || x.wirePacket = 0 || (x.out = 0 && 0 < x.outCapacity) ||
    x.outLen = 0 || x.isEncoded = 0

/-- The output buffer does not overlap the packet. -/
def Apart (x : DecryptParams) : Prop :=
  Memory.Disjoint x.out x.outCapacity x.wirePacket x.wirePacketLen

instance (x : DecryptParams) : Decidable x.Apart := by
  unfold Apart
  infer_instance

end DecryptParams

/-- `he_expresslane_decrypt`. -/
def heExpresslaneDecrypt (A : Aead) (p : Process) (x : DecryptParams) :
    Option (Process × HeExpresslaneReturnCode) :=
  if x.anyNull then some (p, .errNullPointer)
  else if ¬x.Apart then none
  else
    let p := (p.storeLength x.outLen 0).storeFlag x.isEncoded false
    (p.sessions x.session).map fun s => ffiGuard p .errPanic do
      let sessionId ← tryInto 8 (load p.bytes x.sessionId 8)
      let wire := load p.bytes x.wirePacket x.wirePacketLen
      let out := if x.outCapacity = 0 then [] else load p.bytes x.out x.outCapacity
      let (s', out', result) ← s.decrypt A sessionId wire out x.left x.leftPrev
      let p := (p.storeSession x.session s').storeBytes x.out out'
      match result with
      | .ok (len, encoded) =>
        pure ((p.storeLength x.outLen len).storeFlag x.isEncoded encoded, .success)
      | .error e => pure (p, .ofError e)

/-! ## What the functions do

The accesses of an entry point never leave a buffer, so that its body does not panic. The lemmas
say what a call leaves in the process, in terms of what the session does with the bytes it is
given.
-/

section Spec

variable {A : Aead} {p : Process} {s s' : ExpresslaneSession} {out' : Bytes}

theorem tryInto_load (m : ℕ → UInt8) (a n : ℕ) :
    tryInto n (load m a n) = some (loadVector m a n) := by
  rw [← toList_loadVector, tryInto_toList]

/-- What `he_expresslane_encrypt` leaves, by the result of the session. -/
def EncryptParams.finish (p : Process) (x : EncryptParams) (s' : ExpresslaneSession)
    (out' : Bytes) : Except ExpresslaneError ℕ → Process × HeExpresslaneReturnCode
  | .ok written => (((p.storeSession x.session s').storeBytes x.out out').storeLength x.outLen
      written, .success)
  | .error e => (((p.storeSession x.session s').storeBytes x.out out').storeLength x.outLen 0,
      .ofError e)

theorem heExpresslaneEncrypt_eq {x : EncryptParams} {result : Except ExpresslaneError ℕ}
    (hnull : x.anyNull = false) (hapart : x.Apart) (hlive : p.sessions x.session = some s)
    (hrun : s.encrypt A x.counter (loadVector p.bytes x.sessionId 8)
      (load p.bytes x.plainText x.plainTextLen) (loadVector p.bytes x.iv 12) x.isEncoded
      (load p.bytes x.out x.outCapacity) x.left = some (s', out', result)) :
    heExpresslaneEncrypt A p x = some (x.finish p s' out' result) := by
  have hplain : (if x.plainTextLen = 0 then [] else load p.bytes x.plainText x.plainTextLen) =
      load p.bytes x.plainText x.plainTextLen := by
    split_ifs with h
    · rw [h]
      rfl
    · rfl
  rw [heExpresslaneEncrypt, if_neg (by simp [hnull]), if_neg (not_not.2 hapart)]
  simp only [Process.storeLength, hlive, Option.map_some, tryInto_load, hplain, hrun, ffiGuard,
    Option.bind_eq_bind, Option.bind_some]
  cases result with
  | ok written => simp [EncryptParams.finish, Process.storeSession, Process.storeBytes,
      Process.storeLength]
  | error e => simp [EncryptParams.finish, Process.storeSession, Process.storeBytes,
      Process.storeLength]

/-- What `he_expresslane_decrypt` leaves, by the result of the session. -/
def DecryptParams.finish (p : Process) (x : DecryptParams) (s' : ExpresslaneSession)
    (out' : Bytes) : Except ExpresslaneError (ℕ × Bool) → Process × HeExpresslaneReturnCode
  | .ok (len, encoded) => ((((p.storeSession x.session s').storeBytes x.out out').storeLength
      x.outLen len).storeFlag x.isEncoded encoded, .success)
  | .error e => ((((p.storeSession x.session s').storeBytes x.out out').storeLength
      x.outLen 0).storeFlag x.isEncoded false, .ofError e)

theorem heExpresslaneDecrypt_eq {x : DecryptParams} {result : Except ExpresslaneError (ℕ × Bool)}
    (hnull : x.anyNull = false) (hapart : x.Apart) (hlive : p.sessions x.session = some s)
    (hrun : s.decrypt A (loadVector p.bytes x.sessionId 8)
      (load p.bytes x.wirePacket x.wirePacketLen) (load p.bytes x.out x.outCapacity) x.left
      x.leftPrev = some (s', out', result)) :
    heExpresslaneDecrypt A p x = some (x.finish p s' out' result) := by
  have hout : (if x.outCapacity = 0 then [] else load p.bytes x.out x.outCapacity) =
      load p.bytes x.out x.outCapacity := by
    split_ifs with h
    · rw [h]
      rfl
    · rfl
  rw [heExpresslaneDecrypt, if_neg (by simp [hnull]), if_neg (not_not.2 hapart)]
  simp only [Process.storeLength, Process.storeFlag, hlive, Option.map_some, tryInto_load, hout,
    hrun, ffiGuard, Option.bind_eq_bind, Option.bind_some]
  rcases result with e | ⟨len, encoded⟩
  · simp [DecryptParams.finish, Process.storeSession, Process.storeBytes, Process.storeLength,
      Process.storeFlag]
  · simp [DecryptParams.finish, Process.storeSession, Process.storeBytes, Process.storeLength,
      Process.storeFlag]

/-- `set_key_from_ptr` hands the 32 bytes at `key` to the session. -/
theorem setKeyFromPtr_eq {session key : ℕ} (hsession : session ≠ 0) (hkey : key ≠ 0)
    (hlive : p.sessions session = some s)
    (install : ExpresslaneSession → ExpresslaneKey →
      ExpresslaneSession × Except ExpresslaneError Unit) :
    setKeyFromPtr p session key install = some (
      p.storeSession session (install s ⟨loadVector p.bytes key 32⟩).1,
      match (install s ⟨loadVector p.bytes key 32⟩).2 with
      | .ok _ => .success
      | .error e => .ofError e) := by
  rw [setKeyFromPtr, if_neg (by simp [hsession, hkey]), hlive]
  simp only [Option.map_some, tryInto_load, ffiGuard, Option.bind_eq_bind, Option.bind_some]
  rcases install s ⟨loadVector p.bytes key 32⟩ with ⟨s', e | u⟩
  · rfl
  · rfl

end Spec

end LightwayCffi.Expresslane
