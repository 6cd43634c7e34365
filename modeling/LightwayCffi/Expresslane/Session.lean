import LightwayCffi.Expresslane.ReplayWindow
import LightwayCffi.Expresslane.Wire

/-!
# The ExpressLane session

An `ExpresslaneSession` holds the send keys, the receive keys with the replay window, and two
counters. Each operation is a function from the session to the session; `encrypt` and `decrypt` also
return the caller's output buffer, and are `none` where the code would access a buffer out of range.

Each of the two packet operations has one specification, free of offsets and of in-place writes:

* `encrypt_eq`: the outcome in terms of `sealPacket`, the seal that the operation makes;
* `decrypt_encode`: the outcome on a packet `h.encode ++ body` in terms of `openPacket`, the
  successful open that the operation makes, if any. What a failed open leaves in the buffer does not
  occur in it, because the second attempt starts from a fresh copy and a reject scrubs the buffer.

Both also say that the operation is never out of range.
-/

namespace LightwayCffi.Expresslane

open Buffer

/-- The receive side of a session. -/
structure RxState where
  currentPeer : Option Cipher
  prevPeer : Option Cipher
  replayWindow : ReplayWindow
  deriving DecidableEq

/-- A packet session: the send side, the receive side, and the two hints of `hasValidKeys`. -/
structure ExpresslaneSession where
  version : ExpresslaneVersion
  currentSelf : Option Cipher
  nextSelf : Option Cipher
  nextCounter : BitVec 64
  packetsSent : BitVec 64
  rx : RxState
  selfKeyInstalled : Bool
  peerKeyInstalled : Bool
  deriving DecidableEq

namespace ExpresslaneSession

/-- A session with no keys installed. -/
def new (version : ExpresslaneVersion) : ExpresslaneSession where
  version := version
  currentSelf := none
  nextSelf := none
  nextCounter := 0
  packetsSent := 0
  rx := { currentPeer := none, prevPeer := none, replayWindow := ReplayWindow.default }
  selfKeyInstalled := false
  peerKeyInstalled := false

/-! ## Sending -/

/-- Reserve a wire counter; the first one is 1. -/
def reserveCounter (s : ExpresslaneSession) : ExpresslaneSession × BitVec 64 :=
  ({ s with nextCounter := s.nextCounter + 1#64 }, s.nextCounter + 1#64)

/-- Stage a send key. -/
def updateNextSelfKey (s : ExpresslaneSession) (key : ExpresslaneKey) :
    ExpresslaneSession × Except ExpresslaneError Unit :=
  if key.isInvalid then (s, .error .invalidKey)
  else match Cipher.new key with
  | .error e => (s, .error e)
  | .ok cipher => ({ s with nextSelf := some cipher }, .ok ())

/-- Make the staged key the active send key; a no-op if none is staged. -/
def promoteSelfKey (s : ExpresslaneSession) : ExpresslaneSession :=
  match s.nextSelf with
  | none => s
  | some cipher =>
    { s with nextSelf := none, currentSelf := some cipher, selfKeyInstalled := true }

/-- The flags of a packet that is sent: the reserved bits are zero. -/
def flagsOf (isEncoded : Bool) : BitVec 16 := if isEncoded then flagEncoded else 0#16

/-- The part of `encrypt` that runs under the active key: an in-place seal in the caller's buffer,
with the header written around it. -/
def encryptUnder (A : Aead) (s : ExpresslaneSession) (cipher : Cipher) (counter : BitVec 64)
    (sessionId : Vector UInt8 8) (plainText : Bytes) (iv : Vector UInt8 12) (isEncoded : Bool)
    (out : Bytes) (left : Leftover) :
    Option (ExpresslaneSession × Bytes × Except ExpresslaneError ℕ) := do
  let needed := wireOverhead + plainText.length
  let flags := flagsOf isEncoded
  let (aadBuf, aadLen) ← buildAad s.version sessionId counter flags
  let aad ← slice aadBuf 0 aadLen
  let out ← copyFromSlice out 8 20 iv.toList
  let out ← copyFromSlice out 40 needed plainText
  let buf ← slice out 40 needed
  let (buf, result) := cipher.encrypt A iv aad buf left
  let out ← copyFromSlice out 40 needed buf
  match result with
  | .error e =>
    -- the caller's plaintext is not left behind on an error return
    let out ← fill out 40 needed 0
    pure (s, out, .error e)
  | .ok tag =>
    let dataLen := BitVec.ofNat 16 plainText.length
    let out ← writeHeader { counter, iv, tag, dataLen, flags } out
    pure ({ s with packetsSent := s.packetsSent + 1#64 }, out, .ok needed)

/-- Encrypt `plainText` into `out`: the session, the buffer, and the number of bytes written. -/
def encrypt (A : Aead) (s : ExpresslaneSession) (counter : BitVec 64) (sessionId : Vector UInt8 8)
    (plainText : Bytes) (iv : Vector UInt8 12) (isEncoded : Bool) (out : Bytes) (left : Leftover) :
    Option (ExpresslaneSession × Bytes × Except ExpresslaneError ℕ) :=
  if out.length < wireOverhead + plainText.length then some (s, out, .error .bufferTooSmall)
  else if plainText.length > 65535 then some (s, out, .error .invalidData)
  else match s.currentSelf with
  | none => some (s, out, .error .keyNotSet)
  | some cipher => encryptUnder A s cipher counter sessionId plainText iv isEncoded out left

/-! ## Receiving -/

/-- Install a receive key; the previous one becomes the fallback. -/
def updatePeerKey (s : ExpresslaneSession) (key : ExpresslaneKey) :
    ExpresslaneSession × Except ExpresslaneError Unit :=
  if key.isInvalid then (s, .error .invalidKey)
  else match Cipher.new key with
  | .error e => (s, .error e)
  | .ok cipher =>
    ({ s with
       rx := { s.rx with currentPeer := some cipher, prevPeer := s.rx.currentPeer }
       peerKeyInstalled := true }, .ok ())

def hasValidKeys (s : ExpresslaneSession) : Bool := s.peerKeyInstalled && s.selfKeyInstalled

/-- The number of packets decrypted. -/
def packetsReceived (s : ExpresslaneSession) : BitVec 64 := s.rx.replayWindow.packetsReceived

/-- One attempt to decrypt, from a fresh copy of the ciphertext. -/
def attempt (A : Aead) (cipher : Cipher) (hdr : WireHeader) (aad ciphertext out : Bytes)
    (left : Leftover) : Option (Bytes × Bool) := do
  let dataLen := hdr.dataLen.toNat
  let out ← copyFromSlice out 0 dataLen ciphertext
  let buf ← slice out 0 dataLen
  let (buf, result) := cipher.decrypt A hdr.iv aad buf hdr.tag left
  let out ← copyFromSlice out 0 dataLen buf
  pure (out, result.isOk)

/-- The part of `decrypt` that tries the current key and then the previous one. -/
def attempts (A : Aead) (rx : RxState) (current : Cipher) (hdr : WireHeader)
    (aad ciphertext out : Bytes) (left leftPrev : Leftover) : Option (Bytes × Bool) := do
  let (out, decrypted) ← attempt A current hdr aad ciphertext out left
  if decrypted then pure (out, true)
  else match rx.prevPeer with
  | none => pure (out, false)
  | some prev => attempt A prev hdr aad ciphertext out leftPrev

/-- The part of `decrypt` that runs once a current key is known: the attempts, and the commit of the
counter only after authentication, so that a forged packet cannot poison the window. -/
def decryptUnder (A : Aead) (s : ExpresslaneSession) (current : Cipher) (hdr : WireHeader)
    (aad ciphertext out : Bytes) (left leftPrev : Leftover) :
    Option (ExpresslaneSession × Bytes × Except ExpresslaneError (ℕ × Bool)) := do
  let dataLen := hdr.dataLen.toNat
  let isEncoded := hdr.flags &&& flagEncoded != 0#16
  let (out, decrypted) ← attempts A s.rx current hdr aad ciphertext out left leftPrev
  if !decrypted then
    let out ← fill out 0 dataLen 0
    pure (s, out, .error .invalidData)
  else
    let (window, accepted) := s.rx.replayWindow.commit hdr.counter
    let s := { s with rx := { s.rx with replayWindow := window } }
    if !accepted then
      let out ← fill out 0 dataLen 0
      pure (s, out, .error .replayed)
    else pure (s, out, .ok (dataLen, isEncoded))

/-- Decrypt `wirePacket` into `out`: the session, the buffer, and the length of the plaintext with
the flag of an encoded payload. The two `Leftover` arguments belong to the two attempts. -/
def decrypt (A : Aead) (s : ExpresslaneSession) (sessionId : Vector UInt8 8)
    (wirePacket out : Bytes) (left leftPrev : Leftover) :
    Option (ExpresslaneSession × Bytes × Except ExpresslaneError (ℕ × Bool)) :=
  if wirePacket.length < wireOverhead then some (s, out, .error .insufficientData)
  else do
    let hdr ← parseHeader wirePacket
    let dataLen := hdr.dataLen.toNat
    if s.rx.replayWindow.wouldReject hdr.counter then pure (s, out, .error .replayed)
    else if wirePacket.length < wireOverhead + dataLen then
      pure (s, out, .error .insufficientData)
    else if out.length < dataLen then pure (s, out, .error .bufferTooSmall)
    else
      let (aadBuf, aadLen) ← buildAad s.version sessionId hdr.counter hdr.flags
      match s.rx.currentPeer with
      | none => pure (s, out, .error .keyNotSet)
      | some current =>
        let ciphertext ← slice wirePacket 40 (40 + dataLen)
        let aad ← slice aadBuf 0 aadLen
        decryptUnder A s current hdr aad ciphertext out left leftPrev

/-! ## What the packet operations do -/

/-- The header of a packet that is sent. -/
def headerOf (counter : BitVec 64) (plainText : Bytes) (isEncoded : Bool) (call : AeadCall) :
    WireHeader where
  counter := counter
  iv := call.iv
  tag := call.tag
  dataLen := BitVec.ofNat 16 plainText.length
  flags := flagsOf isEncoded

section Encrypt

variable (A : Aead) (s : ExpresslaneSession) (counter : BitVec 64) (sessionId : Vector UInt8 8)
  (plainText : Bytes) (iv : Vector UInt8 12) (isEncoded : Bool) (out : Bytes)

/-- The buffer that a failed seal leaves: the plaintext is scrubbed. -/
def scrubbed : Bytes :=
  [out.take 8, iv.toList, (out.drop 20).take 20, List.replicate plainText.length 0,
    out.drop (40 + plainText.length)].flatten

theorem encryptUnder_eq (cipher : Cipher) (left : Leftover)
    (hout : 40 + plainText.length ≤ out.length) :
    encryptUnder A s cipher counter sessionId plainText iv isEncoded out left = some (
      match cipher.sealCall A iv (aadOf s.version sessionId counter (flagsOf isEncoded)) plainText
        with
      | none => (s, scrubbed plainText iv out, .error .invalidData)
      | some call =>
        ({ s with packetsSent := s.packetsSent + 1#64 },
          (headerOf counter plainText isEncoded call).encode ++
            (call.ciphertext ++ out.drop (40 + plainText.length)),
          .ok (40 + plainText.length))) := by
  obtain ⟨c, v, t, l, f, r, rfl, hc, hv, ht, hl, hf⟩ := exists_fields out (by omega)
  obtain ⟨b, r, rfl, hb⟩ := exists_append r (n := plainText.length) (by simp at hout; omega)
  obtain ⟨aadBuf, aadLen, hbuild, haad⟩ :=
    buildAad_eq s.version sessionId counter (flagsOf isEncoded)
  have hbuf : [c, v, t, l, f, b ++ r].flatten = [c, v, t, l, f, b, r].flatten := by simp
  have hdrop : [c, v, t, l, f, b, r].flatten.drop (40 + plainText.length) = r := by
    rw [drop_flatten 6 (by simp [hc, hv, ht, hl, hf, hb]; omega)]
    simp
  have hiv : copyFromSlice [c, v, t, l, f, b, r].flatten 8 20 iv.toList =
      some [c, iv.toList, t, l, f, b, r].flatten :=
    copyFromSlice_flatten 1 rfl (by simp [*]) (by simp [*]) (by simp [*])
  have hwrite : ∀ b src : Bytes, b.length = plainText.length → src.length = plainText.length →
      copyFromSlice [c, iv.toList, t, l, f, b, r].flatten 40 (40 + plainText.length) src =
        some [c, iv.toList, t, l, f, src, r].flatten := fun b src hb hsrc =>
    copyFromSlice_flatten 5 rfl (by simp [*]) (by simp [*]) (by simp [*])
  have hread : slice [c, iv.toList, t, l, f, plainText, r].flatten 40 (40 + plainText.length) =
      some plainText :=
    slice_flatten 5 rfl (by simp [*]) rfl
  simp only [encryptUnder, hbuild, haad, hbuf, hiv, hwrite b plainText hb rfl, hread,
    Option.bind_eq_bind, Option.bind_some, Cipher.sealCall, Cipher.encrypt]
  cases hseal : A.sealInPlace cipher.key iv (aadOf s.version sessionId counter (flagsOf isEncoded))
      plainText with
  | none =>
    have hleft := left.length_bytes plainText.length
    have hzero := List.length_replicate (n := plainText.length) (a := (0 : UInt8))
    have hfront : [c, v, t, l, f, b, r].flatten.take 8 = c := by
      rw [take_flatten 1 (by simp [hc])]
      simp
    have hmid : ([c, v, t, l, f, b, r].flatten.drop 20).take 20 = [t, l, f].flatten := by
      rw [drop_flatten 2 (by simp [hc, hv])]
      exact take_flatten 3 (by simp [ht, hl, hf])
    simp only [hwrite plainText _ rfl hleft, fill, Nat.add_sub_cancel_left,
      hwrite _ _ hleft hzero, Option.bind_some, Option.pure_def, Option.map_none, scrubbed, hdrop,
      hfront, hmid]
    simp
  | some sealed =>
    obtain ⟨ct, tag⟩ := sealed
    have hct : ct.length = plainText.length := A.length_seal hseal
    have hflat : [c, iv.toList, t, l, f, ct, r].flatten =
        [c, iv.toList, t, l, f, ct ++ r].flatten := by
      simp
    have hheader := writeHeader_eq
      ⟨counter, iv, tag, BitVec.ofNat 16 plainText.length, flagsOf isEncoded⟩ (ct ++ r) hc ht hl hf
    simp only [hwrite plainText _ rfl hct, hflat, hheader, Option.bind_some, Option.pure_def,
      Option.map_some, hdrop, headerOf]

/-- The seal that `encrypt` makes, if there is a key and the seal succeeds. -/
def sealPacket : Option AeadCall :=
  s.currentSelf.bind fun cipher =>
    cipher.sealCall A iv (aadOf s.version sessionId counter (flagsOf isEncoded)) plainText

/-- **What `encrypt` does**, at each of its exits. -/
theorem encrypt_eq (left : Leftover) :
    s.encrypt A counter sessionId plainText iv isEncoded out left = some (
      if out.length < 40 + plainText.length then (s, out, .error .bufferTooSmall)
      else if plainText.length > 65535 then (s, out, .error .invalidData)
      else if s.currentSelf = none then (s, out, .error .keyNotSet)
      else match s.sealPacket A counter sessionId plainText iv isEncoded with
      | none => (s, scrubbed plainText iv out, .error .invalidData)
      | some call =>
        ({ s with packetsSent := s.packetsSent + 1#64 },
          (headerOf counter plainText isEncoded call).encode ++
            (call.ciphertext ++ out.drop (40 + plainText.length)),
          .ok (40 + plainText.length))) := by
  rw [encrypt]
  split_ifs with hout hplain hkey
  · rfl
  · rfl
  · rw [hkey]
  · obtain ⟨cipher, hkey⟩ := Option.ne_none_iff_exists'.1 hkey
    have hunder := encryptUnder_eq A s counter sessionId plainText iv isEncoded out cipher left
      (Nat.le_of_not_lt hout)
    simpa only [sealPacket, hkey, Option.bind_some] using hunder

/-- A seal that succeeds makes a packet. -/
theorem encrypt_of_sealInPlace {cipher : Cipher} {ct : Bytes} {tag : Vector UInt8 16}
    (hkey : s.currentSelf = some cipher) (hout : 40 + plainText.length ≤ out.length)
    (hplain : plainText.length ≤ 65535)
    (hseal : A.sealInPlace cipher.key iv (aadOf s.version sessionId counter (flagsOf isEncoded))
      plainText = some (ct, tag)) (left : Leftover) :
    s.encrypt A counter sessionId plainText iv isEncoded out left = some (
      { s with packetsSent := s.packetsSent + 1#64 },
      WireHeader.encode ⟨counter, iv, tag, BitVec.ofNat 16 plainText.length, flagsOf isEncoded⟩ ++
        (ct ++ out.drop (40 + plainText.length)),
      .ok (40 + plainText.length)) := by
  have hkey' : s.currentSelf ≠ none := by
    rw [hkey]
    exact Option.some_ne_none cipher
  rw [encrypt_eq, if_neg (Nat.not_lt.2 hout), if_neg (Nat.not_lt.2 hplain), if_neg hkey',
    sealPacket, hkey, Option.bind_some, Cipher.sealCall, hseal]
  rfl

/-- A successful `encrypt` sealed the plaintext and wrote the packet. -/
theorem encrypt_ok {s' : ExpresslaneSession} {out' : Bytes} {n : ℕ} {left : Leftover}
    (h : s.encrypt A counter sessionId plainText iv isEncoded out left = some (s', out', .ok n)) :
    ∃ call, s.sealPacket A counter sessionId plainText iv isEncoded = some call ∧
      s' = { s with packetsSent := s.packetsSent + 1#64 } ∧
      out' = (headerOf counter plainText isEncoded call).encode ++
        (call.ciphertext ++ out.drop (40 + plainText.length)) ∧
      n = 40 + plainText.length ∧ plainText.length ≤ 65535 := by
  rw [encrypt_eq] at h
  split_ifs at h with hout hplain hkey
  · simp at h
  · simp at h
  · simp at h
  · split at h
    · simp at h
    · rename_i call hcall
      simp only [Option.some.injEq, Prod.mk.injEq, Except.ok.injEq] at h
      exact ⟨call, hcall, h.1.symm, h.2.1.symm, h.2.2.symm, by omega⟩

/-- A failed `encrypt` leaves the session as it was. -/
theorem encrypt_error {s' : ExpresslaneSession} {out' : Bytes} {e : ExpresslaneError}
    {left : Leftover}
    (h : s.encrypt A counter sessionId plainText iv isEncoded out left =
      some (s', out', .error e)) :
    s' = s := by
  rw [encrypt_eq] at h
  split_ifs at h
  · simp_all
  · simp_all
  · simp_all
  · split at h <;> simp_all

end Encrypt

section Decrypt

variable (A : Aead) (s : ExpresslaneSession) (sessionId : Vector UInt8 8) (hdr : WireHeader)

/-- One attempt in a buffer whose front has the length of the data. -/
theorem attempt_eq (cipher : Cipher) (aad : Bytes) {ct b : Bytes} (r : Bytes) (left : Leftover)
    (hct : ct.length = hdr.dataLen.toNat) (hb : b.length = hdr.dataLen.toNat) :
    attempt A cipher hdr aad ct (b ++ r) left = some (
      match cipher.openCall A hdr.iv aad ct hdr.tag with
      | some (_, plain) => (plain ++ r, true)
      | none => (left.bytes hdr.dataLen.toNat ++ r, false)) := by
  simp only [attempt, copyFromSlice_front r hb hct, slice_front ct r hct, Cipher.decrypt,
    Cipher.openCall,
    Option.bind_eq_bind, Option.bind_some]
  cases hopen : A.openInPlace cipher.key hdr.iv aad ct hdr.tag with
  | none =>
    have hleft := left.length_bytes hdr.dataLen.toNat
    simp only [hct, copyFromSlice_front r hct hleft, Option.bind_some, Option.map_none]
    rfl
  | some plain =>
    have hplain := A.length_open hopen
    simp only [copyFromSlice_front r hct (hplain.trans hct), Option.bind_some, Option.map_some]
    rfl

/-- The two attempts: whatever the first one left in the buffer, the second one is not affected. -/
theorem attempts_eq (current : Cipher) (aad : Bytes) {ct b : Bytes} (r : Bytes)
    (left leftPrev : Leftover) (hct : ct.length = hdr.dataLen.toNat)
    (hb : b.length = hdr.dataLen.toNat) :
    ∃ junk : Bytes, junk.length = hdr.dataLen.toNat ∧
      attempts A s.rx current hdr aad ct (b ++ r) left leftPrev = some (
        match (current.openCall A hdr.iv aad ct hdr.tag).or
          (s.rx.prevPeer.bind fun prev => prev.openCall A hdr.iv aad ct hdr.tag) with
        | some (_, plain) => (plain ++ r, true)
        | none => (junk ++ r, false)) := by
  have hleft := left.length_bytes hdr.dataLen.toNat
  simp only [attempts, attempt_eq A hdr current aad r left hct hb, Option.bind_eq_bind,
    Option.bind_some]
  cases hcur : current.openCall A hdr.iv aad ct hdr.tag with
  | some opened => exact ⟨_, hleft, by simp⟩
  | none =>
    cases hprev : s.rx.prevPeer with
    | none => exact ⟨_, hleft, by simp⟩
    | some prev =>
      refine ⟨_, leftPrev.length_bytes hdr.dataLen.toNat, ?_⟩
      simp [attempt_eq A hdr prev aad r leftPrev hct hleft]

theorem decryptUnder_eq (current : Cipher) (aad : Bytes) {ct out : Bytes}
    (left leftPrev : Leftover) (hct : ct.length = hdr.dataLen.toNat)
    (hout : hdr.dataLen.toNat ≤ out.length)
    (hfresh : (s.rx.replayWindow.commit hdr.counter).2 = true) :
    decryptUnder A s current hdr aad ct out left leftPrev = some (
      match (current.openCall A hdr.iv aad ct hdr.tag).or
          (s.rx.prevPeer.bind fun prev => prev.openCall A hdr.iv aad ct hdr.tag) with
      | none =>
        (s, List.replicate hdr.dataLen.toNat 0 ++ out.drop hdr.dataLen.toNat, .error .invalidData)
      | some (_, plain) =>
        ({ s with
           rx := { s.rx with replayWindow := (s.rx.replayWindow.commit hdr.counter).1 } },
          plain ++ out.drop hdr.dataLen.toNat,
          .ok (hdr.dataLen.toNat, hdr.flags &&& flagEncoded != 0#16))) := by
  obtain ⟨b, r, rfl, hb⟩ := exists_append out hout
  obtain ⟨junk, hjunk, hattempts⟩ := attempts_eq A s hdr current aad r left leftPrev hct hb
  rw [decryptUnder, hattempts, List.drop_left' hb]
  cases (current.openCall A hdr.iv aad ct hdr.tag).or
      (s.rx.prevPeer.bind fun prev => prev.openCall A hdr.iv aad ct hdr.tag) with
  | none =>
    simp [fill_front r hjunk]
  | some opened => simp [hfresh]

/-- The successful open that `decrypt` makes on a packet, if any, and its plaintext. -/
def openPacket (body : Bytes) : Option (AeadCall × Bytes) :=
  let aad := aadOf s.version sessionId hdr.counter hdr.flags
  let ct := body.take hdr.dataLen.toNat
  s.rx.currentPeer.bind fun current =>
    (current.openCall A hdr.iv aad ct hdr.tag).or
      (s.rx.prevPeer.bind fun prev => prev.openCall A hdr.iv aad ct hdr.tag)

/-- An open was made under one of the two installed keys. -/
theorem exists_openCall {body plain : Bytes} {call : AeadCall}
    (h : s.openPacket A sessionId hdr body = some (call, plain)) :
    ∃ cipher, (s.rx.currentPeer = some cipher ∨ s.rx.prevPeer = some cipher) ∧
      cipher.openCall A hdr.iv (aadOf s.version sessionId hdr.counter hdr.flags)
        (body.take hdr.dataLen.toNat) hdr.tag = some (call, plain) := by
  obtain ⟨current, hcur, h⟩ := Option.bind_eq_some_iff.1 h
  rcases Option.or_eq_some_iff.1 h with h | ⟨-, h⟩
  · exact ⟨current, Or.inl hcur, h⟩
  · obtain ⟨prev, hprev, h⟩ := Option.bind_eq_some_iff.1 h
    exact ⟨prev, Or.inr hprev, h⟩

theorem length_openPacket {body plain : Bytes} {call : AeadCall}
    (h : s.openPacket A sessionId hdr body = some (call, plain))
    (hbody : hdr.dataLen.toNat ≤ body.length) : plain.length = hdr.dataLen.toNat := by
  obtain ⟨cipher, -, h⟩ := exists_openCall A s sessionId hdr h
  rw [A.length_open (Cipher.openCall_eq_some.1 h).1, List.length_take_of_le hbody]

theorem decrypt_of_short {wire : Bytes} (h : wire.length < 40) (out : Bytes)
    (left leftPrev : Leftover) :
    s.decrypt A sessionId wire out left leftPrev = some (s, out, .error .insufficientData) :=
  if_pos h

/-- **What `decrypt` does** on a packet that has a header, at each of its exits. -/
theorem decrypt_encode (body out : Bytes) (left leftPrev : Leftover) :
    s.decrypt A sessionId (hdr.encode ++ body) out left leftPrev = some (
      if s.rx.replayWindow.wouldReject hdr.counter then (s, out, .error .replayed)
      else if body.length < hdr.dataLen.toNat then (s, out, .error .insufficientData)
      else if out.length < hdr.dataLen.toNat then (s, out, .error .bufferTooSmall)
      else if s.rx.currentPeer = none then (s, out, .error .keyNotSet)
      else match s.openPacket A sessionId hdr body with
      | none =>
        (s, List.replicate hdr.dataLen.toNat 0 ++ out.drop hdr.dataLen.toNat, .error .invalidData)
      | some (_, plain) =>
        ({ s with
           rx := { s.rx with replayWindow := (s.rx.replayWindow.commit hdr.counter).1 } },
          plain ++ out.drop hdr.dataLen.toNat,
          .ok (hdr.dataLen.toNat, hdr.flags &&& flagEncoded != 0#16))) := by
  have hlen : (hdr.encode ++ body).length = 40 + body.length := by simp
  rw [decrypt, if_neg (by simp), parseHeader_encode]
  simp only [Option.bind_eq_bind, Option.bind_some, Option.pure_def, hlen, Nat.add_lt_add_iff_left]
  split_ifs with hrej hbody hout hkey
  · rfl
  · rfl
  · rfl
  · obtain ⟨aadBuf, aadLen, hbuild, -⟩ := buildAad_eq s.version sessionId hdr.counter hdr.flags
    rw [hbuild, hkey, Option.bind_some]
  · obtain ⟨aadBuf, aadLen, hbuild, haad⟩ := buildAad_eq s.version sessionId hdr.counter hdr.flags
    obtain ⟨current, hkey⟩ := Option.ne_none_iff_exists'.1 hkey
    obtain ⟨ct, r, rfl, hct⟩ := exists_append body (Nat.le_of_not_lt hbody)
    have hread : slice (hdr.encode ++ (ct ++ r)) 40 (40 + hdr.dataLen.toNat) = some ct :=
      slice_append hdr.length_encode (by rw [hct])
    have hfresh : (s.rx.replayWindow.commit hdr.counter).2 = true := by
      simpa [wouldReject_eq] using hrej
    have hunder := decryptUnder_eq A s hdr current
      (aadOf s.version sessionId hdr.counter hdr.flags) left leftPrev hct
      (Nat.le_of_not_lt hout) hfresh
    simp only [hbuild, hread, haad, hunder, hkey, openPacket, Option.bind_some, List.take_left' hct]

/-- A packet that is neither refused nor too long for the buffers, and that one of the two keys
opens. -/
theorem decrypt_of_openPacket {body out plain : Bytes} {call : AeadCall}
    (hpass : s.rx.replayWindow.wouldReject hdr.counter = false)
    (hbody : hdr.dataLen.toNat ≤ body.length) (hout : hdr.dataLen.toNat ≤ out.length)
    (hopen : s.openPacket A sessionId hdr body = some (call, plain)) (left leftPrev : Leftover) :
    s.decrypt A sessionId (hdr.encode ++ body) out left leftPrev = some (
      { s with rx := { s.rx with replayWindow := (s.rx.replayWindow.commit hdr.counter).1 } },
      plain ++ out.drop hdr.dataLen.toNat,
      .ok (hdr.dataLen.toNat, hdr.flags &&& flagEncoded != 0#16)) := by
  have hcur : s.rx.currentPeer ≠ none := fun hnone => by simp [openPacket, hnone] at hopen
  rw [decrypt_encode, hopen, hpass, if_neg Bool.false_ne_true, if_neg (Nat.not_lt.2 hbody),
    if_neg (Nat.not_lt.2 hout), if_neg hcur]

/-- A successful `decrypt` opened the packet and committed its counter. -/
theorem decrypt_ok {s' : ExpresslaneSession} {wire out out' : Bytes} {n : ℕ} {e : Bool}
    {left leftPrev : Leftover}
    (h : s.decrypt A sessionId wire out left leftPrev = some (s', out', .ok (n, e))) :
    ∃ hdr body call plain, wire = hdr.encode ++ body ∧
      (s.rx.replayWindow.commit hdr.counter).2 = true ∧
      s.openPacket A sessionId hdr body = some (call, plain) ∧
      s' = { s with
        rx := { s.rx with replayWindow := (s.rx.replayWindow.commit hdr.counter).1 } } ∧
      out' = plain ++ out.drop n ∧ n = hdr.dataLen.toNat ∧ n ≤ body.length ∧
      e = (hdr.flags &&& flagEncoded != 0#16) := by
  rcases Nat.lt_or_ge wire.length 40 with hshort | hlong
  · simp [decrypt_of_short A s sessionId hshort] at h
  obtain ⟨hdr, body, rfl⟩ := exists_encode hlong
  rw [decrypt_encode] at h
  split_ifs at h with hrej hbody hout hkey
  · simp at h
  · simp at h
  · simp at h
  · simp at h
  · split at h
    · simp at h
    · rename_i call plain hopen
      simp only [Option.some.injEq, Prod.mk.injEq, Except.ok.injEq] at h
      obtain ⟨rfl, rfl, rfl, rfl⟩ := h
      refine ⟨hdr, body, call, plain, rfl, ?_, hopen, rfl, rfl, rfl, by omega, rfl⟩
      simpa [wouldReject_eq] using hrej

/-- A failed `decrypt` leaves the session as it was. -/
theorem decrypt_error {s' : ExpresslaneSession} {wire out out' : Bytes} {e : ExpresslaneError}
    {left leftPrev : Leftover}
    (h : s.decrypt A sessionId wire out left leftPrev = some (s', out', .error e)) : s' = s := by
  rcases Nat.lt_or_ge wire.length 40 with hshort | hlong
  · rw [decrypt_of_short A s sessionId hshort] at h
    simp_all
  obtain ⟨hdr, body, rfl⟩ := exists_encode hlong
  rw [decrypt_encode] at h
  split_ifs at h
  · simp_all
  · simp_all
  · simp_all
  · simp_all
  · split at h <;> simp_all

end Decrypt
end ExpresslaneSession

end LightwayCffi.Expresslane
