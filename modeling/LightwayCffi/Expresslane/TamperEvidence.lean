import LightwayCffi.Expresslane.Contract
import LightwayCffi.Expresslane.RoundTrip

/-!
# Tamper evidence

What a receiver accepts was sent, in the strong sense that its bytes are the bytes of a packet that
some session wrote. Only the initialisation vector, the ciphertext and the tag are inputs of the
AEAD as they stand on the wire. The other fields are protected through the associated data, which
binds the session, the counter and, from `version2` on, the flags, and whose length separates the
versions; the length field is protected by the length of the ciphertext.

The one assumption on the AEAD is `Unforged`: a tuple that opens under an installed key was sealed
by one of the `Transmission`s made before. It is exact where it has to be: before `version2` the
flags are not bound, and a packet is accepted with any flags if it is accepted at all
(`decrypt_of_flags`).
-/

namespace LightwayCffi.Expresslane

open Buffer

/-- A packet that some session has sent: a successful `encrypt` with its arguments. -/
structure Transmission (A : Aead) where
  sender : ExpresslaneSession
  counter : BitVec 64
  sessionId : Vector UInt8 8
  plainText : Bytes
  iv : Vector UInt8 12
  isEncoded : Bool
  out : Bytes
  left : Leftover
  sender' : ExpresslaneSession
  out' : Bytes
  n : ℕ
  sent : sender.encrypt A counter sessionId plainText iv isEncoded out left =
    some (sender', out', .ok n)

namespace Transmission

variable {A : Aead} (x : Transmission A)

/-- The packet. -/
def packet : Bytes := x.out'.take x.n

/-- The AEAD tuple that was sealed into the packet. -/
def sealed : Option AeadCall :=
  x.sender.sealPacket A x.counter x.sessionId x.plainText x.iv x.isEncoded

/-- The packet is a header and the sealed ciphertext. -/
theorem packet_eq {call : AeadCall} (hcall : x.sealed = some call) :
    x.packet = (ExpresslaneSession.headerOf x.counter x.plainText x.isEncoded call).encode ++
        call.ciphertext ∧
      x.plainText.length = call.ciphertext.length ∧ x.plainText.length ≤ 65535 ∧
      ∃ cipher, x.sender.currentSelf = some cipher ∧ call.key = cipher.key ∧
        call.aad = aadOf x.sender.version x.sessionId x.counter
          (ExpresslaneSession.flagsOf x.isEncoded) := by
  obtain ⟨call', hcall', -, hout, hn, hlen⟩ := x.sender.encrypt_ok A _ _ _ _ _ _ x.sent
  obtain rfl : call' = call := Option.some.inj (hcall'.symm.trans hcall)
  obtain ⟨cipher, hkey, hseal⟩ := Option.bind_eq_some_iff.1 hcall'
  obtain ⟨hseal, hcipher, -, haad⟩ := Cipher.sealCall_eq_some.1 hseal
  have hct := A.length_seal hseal
  refine ⟨?_, hct.symm, hlen, cipher, hkey, hcipher, haad⟩
  rw [packet, hout, hn, ← List.append_assoc]
  exact List.take_left' (by simp [hct])

end Transmission

/-- The AEAD is not forged on `wire`: if the tuple that `decrypt` reads off it opens under an
installed key, it was sealed under that key by one of the transmissions `sent` made before. -/
def Unforged (A : Aead) (sent : Set (Transmission A)) (receiver : ExpresslaneSession)
    (sessionId : Vector UInt8 8) (wire : Bytes) : Prop :=
  ∀ ⦃hdr : WireHeader⦄ ⦃body : Bytes⦄ ⦃cipher : Cipher⦄ ⦃call : AeadCall⦄ ⦃plain : Bytes⦄,
    wire = hdr.encode ++ body →
    (receiver.rx.currentPeer = some cipher ∨ receiver.rx.prevPeer = some cipher) →
    cipher.openCall A hdr.iv (aadOf receiver.version sessionId hdr.counter hdr.flags)
      (body.take hdr.dataLen.toNat) hdr.tag = some (call, plain) →
    ∃ x ∈ sent, x.sealed = some call

/-! ## What an accepted packet is -/

/-- The same header with other flags. -/
def WireHeader.withFlags (hdr : WireHeader) (flags : BitVec 16) : WireHeader :=
  { hdr with flags := flags }

section Accepted

variable {A : Aead} {receiver receiver' : ExpresslaneSession} {sessionId : Vector UInt8 8}
  {wire out out' : Bytes} {left leftPrev : Leftover} {n : ℕ} {e : Bool}

/-- The transmission `x` was made under an installed key of `receiver` and for the session
`sessionId`. -/
structure Addressed (x : Transmission A) (receiver : ExpresslaneSession)
    (sessionId : Vector UInt8 8) : Prop where
  key : ∃ cipher, x.sender.currentSelf = some cipher ∧
    (receiver.rx.currentPeer = some cipher ∨ receiver.rx.prevPeer = some cipher)
  session : x.sessionId = sessionId

/-- An accepted packet was sealed by a transmission of the same kind of version, and its header is
the one that the transmission wrote, up to the flags if they are not bound. -/
theorem exists_transmission {sent : Set (Transmission A)}
    (hunforged : Unforged A sent receiver sessionId wire)
    (hok : receiver.decrypt A sessionId wire out left leftPrev =
      some (receiver', out', .ok (n, e))) :
    ∃ x ∈ sent, Addressed x receiver sessionId ∧
      (receiver.version = .version2 ↔ x.sender.version = .version2) ∧
      ∃ (hdr : WireHeader) (body : Bytes), wire = hdr.encode ++ body ∧ n = hdr.dataLen.toNat ∧
        n ≤ body.length ∧ e = (hdr.flags &&& flagEncoded != 0#16) ∧
        (receiver.version = .version2 → hdr.flags = ExpresslaneSession.flagsOf x.isEncoded) ∧
        x.packet = (hdr.withFlags (ExpresslaneSession.flagsOf x.isEncoded)).encode ++
          body.take n := by
  obtain ⟨hdr, body, call, plain, rfl, -, hopen, -, -, rfl, hbody, rfl⟩ :=
    receiver.decrypt_ok A sessionId hok
  obtain ⟨cipher, hinstalled, hcall⟩ := receiver.exists_openCall A sessionId hdr hopen
  obtain ⟨x, hx, hsealed⟩ := hunforged rfl hinstalled hcall
  obtain ⟨-, rfl⟩ := Cipher.openCall_eq_some.1 hcall
  obtain ⟨hpacket, hlen, hshort, cipher', hkey, hcipher, haad⟩ := x.packet_eq hsealed
  obtain rfl : cipher = cipher' := congrArg Cipher.mk hcipher
  obtain ⟨hsession, hcounter⟩ := aadOf_inj haad
  obtain ⟨hversion, hflags⟩ := aadOf_inj_flags haad
  -- the ciphertext has the length of the plaintext, so the length field is the sender's
  have hdata : BitVec.ofNat 16 x.plainText.length = hdr.dataLen := by
    rw [hlen, List.length_take_of_le hbody, BitVec.ofNat_toNat, BitVec.setWidth_eq]
  refine ⟨x, hx, ⟨⟨cipher, hkey, hinstalled⟩, hsession.symm⟩, hversion, hdr, body, rfl, rfl, hbody,
    rfl, hflags, ?_⟩
  rw [hpacket, ExpresslaneSession.headerOf, hdata, ← hcounter]
  rfl

/-- Two headers that differ in their flags only agree in front of them. -/
theorem take_encode_flags (hdr : WireHeader) (flags : BitVec 16) :
    (hdr.withFlags flags).encode.take 38 = hdr.encode.take 38 := by
  have hfront : ∀ h : WireHeader, h.encode.take 38 = (h.fields.take 4).flatten := fun h =>
    take_flatten 4 (by simp [WireHeader.fields])
  rw [hfront, hfront]
  rfl

/-- The last two bytes of a header are the flags. -/
theorem drop_encode (hdr : WireHeader) : hdr.encode.drop 38 = toBE 2 hdr.flags.toNat := by
  rw [WireHeader.encode, drop_flatten 4 (by simp [WireHeader.fields])]
  simp [WireHeader.fields]

theorem and_flagEncoded_bne (flags : BitVec 16) :
    (flags &&& flagEncoded != 0#16) = flags.getLsbD 15 := by
  have hmask : flagEncoded = BitVec.twoPow 16 15 := by decide
  rw [hmask, BitVec.and_twoPow]
  cases flags.getLsbD 15 <;> decide

/-- Where the flags are not bound, a packet that is accepted is accepted with any other flags. -/
theorem decrypt_of_flags (hversion : receiver.version ≠ .version2)
    (hok : receiver.decrypt A sessionId wire out left leftPrev = some (receiver', out', .ok (n, e)))
    (flags : BitVec 16) :
    receiver.decrypt A sessionId (wire.take 38 ++ (toBE 2 flags.toNat ++ wire.drop 40)) out left
      leftPrev = some (receiver', out', .ok (n, flags.getLsbD 15)) := by
  rcases receiver.decrypt_cases sessionId wire out with ⟨-, err, h⟩ |
    ⟨hdr, body, hattempt, rfl, hbody, h⟩
  · simp [h A] at hok
  cases hopen : receiver.openPacket A sessionId hdr body with
  | none => simp [h A, hopen] at hok
  | some opened =>
  obtain ⟨call, plain⟩ := opened
  rw [h A, hopen] at hok
  simp only [Option.some.injEq, Prod.mk.injEq, Except.ok.injEq] at hok
  obtain ⟨rfl, rfl, rfl, -⟩ := hok
  have hencode : (hdr.withFlags flags).encode = hdr.encode.take 38 ++ toBE 2 flags.toNat := by
    rw [← take_encode_flags hdr flags]
    exact (List.take_append_drop 38 _).symm.trans (congrArg _ (drop_encode _))
  have hwire :
      (hdr.encode ++ body).take 38 ++ (toBE 2 flags.toNat ++ (hdr.encode ++ body).drop 40) =
        (hdr.withFlags flags).encode ++ body := by
    rw [List.take_append_of_le_length (by simp), List.drop_left' hdr.length_encode, hencode,
      List.append_assoc]
  have haad : ∀ f, aadOf receiver.version sessionId hdr.counter f =
      aadOf receiver.version sessionId hdr.counter hdr.flags := fun f => by
    cases h : receiver.version <;> simp_all [aadOf, ExpresslaneVersion.toU8]
  have hopen' : receiver.openPacket A sessionId (hdr.withFlags flags) body =
      some (call, plain) := by
    simpa only [ExpresslaneSession.openPacket, WireHeader.withFlags, haad flags] using hopen
  -- the checks before the open are those that the packet has passed with its own flags
  have hfresh : ¬receiver.rx.replayWindow.wouldReject (hdr.withFlags flags).counter = true :=
    Bool.eq_false_iff.1 hattempt.fresh
  have hlong : ¬body.length < (hdr.withFlags flags).dataLen.toNat := Nat.not_lt.2 hbody
  have hroom : ¬out.length < (hdr.withFlags flags).dataLen.toNat := Nat.not_lt.2 hattempt.room
  rw [hwire, ExpresslaneSession.decrypt_encode, hopen', and_flagEncoded_bne, if_neg hfresh,
    if_neg hlong, if_neg hroom, if_neg hattempt.key]
  rfl

/-- **Exact tamper evidence.** Let `decrypt` accept a string of bytes. If the receiver has
`version2`, the packet at the front of the string is, byte for byte, one that a session of
`version2` sent under the receiver's current or previous key and for the same session, with the
returned flag. Otherwise the same holds for a session of an earlier version, except for the two
bytes of the flags: the returned flag is their bit 15, and they could be any. So no packet of the
one kind of version is accepted by a session of the other kind. -/
theorem tamper_evident {sent : Set (Transmission A)}
    (hunforged : Unforged A sent receiver sessionId wire)
    (hok : receiver.decrypt A sessionId wire out left leftPrev =
      some (receiver', out', .ok (n, e))) :
    (receiver.version = .version2 →
      ∃ x ∈ sent, Addressed x receiver sessionId ∧ x.sender.version = .version2 ∧
        wire.take (40 + n) = x.packet ∧ e = x.isEncoded) ∧
    (receiver.version ≠ .version2 →
      (∃ x ∈ sent, Addressed x receiver sessionId ∧ x.sender.version ≠ .version2 ∧
        wire.take 38 = x.packet.take 38 ∧ (wire.take (40 + n)).drop 40 = x.packet.drop 40 ∧
        x.packet.length = 40 + n) ∧
      (∃ flags : BitVec 16, (wire.take 40).drop 38 = toBE 2 flags.toNat ∧
        e = flags.getLsbD 15) ∧
      ∀ flags : BitVec 16, receiver.decrypt A sessionId
        (wire.take 38 ++ (toBE 2 flags.toNat ++ wire.drop 40)) out left leftPrev =
          some (receiver', out', .ok (n, flags.getLsbD 15))) ∧
    ((∀ x ∈ sent, wire.take 38 = x.packet.take 38 → x.sender.version = .version2) →
      receiver.version = .version2) ∧
    ((∀ x ∈ sent, wire.take 38 = x.packet.take 38 → x.sender.version ≠ .version2) →
      receiver.version ≠ .version2) := by
  obtain ⟨x, hx, haddr, hversion, hdr, body, rfl, rfl, hbody, rfl, hflags, hpacket⟩ :=
    exists_transmission hunforged hok
  have hfront : (hdr.encode ++ body).take 38 = x.packet.take 38 := by
    rw [hpacket, List.take_append_of_le_length (by simp), List.take_append_of_le_length (by simp),
      take_encode_flags]
  have htake : (hdr.encode ++ body).take (40 + hdr.dataLen.toNat) =
      hdr.encode ++ body.take hdr.dataLen.toNat := by
    rw [← hdr.length_encode, List.take_length_add_append]
  refine ⟨fun hv2 => ⟨x, hx, haddr, hversion.1 hv2, ?_, ?_⟩, fun hv => ⟨?_, ?_, ?_⟩,
    fun h => ?_, fun h hv2 => ?_⟩
  · rw [htake, hpacket, ← hflags hv2]
    rfl
  · rw [hflags hv2, flagsOf_and_flagEncoded]
  · refine ⟨x, hx, haddr, fun h => hv (hversion.2 h), hfront, ?_, ?_⟩
    · rw [htake, hpacket, List.drop_left' hdr.length_encode,
        List.drop_left' (WireHeader.length_encode _)]
    · rw [hpacket, List.length_append, WireHeader.length_encode, List.length_take_of_le hbody]
  · refine ⟨hdr.flags, ?_, and_flagEncoded_bne _⟩
    rw [List.take_left' hdr.length_encode, drop_encode]
  · exact decrypt_of_flags hv hok
  · exact hversion.2 (h x hx hfront)
  · exact h x hx hfront (hversion.1 hv2)

end Accepted

/-- A packet that was in flight while the receiver's peer rotated its key. -/
def inFlight : Transmission keyTagAead where
  sender := laggingSender
  counter := 7#64
  sessionId := Vector.replicate 8 3
  plainText := [1, 2, 3]
  iv := Vector.replicate 12 6
  isEncoded := true
  out := List.replicate 43 0
  left := zeroLeftover
  sender' := { laggingSender with packetsSent := 1#64 }
  out' := laggingPacket
  n := 43
  sent := rfl

/-- The tuple in it opens under the previous key only, which sealed it. -/
theorem unforged_inFlight :
    Unforged keyTagAead {inFlight} rotatedReceiver (Vector.replicate 8 3) inFlight.packet := by
  intro hdr body cipher call plain hwire hinstalled hopen
  have hparse : parseHeader inFlight.packet = some ⟨7#64, Vector.replicate 12 6,
    Vector.replicate 16 1, 3#16, flagEncoded⟩ := by rfl
  obtain rfl : _ = hdr := Option.some.inj (hparse.symm.trans (hwire ▸ parseHeader_encode hdr body))
  have hdrop : inFlight.packet.drop 40 = body := by
    rw [hwire]
    exact List.drop_left' (WireHeader.length_encode _)
  have hbody : body.take 3 = [1, 2, 3] := by
    rw [← hdrop]
    rfl
  obtain ⟨htag, rfl⟩ := Cipher.openCall_eq_some.1 hopen
  have hkey : cipher.key = constKey 1 := by
    rcases hinstalled with h | h
    · obtain rfl : (⟨constKey 2⟩ : Cipher) = cipher := Option.some.inj h
      exact absurd (tag_of_openInPlace htag) (by decide)
    · exact congrArg Cipher.key (Option.some.inj h).symm
  refine ⟨inFlight, rfl, ?_⟩
  rw [hkey]
  change _ = some (AeadCall.mk _ _ _ (body.take 3) _)
  rw [hbody]
  rfl

/-- The packet that the receiver accepts is the one that was sent. -/
theorem tamper_evident_inFlight :
    ∃ x ∈ ({inFlight} : Set (Transmission keyTagAead)),
      inFlight.packet.take 43 = x.packet ∧ true = x.isEncoded := by
  have hok : ∃ receiver' out', rotatedReceiver.decrypt keyTagAead (Vector.replicate 8 3)
      inFlight.packet [5, 5, 5, 5] zeroLeftover zeroLeftover =
        some (receiver', out', .ok (3, true)) := ⟨_, _, rfl⟩
  obtain ⟨receiver', out', hok⟩ := hok
  obtain ⟨x, hx, -, -, hpacket, hflag⟩ := (tamper_evident unforged_inFlight hok).1 rfl
  exact ⟨x, hx, hpacket, hflag⟩

end LightwayCffi.Expresslane
