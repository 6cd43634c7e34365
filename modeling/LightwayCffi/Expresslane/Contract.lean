import LightwayCffi.Expresslane.Session

/-!
# The contracts of the packet operations

What `encrypt` and `decrypt` promise to a caller who only looks at the buffer, the result and the
session, for every state of the session and every buffer:

* `encrypt_contract`: when a packet is written and which bytes it consists of, and what each failure
  leaves behind. The one failure that comes after the plaintext was placed in the caller's buffer is
  a failed seal, and it scrubs the plaintext.
* `decrypt_contract`: a failure leaves the receive side as it was. If it comes before an
  authentication attempt, it leaves the buffer as it was too; if it comes after one, the bytes that
  the attempts wrote are zero. `Attempted` collects what `decrypt` checks before the first attempt.
-/

namespace LightwayCffi.Expresslane.ExpresslaneSession

open Buffer

/-! ## Encrypting -/

section Encrypt

variable (A : Aead) (s : ExpresslaneSession) (counter : BitVec 64) (sessionId : Vector UInt8 8)
  (plainText : Bytes) (iv : Vector UInt8 12) (isEncoded : Bool) (out : Bytes)

/-- The bytes of a packet. -/
def packetBytes (ct : Bytes) (tag : Vector UInt8 16) : Bytes :=
  toBE 8 counter.toNat ++ iv.toList ++ tag.toList ++ toBE 2 plainText.length ++
    toBE 2 (flagsOf isEncoded).toNat ++ ct

/-- `encrypt` gets as far as the seal. -/
structure SealReached : Prop where
  room : 40 + plainText.length ≤ out.length
  short : plainText.length ≤ 65535
  key : s.currentSelf ≠ none

/-- The active key seals the plaintext, with the associated data of the version. -/
def Seals (ct : Bytes) (tag : Vector UInt8 16) : Prop :=
  ∃ cipher, s.currentSelf = some cipher ∧
    A.sealInPlace cipher.key iv (aadOf s.version sessionId counter (flagsOf isEncoded)) plainText =
      some (ct, tag)

theorem sealPacket_eq_some {call : AeadCall}
    (h : s.sealPacket A counter sessionId plainText iv isEncoded = some call) :
    call.iv = iv ∧ s.Seals A counter sessionId plainText iv isEncoded call.ciphertext call.tag := by
  obtain ⟨cipher, hkey, hcall⟩ := Option.bind_eq_some_iff.1 h
  obtain ⟨hseal, -, hiv, -⟩ := Cipher.sealCall_eq_some.1 hcall
  exact ⟨hiv, cipher, hkey, hseal⟩

theorem sealPacket_ne_none {ct : Bytes} {tag : Vector UInt8 16}
    (h : s.Seals A counter sessionId plainText iv isEncoded ct tag) :
    s.sealPacket A counter sessionId plainText iv isEncoded ≠ none := by
  obtain ⟨cipher, hkey, hseal⟩ := h
  simp [sealPacket, hkey, Cipher.sealCall, hseal]

/-- The header that `encrypt` writes, followed by the ciphertext, is the packet. -/
theorem encode_headerOf {call : AeadCall} (hiv : call.iv = iv) (hlen : plainText.length ≤ 65535) :
    (headerOf counter plainText isEncoded call).encode ++ call.ciphertext =
      packetBytes counter plainText iv isEncoded call.ciphertext call.tag := by
  have hdata : (BitVec.ofNat 16 plainText.length).toNat = plainText.length := by
    rw [BitVec.toNat_ofNat, Nat.mod_eq_of_lt (by omega)]
  simp [packetBytes, WireHeader.encode, WireHeader.fields, headerOf, hdata, hiv]

/-- What `encrypt` leaves in the buffer is the packet and the rest. -/
theorem packet_of_sealPacket {call : AeadCall}
    (hcall : s.sealPacket A counter sessionId plainText iv isEncoded = some call)
    (hlen : plainText.length ≤ 65535) (rest : Bytes) :
    ((headerOf counter plainText isEncoded call).encode ++ (call.ciphertext ++ rest)).take
        (40 + plainText.length) =
      packetBytes counter plainText iv isEncoded call.ciphertext call.tag ∧
    ((headerOf counter plainText isEncoded call).encode ++ (call.ciphertext ++ rest)).drop
        (40 + plainText.length) = rest := by
  obtain ⟨hiv, cipher, -, hseal⟩ := sealPacket_eq_some A s _ _ _ _ _ hcall
  have hlength : (packetBytes counter plainText iv isEncoded call.ciphertext call.tag).length =
      40 + plainText.length := by
    simp [packetBytes, A.length_seal hseal]
    omega
  rw [← List.append_assoc, encode_headerOf counter plainText iv isEncoded hiv hlen]
  exact ⟨List.take_left' hlength, List.drop_left' hlength⟩

/-- A packet that was encrypted is the packet of a seal under the active key. -/
theorem packetBytes_of_encrypt_ok {s' : ExpresslaneSession} {out' : Bytes} {n : ℕ} {left : Leftover}
    (h : s.encrypt A counter sessionId plainText iv isEncoded out left = some (s', out', .ok n)) :
    ∃ ct tag, s.Seals A counter sessionId plainText iv isEncoded ct tag ∧
      out'.take n = packetBytes counter plainText iv isEncoded ct tag := by
  obtain ⟨call, hcall, -, rfl, rfl, hlen⟩ := encrypt_ok A s _ _ _ _ _ _ h
  refine ⟨_, _, (sealPacket_eq_some A s _ _ _ _ _ hcall).2, ?_⟩
  exact (packet_of_sealPacket A s _ _ _ _ _ hcall hlen _).1

/-- What a failed seal leaves in the buffer: zeros for the plaintext, the initialisation vector, and
everything else as it was. -/
theorem getElem?_scrubbed (h : 40 + plainText.length ≤ out.length) :
    (scrubbed plainText iv out).length = out.length ∧
    (∀ i, 40 ≤ i → i < 40 + plainText.length → (scrubbed plainText iv out)[i]? = some 0) ∧
    ∀ i, i < 8 ∨ (20 ≤ i ∧ i < 40) ∨ 40 + plainText.length ≤ i →
      (scrubbed plainText iv out)[i]? = out[i]? := by
  obtain ⟨a, r, rfl, ha⟩ := exists_append out (n := 8) (by omega)
  obtain ⟨v, r, rfl, hv⟩ := exists_append r (n := 12) (by simp at h; omega)
  obtain ⟨m, r, rfl, hm⟩ := exists_append r (n := 20) (by simp at h; omega)
  obtain ⟨b, r, rfl, hb⟩ := exists_append r (n := plainText.length) (by simp at h; omega)
  have hiv : iv.toList.length = 12 := iv.length_toList
  have hscrub : scrubbed plainText iv (a ++ (v ++ (m ++ (b ++ r)))) =
      a ++ (iv.toList ++ (m ++ (List.replicate plainText.length 0 ++ r))) := by
    simp only [scrubbed, List.flatten_cons, List.flatten_nil, List.append_nil]
    rw [List.take_left' ha, ← List.append_assoc a v, List.drop_left' (by simp [ha, hv]),
      List.take_left' hm, ← List.append_assoc, ← List.append_assoc, ← List.append_assoc,
      ← List.append_assoc, ← List.append_assoc, List.drop_left' (by simp [ha, hv, hm, hb]; omega)]
    simp
  rw [hscrub]
  refine ⟨by simp [hv, hb], fun i hlo hhi => ?_, fun i hi => ?_⟩
  · rw [List.getElem?_append_right (by omega), List.getElem?_append_right (by omega),
      List.getElem?_append_right (by omega), List.getElem?_append_left (by simp; omega)]
    exact List.getElem?_replicate_of_lt (by omega)
  · simp only [List.getElem?_append, ha, hv, hm, hb, hiv, List.length_replicate]
    split_ifs <;> first | rfl | omega

/-- **What `encrypt` promises.** It succeeds exactly if the buffer has room, the plaintext is short
enough, a send key is active and the seal succeeds. Then the packet stands at the front of the
buffer, determined by the arguments and the seal, the rest of the buffer is as it was, and one more
packet was sent. A failure leaves the session as it was; before the seal it leaves the buffer as it
was, and a failed seal leaves zeros where the plaintext was placed and touches nothing else but the
initialisation vector. -/
theorem encrypt_contract (left : Leftover) :
    ∃ s' out' result,
      s.encrypt A counter sessionId plainText iv isEncoded out left = some (s', out', result) ∧
      ((∃ n, result = .ok n) ↔ 40 + plainText.length ≤ out.length ∧ plainText.length ≤ 65535 ∧
        ∃ ct tag, s.Seals A counter sessionId plainText iv isEncoded ct tag) ∧
      (∀ n, result = .ok n →
        n = 40 + plainText.length ∧ s' = { s with packetsSent := s.packetsSent + 1#64 } ∧
        ∃ ct tag, s.Seals A counter sessionId plainText iv isEncoded ct tag ∧
          out'.take n = packetBytes counter plainText iv isEncoded ct tag ∧
          out'.drop n = out.drop n) ∧
      ∀ e, result = .error e → s' = s ∧
        (¬s.SealReached plainText out → out' = out) ∧
        (s.SealReached plainText out → out'.length = out.length ∧
          (∀ i, 40 ≤ i → i < 40 + plainText.length → out'[i]? = some 0) ∧
          ∀ i, i < 8 ∨ (20 ≤ i ∧ i < 40) ∨ 40 + plainText.length ≤ i → out'[i]? = out[i]?) := by
  rw [encrypt_eq]
  split_ifs with hout hplain hkey
  · refine ⟨_, _, _, rfl, ⟨nofun, fun h => absurd h.1 (by omega)⟩, nofun, fun e _ => ⟨rfl, ?_, ?_⟩⟩
    · exact fun _ => rfl
    · exact fun h => absurd h.room (by omega)
  · refine ⟨_, _, _, rfl, ⟨nofun, fun h => absurd h.2.1 (by omega)⟩, nofun,
      fun e _ => ⟨rfl, ?_, ?_⟩⟩
    · exact fun _ => rfl
    · exact fun h => absurd h.short (by omega)
  · refine ⟨_, _, _, rfl, ⟨nofun, ?_⟩, nofun, fun e _ => ⟨rfl, ?_, ?_⟩⟩
    · rintro ⟨-, -, ct, tag, cipher, hcipher, -⟩
      exact absurd (hkey.symm.trans hcipher) (Option.some_ne_none _).symm
    · exact fun _ => rfl
    · exact fun h => absurd hkey h.key
  · cases hcall : s.sealPacket A counter sessionId plainText iv isEncoded with
    | none =>
      refine ⟨_, _, _, rfl, ⟨nofun, ?_⟩, nofun, fun e _ => ⟨rfl, ?_, ?_⟩⟩
      · rintro ⟨-, -, ct, tag, hseals⟩
        exact absurd hcall (sealPacket_ne_none A s _ _ _ _ _ hseals)
      · exact fun h => absurd ⟨by omega, by omega, hkey⟩ h
      · exact fun h => getElem?_scrubbed plainText iv out h.room
    | some call =>
      have hseals := (sealPacket_eq_some A s _ _ _ _ _ hcall).2
      refine ⟨_, _, _, rfl, ⟨fun _ => ⟨by omega, by omega, _, _, hseals⟩, fun _ => ⟨_, rfl⟩⟩,
        fun n hn => ?_, nofun⟩
      obtain rfl := Except.ok.inj hn
      exact ⟨rfl, rfl, _, _, hseals, packet_of_sealPacket A s _ _ _ _ _ hcall (by omega) _⟩

end Encrypt

/-! ## Decrypting -/

/-- `decrypt` gets as far as an attempt to authenticate the packet, whose header is `hdr`. -/
structure Attempted (s : ExpresslaneSession) (wirePacket out : Bytes) (hdr : WireHeader) :
    Prop where
  header : parseHeader wirePacket = some hdr
  fresh : s.rx.replayWindow.wouldReject hdr.counter = false
  complete : 40 + hdr.dataLen.toNat ≤ wirePacket.length
  room : hdr.dataLen.toNat ≤ out.length
  key : s.rx.currentPeer ≠ none

section Decrypt

variable (s : ExpresslaneSession) (sessionId : Vector UInt8 8) (wire out : Bytes)

/-- Either `decrypt` fails before it makes an attempt, with an outcome in which no cipher occurs, or
it makes one, and its outcome is that of `openPacket`. -/
theorem decrypt_cases :
    ((∀ hdr, ¬s.Attempted wire out hdr) ∧
      ∃ e, ∀ A left leftPrev,
        s.decrypt A sessionId wire out left leftPrev = some (s, out, .error e)) ∨
    ∃ hdr body, s.Attempted wire out hdr ∧ wire = hdr.encode ++ body ∧
      hdr.dataLen.toNat ≤ body.length ∧ ∀ A left leftPrev,
        s.decrypt A sessionId wire out left leftPrev = some (
          match s.openPacket A sessionId hdr body with
          | none => (s, List.replicate hdr.dataLen.toNat 0 ++ out.drop hdr.dataLen.toNat,
              .error .invalidData)
          | some (_, plain) =>
            ({ s with
               rx := { s.rx with replayWindow := (s.rx.replayWindow.commit hdr.counter).1 } },
              plain ++ out.drop hdr.dataLen.toNat,
              .ok (hdr.dataLen.toNat, hdr.flags &&& flagEncoded != 0#16))) := by
  rcases Nat.lt_or_ge wire.length 40 with hshort | hlong
  · refine Or.inl ⟨fun hdr h => ?_, .insufficientData, fun A left leftPrev => ?_⟩
    · exact absurd h.complete (by omega)
    · exact decrypt_of_short A s sessionId hshort out left leftPrev
  obtain ⟨hdr, body, rfl⟩ := exists_encode hlong
  have hparse : ∀ hdr', s.Attempted (hdr.encode ++ body) out hdr' → hdr' = hdr := fun hdr' h =>
    Option.some.inj (h.header.symm.trans (parseHeader_encode hdr body))
  have hlen : (hdr.encode ++ body).length = 40 + body.length := by simp
  simp only [decrypt_encode]
  split_ifs with hrej hbody hout hkey
  · refine Or.inl ⟨fun hdr' h => ?_, _, fun _ _ _ => rfl⟩
    obtain rfl := hparse hdr' h
    exact absurd hrej (by simp [h.fresh])
  · refine Or.inl ⟨fun hdr' h => ?_, _, fun _ _ _ => rfl⟩
    obtain rfl := hparse hdr' h
    exact absurd h.complete (by omega)
  · refine Or.inl ⟨fun hdr' h => ?_, _, fun _ _ _ => rfl⟩
    obtain rfl := hparse hdr' h
    exact absurd h.room (by omega)
  · refine Or.inl ⟨fun hdr' h => ?_, _, fun _ _ _ => rfl⟩
    exact absurd hkey h.key
  · refine Or.inr ⟨hdr, body, ?_, rfl, by omega, fun _ _ _ => rfl⟩
    exact ⟨parseHeader_encode hdr body, by simpa using hrej, by omega, by omega, hkey⟩

/-- **What `decrypt` promises.** It never accesses a buffer out of range, and its outcome does not
depend on what a failed attempt leaves in the buffer. If it makes no attempt, its outcome does not
depend on the cipher either. A failure leaves the session as it was; before an attempt it leaves the
buffer as it was, and after an attempt the bytes of the packet's length are zero, the others are as
they were, and the counter is not the reason: a counter that passes the pre-check is accepted by the
commit. A success changes the replay window and the bytes of the plaintext, and nothing else. -/
theorem decrypt_contract (A : Aead) (left leftPrev : Leftover) :
    ∃ s' out' result,
      s.decrypt A sessionId wire out left leftPrev = some (s', out', result) ∧
      (∀ left₁ left₂, s.decrypt A sessionId wire out left₁ left₂ = some (s', out', result)) ∧
      ((∀ hdr, ¬s.Attempted wire out hdr) → (∃ e, result = .error e) ∧
        ∀ A' left₁ left₂, s.decrypt A' sessionId wire out left₁ left₂ = some (s', out', result)) ∧
      (∀ e, result = .error e → s' = s ∧
        ((∀ hdr, ¬s.Attempted wire out hdr) → out' = out) ∧
        ∀ hdr, s.Attempted wire out hdr → e ≠ .replayed ∧
          out'.take hdr.dataLen.toNat = List.replicate hdr.dataLen.toNat 0 ∧
          out'.drop hdr.dataLen.toNat = out.drop hdr.dataLen.toNat) ∧
      (∀ hdr, s.Attempted wire out hdr → (s.rx.replayWindow.commit hdr.counter).2 = true) ∧
      ∀ n isEncoded, result = .ok (n, isEncoded) →
        s' = { s with rx := { s.rx with replayWindow := s'.rx.replayWindow } } ∧
        (∃ hdr, s.Attempted wire out hdr ∧ n = hdr.dataLen.toNat) ∧
        out'.length = out.length ∧ out'.drop n = out.drop n := by
  have hcommit : ∀ hdr, s.Attempted wire out hdr →
      (s.rx.replayWindow.commit hdr.counter).2 = true := fun hdr h => by
    simpa [wouldReject_eq] using h.fresh
  rcases decrypt_cases s sessionId wire out with ⟨hnone, e, hdecrypt⟩ |
    ⟨hdr, body, hattempt, rfl, hbody, hdecrypt⟩
  · refine ⟨s, out, .error e, hdecrypt A _ _, hdecrypt A, fun _ => ⟨⟨e, rfl⟩, hdecrypt⟩,
      fun _ _ => ⟨rfl, fun _ => rfl, fun hdr h => absurd h (hnone hdr)⟩, hcommit, nofun⟩
  have hsame : ∀ hdr', s.Attempted (hdr.encode ++ body) out hdr' → hdr' = hdr := fun hdr' h =>
    Option.some.inj (h.header.symm.trans hattempt.header)
  cases hopen : s.openPacket A sessionId hdr body with
  | none =>
    simp only [hdecrypt, hopen]
    refine ⟨_, _, _, rfl, fun _ _ => rfl, fun h => absurd hattempt (h hdr),
      fun e he => ⟨rfl, fun h => absurd hattempt (h hdr), fun hdr' h => ?_⟩, hcommit, nofun⟩
    obtain rfl := hsame hdr' h
    refine ⟨?_, List.take_left' List.length_replicate, List.drop_left' List.length_replicate⟩
    rw [← Except.error.inj he]
    decide
  | some opened =>
    obtain ⟨call, plain⟩ := opened
    have hplain := length_openPacket A s sessionId hdr hopen hbody
    simp only [hdecrypt, hopen]
    refine ⟨_, _, _, rfl, fun _ _ => rfl, fun h => absurd hattempt (h hdr), nofun, hcommit,
      fun n isEncoded hn => ?_⟩
    obtain ⟨rfl, -⟩ := Prod.mk.inj (Except.ok.inj hn)
    have hroom := hattempt.room
    refine ⟨rfl, ⟨hdr, hattempt, rfl⟩, ?_, List.drop_left' hplain⟩
    rw [List.length_append, hplain, List.length_drop]
    omega

end Decrypt

end LightwayCffi.Expresslane.ExpresslaneSession
