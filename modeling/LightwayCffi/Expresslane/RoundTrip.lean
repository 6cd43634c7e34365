import LightwayCffi.Expresslane.Session

/-!
# Runs of a session, and the round trip

A session lives through operations in any order: keys are staged, promoted and installed, packets
are encrypted, and byte strings of any kind are given to `decrypt`. `Op.run` is one operation, with
the packets it sent or received as events; `Outcome` says once what an operation can do, and every
invariant of a run is read off it. The invariant of the receive side is `Receiving`: the replay
window represents exactly the counters of the packets decrypted so far, through key installs and
rejected packets alike.

`roundTrip` is the receive side's promise to an honest sender. In every reachable state, a packet
encrypted under one of the two installed keys, with a counter that the window does not refuse, is
decrypted to its plaintext, whatever bytes follow it and whatever a failed first attempt leaves in
the buffer.
-/

namespace LightwayCffi.Expresslane

open Buffer

/-- An operation on a session, with its arguments. -/
inductive Op where
  | reserveCounter
  | updateNextSelfKey (key : ExpresslaneKey)
  | promoteSelfKey
  | encrypt (counter : BitVec 64) (sessionId : Vector UInt8 8) (plainText : Bytes)
      (iv : Vector UInt8 12) (isEncoded : Bool) (out : Bytes) (left : Leftover)
  | updatePeerKey (key : ExpresslaneKey)
  | decrypt (sessionId : Vector UInt8 8) (wirePacket out : Bytes) (left leftPrev : Leftover)

/-- A packet that was sent, with the AEAD tuple in it, or a packet that was received. -/
inductive Event where
  | encrypted (counter : BitVec 64) (plainText : Bytes) (call : AeadCall)
  | decrypted (counter : BitVec 64) (plainText : Bytes)
  deriving DecidableEq

/-- The counter of a packet that was received. -/
def Event.decryptedCounter : Event → Option (BitVec 64)
  | encrypted _ _ _ => none
  | decrypted counter _ => some counter

/-- The counter of a packet that was sent. -/
def Event.encryptedCounter : Event → Option (BitVec 64)
  | encrypted counter _ _ => some counter
  | decrypted _ _ => none

/-- The counters of the packets received, oldest first. -/
def decryptedCounters (events : List Event) : List (BitVec 64) :=
  events.filterMap Event.decryptedCounter

/-- The counters of the packets sent, oldest first. -/
def encryptedCounters (events : List Event) : List (BitVec 64) :=
  events.filterMap Event.encryptedCounter

/-- The wire counter of a packet. -/
def wireCounter (wirePacket : Bytes) : BitVec 64 := BitVec.ofNat 64 (ofBE (wirePacket.take 8))

theorem wireCounter_encode (hdr : WireHeader) (body : Bytes) :
    wireCounter (hdr.encode ++ body) = hdr.counter := by
  have htake : (hdr.encode ++ body).take 8 = toBE 8 hdr.counter.toNat := by
    have hwire : hdr.encode ++ body = (hdr.fields ++ [body]).flatten := by
      simp [WireHeader.encode]
    rw [hwire, take_flatten 1 (by simp [WireHeader.fields])]
    simp [WireHeader.fields]
  rw [wireCounter, htake, ofNat_ofBE_toBE (w := 64) rfl]

/-- One operation: the session after it, and what it sent or received. -/
def Op.run (A : Aead) (s : ExpresslaneSession) : Op → Option (ExpresslaneSession × List Event)
  | .reserveCounter => some (s.reserveCounter.1, [])
  | .updateNextSelfKey key => some ((s.updateNextSelfKey key).1, [])
  | .promoteSelfKey => some (s.promoteSelfKey, [])
  | .encrypt counter sessionId plainText iv isEncoded out left => do
    let (s', _, result) ← s.encrypt A counter sessionId plainText iv isEncoded out left
    pure (s', match result with
      | .ok _ => (s.sealPacket A counter sessionId plainText iv isEncoded).toList.map
          (Event.encrypted counter plainText)
      | .error _ => [])
  | .updatePeerKey key => some ((s.updatePeerKey key).1, [])
  | .decrypt sessionId wirePacket out left leftPrev => do
    let (s', out', result) ← s.decrypt A sessionId wirePacket out left leftPrev
    pure (s', match result with
      | .ok (n, _) => [Event.decrypted (wireCounter wirePacket) (out'.take n)]
      | .error _ => [])

/-- What an operation can do to the version, the receive side and the count of packets sent, and
which events go with it. -/
inductive Outcome (A : Aead) (s s' : ExpresslaneSession) : Op → List Event → Prop
  | quiet (op : Op) (hrx : s'.rx = s.rx) (hsent : s'.packetsSent = s.packetsSent) :
    Outcome A s s' op []
  | installed (key : ExpresslaneKey)
    (hrx : s'.rx = { s.rx with currentPeer := some ⟨key⟩, prevPeer := s.rx.currentPeer })
    (hsent : s'.packetsSent = s.packetsSent) : Outcome A s s' (.updatePeerKey key) []
  | sent {counter : BitVec 64} {sessionId : Vector UInt8 8} {plainText : Bytes}
    {iv : Vector UInt8 12} {isEncoded : Bool} {out : Bytes} {left : Leftover} {call : AeadCall}
    (hseal : s.sealPacket A counter sessionId plainText iv isEncoded = some call)
    (hrx : s'.rx = s.rx) (hsent : s'.packetsSent = s.packetsSent + 1#64) :
    Outcome A s s' (.encrypt counter sessionId plainText iv isEncoded out left)
      [Event.encrypted counter plainText call]
  | received {sessionId : Vector UInt8 8} {hdr : WireHeader} {body out out' : Bytes}
    {left leftPrev : Leftover} {call : AeadCall} {plain : Bytes} {r : ℕ × Bool}
    (hok : s.decrypt A sessionId (hdr.encode ++ body) out left leftPrev = some (s', out', .ok r))
    (hopen : s.openPacket A sessionId hdr body = some (call, plain))
    (hfresh : (s.rx.replayWindow.commit hdr.counter).2 = true)
    (hrx : s'.rx = { s.rx with replayWindow := (s.rx.replayWindow.commit hdr.counter).1 })
    (hsent : s'.packetsSent = s.packetsSent) :
    Outcome A s s' (.decrypt sessionId (hdr.encode ++ body) out left leftPrev)
      [Event.decrypted hdr.counter plain]

section Outcome

variable {A : Aead} {s s' : ExpresslaneSession} {op : Op} {events : List Event}

theorem updatePeerKey_cases (s : ExpresslaneSession) (key : ExpresslaneKey) :
    (s.updatePeerKey key).1 = s ∨ (s.updatePeerKey key).1 =
      { s with
        rx := { s.rx with currentPeer := some ⟨key⟩, prevPeer := s.rx.currentPeer }
        peerKeyInstalled := true } := by
  rw [ExpresslaneSession.updatePeerKey, Cipher.new_eq]
  split_ifs
  · exact Or.inl rfl
  · exact Or.inr rfl

/-- The inversion of an operation: every operation has one of the four outcomes. -/
theorem Op.run_outcome (h : op.run A s = some (s', events)) : Outcome A s s' op events := by
  cases op with
  | reserveCounter =>
    obtain ⟨rfl, rfl⟩ := Prod.mk.inj (Option.some.inj h)
    exact .quiet _ rfl rfl
  | updateNextSelfKey key =>
    obtain ⟨rfl, rfl⟩ := Prod.mk.inj (Option.some.inj h)
    rw [ExpresslaneSession.updateNextSelfKey, Cipher.new_eq]
    split_ifs
    · exact .quiet _ rfl rfl
    · exact .quiet _ rfl rfl
  | promoteSelfKey =>
    obtain ⟨rfl, rfl⟩ := Prod.mk.inj (Option.some.inj h)
    rw [ExpresslaneSession.promoteSelfKey]
    split
    · exact .quiet _ rfl rfl
    · exact .quiet _ rfl rfl
  | encrypt counter sessionId plainText iv isEncoded out left =>
    obtain ⟨⟨s₁, out', result⟩, hrun, h⟩ := Option.bind_eq_some_iff.1 h
    obtain ⟨rfl, rfl⟩ := Prod.mk.inj (Option.some.inj h)
    cases result with
    | error e =>
      rw [ExpresslaneSession.encrypt_error A s _ _ _ _ _ _ hrun]
      exact .quiet _ rfl rfl
    | ok n =>
      obtain ⟨call, hseal, rfl, -, -, -⟩ := ExpresslaneSession.encrypt_ok A s _ _ _ _ _ _ hrun
      simp only [hseal, Option.toList_some, List.map_cons, List.map_nil]
      exact .sent hseal rfl rfl
  | updatePeerKey key =>
    obtain ⟨rfl, rfl⟩ := Prod.mk.inj (Option.some.inj h)
    rcases updatePeerKey_cases s key with hs | hs
    · rw [hs]
      exact .quiet _ rfl rfl
    · rw [hs]
      exact .installed key rfl rfl
  | decrypt sessionId wirePacket out left leftPrev =>
    obtain ⟨⟨s₁, out', result⟩, hrun, h⟩ := Option.bind_eq_some_iff.1 h
    obtain ⟨rfl, rfl⟩ := Prod.mk.inj (Option.some.inj h)
    cases result with
    | error e =>
      rw [ExpresslaneSession.decrypt_error A s _ hrun]
      exact .quiet _ rfl rfl
    | ok r =>
      obtain ⟨n, e⟩ := r
      obtain ⟨hdr, body, call, plain, rfl, hfresh, hopen, rfl, rfl, rfl, hbody, -⟩ :=
        ExpresslaneSession.decrypt_ok A s _ hrun
      have hplain := ExpresslaneSession.length_openPacket A s _ hdr hopen hbody
      simp only [wireCounter_encode, List.take_left' hplain]
      exact .received hrun hopen hfresh rfl rfl

end Outcome

/-! ## The receive side along a run -/

/-- The session `s` is reached from a new one by operations that sent and received `events`, oldest
first. -/
inductive Reaches (A : Aead) (version : ExpresslaneVersion) :
    ExpresslaneSession → List Event → Prop
  | new : Reaches A version (ExpresslaneSession.new version) []
  | step {s s' : ExpresslaneSession} {events fresh : List Event} (op : Op)
    (h : Reaches A version s events) (hrun : op.run A s = some (s', fresh)) :
    Reaches A version s' (events ++ fresh)

/-- The receive side `rx` has accepted packets with the counters `counters`, oldest first. -/
structure Receiving (rx : RxState) (counters : List (BitVec 64)) : Prop where
  window : Represents rx.replayWindow (counters.reverse.map BitVec.toNat)
  nodup : counters.Nodup
  prev_none : rx.currentPeer = none → rx.prevPeer = none

theorem receiving_new (version : ExpresslaneVersion) :
    Receiving (ExpresslaneSession.new version).rx [] where
  window := represents_default
  nodup := List.nodup_nil
  prev_none _ := rfl

/-- One operation keeps the invariant, with the counter it accepted if it accepted one. -/
theorem Receiving.step {A : Aead} {s s' : ExpresslaneSession} {op : Op} {events : List Event}
    {counters : List (BitVec 64)} (h : Receiving s.rx counters) (ho : Outcome A s s' op events) :
    Receiving s'.rx (counters ++ decryptedCounters events) := by
  cases ho with
  | quiet _ hrx _ =>
    rw [hrx, decryptedCounters, List.filterMap_nil, List.append_nil]
    exact h
  | installed key hrx _ =>
    rw [hrx, decryptedCounters, List.filterMap_nil, List.append_nil]
    exact ⟨h.window, h.nodup, fun hnone => absurd hnone (Option.some_ne_none _)⟩
  | sent _ hrx _ =>
    have hnil : ∀ c p call, decryptedCounters [Event.encrypted c p call] = [] := fun _ _ _ => rfl
    rw [hrx, hnil, List.append_nil]
    exact h
  | @received _ hdr _ _ _ _ _ _ plain _ _ _ hfresh hrx _ =>
    have hone : decryptedCounters [Event.decrypted hdr.counter plain] = [hdr.counter] := rfl
    obtain ⟨hnew, hwindow⟩ := h.window.accepted hfresh
    have hnotin : hdr.counter ∉ counters := fun hmem =>
      hnew (List.mem_map_of_mem (List.mem_reverse.2 hmem))
    rw [hrx, hone]
    refine ⟨?_, ?_, h.prev_none⟩
    · rw [List.reverse_append, List.reverse_singleton, List.singleton_append, List.map_cons]
      exact hwindow
    · rw [List.nodup_append]
      refine ⟨h.nodup, List.nodup_singleton _, fun x hx y hy hxy => ?_⟩
      rw [List.mem_singleton.1 hy] at hxy
      exact hnotin (hxy ▸ hx)

/-- **The receive side along every run.** -/
theorem Reaches.receiving {A : Aead} {version : ExpresslaneVersion} {s : ExpresslaneSession}
    {events : List Event} (h : Reaches A version s events) :
    Receiving s.rx (decryptedCounters events) := by
  induction h with
  | new => exact receiving_new version
  | step op _ hrun ih =>
    rw [decryptedCounters, List.filterMap_append]
    exact ih.step (Op.run_outcome hrun)

/-- `packets_sent` counts the packets. -/
theorem Outcome.packetsSent {A : Aead} {s s' : ExpresslaneSession} {op : Op} {fresh : List Event}
    (h : Outcome A s s' op fresh) :
    s'.packetsSent = s.packetsSent + BitVec.ofNat 64 (encryptedCounters fresh).length := by
  cases h with
  | sent _ _ hsent => exact hsent
  | quiet _ _ hsent => exact hsent.trans (BitVec.add_zero _).symm
  | installed _ _ hsent => exact hsent.trans (BitVec.add_zero _).symm
  | received _ _ _ _ hsent => exact hsent.trans (BitVec.add_zero _).symm

theorem Reaches.packetsSent {A : Aead} {version : ExpresslaneVersion} {s : ExpresslaneSession}
    {events : List Event} (h : Reaches A version s events) :
    s.packetsSent = BitVec.ofNat 64 (encryptedCounters events).length := by
  induction h with
  | new => rfl
  | step op _ hrun ih =>
    rw [(Op.run_outcome hrun).packetsSent, ih, encryptedCounters, encryptedCounters,
      encryptedCounters, List.filterMap_append, List.length_append, BitVec.ofNat_add]

/-- No operation changes the version. -/
theorem Op.version_run {A : Aead} {s s' : ExpresslaneSession} {op : Op} {fresh : List Event}
    (h : op.run A s = some (s', fresh)) : s'.version = s.version := by
  cases op with
  | reserveCounter =>
    obtain ⟨rfl, -⟩ := Prod.mk.inj (Option.some.inj h)
    rfl
  | updateNextSelfKey key =>
    obtain ⟨rfl, -⟩ := Prod.mk.inj (Option.some.inj h)
    rw [ExpresslaneSession.updateNextSelfKey, Cipher.new_eq]
    split_ifs <;> rfl
  | promoteSelfKey =>
    obtain ⟨rfl, -⟩ := Prod.mk.inj (Option.some.inj h)
    rw [ExpresslaneSession.promoteSelfKey]
    split <;> rfl
  | encrypt counter sessionId plainText iv isEncoded out left =>
    obtain ⟨⟨s₁, out', result⟩, hrun, h⟩ := Option.bind_eq_some_iff.1 h
    obtain ⟨rfl, -⟩ := Prod.mk.inj (Option.some.inj h)
    cases result with
    | error e => rw [ExpresslaneSession.encrypt_error A s _ _ _ _ _ _ hrun]
    | ok n =>
      obtain ⟨-, -, rfl, -⟩ := ExpresslaneSession.encrypt_ok A s _ _ _ _ _ _ hrun
      rfl
  | updatePeerKey key =>
    obtain ⟨rfl, -⟩ := Prod.mk.inj (Option.some.inj h)
    rcases updatePeerKey_cases s key with hs | hs <;> rw [hs]
  | decrypt sessionId wirePacket out left leftPrev =>
    obtain ⟨⟨s₁, out', result⟩, hrun, h⟩ := Option.bind_eq_some_iff.1 h
    obtain ⟨rfl, -⟩ := Prod.mk.inj (Option.some.inj h)
    rcases result with e | ⟨n, e⟩
    · rw [ExpresslaneSession.decrypt_error A s _ hrun]
    · obtain ⟨hdr, body, call, plain, -, -, -, rfl, -⟩ := ExpresslaneSession.decrypt_ok A s _ hrun
      rfl

theorem Reaches.version_eq {A : Aead} {version : ExpresslaneVersion} {s : ExpresslaneSession}
    {events : List Event} (h : Reaches A version s events) : s.version = version := by
  induction h with
  | new => rfl
  | step op _ hrun ih => exact (Op.version_run hrun).trans ih

/-! ## The round trip -/

/-- A packet sealed under an installed key of `rx` does not authenticate under the other one. -/
def KeySeparation (A : Aead) (rx : RxState) : Prop :=
  ∀ ⦃c c' : Cipher⦄, (rx.currentPeer = some c ∨ rx.prevPeer = some c) →
    (rx.currentPeer = some c' ∨ rx.prevPeer = some c') → c ≠ c' →
      ∀ ⦃iv aad plain ct tag⦄, A.sealInPlace c.key iv aad plain = some (ct, tag) →
        A.openInPlace c'.key iv aad ct tag = none

/-- A receiver that has a key has one in force. -/
theorem exists_currentPeer {rx : RxState} {cipher : Cipher}
    (hprev : rx.currentPeer = none → rx.prevPeer = none)
    (hinstalled : rx.currentPeer = some cipher ∨ rx.prevPeer = some cipher) :
    ∃ current, rx.currentPeer = some current := by
  refine Option.ne_none_iff_exists'.1 fun hnone => ?_
  rcases hinstalled with h | h
  · rw [hnone] at h
    exact absurd h (Option.some_ne_none _).symm
  · rw [hprev hnone] at h
    exact absurd h (Option.some_ne_none _).symm

/-- A tuple that was sealed under an installed key opens to its plaintext, under whichever of the
two slots holds the key. -/
theorem openPacket_of_sealCall {A : Aead} {s : ExpresslaneSession} {cipher : Cipher}
    (hprev : s.rx.currentPeer = none → s.rx.prevPeer = none)
    (hinstalled : s.rx.currentPeer = some cipher ∨ s.rx.prevPeer = some cipher)
    (hsep : KeySeparation A s.rx) {sessionId : Vector UInt8 8} {hdr : WireHeader} {body : Bytes}
    {plain : Bytes}
    (hseal : A.sealInPlace cipher.key hdr.iv (aadOf s.version sessionId hdr.counter hdr.flags)
      plain = some (body.take hdr.dataLen.toNat, hdr.tag)) :
    ∃ call, s.openPacket A sessionId hdr body = some (call, plain) := by
  have hopen := A.open_seal hseal
  obtain ⟨current, hcur⟩ := exists_currentPeer hprev hinstalled
  simp only [ExpresslaneSession.openPacket, hcur, Option.bind_some, Cipher.openCall]
  rcases eq_or_ne cipher current with rfl | hne
  · exact ⟨_, by rw [hopen]; rfl⟩
  · -- the current key refuses the packet, so the fallback is tried
    have hrefuse := hsep hinstalled (Or.inl hcur) hne hseal
    have hprev : s.rx.prevPeer = some cipher :=
      hinstalled.resolve_left fun h => hne (Option.some.inj (h.symm.trans hcur))
    exact ⟨_, by rw [hrefuse, hprev, Option.bind_some, hopen]; rfl⟩

theorem flagsOf_and_flagEncoded (isEncoded : Bool) :
    (ExpresslaneSession.flagsOf isEncoded &&& flagEncoded != 0#16) = isEncoded := by
  cases isEncoded <;> rfl

/-- A counter that was not accepted and that no accepted one has left behind passes the
pre-check. -/
theorem Receiving.passes {rx : RxState} {counters : List (BitVec 64)} (h : Receiving rx counters)
    {counter : BitVec 64} (hnew : counter ∉ counters)
    (hwindow : ∀ c ∈ counters, c.toNat < counter.toNat + 8192) :
    rx.replayWindow.wouldReject counter = false := by
  have haccepts : SlidingWindow.accepts 8192 (counters.reverse.map BitVec.toNat) counter.toNat =
      true := by
    rw [SlidingWindow.accepts, decide_eq_true_eq]
    refine ⟨fun hmem => ?_, fun x hx => ?_⟩
    · obtain ⟨c, hc, heq⟩ := List.mem_map.1 hmem
      exact hnew (BitVec.eq_of_toNat_eq heq ▸ List.mem_reverse.1 hc)
    · obtain ⟨c, hc, rfl⟩ := List.mem_map.1 hx
      exact hwindow c (List.mem_reverse.1 hc)
  rw [wouldReject_eq, refines.verdict h.window counter, haccepts, Bool.not_true]

/-- The packet that `encrypt` writes is the header and the ciphertext of a seal. -/
theorem packet_of_encrypt {A : Aead} {s s' : ExpresslaneSession} {counter : BitVec 64}
    {sessionId : Vector UInt8 8} {plainText : Bytes} {iv : Vector UInt8 12} {isEncoded : Bool}
    {wire wire' : Bytes} {left : Leftover} {n : ℕ} {cipher : Cipher}
    (hkey : s.currentSelf = some cipher)
    (h : s.encrypt A counter sessionId plainText iv isEncoded wire left = some (s', wire', .ok n)) :
    ∃ (hdr : WireHeader) (ct : Bytes), wire'.take n = hdr.encode ++ ct ∧ hdr.counter = counter ∧
      hdr.flags = ExpresslaneSession.flagsOf isEncoded ∧ hdr.dataLen.toNat = plainText.length ∧
      ct.length = plainText.length ∧
      A.sealInPlace cipher.key hdr.iv (aadOf s.version sessionId hdr.counter hdr.flags) plainText =
        some (ct, hdr.tag) := by
  obtain ⟨call, hcall, -, rfl, rfl, hlen⟩ := s.encrypt_ok A _ _ _ _ _ _ h
  rw [ExpresslaneSession.sealPacket, hkey, Option.bind_some] at hcall
  obtain ⟨hseal, -, rfl, -⟩ := Cipher.sealCall_eq_some.1 hcall
  have hct := A.length_seal hseal
  refine ⟨ExpresslaneSession.headerOf counter plainText isEncoded call, call.ciphertext, ?_, rfl,
    rfl, ?_, hct, hseal⟩
  · rw [← List.append_assoc]
    exact List.take_left' (by simp [hct])
  · change (BitVec.ofNat 16 plainText.length).toNat = plainText.length
    rw [BitVec.toNat_ofNat, Nat.mod_eq_of_lt (by omega)]

/-- **Round trip.** In every reachable state of the receiver, a packet that a sender of the same
version encrypts under the receiver's current or previous peer key, with a counter that was not
accepted before and is less than 8192 below every accepted one, decrypts to its plaintext and flag;
the rest of the buffer is untouched. This holds whatever follows the packet, whatever the sender's
buffer held and whatever the failed attempts leave in the receiver's. -/
theorem roundTrip (A : Aead) {version : ExpresslaneVersion} {receiver sender sender' :
      ExpresslaneSession} {events : List Event} (hreach : Reaches A version receiver events)
    (hversion : sender.version = receiver.version) {cipher : Cipher}
    (hkey : sender.currentSelf = some cipher)
    (hinstalled : receiver.rx.currentPeer = some cipher ∨ receiver.rx.prevPeer = some cipher)
    (hsep : KeySeparation A receiver.rx) {counter : BitVec 64}
    (hnew : counter ∉ decryptedCounters events)
    (hwindow : ∀ c ∈ decryptedCounters events, c.toNat < counter.toNat + 8192)
    {sessionId : Vector UInt8 8} {plainText : Bytes} {iv : Vector UInt8 12} {isEncoded : Bool}
    {wire wire' : Bytes} {left : Leftover} {n : ℕ}
    (hencrypt : sender.encrypt A counter sessionId plainText iv isEncoded wire left =
      some (sender', wire', .ok n))
    (trailing : Bytes) {out : Bytes} (hout : plainText.length ≤ out.length)
    (left₁ left₂ : Leftover) :
    ∃ receiver', receiver.decrypt A sessionId (wire'.take n ++ trailing) out left₁ left₂ =
      some (receiver', plainText ++ out.drop plainText.length,
        .ok (plainText.length, isEncoded)) := by
  have hrx := hreach.receiving
  obtain ⟨hdr, ct, hpacket, rfl, hflags, hdata, hct, hseal⟩ := packet_of_encrypt hkey hencrypt
  have hpass := hrx.passes hnew hwindow
  -- one of the two attempts opens the packet
  have hbody : (ct ++ trailing).take hdr.dataLen.toNat = ct := List.take_left' (by rw [hct, hdata])
  rw [hversion, ← hbody] at hseal
  obtain ⟨call, hopen⟩ := openPacket_of_sealCall hrx.prev_none hinstalled hsep hseal
  have hlong : hdr.dataLen.toNat ≤ (ct ++ trailing).length := by
    rw [List.length_append]
    omega
  have hdecrypt := receiver.decrypt_of_openPacket A sessionId hdr hpass hlong (hdata ▸ hout) hopen
    left₁ left₂
  rw [hdata, hflags, flagsOf_and_flagEncoded] at hdecrypt
  rw [hpacket, List.append_assoc]
  exact ⟨_, hdecrypt⟩

/-- A receiver whose peer has rotated its key. -/
def rotatedReceiver : ExpresslaneSession :=
  (((ExpresslaneSession.new .version2).updatePeerKey (constKey 1)).1.updatePeerKey (constKey 2)).1

/-- A sender that still sends under the key from before the rotation. -/
def laggingSender : ExpresslaneSession :=
  ((ExpresslaneSession.new .version2).updateNextSelfKey (constKey 1)).1.promoteSelfKey

/-- A packet of that sender: three bytes, with the counter 7. -/
def laggingPacket : Bytes :=
  [0, 0, 0, 0, 0, 0, 0, 7] ++ List.replicate 12 6 ++ List.replicate 16 1 ++ [0, 3] ++ [0x80, 0] ++
    [1, 2, 3]

/-- The keys of the rotated receiver. -/
theorem rx_rotatedReceiver : rotatedReceiver.rx =
    { currentPeer := some ⟨constKey 2⟩
      prevPeer := some ⟨constKey 1⟩
      replayWindow := ReplayWindow.default } := rfl

theorem keySeparation_rotatedReceiver : KeySeparation keyTagAead rotatedReceiver.rx := by
  have htag : keyTag (constKey 2) ≠ keyTag (constKey 1) := by decide
  have hcases : ∀ c : Cipher, (rotatedReceiver.rx.currentPeer = some c ∨
      rotatedReceiver.rx.prevPeer = some c) → c.key = constKey 2 ∨ c.key = constKey 1 := by
    intro c hc
    rw [rx_rotatedReceiver] at hc
    refine hc.imp (fun h => ?_) fun h => ?_
    · exact congrArg Cipher.key (Option.some.inj h).symm
    · exact congrArg Cipher.key (Option.some.inj h).symm
  intro c c' hc hc' hne iv aad plain ct tag hseal
  have hkey : c.key ≠ c'.key := fun h => hne (congrArg Cipher.mk h)
  have hne : keyTag c.key ≠ keyTag c'.key := by
    rcases hcases c hc with h | h <;> rcases hcases c' hc' with h' | h' <;> rw [h, h'] at hkey ⊢
    · exact absurd rfl hkey
    · exact htag
    · exact htag.symm
    · exact absurd rfl hkey
  obtain ⟨-, rfl⟩ := Prod.mk.inj (Option.some.inj hseal)
  exact if_neg hne

/-- A packet that was in flight during the rotation. -/
theorem roundTrip_rotatedReceiver : ∃ receiver',
    rotatedReceiver.decrypt keyTagAead (Vector.replicate 8 3) (laggingPacket ++ [9]) [5, 5, 5, 5]
      zeroLeftover zeroLeftover = some (receiver', [1, 2, 3, 5], .ok (3, true)) := by
  have hreach : Reaches keyTagAead .version2 rotatedReceiver [] :=
    .step (.updatePeerKey (constKey 2)) (.step (.updatePeerKey (constKey 1)) .new rfl) rfl
  have hencrypt : laggingSender.encrypt keyTagAead 7#64 (Vector.replicate 8 3) [1, 2, 3]
      (Vector.replicate 12 6) true (List.replicate 43 0) zeroLeftover =
        some ({ laggingSender with packetsSent := 1#64 }, laggingPacket, .ok 43) := rfl
  have hversion : laggingSender.version = rotatedReceiver.version := rfl
  have hkey : laggingSender.currentSelf = some ⟨constKey 1⟩ := rfl
  exact roundTrip keyTagAead hreach hversion hkey (Or.inr rfl) keySeparation_rotatedReceiver
    List.not_mem_nil (fun c hc => absurd hc List.not_mem_nil) hencrypt [9]
    (show 3 ≤ [5, 5, 5, 5].length by decide) zeroLeftover zeroLeftover

end LightwayCffi.Expresslane
