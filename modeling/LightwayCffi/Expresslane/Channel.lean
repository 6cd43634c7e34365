import LightwayCffi.Expresslane.RoundTrip
import LightwayCffi.Foundations.History

/-!
# The channel between two sessions

A sender and a receiver are joined by a network that is entirely in the hands of an adversary: the
receiver may be given any byte string, under any session id and with any output buffer, at any time.
Keys are staged, promoted and installed in any order, and the caller of `encrypt` chooses the
counters, repeated ones included. The two versions need not agree.

The one assumption is unforgeability, made where it is used: a `decrypt` that succeeds opened a
tuple that the sender sealed before (`OpensSealed`). `channel_exactly_once` then says that the
receiver accepts each counter at most once in its whole life, and that the accepted packets are
matched, one to one, with earlier packets of the sender that have the same counter and the same
plaintext.
-/

namespace LightwayCffi.Expresslane

/-- The two sessions, and everything that was sent and received, oldest first. -/
structure Net where
  sender : ExpresslaneSession
  receiver : ExpresslaneSession
  events : List Event

/-- The operations of the sending side. -/
def Op.isSend : Op → Bool
  | reserveCounter => true
  | updateNextSelfKey _ => true
  | promoteSelfKey => true
  | encrypt _ _ _ _ _ _ _ => true
  | updatePeerKey _ => false
  | decrypt _ _ _ _ _ => false

/-- Unforgeability at one operation: if it is a `decrypt` that succeeds, then the tuple it opened
was sealed by one of the `events`, under the same key. -/
def OpensSealed (A : Aead) (events : List Event) (s : ExpresslaneSession) : Op → Prop
  | .decrypt sessionId wirePacket out left leftPrev =>
    ∀ s' out' r hdr body call plain,
      s.decrypt A sessionId wirePacket out left leftPrev = some (s', out', .ok r) →
      wirePacket = hdr.encode ++ body → s.openPacket A sessionId hdr body = some (call, plain) →
        ∃ counter plainText, Event.encrypted counter plainText call ∈ events
  | _ => True

/-- One step of the channel. -/
inductive Net.Step (A : Aead) : Net → Net → Prop
  | send {net : Net} {s' : ExpresslaneSession} {fresh : List Event} (op : Op)
    (hop : op.isSend = true) (hrun : op.run A net.sender = some (s', fresh)) :
    Step A net ⟨s', net.receiver, net.events ++ fresh⟩
  | receive {net : Net} {s' : ExpresslaneSession} {fresh : List Event} (op : Op)
    (hop : op.isSend = false) (hrun : op.run A net.receiver = some (s', fresh))
    (hsealed : OpensSealed A net.events net.receiver op) :
    Step A net ⟨net.sender, s', net.events ++ fresh⟩

/-- The states that a sender and a receiver can reach from new sessions. -/
inductive Net.Reachable (A : Aead) : Net → Prop
  | new (version version' : ExpresslaneVersion) :
    Reachable A ⟨ExpresslaneSession.new version, ExpresslaneSession.new version', []⟩
  | step {net net' : Net} (h : Reachable A net) (hstep : Net.Step A net net') : Reachable A net'

/-! ## Matching the accepted packets with the sent ones -/

/-- Every accepted packet was sent before. -/
def Matched (events : List Event) : Prop :=
  ∀ (i : ℕ) (counter : BitVec 64) (plainText : Bytes),
    events[i]? = some (Event.decrypted counter plainText) →
      ∃ j < i, ∃ call, events[j]? = some (Event.encrypted counter plainText call)

/-- New events keep the matching if what they accept was sent before. -/
theorem Matched.append {events fresh : List Event} (h : Matched events)
    (hfresh : ∀ counter plainText, Event.decrypted counter plainText ∈ fresh →
      ∃ call, Event.encrypted counter plainText call ∈ events) : Matched (events ++ fresh) := by
  intro i counter plainText hi
  -- an event of the old part is matched there; a new one is matched by an event of the old part
  have hold : ∃ j < i, ∃ call, events[j]? = some (Event.encrypted counter plainText call) := by
    rcases Nat.lt_or_ge i events.length with hlt | hge
    · exact h i counter plainText (by rwa [List.getElem?_append_left hlt] at hi)
    · rw [List.getElem?_append_right hge] at hi
      obtain ⟨call, hcall⟩ := hfresh counter plainText (List.mem_of_getElem? hi)
      obtain ⟨j, hj⟩ := List.mem_iff_getElem?.1 hcall
      exact ⟨j, lt_of_lt_of_le (List.getElem?_eq_some_iff.1 hj).1 hge, call, hj⟩
  obtain ⟨j, hji, call, hj⟩ := hold
  exact ⟨j, hji, call, by rw [List.getElem?_append_left (List.getElem?_eq_some_iff.1 hj).1, hj]⟩

/-- If no counter was accepted twice, the matching is one to one. -/
theorem Matched.exists_injOn {events : List Event} (h : Matched events)
    (hnodup : (decryptedCounters events).Nodup) :
    ∃ f : ℕ → ℕ,
      Set.InjOn f {i | ∃ counter plainText,
        events[i]? = some (Event.decrypted counter plainText)} ∧
      ∀ (i : ℕ) (counter : BitVec 64) (plainText : Bytes),
        events[i]? = some (Event.decrypted counter plainText) →
          f i < i ∧ ∃ call, events[f i]? = some (Event.encrypted counter plainText call) := by
  have hchoice : ∀ i : ℕ, ∃ j : ℕ, ∀ counter plainText,
      events[i]? = some (Event.decrypted counter plainText) →
        j < i ∧ ∃ call, events[j]? = some (Event.encrypted counter plainText call) := by
    intro i
    by_cases hi : ∃ counter plainText, events[i]? = some (Event.decrypted counter plainText)
    · obtain ⟨counter, plainText, hi⟩ := hi
      obtain ⟨j, hji, call, hj⟩ := h i counter plainText hi
      refine ⟨j, fun c p hcp => ?_⟩
      obtain ⟨rfl, rfl⟩ := Event.decrypted.inj (Option.some.inj (hi.symm.trans hcp))
      exact ⟨hji, call, hj⟩
    · exact ⟨0, fun c p hcp => absurd ⟨c, p, hcp⟩ hi⟩
  choose f hf using hchoice
  refine ⟨f, ?_, hf⟩
  rintro i ⟨c, p, hi⟩ j ⟨c', p', hj⟩ hij
  obtain ⟨-, call, hcall⟩ := hf i c p hi
  obtain ⟨-, call', hcall'⟩ := hf j c' p' hj
  rw [hij, hcall'] at hcall
  obtain ⟨rfl, -, -⟩ := Event.encrypted.inj (Option.some.inj hcall)
  exact History.position_unique hnodup hi hj rfl rfl

/-- The accepted counters are among the sent ones. -/
theorem Matched.subset {events : List Event} (h : Matched events) :
    decryptedCounters events ⊆ encryptedCounters events := by
  intro counter hc
  obtain ⟨e, he, hec⟩ := List.mem_filterMap.1 hc
  cases e with
  | encrypted c p call => exact absurd hec (Option.some_ne_none _).symm
  | decrypted c p =>
    obtain rfl : c = counter := Option.some.inj hec
    obtain ⟨i, hi⟩ := List.mem_iff_getElem?.1 he
    obtain ⟨j, -, call, hj⟩ := h i c p hi
    exact List.mem_filterMap.2 ⟨_, List.mem_of_getElem? hj, rfl⟩

/-! ## The invariant -/

/-- The invariant of the channel. -/
structure Net.Inv (A : Aead) (net : Net) : Prop where
  receiving : Receiving net.receiver.rx (decryptedCounters net.events)
  sent : net.sender.packetsSent = BitVec.ofNat 64 (encryptedCounters net.events).length
  /-- every recorded tuple is the seal of its plaintext, with its counter in the associated data -/
  seals : ∀ counter plainText call, Event.encrypted counter plainText call ∈ net.events →
    ∃ cipher iv version sessionId flags,
      Cipher.sealCall A cipher iv (aadOf version sessionId counter flags) plainText = some call
  matched : Matched net.events

theorem Net.inv_new (A : Aead) (version version' : ExpresslaneVersion) :
    Net.Inv A ⟨ExpresslaneSession.new version, ExpresslaneSession.new version', []⟩ where
  receiving := receiving_new version'
  sent := rfl
  seals _ _ _ h := absurd h List.not_mem_nil
  matched _ _ _ h := absurd h (by simp)

/-- A step of the sender: at most one packet more was sent. -/
theorem Net.Inv.send {A : Aead} {net : Net} {s' : ExpresslaneSession} {fresh : List Event} {op : Op}
    (h : net.Inv A) (hop : op.isSend = true) (ho : Outcome A net.sender s' op fresh) :
    Net.Inv A ⟨s', net.receiver, net.events ++ fresh⟩ := by
  cases ho with
  | quiet _ hrx hsent =>
    rw [List.append_nil]
    exact ⟨h.receiving, hsent.trans h.sent, h.seals, h.matched⟩
  | installed key => exact absurd hop Bool.false_ne_true
  | received => exact absurd hop Bool.false_ne_true
  | @sent counter sessionId plainText iv isEncoded out left call hseal hrx hsent =>
    refine ⟨?_, ?_, fun c p call' hmem => ?_, h.matched.append fun c p hmem => ?_⟩
    · rw [decryptedCounters, List.filterMap_append]
      exact (List.append_nil _).symm ▸ h.receiving
    · rw [encryptedCounters, List.filterMap_append, List.length_append]
      exact (hsent.trans (congrArg (· + 1#64) h.sent)).trans (BitVec.ofNat_add _ _).symm
    · rcases List.mem_append.1 hmem with hmem | hmem
      · exact h.seals c p call' hmem
      · obtain ⟨rfl, rfl, rfl⟩ := Event.encrypted.inj (List.mem_singleton.1 hmem)
        obtain ⟨cipher, -, hcall⟩ := Option.bind_eq_some_iff.1 hseal
        exact ⟨cipher, iv, net.sender.version, sessionId, _, hcall⟩
    · exact absurd (List.mem_singleton.1 hmem) (by simp)

/-- A step of the receiver: what it accepts was sealed by the sender, so the counter and the
plaintext are the sender's. -/
theorem Net.Inv.receive {A : Aead} {net : Net} {s' : ExpresslaneSession} {fresh : List Event}
    {op : Op} (h : net.Inv A) (hop : op.isSend = false) (ho : Outcome A net.receiver s' op fresh)
    (hsealed : OpensSealed A net.events net.receiver op) :
    Net.Inv A ⟨net.sender, s', net.events ++ fresh⟩ := by
  have hrec := h.receiving.step ho
  rw [decryptedCounters, decryptedCounters, ← List.filterMap_append] at hrec
  cases ho with
  | quiet _ hrx hsent =>
    rw [List.append_nil] at hrec ⊢
    exact ⟨hrec, h.sent, h.seals, h.matched⟩
  | installed key hrx hsent =>
    rw [List.append_nil] at hrec ⊢
    exact ⟨hrec, h.sent, h.seals, h.matched⟩
  | sent => exact absurd hop.symm Bool.false_ne_true
  | @received sessionId hdr body out out' left leftPrev call plain r hok hopen hfresh hrx hsent =>
    obtain ⟨counter, plainText, hmem⟩ := hsealed _ _ _ hdr body call plain hok rfl hopen
    obtain ⟨cipher, iv, version, sid, flags, hseal⟩ := h.seals counter plainText call hmem
    obtain ⟨cipher', -, hcall⟩ := ExpresslaneSession.exists_openCall A _ _ _ hopen
    obtain ⟨rfl, haad⟩ := Cipher.openCall_sealCall hcall hseal
    obtain ⟨-, rfl⟩ := aadOf_inj haad
    refine ⟨hrec, ?_, fun c p call' hmem' => ?_, h.matched.append fun c p hmem' => ?_⟩
    · rw [encryptedCounters, List.filterMap_append]
      exact (List.append_nil (encryptedCounters net.events)).symm ▸ h.sent
    · rcases List.mem_append.1 hmem' with hmem' | hmem'
      · exact h.seals c p call' hmem'
      · exact absurd (List.mem_singleton.1 hmem') (by simp)
    · obtain ⟨rfl, rfl⟩ := Event.decrypted.inj (List.mem_singleton.1 hmem')
      exact ⟨call, hmem⟩

/-- The invariant holds along every run. -/
theorem Net.Reachable.inv {A : Aead} {net : Net} (h : net.Reachable A) : net.Inv A := by
  induction h with
  | new version version' => exact Net.inv_new A version version'
  | step _ hstep ih =>
    cases hstep with
    | send op hop hrun => exact ih.send hop (Op.run_outcome hrun)
    | receive op hop hrun hsealed => exact ih.receive hop (Op.run_outcome hrun) hsealed

/-- **Exactly once.** In every reachable state of the channel: no counter was accepted twice; the
accepted packets are matched, one to one, with earlier packets that were sent with the same counter
and the same plaintext; the two packet counters count them modulo `2 ^ 64`; and before the count of
the sent packets wraps, at most as many packets were received as were sent. -/
theorem channel_exactly_once (A : Aead) {net : Net} (h : net.Reachable A) :
    (decryptedCounters net.events).Nodup ∧
    (∃ f : ℕ → ℕ,
      Set.InjOn f {i | ∃ counter plainText,
        net.events[i]? = some (Event.decrypted counter plainText)} ∧
      ∀ (i : ℕ) (counter : BitVec 64) (plainText : Bytes),
        net.events[i]? = some (Event.decrypted counter plainText) →
          f i < i ∧ ∃ call, net.events[f i]? = some (Event.encrypted counter plainText call)) ∧
    net.receiver.packetsReceived = BitVec.ofNat 64 (decryptedCounters net.events).length ∧
    net.sender.packetsSent = BitVec.ofNat 64 (encryptedCounters net.events).length ∧
    ((encryptedCounters net.events).length < 2 ^ 64 →
      net.receiver.packetsReceived ≤ net.sender.packetsSent) := by
  have hinv := h.inv
  have hnodup := hinv.receiving.nodup
  have hreceived : net.receiver.packetsReceived =
      BitVec.ofNat 64 (decryptedCounters net.events).length := by
    have := hinv.receiving.window.received
    rwa [List.length_map, List.length_reverse] at this
  refine ⟨hnodup, hinv.matched.exists_injOn hnodup, hreceived, hinv.sent, fun hwrap => ?_⟩
  have hle : (decryptedCounters net.events).length ≤ (encryptedCounters net.events).length :=
    (List.subperm_of_subset hnodup hinv.matched.subset).length_le
  rw [hreceived, hinv.sent, BitVec.le_def, BitVec.toNat_ofNat, BitVec.toNat_ofNat,
    Nat.mod_eq_of_lt hwrap, Nat.mod_eq_of_lt (lt_of_le_of_lt hle hwrap)]
  exact hle

/-- The header of the packet of the run below. -/
def deliveredHeader : WireHeader where
  counter := 7#64
  iv := Vector.replicate 12 6
  tag := Vector.replicate 16 1
  dataLen := 3#16
  flags := flagEncoded

/-- The seal in that packet. -/
def deliveredCall : AeadCall where
  key := constKey 1
  iv := Vector.replicate 12 6
  aad := aadOf .version2 (Vector.replicate 8 3) 7#64 flagEncoded
  ciphertext := [1, 2, 3]
  tag := Vector.replicate 16 1

/-- A receiver that accepted one packet. -/
def deliveredReceiver : ExpresslaneSession :=
  let s := ((ExpresslaneSession.new .version2).updatePeerKey (constKey 1)).1
  { s with rx := { s.rx with replayWindow := (s.rx.replayWindow.commit 7#64).1 } }

/-- The packet is accepted, under whatever is in the buffer. -/
theorem decrypt_delivered {out : Bytes} (hout : 3 ≤ out.length) :
    ((ExpresslaneSession.new .version2).updatePeerKey (constKey 1)).1.decrypt keyTagAead
      (Vector.replicate 8 3) (deliveredHeader.encode ++ [1, 2, 3]) out zeroLeftover zeroLeftover =
      some (deliveredReceiver, [1, 2, 3] ++ out.drop 3, .ok (3, true)) := by
  have hopened : ((ExpresslaneSession.new .version2).updatePeerKey (constKey 1)).1.openPacket
      keyTagAead (Vector.replicate 8 3) deliveredHeader [1, 2, 3] =
        some (deliveredCall, [1, 2, 3]) := rfl
  exact ExpresslaneSession.decrypt_of_openPacket keyTagAead _ _ deliveredHeader rfl le_rfl hout
    hopened zeroLeftover zeroLeftover

/-- And it is refused when it comes again. -/
theorem decrypt_delivered_again (out : Bytes) :
    deliveredReceiver.decrypt keyTagAead (Vector.replicate 8 3)
      (deliveredHeader.encode ++ [1, 2, 3]) out zeroLeftover zeroLeftover =
      some (deliveredReceiver, out, .error .replayed) := by
  have hseen : deliveredReceiver.rx.replayWindow.wouldReject deliveredHeader.counter = true := by
    decide
  rw [ExpresslaneSession.decrypt_encode, hseen]
  rfl

/-- The channel after one packet was sent and delivered. -/
def deliveredNet : Net where
  sender := { laggingSender with packetsSent := 1#64 }
  receiver := deliveredReceiver
  events := [Event.encrypted 7#64 [1, 2, 3] deliveredCall, Event.decrypted 7#64 [1, 2, 3]]

theorem reachable_deliveredNet : deliveredNet.Reachable keyTagAead := by
  let receiver : ExpresslaneSession :=
    ((ExpresslaneSession.new .version2).updatePeerKey (constKey 1)).1
  let wire : Bytes := deliveredHeader.encode ++ [1, 2, 3]
  let decrypt : Op :=
    .decrypt (Vector.replicate 8 3) wire [0, 0, 0] zeroLeftover zeroLeftover
  let encrypt : Op := .encrypt 7#64 (Vector.replicate 8 3) [1, 2, 3] (Vector.replicate 12 6) true
    (List.replicate 43 0) zeroLeftover
  have hsent : Net.Reachable keyTagAead
      ⟨{ laggingSender with packetsSent := 1#64 }, receiver,
        [Event.encrypted 7#64 [1, 2, 3] deliveredCall]⟩ :=
    .step (.step (.step (.step (.new .version2 .version2)
      (.receive (.updatePeerKey (constKey 1)) rfl rfl trivial))
      (.send (.updateNextSelfKey (constKey 1)) rfl rfl)) (.send .promoteSelfKey rfl rfl))
      (.send encrypt rfl rfl)
  have hopened : receiver.openPacket keyTagAead (Vector.replicate 8 3) deliveredHeader [1, 2, 3] =
      some (deliveredCall, [1, 2, 3]) := rfl
  have hrun : decrypt.run keyTagAead receiver =
      some (deliveredReceiver, [Event.decrypted 7#64 [1, 2, 3]]) := by
    simp only [decrypt, wire, Op.run]
    rw [decrypt_delivered le_rfl, wireCounter_encode]
    rfl
  refine .step hsent (.receive decrypt rfl hrun ?_)
  intro s' out' r hdr body call plain _ hwire hopen
  have hhdr : deliveredHeader = hdr := by
    have := parseHeader_encode hdr body
    rw [← hwire, parseHeader_encode] at this
    exact Option.some.inj this
  subst hhdr
  obtain rfl : [1, 2, 3] = body := List.append_cancel_left hwire
  obtain rfl : deliveredCall = call :=
    (Prod.mk.inj (Option.some.inj (hopened.symm.trans hopen))).1
  exact ⟨7#64, [1, 2, 3], List.mem_singleton_self _⟩

/-- One packet sent, one packet received. -/
theorem channel_exactly_once_deliveredNet :
    deliveredNet.receiver.packetsReceived = 1#64 ∧
      deliveredNet.receiver.packetsReceived ≤ deliveredNet.sender.packetsSent := by
  obtain ⟨-, -, hreceived, -, hle⟩ := channel_exactly_once keyTagAead reachable_deliveredNet
  exact ⟨hreceived, hle (by decide)⟩

end LightwayCffi.Expresslane
