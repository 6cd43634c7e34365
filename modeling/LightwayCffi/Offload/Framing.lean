import LightwayCffi.Client.Core
import LightwayCffi.Expresslane.CLedger
import LightwayCffi.Expresslane.TamperEvidence

/-!
# The data-plane offload

A host that encrypts and decrypts ExpressLane packets itself puts lightway's 16-byte header in front
of what it sends, and has to tell apart what it receives. `he_conn_build_expresslane_header` and
`he_conn_identify_packet` do that for it. The format of the header belongs to lightway-core: it is a
`HeaderCodec`, of which no more is assumed than that a header takes 16 bytes and is read back.

`receive` is the path of an inbound datagram as the documentation of the two functions prescribes
it: classify, strip the header, and decrypt with the session id that was found in it.
`offload_roundTrip` follows a datagram from the memory of the sending host to that of the receiving
one. `egress_authentic` is about datagrams of any origin. A host adopts the session id of a datagram
for what it sends itself, and the header is not authenticated; but the id is, since it was part of
what the packet was decrypted with, so that a forged header cannot steer the host.
-/

namespace LightwayCffi.Offload

open Client (HeReturnCode)
open Expresslane Expresslane.Process Buffer Memory

/-! ## The functions -/

/-- `he_packet_kind_t`. -/
inductive HePacketKind where
  | undecidable
  | control
  | expresslane
  deriving DecidableEq

/-- lightway-core's `Header`; `V` are the versions of the tunnel protocol. -/
structure Header (V : Type) where
  version : V
  aggressiveMode : Bool
  expresslaneData : Bool
  session : Vector UInt8 8

/-- `Header::WIRE_SIZE`. -/
abbrev wireSize : ℕ := 16

/-- What lightway-core knows about headers. Reading may fail (`some none`) or panic (`none`); a
header that is not for a reserved session is read back. -/
structure HeaderCodec (V : Type) where
  appendToWire : Header V → Bytes
  tryFromWire : Bytes → Option (Option (Header V))
  isReserved : Vector UInt8 8 → Bool
  length_appendToWire : ∀ hdr, (appendToWire hdr).length = wireSize
  tryFromWire_appendToWire : ∀ hdr, isReserved hdr.session = false →
    tryFromWire (appendToWire hdr) = some (some hdr)

/-- A client, as far as the header depends on it: whether the calling thread is inside one of its
callbacks and so holds its lock, and the version of the tunnel if it has a connection. -/
structure ClientView (V : Type) where
  lockHeld : Bool
  tunnelProtocolVersion : Option V

/-- A process that uses packet sessions and clients. -/
structure Host (V : Type) extends Process where
  /-- the objects of type `he_packet_kind_t` -/
  kinds : ℕ → HePacketKind
  clients : ℕ → Option (ClientView V)

/-- The parameters of `he_conn_identify_packet`. -/
structure IdentifyParams where
  packet : ℕ
  len : ℕ
  kind : ℕ
  sessionId : ℕ
  headerLen : ℕ

variable {V : Type}

/-- Store the three answers, each if it is asked for. -/
def Host.answer (h : Host V) (z : IdentifyParams) (kind : HePacketKind) (session : Vector UInt8 8)
    (headerLen : ℕ) : Host V :=
  let h := { h with kinds := Function.update h.kinds z.kind kind }
  let h := if z.sessionId = 0 then h
    else { h with toProcess := h.storeBytes z.sessionId session.toList }
  if z.headerLen = 0 then h else { h with toProcess := h.storeLength z.headerLen headerLen }

/-- `he_conn_identify_packet`. -/
def heConnIdentifyPacket (C : HeaderCodec V) (h : Host V) (z : IdentifyParams) :
    Host V × HeReturnCode :=
  if z.kind = 0 ∨ z.packet = 0 ∧ 0 < z.len then (h, .errNullPointer)
  else
    let h := h.answer z .undecidable (Vector.replicate 8 0) 0
    if z.len < wireSize then (h, .success)
    else match C.tryFromWire (load h.bytes z.packet wireSize) with
    | none => (h, .errFailed)
    | some none => (h, .success)
    | some (some hdr) =>
      let kind := if hdr.expresslaneData then .expresslane else .control
      (h.answer z kind hdr.session wireSize, .success)

/-- `he_conn_build_expresslane_header`; `none` if the client is not live. -/
def heConnBuildExpresslaneHeader (C : HeaderCodec V) (h : Host V) (client sessionId out : ℕ) :
    Option (Host V × HeReturnCode) :=
  if out = 0 ∨ sessionId = 0 ∨ client = 0 then some (h, .errNullPointer)
  else do
    let session ← tryInto 8 (load h.bytes sessionId 8)
    if C.isReserved session then some (h, .errBadParam)
    else (h.clients client).map fun view =>
      if view.lockHeld then (h, .errInvalidConnState)
      else match view.tunnelProtocolVersion with
      | none => (h, .errInvalidConnState)
      | some version =>
        let bm := C.appendToWire ⟨version, false, true, session⟩
        if wireSize ≤ bm.length then
          ({ h with toProcess := h.storeBytes out (bm.take wireSize) }, .success)
        else (h, .errFailed)

/-! ## What they do -/

section Spec

variable {C : HeaderCodec V} {h h' : Host V} {z : IdentifyParams}

section Answer

variable {kind : HePacketKind} {session : Vector UInt8 8} {len : ℕ}

@[simp]
theorem answer_kinds : (h.answer z kind session len).kinds z.kind = kind := by
  rw [Host.answer]
  split_ifs <;> exact Function.update_self _ _ _

@[simp]
theorem answer_sessions : (h.answer z kind session len).sessions = h.sessions := by
  rw [Host.answer]
  split_ifs <;> rfl

theorem answer_lengths (hlen : z.headerLen ≠ 0) :
    (h.answer z kind session len).lengths z.headerLen = len := by
  rw [Host.answer, if_neg hlen]
  exact Function.update_self _ _ _

theorem answer_bytes (hsession : z.sessionId ≠ 0) :
    (h.answer z kind session len).bytes = store h.bytes z.sessionId session.toList := by
  rw [Host.answer, if_neg hsession]
  split_ifs <;> rfl

end Answer

/-- A datagram with a header in front, and a buffer for the session id elsewhere. -/
theorem heConnIdentifyPacket_eq {hdr : Header V} (hkind : z.kind ≠ 0) (hpacket : z.packet ≠ 0)
    (hlen : wireSize ≤ z.len) (hsession : z.sessionId ≠ 0)
    (hapart : Memory.Disjoint z.packet z.len z.sessionId 8)
    (hparse : C.tryFromWire (load h.bytes z.packet wireSize) = some (some hdr)) :
    heConnIdentifyPacket C h z =
      ((h.answer z .undecidable (Vector.replicate 8 0) 0).answer z
        (if hdr.expresslaneData then .expresslane else .control) hdr.session wireSize,
        .success) := by
  have hload : load (h.answer z .undecidable (Vector.replicate 8 0) 0).bytes z.packet wireSize =
      load h.bytes z.packet wireSize := by
    rw [answer_bytes hsession]
    refine load_store_of_disjoint ?_
    rw [Vector.length_toList]
    exact hapart.imp (fun h => by omega) id
  rw [heConnIdentifyPacket, if_neg (by simp [hkind, hpacket])]
  simp only [if_neg (Nat.not_lt.2 hlen), hload, hparse]

/-- The header that was built. -/
theorem heConnBuildExpresslaneHeader_success {client sessionId out : ℕ}
    (hbuild : heConnBuildExpresslaneHeader C h client sessionId out = some (h', .success)) :
    C.isReserved (loadVector h.bytes sessionId 8) = false ∧
      ∃ version, h'.toProcess = h.storeBytes out
        (C.appendToWire ⟨version, false, true, loadVector h.bytes sessionId 8⟩) := by
  rw [heConnBuildExpresslaneHeader, tryInto_load] at hbuild
  simp only [Option.bind_eq_bind, Option.bind_some] at hbuild
  split_ifs at hbuild with hnull hreserved
  · cases hbuild
  · cases hbuild
  obtain ⟨view, -, hview⟩ := Option.map_eq_some_iff.1 hbuild
  split_ifs at hview with hheld
  · cases hview
  · cases hversion : view.tunnelProtocolVersion with
    | none =>
      rw [hversion] at hview
      cases hview
    | some version =>
      have hlen := C.length_appendToWire ⟨version, false, true, loadVector h.bytes sessionId 8⟩
      rw [hversion] at hview
      simp only [hlen, le_refl, if_true, Prod.mk.injEq, and_true] at hview
      refine ⟨by simpa using hreserved, version, ?_⟩
      rw [← hview, List.take_of_length_le hlen.le]

end Spec

/-! ## The path of a datagram -/

/-- The call that decrypts what follows the header, with the session id that was found in it. -/
def IdentifyParams.strip (z : IdentifyParams) (h : Host V) (y : DecryptParams) : DecryptParams :=
  { y with
    sessionId := z.sessionId
    wirePacket := z.packet + h.lengths z.headerLen
    wirePacketLen := z.len - h.lengths z.headerLen }

/-- An inbound datagram: what the fast path makes of it, if it is for the fast path. -/
def receive (A : Aead) (C : HeaderCodec V) (h : Host V) (z : IdentifyParams) (y : DecryptParams) :
    Option (Host V × Option HeExpresslaneReturnCode) :=
  let (h₁, code) := heConnIdentifyPacket C h z
  if code = .success ∧ h₁.kinds z.kind = .expresslane then
    (heExpresslaneDecrypt A h₁.toProcess (z.strip h₁ y)).map fun r =>
      ({ h₁ with toProcess := r.1 }, some r.2)
  else some (h₁, none)

/-- The pointers of a host that receives datagrams, and its buffers: the output and the session id
are apart, and apart from the datagram. -/
structure Ready (z : IdentifyParams) (y : DecryptParams) : Prop where
  packet : z.packet ≠ 0
  kind : z.kind ≠ 0
  sessionId : z.sessionId ≠ 0
  headerLen : z.headerLen ≠ 0
  session : y.session ≠ 0
  out : y.out ≠ 0
  outLen : y.outLen ≠ 0
  isEncoded : y.isEncoded ≠ 0
  session_datagram : Memory.Disjoint z.packet z.len z.sessionId 8
  out_datagram : Memory.Disjoint y.out y.outCapacity z.packet z.len
  session_out : Memory.Disjoint z.sessionId 8 y.out y.outCapacity

section Receive

variable {A : Aead} {C : HeaderCodec V} {h h' : Host V} {z : IdentifyParams} {y : DecryptParams}

/-- A datagram that the fast path has accepted: it was decrypted with the session id that is still
in its buffer. -/
theorem exists_decrypt_of_receive (hreceive : receive A C h z y = some (h', some .success))
    (hapart : Memory.Disjoint z.sessionId 8 y.out y.outCapacity) :
    ∃ s s' out' n b, (heConnIdentifyPacket C h z).1.sessions y.session = some s ∧
      s.decrypt A (loadVector h'.bytes z.sessionId 8)
        (load (heConnIdentifyPacket C h z).1.bytes
          (z.strip (heConnIdentifyPacket C h z).1 y).wirePacket
          (z.strip (heConnIdentifyPacket C h z).1 y).wirePacketLen)
        (load (heConnIdentifyPacket C h z).1.bytes y.out y.outCapacity) y.left y.leftPrev =
          some (s', out', .ok (n, b)) ∧
      loadVector h'.bytes z.sessionId 8 =
        loadVector (heConnIdentifyPacket C h z).1.bytes z.sessionId 8 ∧
      load h'.bytes y.out (h'.lengths y.outLen) = out'.take n := by
  rw [receive] at hreceive
  generalize heConnIdentifyPacket C h z = r at hreceive
  obtain ⟨h₁, code⟩ := r
  simp only at hreceive
  split_ifs at hreceive with hkind
  · obtain ⟨⟨p', code'⟩, hdecrypt, heq⟩ := Option.map_eq_some_iff.1 hreceive
    obtain ⟨rfl, hcode⟩ := Prod.mk.inj heq
    obtain rfl := Option.some.inj hcode
    obtain ⟨s, s', out', n, b, hlive, hrun, rfl⟩ := exists_decrypt_of_success hdecrypt
    have hframe := ExpresslaneSession.decrypt_frame hrun
    have hlen := hframe.1
    rw [length_load] at hlen
    have hsession : loadVector (store h₁.bytes y.out out') z.sessionId 8 =
        loadVector h₁.bytes z.sessionId 8 := by
      refine loadVector_congr (load_store_of_disjoint ?_)
      rw [hlen]
      exact hapart
    refine ⟨s, s', out', n, b, hlive, ?_, hsession, ?_⟩
    · exact hsession ▸ hrun
    · have hlength : ((z.strip h₁ y).finish h₁.toProcess s' out' (.ok (n, b))).1.lengths y.outLen =
          n := Function.update_self _ _ _
      rw [hlength]
      exact load_store_take _ _ (hframe.2 _ rfl).le
  · exact nomatch (Prod.mk.inj (Option.some.inj hreceive)).2

theorem Ready.anyNull_strip (hready : Ready z y) (h : Host V) :
    (z.strip h y).anyNull = false := by
  simp [DecryptParams.anyNull, IdentifyParams.strip, hready.session, hready.sessionId, hready.out,
    hready.outLen, hready.isEncoded, hready.packet]

theorem Ready.apart_strip (hready : Ready z y) (hheaderLen : h.lengths z.headerLen = wireSize)
    (hlong : wireSize ≤ z.len) : (z.strip h y).Apart := by
  simp only [DecryptParams.Apart, IdentifyParams.strip, hheaderLen]
  exact hready.out_datagram.imp (fun h => by omega) fun h => by omega

/-- The bytes of a datagram: the header and the packet. -/
theorem load_datagram {p : Process} {p' : Host V} {x : EncryptParams} {datagram client : ℕ}
    {sender sender' : ExpresslaneSession} {out' : Bytes} {n : ℕ}
    (hsealed : sender.encrypt A x.counter (loadVector p.bytes x.sessionId 8)
      (load p.bytes x.plainText x.plainTextLen) (loadVector p.bytes x.iv 12) x.isEncoded
      (load p.bytes x.out x.outCapacity) x.left = some (sender', out', .ok n))
    (hapart : x.Apart) (hspace : x.out = datagram + wireSize)
    (hh : h.toProcess = (x.finish p sender' out' (.ok n)).1)
    (hheader : heConnBuildExpresslaneHeader C h client x.sessionId datagram =
      some (p', .success)) :
    ∃ version, C.isReserved (loadVector p.bytes x.sessionId 8) = false ∧
      p'.lengths x.outLen = n ∧
      load p'.bytes datagram (wireSize + n) =
        C.appendToWire ⟨version, false, true, loadVector p.bytes x.sessionId 8⟩ ++ out'.take n := by
  obtain ⟨hlength, hpacket⟩ := load_packet hsealed
  have hlen := (ExpresslaneSession.encrypt_frame hsealed).1
  rw [length_load] at hlen
  -- encrypting has left the session id alone
  have hid : loadVector h.bytes x.sessionId 8 = loadVector p.bytes x.sessionId 8 := by
    refine loadVector_congr ?_
    rw [hh]
    refine load_store_of_disjoint ?_
    rw [hlen]
    exact hapart.1.symm
  obtain ⟨hreserved, version, hp'⟩ := heConnBuildExpresslaneHeader_success hheader
  rw [hid] at hreserved hp'
  have hsize := C.length_appendToWire ⟨version, false, true, loadVector p.bytes x.sessionId 8⟩
  refine ⟨version, hreserved, ?_, ?_⟩
  · rw [hp', ← hlength, ← hh]
    rfl
  · rw [load_add, hp', ← hpacket, ← hh, hspace]
    congr 1
    · exact load_store_of_length _ _ hsize
    · refine load_store_of_disjoint ?_
      rw [hsize]
      exact Or.inr le_rfl

/-- A datagram with a header in front is recognised, and what follows the header is left alone. -/
theorem identify_datagram {hdr : Header V} {rest : Bytes} (hready : Ready z y)
    (hreserved : C.isReserved hdr.session = false) (hdata : hdr.expresslaneData = true)
    (hdatagram : load h.bytes z.packet z.len = C.appendToWire hdr ++ rest) :
    ∃ h₁, heConnIdentifyPacket C h z = (h₁, .success) ∧ h₁.kinds z.kind = .expresslane ∧
      h₁.lengths z.headerLen = wireSize ∧ h₁.sessions = h.sessions ∧
      loadVector h₁.bytes z.sessionId 8 = hdr.session ∧
      load h₁.bytes (z.packet + wireSize) (z.len - wireSize) = rest := by
  have hsize := C.length_appendToWire hdr
  have hlen : z.len = wireSize + rest.length := by
    rw [← hsize, ← List.length_append, ← hdatagram, length_load]
  rw [hlen, load_add] at hdatagram
  obtain ⟨hfront, hback⟩ := List.append_inj hdatagram (by rw [length_load, hsize])
  have hparse : C.tryFromWire (load h.bytes z.packet wireSize) = some (some hdr) := by
    rw [hfront, C.tryFromWire_appendToWire hdr hreserved]
  have heq := heConnIdentifyPacket_eq hready.kind hready.packet (by omega) hready.sessionId
    hready.session_datagram hparse
  rw [hdata, if_pos rfl] at heq
  refine ⟨_, heq, answer_kinds, answer_lengths hready.headerLen, by simp, ?_, ?_⟩
  · rw [answer_bytes hready.sessionId]
    refine Vector.toList_inj.1 ?_
    rw [toList_loadVector, load_store_of_length _ _ hdr.session.length_toList]
  · have hapart : Memory.Disjoint (z.packet + wireSize) rest.length z.sessionId 8 :=
      hready.session_datagram.imp (fun h => by omega) fun h => by omega
    rw [answer_bytes hready.sessionId, answer_bytes hready.sessionId, hlen,
      Nat.add_sub_cancel_left, load_store_of_disjoint (by rwa [Vector.length_toList]),
      load_store_of_disjoint (by rwa [Vector.length_toList]), hback]

/-- **Round trip of a datagram.** A host encrypts a packet behind a gap of 16 bytes, and builds the
header in the gap. Another host, in any run of its own, receives the datagram. It is classified as
an ExpressLane datagram, and if the handle awaits the packet, it is decrypted: the host finds the
plaintext, its length and the flag where it asked for them, and the session id to adopt is the one
that the sender used. -/
theorem offload_roundTrip (A : Aead) (C : HeaderCodec V) {p p' : Host V} {p₁ : Process}
    {x : EncryptParams} {sender : ExpresslaneSession} {datagram client : ℕ}
    (hsender : p.sessions x.session = some sender) (hspace : x.out = datagram + wireSize)
    (hencrypt : heExpresslaneEncrypt A p.toProcess x = some (p₁, .success))
    (hheader : heConnBuildExpresslaneHeader C { p with toProcess := p₁ } client x.sessionId
      datagram = some (p', .success))
    {q : Host V} {l : Ledger} (hrun : Run A q.toProcess l) {z : IdentifyParams} {y : DecryptParams}
    (hready : Ready z y)
    (hdatagram : load q.bytes z.packet z.len =
      load p'.bytes datagram (wireSize + p'.lengths x.outLen))
    {receiver : ExpresslaneSession} (hreceiver : q.sessions y.session = some receiver)
    {record : Record} (hrecord : l y.session = some record)
    (hawaits : Awaits A receiver sender record x.counter) (hroom : x.plainTextLen ≤ y.outCapacity) :
    ∃ q', receive A C q z y = some (q', some .success) ∧
      q'.lengths y.outLen = x.plainTextLen ∧ q'.flags y.isEncoded = x.isEncoded ∧
      load q'.bytes y.out x.plainTextLen = load p.bytes x.plainText x.plainTextLen ∧
      loadVector q'.bytes z.sessionId 8 = loadVector p.bytes x.sessionId 8 := by
  obtain ⟨sender', out', n, hsealed, rfl⟩ := exists_encrypt_of_success hencrypt hsender
  have hplain : (load p.bytes x.plainText x.plainTextLen).length = x.plainTextLen :=
    length_load _ _ _
  obtain ⟨version, hreserved, hlength, hbytes⟩ := load_datagram hsealed
    (apart_of_encrypt hencrypt) hspace rfl hheader
  rw [hlength, hbytes] at hdatagram
  obtain ⟨q₁, hidentify, hkind, hheaderLen, hsessions, hid, hrest⟩ :=
    identify_datagram hready hreserved rfl hdatagram
  -- the receiving handle has not changed
  have hrun₁ : Run A q₁.toProcess l := by
    have := hrun.program q₁.bytes q₁.lengths q₁.flags
    rwa [← hsessions] at this
  have hreceiver₁ : q₁.sessions (z.strip q₁ y).session = some receiver := by
    rw [hsessions]
    exact hreceiver
  have hwire : load q₁.bytes (z.strip q₁ y).wirePacket (z.strip q₁ y).wirePacketLen =
      out'.take n ++ [] := by
    rw [List.append_nil, ← hrest, ← hheaderLen]
    rfl
  have hlong : wireSize ≤ z.len := by
    have := congrArg List.length hdatagram
    rw [length_load, List.length_append, C.length_appendToWire] at this
    omega
  replace hid : loadVector q₁.bytes z.sessionId 8 = loadVector p.bytes x.sessionId 8 := hid
  rw [← hid] at hsealed
  obtain ⟨q', hdecrypt, hlen, hflag, hload⟩ := exists_decrypt_of_sealed hrun₁ hreceiver₁ hrecord
    hawaits hsealed hwire (hready.anyNull_strip q₁) (hready.apart_strip hheaderLen hlong)
    (hplain.le.trans hroom)
  rw [hplain] at hlen hload
  have hreceive : receive A C q z y = some ({ q₁ with toProcess := q' }, some .success) := by
    rw [receive, hidentify]
    simp [hkind, hdecrypt]
  obtain ⟨-, -, -, -, -, -, -, hkept, -⟩ := exists_decrypt_of_receive hreceive hready.session_out
  refine ⟨_, hreceive, hlen, hflag, hload, ?_⟩
  rw [hkept, hidentify, hid]

/-- A codec of headers, for a protocol with one version. -/
def sampleCodec : HeaderCodec Unit where
  appendToWire hdr :=
    [0x48, 0x65, 1, 3, if hdr.aggressiveMode then 1 else 0, if hdr.expresslaneData then 1 else 0,
      0, 0] ++ hdr.session.toList
  tryFromWire bs := some (
    if bs.take 2 = [0x48, 0x65] then
      (tryInto 8 (bs.drop 8)).map fun session =>
        ⟨(), bs[4]?.getD 0 != 0, bs[5]?.getD 0 != 0, session⟩
    else none)
  isReserved session := session = Vector.replicate 8 0
  length_appendToWire hdr := by simp
  tryFromWire_appendToWire := by
    rintro ⟨⟨⟩, aggressive, expresslane, session⟩ -
    cases aggressive <;> cases expresslane <;> simp [tryInto_toList]

/-- A host that sends a packet. -/
def senderHost : Host Unit where
  toProcess := senderProcess
  kinds _ := .undecidable
  clients := Function.update (fun _ => none) 1 (some ⟨false, some ()⟩)

/-- The packet goes to 1016, with room for a header in front of it. -/
def offloadEncrypt : EncryptParams := { sampleEncrypt with out := 1016 }

theorem encrypt_offloadEncrypt :
    heExpresslaneEncrypt keyTagAead senderHost.toProcess offloadEncrypt =
      some ({ sentProcess with bytes := store sampleBytes 1016 laggingPacket }, .success) := by
  have hlive : senderProcess.sessions offloadEncrypt.session = some laggingSender := rfl
  have hrun : laggingSender.encrypt keyTagAead 7#64 (loadVector sampleBytes 200 8)
      (load sampleBytes 400 3) (loadVector sampleBytes 300 12) true (load sampleBytes 1016 43)
      zeroLeftover = some ({ laggingSender with packetsSent := 1#64 }, laggingPacket, .ok 43) := rfl
  exact heExpresslaneEncrypt_eq (by decide) (by decide) hlive hrun

/-- The header of the datagram. -/
def sampleHeader : Bytes := [0x48, 0x65, 1, 3, 0, 1, 0, 0] ++ List.replicate 8 3

/-- The host with the datagram at 1000. -/
def framedHost : Host Unit :=
  { senderHost with
    toProcess := { sentProcess with
      bytes := store (store sampleBytes 1016 laggingPacket) 1000 sampleHeader } }

/-- The receiving host, with the datagram at 2000. -/
def receiverHost : Host Unit where
  toProcess := { receiverProcess with
    bytes := store sampleBytes 2000 (sampleHeader ++ laggingPacket) }
  kinds _ := .control
  clients _ := none

/-- It asks for the session id at 5000 and for the plaintext at 3000. -/
def sampleIdentify : IdentifyParams := ⟨2000, 59, 4, 5000, 12⟩

theorem ready_sampleIdentify : Ready sampleIdentify sampleDecrypt := by
  constructor <;> decide

/-- A datagram from one host to the other. -/
theorem offload_roundTrip_receiverHost :
    ∃ q', receive keyTagAead sampleCodec receiverHost sampleIdentify sampleDecrypt =
        some (q', some .success) ∧
      q'.lengths 8 = 3 ∧ q'.flags 9 = true ∧ load q'.bytes 3000 3 = [1, 2, 3] ∧
      loadVector q'.bytes 5000 8 = Vector.replicate 8 3 := by
  have hrun : Run keyTagAead receiverHost.toProcess receiverLedger :=
    run_receiverProcess.program _ _ _
  have hheader : heConnBuildExpresslaneHeader sampleCodec { senderHost with toProcess :=
      { sentProcess with bytes := store sampleBytes 1016 laggingPacket } } 1 200 1000 =
        some (framedHost, .success) := rfl
  have hdatagram : load receiverHost.bytes 2000 59 =
      load framedHost.bytes 1000 (wireSize + framedHost.lengths 8) := by decide
  exact offload_roundTrip keyTagAead sampleCodec rfl rfl encrypt_offloadEncrypt hheader hrun
    ready_sampleIdentify hdatagram rfl rfl awaits_rotatedReceiver (by decide)

/-! ## Datagrams of any origin -/

/-- The bytes that the fast path decrypts are not forged: if they open under a key of the handle,
with the session id of the header, they were sealed by one of the transmissions `sent`. -/
def UnforgedDatagram (A : Aead) (C : HeaderCodec V) (sent : Set (Transmission A)) (h : Host V)
    (z : IdentifyParams) (y : DecryptParams) : Prop :=
  let h₁ := (heConnIdentifyPacket C h z).1
  ∀ receiver, h₁.sessions y.session = some receiver →
    Unforged A sent receiver (loadVector h₁.bytes z.sessionId 8)
      (load h₁.bytes (z.strip h₁ y).wirePacket (z.strip h₁ y).wirePacketLen)

/-- A packet that was accepted was sent with this plaintext and for this session. -/
theorem exists_transmission_plain {sent : Set (Transmission A)}
    {receiver receiver' : ExpresslaneSession} {sessionId : Vector UInt8 8} {wire out out' : Bytes}
    {left leftPrev : Leftover} {n : ℕ} {b : Bool}
    (hunforged : Unforged A sent receiver sessionId wire)
    (hok : receiver.decrypt A sessionId wire out left leftPrev =
      some (receiver', out', .ok (n, b))) :
    ∃ x ∈ sent, x.sessionId = sessionId ∧ x.plainText = out'.take n := by
  obtain ⟨hdr, body, call, plain, rfl, -, hopen, -, rfl, rfl, hbody, -⟩ :=
    receiver.decrypt_ok A sessionId hok
  obtain ⟨cipher, hinstalled, hcall⟩ := receiver.exists_openCall A sessionId hdr hopen
  obtain ⟨x, hx, hsealed⟩ := hunforged rfl hinstalled hcall
  obtain ⟨cipher', -, hseal⟩ := Option.bind_eq_some_iff.1 hsealed
  obtain ⟨hplain, haad⟩ := Cipher.openCall_sealCall hcall hseal
  refine ⟨x, hx, (aadOf_inj haad).1.symm, ?_⟩
  rw [List.take_left' (receiver.length_openPacket A sessionId hdr hopen hbody), hplain]

/-- What the fast path accepts was sent for the session that the host finds. -/
theorem receive_authentic {sent : Set (Transmission A)}
    (hreceive : receive A C h z y = some (h', some .success))
    (hapart : Memory.Disjoint z.sessionId 8 y.out y.outCapacity)
    (hunforged : UnforgedDatagram A C sent h z y) :
    ∃ x ∈ sent, x.sessionId = loadVector h'.bytes z.sessionId 8 ∧
      x.plainText = load h'.bytes y.out (h'.lengths y.outLen) := by
  obtain ⟨s, s', out', n, b, hlive, hrun, hkept, hload⟩ := exists_decrypt_of_receive hreceive hapart
  rw [hload]
  exact exists_transmission_plain (hkept ▸ hunforged s hlive) hrun

end Receive

/-- A host with the session id that it puts into its own headers, and the plaintexts that the fast
path has delivered, each with the session id that it came with. -/
structure Endpoint (V : Type) where
  host : Host V
  sessionId : Vector UInt8 8
  delivered : List (Vector UInt8 8 × Bytes)

/-- The runs of an endpoint that was first told the session id `first`. Datagrams of any origin
arrive; when one was decrypted, its session id is adopted, and not before. Otherwise the host does
what it likes. -/
inductive Endpoint.Run (A : Aead) (C : HeaderCodec V) (sent : Set (Transmission A))
    (first : Vector UInt8 8) : Endpoint V → Prop
  | start (host : Host V) : Run A C sent first ⟨host, first, []⟩
  | other {e : Endpoint V} (h : Run A C sent first e) (host : Host V) :
    Run A C sent first { e with host := host }
  | received {e : Endpoint V} {h' : Host V} (h : Run A C sent first e) (z : IdentifyParams)
    (y : DecryptParams) (hapart : Memory.Disjoint z.sessionId 8 y.out y.outCapacity)
    (hreceive : receive A C e.host z y = some (h', some .success))
    (hunforged : UnforgedDatagram A C sent e.host z y) :
    Run A C sent first ⟨h', loadVector h'.bytes z.sessionId 8,
      e.delivered ++ [(loadVector h'.bytes z.sessionId 8,
        load h'.bytes y.out (h'.lengths y.outLen))]⟩

/-- **A forged header cannot steer a host.** Whatever datagrams arrive, with whatever headers, as
long as nobody forges a packet of the AEAD: every plaintext that was delivered was sent, for the
session it came with; and the session id that the host puts into its headers is the first one, or
one that a transmission was made for. -/
theorem egress_authentic {A : Aead} {C : HeaderCodec V} {sent : Set (Transmission A)}
    {first : Vector UInt8 8} {e : Endpoint V} (h : Endpoint.Run A C sent first e) :
    (∀ d ∈ e.delivered, ∃ x ∈ sent, x.sessionId = d.1 ∧ x.plainText = d.2) ∧
      (e.sessionId = first ∨ ∃ x ∈ sent, x.sessionId = e.sessionId) := by
  induction h with
  | start host => exact ⟨fun d hd => absurd hd List.not_mem_nil, Or.inl rfl⟩
  | other _ _ ih => exact ih
  | received _ z y hapart hreceive hunforged ih =>
    obtain ⟨x, hx, hid, hplain⟩ := receive_authentic hreceive hapart hunforged
    refine ⟨fun d hd => ?_, Or.inr ⟨x, hx, hid⟩⟩
    rcases List.mem_append.1 hd with hd | hd
    · exact ih.1 d hd
    · obtain rfl := List.mem_singleton.1 hd
      exact ⟨x, hx, hid, hplain⟩

/-- The datagram is recognised. -/
theorem identify_receiverHost : ∃ h₁ : Host Unit,
    heConnIdentifyPacket sampleCodec receiverHost sampleIdentify = (h₁, .success) ∧
      h₁.kinds 4 = .expresslane ∧ h₁.lengths 12 = wireSize ∧
      h₁.sessions = receiverProcess.sessions ∧
      loadVector h₁.bytes 5000 8 = Vector.replicate 8 3 ∧
      load h₁.bytes 2016 43 = laggingPacket := by
  have hdatagram : load receiverHost.bytes 2000 59 =
      sampleCodec.appendToWire ⟨(), false, true, Vector.replicate 8 3⟩ ++ laggingPacket := by decide
  exact identify_datagram ready_sampleIdentify (by decide) rfl hdatagram

/-- The fast path accepts the datagram. -/
theorem receive_receiverHost : ∃ h', receive keyTagAead sampleCodec receiverHost sampleIdentify
    sampleDecrypt = some (h', some .success) ∧ loadVector h'.bytes 5000 8 = Vector.replicate 8 3 ∧
      load h'.bytes 3000 (h'.lengths 8) = [1, 2, 3] := by
  obtain ⟨h₁, hidentify, hkind, hheaderLen, hsessions, hsession, hwire⟩ := identify_receiverHost
  have hrun : Run keyTagAead h₁.toProcess receiverLedger := by
    have := run_receiverProcess.program h₁.bytes h₁.lengths h₁.flags
    rwa [← hsessions] at this
  have hsealed : laggingSender.encrypt keyTagAead 7#64 (loadVector h₁.bytes 5000 8)
      [1, 2, 3] (Vector.replicate 12 6) true (List.replicate 43 0) zeroLeftover =
        some ({ laggingSender with packetsSent := 1#64 }, laggingPacket, .ok 43) := by
    rw [hsession]
    rfl
  have hlive : h₁.sessions 1 = some rotatedReceiver := by
    rw [hsessions]
    rfl
  have hstrip : load h₁.bytes (2000 + h₁.lengths 12) (59 - h₁.lengths 12) =
      laggingPacket.take 43 ++ [] := by
    rw [hheaderLen, List.append_nil]
    exact hwire
  have hroom : [1, 2, 3].length ≤ sampleDecrypt.outCapacity := by decide
  obtain ⟨q', hdecrypt, hlen, -, hload⟩ := exists_decrypt_of_sealed
    (y := sampleIdentify.strip h₁ sampleDecrypt) hrun hlive rfl awaits_rotatedReceiver hsealed
    hstrip (ready_sampleIdentify.anyNull_strip _)
    (ready_sampleIdentify.apart_strip hheaderLen (by decide)) hroom
  have hreceive : receive keyTagAead sampleCodec receiverHost sampleIdentify sampleDecrypt =
      some ({ h₁ with toProcess := q' }, some .success) := by
    have hkind : h₁.kinds sampleIdentify.kind = .expresslane := hkind
    simp [receive, hidentify, hkind, hdecrypt]
  obtain ⟨-, -, -, -, -, -, -, hkept, -⟩ :=
    exists_decrypt_of_receive hreceive ready_sampleIdentify.session_out
  refine ⟨_, hreceive, ?_, (congrArg (load q'.bytes 3000) hlen).trans hload⟩
  rw [hidentify] at hkept
  exact hkept.trans hsession

theorem unforged_receiverHost :
    UnforgedDatagram keyTagAead sampleCodec {inFlight} receiverHost sampleIdentify
      sampleDecrypt := by
  obtain ⟨h₁, hidentify, -, hheaderLen, hsessions, hsession, hwire⟩ := identify_receiverHost
  rw [UnforgedDatagram, hidentify]
  intro receiver hlive
  obtain rfl : rotatedReceiver = receiver := by
    rw [hsessions] at hlive
    exact Option.some.inj hlive
  have hstrip : load h₁.bytes (2000 + h₁.lengths 12) (59 - h₁.lengths 12) = inFlight.packet := by
    rw [hheaderLen]
    exact hwire
  have hunforged := unforged_inFlight
  rw [← hstrip, ← hsession] at hunforged
  exact hunforged

/-- The endpoint has adopted the session id of the datagram. -/
theorem egress_authentic_receiverHost :
    ∃ e : Endpoint Unit, e.sessionId = Vector.replicate 8 3 ∧
      e.delivered = [(Vector.replicate 8 3, [1, 2, 3])] ∧
      (e.sessionId = Vector.replicate 8 9 ∨
        ∃ x ∈ ({inFlight} : Set (Transmission keyTagAead)), x.sessionId = e.sessionId) := by
  obtain ⟨h', hreceive, hid, hplain⟩ := receive_receiverHost
  have hstart : Endpoint.Run keyTagAead sampleCodec {inFlight} (Vector.replicate 8 9)
      ⟨receiverHost, Vector.replicate 8 9, []⟩ := .start receiverHost
  have hrun := hstart.received sampleIdentify sampleDecrypt ready_sampleIdentify.session_out
    hreceive unforged_receiverHost
  refine ⟨_, hid, ?_, (egress_authentic hrun).2⟩
  exact congrArg₂ (fun a b => [(a, b)]) hid hplain

end LightwayCffi.Offload
