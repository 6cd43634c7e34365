import LightwayCffi.Expresslane.CProcess
import LightwayCffi.Expresslane.Channel

/-!
# Processes that use packet sessions

A process makes calls of the C interface in any order, on any of its handles, and changes its own
memory in between. It keeps a `Ledger` of what its calls told it: the handles that are live and, for
each of them, the packets that were sent and received. Every live handle is a session that was
reached by operations with exactly these packets (`Run.balanced`), so that what holds for runs of
one session holds for each handle of a process: `process_books` for the counters and the statistics,
`process_roundTrip` for a packet that goes from the memory of one process to that of another.
-/

namespace LightwayCffi.Expresslane

open Buffer Memory

namespace Process

/-! ## The ledger -/

/-- What the calls have told the process about a handle: the version it asked for, and the packets
that were sent and received, each with its counter, oldest first. -/
structure Record where
  version : ExpresslaneVersion
  sent : List (BitVec 64 × Bytes)
  received : List (BitVec 64 × Bytes)

/-- The records of the handles that are live. -/
abbrev Ledger := ℕ → Option Record

/-- Change the record of a handle. -/
def Ledger.amend (l : Ledger) (session : ℕ) (f : Record → Record) : Ledger :=
  Function.update l session ((l session).map f)

/-- The ledger after a call. A packet that was received is the plaintext that the process finds in
its buffer. -/
def Ledger.record (l : Ledger) (p p' : Process) : Call → Reply → Ledger
  | .create version _, .handle session =>
    if session = 0 then l
    else Function.update l session (some ⟨ExpresslaneVersion.ofU8 version, [], []⟩)
  | .destroy session, .void => if session = 0 then l else Function.update l session none
  | .encrypt x, .code .success =>
    l.amend x.session fun r =>
      { r with sent := r.sent ++ [(x.counter, load p.bytes x.plainText x.plainTextLen)] }
  | .decrypt x, .code .success =>
    l.amend x.session fun r =>
      { r with
        received := r.received ++ [(wireCounter (load p.bytes x.wirePacket x.wirePacketLen),
          load p'.bytes x.out (p'.lengths x.outLen))] }
  | _, _ => l

/-- The runs of a process: it starts without sessions, makes calls within their contract, and
changes its own memory at any time. -/
inductive Run (A : Aead) : Process → Ledger → Prop
  | start (p : Process) (h : ∀ session, p.sessions session = none) : Run A p fun _ => none
  | program {p : Process} {l : Ledger} (h : Run A p l) (bytes : ℕ → UInt8) (lengths : ℕ → ℕ)
    (flags : ℕ → Bool) : Run A ⟨bytes, lengths, flags, p.sessions⟩ l
  | call {p p' : Process} {l : Ledger} {r : Reply} (h : Run A p l) (call : Call)
    (hrun : call.run A p = some (p', r)) : Run A p' (l.record p p' call r)

end Process

/-- A packet that was sent. -/
def Event.packetSent : Event → Option (BitVec 64 × Bytes)
  | encrypted counter plainText _ => some (counter, plainText)
  | decrypted _ _ => none

/-- A packet that was received. -/
def Event.packetReceived : Event → Option (BitVec 64 × Bytes)
  | encrypted _ _ _ => none
  | decrypted counter plainText => some (counter, plainText)

theorem map_packetReceived (events : List Event) :
    (events.filterMap Event.packetReceived).map Prod.fst = decryptedCounters events := by
  rw [List.map_filterMap, decryptedCounters]
  refine List.filterMap_congr fun e _ => ?_
  cases e <;> rfl

theorem map_packetSent (events : List Event) :
    (events.filterMap Event.packetSent).map Prod.fst = encryptedCounters events := by
  rw [List.map_filterMap, encryptedCounters]
  refine List.filterMap_congr fun e _ => ?_
  cases e <;> rfl

namespace Process

/-! ## The books of a run -/

/-- A session whose history is what the record says. -/
structure Accounts (A : Aead) (s : ExpresslaneSession) (r : Record) : Prop where
  version_ne : r.version ≠ .unknown
  history : ∃ events, Reaches A r.version s events ∧
    events.filterMap Event.packetSent = r.sent ∧ events.filterMap Event.packetReceived = r.received

section Accounts

variable {A : Aead} {p p' : Process} {l : Ledger} {s s' : ExpresslaneSession} {r : Record}

theorem Accounts.step (h : Accounts A s r) {op : Op} {fresh : List Event}
    (hrun : op.run A s = some (s', fresh)) :
    Accounts A s' { r with
      sent := r.sent ++ fresh.filterMap Event.packetSent
      received := r.received ++ fresh.filterMap Event.packetReceived } := by
  obtain ⟨events, hreach, hsent, hreceived⟩ := h.history
  refine ⟨h.version_ne, events ++ fresh, hreach.step op hrun, ?_, ?_⟩
  · rw [List.filterMap_append, hsent]
  · rw [List.filterMap_append, hreceived]

/-- The sessions of a process and its ledger agree, and the null pointer is no handle. -/
structure Balanced (A : Aead) (p : Process) (l : Ledger) : Prop where
  null : p.sessions 0 = none
  accounts : ∀ session, Option.Rel (Accounts A) (p.sessions session) (l session)

/-- Change one handle, in the process and in the ledger. -/
theorem Balanced.update (h : Balanced A p l) {session : ℕ} (hsession : session ≠ 0)
    {v : Option ExpresslaneSession} {e : Option Record} (hrel : Option.Rel (Accounts A) v e)
    (hp' : p'.sessions = Function.update p.sessions session v) :
    Balanced A p' (Function.update l session e) where
  null := by rw [hp', Function.update_of_ne hsession.symm, h.null]
  accounts u := by
    rw [hp']
    rcases eq_or_ne u session with rfl | hne
    · rwa [Function.update_self, Function.update_self]
    · rw [Function.update_of_ne hne, Function.update_of_ne hne]
      exact h.accounts u

theorem Balanced.exists_record (h : Balanced A p l) {session : ℕ}
    (hlive : p.sessions session = some s) : ∃ r, l session = some r ∧ Accounts A s r := by
  have hrel := h.accounts session
  rw [hlive] at hrel
  cases hl : l session with
  | none =>
    rw [hl] at hrel
    cases hrel
  | some r =>
    rw [hl] at hrel
    cases hrel with
    | some hacc => exact ⟨r, rfl, hacc⟩

theorem record_of_idle {call : Call} {r : Reply} (h : Idle call r) :
    l.record p p' call r = l := by
  cases call with
  | create version address =>
    subst h
    rw [Ledger.record, if_pos rfl]
  | destroy session =>
    obtain ⟨rfl, rfl⟩ := h
    rw [Ledger.record, if_pos rfl]
  | encrypt x =>
    cases r with
    | code code =>
      obtain rfl := h.code_eq
      rfl
    | _ => rfl
  | decrypt x =>
    cases r with
    | code code =>
      obtain rfl := h.code_eq
      rfl
    | _ => rfl
  | _ => rfl

/-- An operation without a packet. -/
theorem Balanced.quiet (h : Balanced A p l) {session : ℕ} (hsession : session ≠ 0)
    (hlive : p.sessions session = some s) {op : Op} (hrun : op.run A s = some (s', []))
    (hp' : p'.sessions = Function.update p.sessions session (some s')) : Balanced A p' l := by
  obtain ⟨r, hl, hacc⟩ := h.exists_record hlive
  have hacc' : Accounts A s' r := by simpa using hacc.step hrun
  have hupdate := h.update hsession (.some hacc') hp'
  rwa [← hl, Function.update_eq_self] at hupdate

/-- An operation with a packet, which the record is told. -/
theorem Balanced.amend (h : Balanced A p l) {session : ℕ} (hsession : session ≠ 0)
    (hlive : p.sessions session = some s) {f : Record → Record}
    (hf : ∀ r, Accounts A s r → Accounts A s' (f r))
    (hp' : p'.sessions = Function.update p.sessions session (some s')) :
    Balanced A p' (l.amend session f) := by
  obtain ⟨r, hl, hacc⟩ := h.exists_record hlive
  rw [Ledger.amend, hl]
  exact h.update hsession (.some (hf r hacc)) hp'

theorem Balanced.encrypted (h : Balanced A p l) {x : EncryptParams} {out' : Bytes}
    {result : Except ExpresslaneError ℕ} (hsession : x.session ≠ 0)
    (hlive : p.sessions x.session = some s)
    (hrun : s.encrypt A x.counter (loadVector p.bytes x.sessionId 8)
      (load p.bytes x.plainText x.plainTextLen) (loadVector p.bytes x.iv 12) x.isEncoded
      (load p.bytes x.out x.outCapacity) x.left = some (s', out', result)) :
    Balanced A (x.finish p s' out' result).1 (l.record p (x.finish p s' out' result).1 (.encrypt x)
      (.code (x.finish p s' out' result).2)) := by
  cases result with
  | error e =>
    have hop : (Op.encrypt x.counter (loadVector p.bytes x.sessionId 8)
        (load p.bytes x.plainText x.plainTextLen) (loadVector p.bytes x.iv 12) x.isEncoded
        (load p.bytes x.out x.outCapacity) x.left).run A s = some (s', []) := by
      simp [Op.run, hrun]
    have hrecord : ∀ p', l.record p p' (.encrypt x) (.code (.ofError e)) = l := by
      intro p'
      cases e <;> rfl
    rw [EncryptParams.finish, hrecord]
    exact h.quiet hsession hlive hop rfl
  | ok n =>
    obtain ⟨call, hseal, -⟩ := s.encrypt_ok A _ _ _ _ _ _ hrun
    have hop : (Op.encrypt x.counter (loadVector p.bytes x.sessionId 8)
        (load p.bytes x.plainText x.plainTextLen) (loadVector p.bytes x.iv 12) x.isEncoded
        (load p.bytes x.out x.outCapacity) x.left).run A s =
          some (s', [.encrypted x.counter (load p.bytes x.plainText x.plainTextLen) call]) := by
      simp [Op.run, hrun, hseal]
    refine h.amend hsession hlive (fun r hacc => ?_) rfl
    simpa [List.filterMap_cons, Event.packetSent, Event.packetReceived] using hacc.step hop

theorem Balanced.decrypted (h : Balanced A p l) {x : DecryptParams} {out' : Bytes}
    {result : Except ExpresslaneError (ℕ × Bool)} (hsession : x.session ≠ 0)
    (hlive : p.sessions x.session = some s)
    (hrun : s.decrypt A (loadVector p.bytes x.sessionId 8)
      (load p.bytes x.wirePacket x.wirePacketLen) (load p.bytes x.out x.outCapacity) x.left
      x.leftPrev = some (s', out', result)) :
    Balanced A (x.finish p s' out' result).1 (l.record p (x.finish p s' out' result).1 (.decrypt x)
      (.code (x.finish p s' out' result).2)) := by
  rcases result with e | ⟨n, b⟩
  · have hop : (Op.decrypt (loadVector p.bytes x.sessionId 8)
        (load p.bytes x.wirePacket x.wirePacketLen) (load p.bytes x.out x.outCapacity) x.left
        x.leftPrev).run A s = some (s', []) := by
      simp [Op.run, hrun]
    have hrecord : ∀ p', l.record p p' (.decrypt x) (.code (.ofError e)) = l := by
      intro p'
      cases e <;> rfl
    rw [DecryptParams.finish, hrecord]
    exact h.quiet hsession hlive hop rfl
  · have hop : (Op.decrypt (loadVector p.bytes x.sessionId 8)
        (load p.bytes x.wirePacket x.wirePacketLen) (load p.bytes x.out x.outCapacity) x.left
        x.leftPrev).run A s = some (s', [.decrypted
          (wireCounter (load p.bytes x.wirePacket x.wirePacketLen)) (out'.take n)]) := by
      simp [Op.run, hrun]
    have hplain : load (store p.bytes x.out out') x.out n = out'.take n :=
      load_store_take _ _ ((ExpresslaneSession.decrypt_frame hrun).2 _ rfl).le
    refine h.amend hsession hlive (fun r hacc => ?_) rfl
    have hlength : (x.finish p s' out' (.ok (n, b))).1.lengths x.outLen = n :=
      Function.update_self _ _ _
    have hbytes : (x.finish p s' out' (.ok (n, b))).1.bytes = store p.bytes x.out out' := rfl
    rw [hlength, hbytes, hplain]
    simpa [List.filterMap_cons, Event.packetSent, Event.packetReceived] using hacc.step hop

/-- One call keeps the books. -/
theorem Balanced.call (h : Balanced A p l) {call : Call} {r : Reply}
    (heffect : Effect A p call p' r) : Balanced A p' (l.record p p' call r) := by
  cases heffect with
  | idle hidle =>
    rw [record_of_idle hidle]
    exact h
  | @created version address hversion haddress hfresh =>
    have hrecord : ∀ p', l.record p p' (.create version address) (.handle address) =
        Function.update l address (some ⟨ExpresslaneVersion.ofU8 version, [], []⟩) := fun _ =>
      if_neg haddress
    rw [hrecord]
    exact h.update haddress (.some ⟨hversion, [], .new, rfl, rfl⟩) rfl
  | @destroyed session hsession =>
    have hrecord : ∀ p', l.record p p' (.destroy session) .void =
        Function.update l session none := fun _ => if_neg hsession
    rw [hrecord]
    exact h.update hsession .none rfl
  | managed hcall hsession hlive hrun _ =>
    have hrecord : ∀ p', l.record p p' call r = l := by
      intro p'
      cases hcall <;> rfl
    rw [hrecord]
    exact h.quiet hsession hlive hrun rfl
  | encrypted hsession hlive hrun => exact h.encrypted hsession hlive hrun
  | decrypted hsession hlive hrun => exact h.decrypted hsession hlive hrun

/-- The books along every run. -/
theorem Run.balanced (h : Run A p l) : Balanced A p l := by
  induction h with
  | start p hnone =>
    refine ⟨hnone 0, fun session => ?_⟩
    rw [hnone session]
    exact .none
  | program _ _ _ _ ih => exact ⟨ih.null, ih.accounts⟩
  | call _ call hrun ih => exact ih.call (Call.effect hrun)

theorem Balanced.exists_session (h : Balanced A p l) {session : ℕ} (hr : l session = some r) :
    session ≠ 0 ∧ ∃ s, p.sessions session = some s ∧ Accounts A s r := by
  have hrel := h.accounts session
  rw [hr] at hrel
  cases hlive : p.sessions session with
  | none =>
    rw [hlive] at hrel
    cases hrel
  | some s =>
    rw [hlive] at hrel
    cases hrel with
    | some hacc =>
      refine ⟨?_, s, rfl, hacc⟩
      rintro rfl
      rw [h.null] at hlive
      cases hlive

theorem Accounts.nodup (h : Accounts A s r) : (r.received.map Prod.fst).Nodup := by
  obtain ⟨events, hreach, -, hreceived⟩ := h.history
  rw [← hreceived, map_packetReceived]
  exact hreach.receiving.nodup

theorem inspect_live {R : Type} {session : ℕ} (hsession : session ≠ 0)
    (hlive : p.sessions session = some s) (default : R) (f : ExpresslaneSession → R) :
    inspect p session default f = some (p, f s) := by
  rw [inspect, if_neg hsession, hlive]
  rfl

theorem Run.packetsReceived_eq (h : Run A p l) {session : ℕ} (hr : l session = some r) :
    heExpresslanePacketsReceived p session = some (p, BitVec.ofNat 64 r.received.length) := by
  obtain ⟨hsession, s, hlive, hacc⟩ := h.balanced.exists_session hr
  obtain ⟨events, hreach, -, hreceived⟩ := hacc.history
  have hcount : s.packetsReceived = BitVec.ofNat 64 (decryptedCounters events).length := by
    simpa [ExpresslaneSession.packetsReceived] using hreach.receiving.window.received
  rw [heExpresslanePacketsReceived, inspect_live hsession hlive, hcount, ← map_packetReceived,
    List.length_map, hreceived]

theorem Run.packetsSent_eq (h : Run A p l) {session : ℕ} (hr : l session = some r) :
    heExpresslanePacketsSent p session = some (p, BitVec.ofNat 64 r.sent.length) := by
  obtain ⟨hsession, s, hlive, hacc⟩ := h.balanced.exists_session hr
  obtain ⟨events, hreach, hsent, -⟩ := hacc.history
  rw [heExpresslanePacketsSent, inspect_live hsession hlive, hreach.packetsSent, ← map_packetSent,
    List.length_map, hsent]

/-- **The books of a process.** In every run of a process, with any number of handles, calls and
changes of its memory, the handles that are live are those it has a record of. The packets that
`he_expresslane_decrypt` has let through on a handle since it was created have different counters,
and the statistics of the handle are the numbers of packets that the process was told of. -/
theorem process_books (h : Run A p l) (session : ℕ) :
    (p.sessions session = none ↔ l session = none) ∧
    ∀ r, l session = some r →
      (r.received.map Prod.fst).Nodup ∧
      heExpresslanePacketsReceived p session = some (p, BitVec.ofNat 64 r.received.length) ∧
      heExpresslanePacketsSent p session = some (p, BitVec.ofNat 64 r.sent.length) := by
  have hbalanced := h.balanced
  refine ⟨?_, fun r hr => ?_⟩
  · have hrel := hbalanced.accounts session
    generalize p.sessions session = v at hrel ⊢
    generalize l session = e at hrel ⊢
    cases hrel <;> simp
  · obtain ⟨-, s, -, hacc⟩ := hbalanced.exists_session hr
    exact ⟨hacc.nodup, h.packetsReceived_eq hr, h.packetsSent_eq hr⟩

/-- A process with both ends of a channel: the sender at 1, the receiver at 2, and the key of both
at 10. -/
def loopbackProcess : Process where
  bytes := sampleBytes
  lengths _ := 5
  flags _ := true
  sessions := Function.update (Function.update (Function.update (Function.update (Function.update
    (fun _ => none) 1 (some (.new .version2))) 1
      (some ((ExpresslaneSession.new .version2).updateNextSelfKey (constKey 1)).1)) 1
        (some laggingSender)) 2 (some (.new .version2))) 2
          (some ((ExpresslaneSession.new .version2).updatePeerKey (constKey 1)).1)

theorem run_loopbackProcess : Run keyTagAead loopbackProcess (Function.update (Function.update
    (fun _ => none) 1 (some ⟨.version2, [], []⟩)) 2 (some ⟨.version2, [], []⟩)) := by
  have hstart : Run keyTagAead ⟨sampleBytes, fun _ => 5, fun _ => true, fun _ => none⟩ _ :=
    .start _ fun _ => rfl
  have hsender := ((hstart.call (.create 2 1) rfl).call (.setNextSelfKey 1 10) rfl).call
    (.promoteSelfKey 1) rfl
  exact (hsender.call (.create 2 2) rfl).call (.setPeerKey 2 10) rfl

/-- The packet is sent, and the process copies it to 2000. -/
def copiedProcess : Process :=
  { (sampleEncrypt.finish loopbackProcess { laggingSender with packetsSent := 1#64 } laggingPacket
      (.ok 43)).1 with bytes := store sampleBytes 2000 laggingPacket }

theorem encrypt_loopbackProcess :
    (Call.encrypt sampleEncrypt).run keyTagAead loopbackProcess =
      some ((sampleEncrypt.finish loopbackProcess { laggingSender with packetsSent := 1#64 }
        laggingPacket (.ok 43)).1, .code .success) := by
  have hlive : loopbackProcess.sessions sampleEncrypt.session = some laggingSender := rfl
  rw [Call.run, heExpresslaneEncrypt_eq (by decide) (by decide) hlive rfl]
  rfl

/-- The receiver is given the packet. -/
def loopbackDecrypt : DecryptParams where
  session := 2
  sessionId := 200
  wirePacket := 2000
  wirePacketLen := 43
  out := 3000
  outCapacity := 3
  outLen := 8
  isEncoded := 9
  left := zeroLeftover
  leftPrev := zeroLeftover

/-- It has received the packet. -/
def receivedProcess : Process :=
  (loopbackDecrypt.finish copiedProcess deliveredReceiver [1, 2, 3] (.ok (3, true))).1

/-- It was given the packet once more. -/
def refusedProcess : Process :=
  (loopbackDecrypt.finish receivedProcess deliveredReceiver [1, 2, 3] (.error .replayed)).1

theorem decrypt_copiedProcess :
    (Call.decrypt loopbackDecrypt).run keyTagAead copiedProcess =
      some (receivedProcess, .code .success) := by
  have hlive : copiedProcess.sessions loopbackDecrypt.session =
      some ((ExpresslaneSession.new .version2).updatePeerKey (constKey 1)).1 := rfl
  have hid : loadVector copiedProcess.bytes loopbackDecrypt.sessionId 8 = Vector.replicate 8 3 := by
    decide
  have hwire : load copiedProcess.bytes loopbackDecrypt.wirePacket loopbackDecrypt.wirePacketLen =
      deliveredHeader.encode ++ [1, 2, 3] := by decide
  have hrun := decrypt_delivered (show 3 ≤ (load copiedProcess.bytes 3000 3).length by decide)
  rw [← hid, ← hwire] at hrun
  rw [Call.run, heExpresslaneDecrypt_eq (by decide) (by decide) hlive hrun]
  rfl

theorem decrypt_receivedProcess :
    (Call.decrypt loopbackDecrypt).run keyTagAead receivedProcess =
      some (refusedProcess, .code .errReplayed) := by
  have hlive : receivedProcess.sessions loopbackDecrypt.session = some deliveredReceiver := rfl
  have hid : loadVector receivedProcess.bytes loopbackDecrypt.sessionId 8 =
      Vector.replicate 8 3 := by decide
  have hwire : load receivedProcess.bytes loopbackDecrypt.wirePacket
      loopbackDecrypt.wirePacketLen = deliveredHeader.encode ++ [1, 2, 3] := by decide
  have hout : load receivedProcess.bytes loopbackDecrypt.out loopbackDecrypt.outCapacity =
      [1, 2, 3] := by decide
  have hrun := decrypt_delivered_again [1, 2, 3]
  rw [← hid, ← hwire, ← hout] at hrun
  rw [Call.run, heExpresslaneDecrypt_eq (by decide) (by decide) hlive hrun, hout]
  rfl

/-- Its calls have told the process of one packet that was sent and of one that was received. -/
theorem run_refusedProcess : ∃ l : Ledger, Run keyTagAead refusedProcess l ∧
    l 1 = some ⟨.version2, [(7#64, [1, 2, 3])], []⟩ ∧
    l 2 = some ⟨.version2, [], [(7#64, [1, 2, 3])]⟩ := by
  have hsent := run_loopbackProcess.call (.encrypt sampleEncrypt) encrypt_loopbackProcess
  have hcopied : Run keyTagAead copiedProcess _ := hsent.program _ _ _
  have hreceived := hcopied.call (.decrypt loopbackDecrypt) decrypt_copiedProcess
  exact ⟨_, hreceived.call (.decrypt loopbackDecrypt) decrypt_receivedProcess, rfl, rfl⟩

/-- One packet is sent, received, and refused when it comes again. -/
theorem process_books_refusedProcess :
    (Call.decrypt loopbackDecrypt).run keyTagAead receivedProcess =
      some (refusedProcess, .code .errReplayed) ∧
    ∃ l : Ledger, Run keyTagAead refusedProcess l ∧
      l 1 = some ⟨.version2, [(7#64, [1, 2, 3])], []⟩ ∧
      heExpresslanePacketsSent refusedProcess 1 = some (refusedProcess, 1#64) ∧
      l 2 = some ⟨.version2, [], [(7#64, [1, 2, 3])]⟩ ∧
      heExpresslanePacketsReceived refusedProcess 2 = some (refusedProcess, 1#64) := by
  obtain ⟨l, hrun, hsender, hreceiver⟩ := run_refusedProcess
  obtain ⟨-, hbooks⟩ := process_books hrun 1
  obtain ⟨-, hbooks'⟩ := process_books hrun 2
  exact ⟨decrypt_receivedProcess, l, hrun, hsender, (hbooks _ hsender).2.2, hreceiver,
    (hbooks' _ hreceiver).2.1⟩

/-! ## From one process to another -/

/-- The packet that `he_expresslane_encrypt` has put into the buffer. -/
theorem exists_encrypt_of_success {x : EncryptParams}
    (h : heExpresslaneEncrypt A p x = some (p', .success)) (hlive : p.sessions x.session = some s) :
    ∃ s' out' n, s.encrypt A x.counter (loadVector p.bytes x.sessionId 8)
        (load p.bytes x.plainText x.plainTextLen) (loadVector p.bytes x.iv 12) x.isEncoded
        (load p.bytes x.out x.outCapacity) x.left = some (s', out', .ok n) ∧
      p' = (x.finish p s' out' (.ok n)).1 := by
  have heffect : Effect A p (.encrypt x) p' (.code .success) := effect_of_encrypt (by rw [h]; rfl)
  generalize hr : Reply.code .success = r at heffect
  cases heffect with
  | idle hidle =>
    subst hr
    exact nomatch hidle.code_eq
  | managed hcall => exact nomatch hcall
  | @encrypted _ s₁ s' out' result _ hlive' hrun =>
    obtain rfl := Option.some.inj (hlive.symm.trans hlive')
    cases result with
    | error e => exact absurd (Reply.code.inj hr).symm (ofError_ne_success e)
    | ok n => exact ⟨s', out', n, hrun, rfl⟩

theorem apart_of_encrypt {x : EncryptParams}
    (h : heExpresslaneEncrypt A p x = some (p', .success)) : x.Apart := by
  by_contra hapart
  cases hnull : x.anyNull with
  | true =>
    rw [heExpresslaneEncrypt, if_pos hnull] at h
    cases h
  | false =>
    rw [heExpresslaneEncrypt, if_neg (by simp [hnull]), if_pos hapart] at h
    cases h

/-- Where the packet is found. -/
theorem load_packet {x : EncryptParams} {out' : Bytes} {n : ℕ}
    (hsealed : s.encrypt A x.counter (loadVector p.bytes x.sessionId 8)
      (load p.bytes x.plainText x.plainTextLen) (loadVector p.bytes x.iv 12) x.isEncoded
      (load p.bytes x.out x.outCapacity) x.left = some (s', out', .ok n)) :
    (x.finish p s' out' (.ok n)).1.lengths x.outLen = n ∧
      load (x.finish p s' out' (.ok n)).1.bytes x.out n = out'.take n :=
  ⟨Function.update_self _ _ _,
    load_store_take _ _ ((ExpresslaneSession.encrypt_frame hsealed).2 n rfl).le⟩

/-- The plaintext that `he_expresslane_decrypt` has put into the buffer. -/
theorem exists_decrypt_of_success {y : DecryptParams}
    (h : heExpresslaneDecrypt A p y = some (p', .success)) :
    ∃ s s' out' n b, p.sessions y.session = some s ∧
      s.decrypt A (loadVector p.bytes y.sessionId 8) (load p.bytes y.wirePacket y.wirePacketLen)
        (load p.bytes y.out y.outCapacity) y.left y.leftPrev = some (s', out', .ok (n, b)) ∧
      p' = (y.finish p s' out' (.ok (n, b))).1 := by
  have heffect : Effect A p (.decrypt y) p' (.code .success) := effect_of_decrypt (by rw [h]; rfl)
  generalize hr : Reply.code .success = r at heffect
  cases heffect with
  | idle hidle =>
    subst hr
    exact nomatch hidle.code_eq
  | managed hcall => exact nomatch hcall
  | @decrypted _ s s' out' result _ hlive hrun =>
    rcases result with e | ⟨n, b⟩
    · exact absurd (Reply.code.inj hr).symm (ofError_ne_success e)
    · exact ⟨s, s', out', n, b, hlive, hrun, rfl⟩

/-- A handle is ready for the packet that `sender` seals with `counter`: it is of the sender's
version and has its key as the current or the previous one, and the counter is neither among those
received on the handle nor 8192 or more below one of them. -/
structure Awaits (A : Aead) (receiver sender : ExpresslaneSession) (record : Record)
    (counter : BitVec 64) : Prop where
  version : sender.version = record.version
  key : ∃ cipher, sender.currentSelf = some cipher ∧
    (receiver.rx.currentPeer = some cipher ∨ receiver.rx.prevPeer = some cipher)
  separation : KeySeparation A receiver.rx
  fresh : counter ∉ record.received.map Prod.fst
  window : ∀ c ∈ record.received.map Prod.fst, c.toNat < counter.toNat + 8192

/-- `he_expresslane_decrypt` on a packet that a session has sealed. -/
theorem exists_decrypt_of_sealed {q : Process} (hrun : Run A q l) {y : DecryptParams}
    {receiver sender sender' : ExpresslaneSession} {record : Record}
    (hreceiver : q.sessions y.session = some receiver) (hrecord : l y.session = some record)
    {counter : BitVec 64} (hawaits : Awaits A receiver sender record counter) {plainText : Bytes}
    {iv : Vector UInt8 12} {isEncoded : Bool} {out out' : Bytes} {left : Leftover} {n : ℕ}
    (hsealed : sender.encrypt A counter (loadVector q.bytes y.sessionId 8) plainText iv isEncoded
      out left = some (sender', out', .ok n)) {trailing : Bytes}
    (hwire : load q.bytes y.wirePacket y.wirePacketLen = out'.take n ++ trailing)
    (hnull : y.anyNull = false) (hapart : y.Apart) (hroom : plainText.length ≤ y.outCapacity) :
    ∃ q', heExpresslaneDecrypt A q y = some (q', .success) ∧
      q'.lengths y.outLen = plainText.length ∧ q'.flags y.isEncoded = isEncoded ∧
      load q'.bytes y.out plainText.length = plainText := by
  obtain ⟨record', hrecord', hacc⟩ := hrun.balanced.exists_record hreceiver
  obtain rfl := Option.some.inj (hrecord.symm.trans hrecord')
  obtain ⟨events, hreach, -, hreceived⟩ := hacc.history
  have hrx := hreach.receiving
  obtain ⟨hversion, ⟨cipher, hkey, hinstalled⟩, hsep, hnew, hwindow⟩ := hawaits
  rw [← hreceived, map_packetReceived] at hnew hwindow
  have hpass := hrx.passes hnew hwindow
  -- the packet is a header and a ciphertext, which opens under one of the receiver's two keys
  obtain ⟨hdr, ct, htake, rfl, hflags, hdata, hct, hseal⟩ := packet_of_encrypt hkey hsealed
  rw [htake, List.append_assoc] at hwire
  have hbody : (ct ++ trailing).take hdr.dataLen.toNat = ct := List.take_left' (by rw [hct, hdata])
  rw [hversion, ← hreach.version_eq, ← hbody] at hseal
  obtain ⟨call, hopen⟩ := openPacket_of_sealCall hrx.prev_none hinstalled hsep hseal
  have hlong : hdr.dataLen.toNat ≤ (ct ++ trailing).length := by
    rw [List.length_append]
    omega
  have hout : hdr.dataLen.toNat ≤ (load q.bytes y.out y.outCapacity).length := by
    rw [hdata, length_load]
    exact hroom
  have hdecrypt := receiver.decrypt_of_openPacket A (loadVector q.bytes y.sessionId 8) hdr hpass
    hlong hout hopen y.left y.leftPrev
  rw [← hwire, hdata, hflags, flagsOf_and_flagEncoded] at hdecrypt
  refine ⟨(y.finish q _ _ (.ok (plainText.length, isEncoded))).1,
    heExpresslaneDecrypt_eq hnull hapart hreceiver hdecrypt, Function.update_self _ _ _,
    Function.update_self _ _ _, ?_⟩
  refine (load_store_take _ _ ?_).trans List.take_left
  rw [List.length_append]
  omega

/-- `he_expresslane_decrypt` on a packet that another process has sent. -/
theorem exists_decrypt_of_encrypt {p p' q : Process} {x : EncryptParams}
    {sender : ExpresslaneSession} (hsender : p.sessions x.session = some sender)
    (hencrypt : heExpresslaneEncrypt A p x = some (p', .success)) (hrun : Run A q l)
    {y : DecryptParams} {receiver : ExpresslaneSession}
    (hreceiver : q.sessions y.session = some receiver) {record : Record}
    (hrecord : l y.session = some record) (hawaits : Awaits A receiver sender record x.counter)
    (hid : load q.bytes y.sessionId 8 = load p.bytes x.sessionId 8) {trailing : Bytes}
    (hwire : load q.bytes y.wirePacket y.wirePacketLen =
      load p'.bytes x.out (p'.lengths x.outLen) ++ trailing)
    (hnull : y.anyNull = false) (hapart : y.Apart) (hroom : x.plainTextLen ≤ y.outCapacity) :
    ∃ q', heExpresslaneDecrypt A q y = some (q', .success) ∧
      q'.lengths y.outLen = x.plainTextLen ∧ q'.flags y.isEncoded = x.isEncoded ∧
      load q'.bytes y.out x.plainTextLen = load p.bytes x.plainText x.plainTextLen := by
  obtain ⟨sender', out', n, hsealed, rfl⟩ := exists_encrypt_of_success hencrypt hsender
  obtain ⟨hlength, hpacket⟩ := load_packet hsealed
  have hplain : (load p.bytes x.plainText x.plainTextLen).length = x.plainTextLen :=
    length_load _ _ _
  rw [← loadVector_congr hid] at hsealed
  rw [hlength, hpacket] at hwire
  have hdecrypt := exists_decrypt_of_sealed hrun hreceiver hrecord hawaits hsealed hwire hnull
    hapart (hplain.le.trans hroom)
  rwa [hplain] at hdecrypt

/-- **Round trip through two processes.** A process sends a packet and another one, in any run of
its own, finds the bytes of the packet in its memory, perhaps with others behind them. If the
receiving handle awaits the packet and is told the same session id, then `he_expresslane_decrypt`
succeeds and the process finds the plaintext, its length and the flag where it asked for them. The
packet is `he_expresslane_wire_overhead` bytes longer than the plaintext. -/
theorem process_roundTrip (A : Aead) {p p' : Process} {x : EncryptParams}
    {sender : ExpresslaneSession} (hsender : p.sessions x.session = some sender)
    (hencrypt : heExpresslaneEncrypt A p x = some (p', .success))
    {q : Process} {l : Ledger} (hrun : Run A q l) {y : DecryptParams}
    {receiver : ExpresslaneSession} (hreceiver : q.sessions y.session = some receiver)
    {record : Record} (hrecord : l y.session = some record)
    (hawaits : Awaits A receiver sender record x.counter)
    (hid : load q.bytes y.sessionId 8 = load p.bytes x.sessionId 8) {trailing : Bytes}
    (hwire : load q.bytes y.wirePacket y.wirePacketLen =
      load p'.bytes x.out (p'.lengths x.outLen) ++ trailing)
    (hnull : y.anyNull = false) (hapart : y.Apart) (hroom : x.plainTextLen ≤ y.outCapacity) :
    p'.lengths x.outLen = heExpresslaneWireOverhead + x.plainTextLen ∧
    ∃ q', heExpresslaneDecrypt A q y = some (q', .success) ∧
      q'.lengths y.outLen = x.plainTextLen ∧ q'.flags y.isEncoded = x.isEncoded ∧
      load q'.bytes y.out x.plainTextLen = load p.bytes x.plainText x.plainTextLen := by
  obtain ⟨q', hq'⟩ := exists_decrypt_of_encrypt hsender hencrypt hrun hreceiver hrecord hawaits hid
    hwire hnull hapart hroom
  obtain ⟨sender', out', n, hsealed, rfl⟩ := exists_encrypt_of_success hencrypt hsender
  obtain ⟨-, -, -, -, hn, -⟩ := sender.encrypt_ok A _ _ _ _ _ _ hsealed
  rw [length_load] at hn
  exact ⟨(load_packet hsealed).1.trans hn, q', hq'⟩

/-- A receiver that has copied the packet to 2000. -/
def receiverProcess : Process where
  bytes := store sampleBytes 2000 (laggingPacket ++ [9])
  lengths _ := 5
  flags _ := false
  sessions := Function.update (Function.update (Function.update (fun _ => none) 1
    (some (.new .version2))) 1 (some ((ExpresslaneSession.new .version2).updatePeerKey
      (constKey 1)).1)) 1 (some rotatedReceiver)

/-- Its record. -/
def receiverLedger : Ledger := Function.update (fun _ => none) 1 (some ⟨.version2, [], []⟩)

/-- The receiver was created, and two keys were installed. -/
theorem run_receiverProcess : Run keyTagAead receiverProcess receiverLedger := by
  have hstart : Run keyTagAead ⟨sampleBytes, fun _ => 0, fun _ => true, fun _ => none⟩ _ :=
    .start _ fun _ => rfl
  have hcreate := hstart.call (.create 2 1) rfl
  have hfirst := hcreate.call (.setPeerKey 1 10) rfl
  have hsecond := hfirst.call (.setPeerKey 1 100) rfl
  exact hsecond.program _ _ _

theorem awaits_rotatedReceiver :
    Awaits keyTagAead rotatedReceiver laggingSender ⟨.version2, [], []⟩ 7#64 where
  version := rfl
  key := ⟨⟨constKey 1⟩, rfl, Or.inr rfl⟩
  separation := keySeparation_rotatedReceiver
  fresh := List.not_mem_nil
  window _ hc := absurd hc List.not_mem_nil

/-- The receiver is given the packet, with a byte behind it. -/
def sampleDecrypt : DecryptParams where
  session := 1
  sessionId := 200
  wirePacket := 2000
  wirePacketLen := 44
  out := 3000
  outCapacity := 4
  outLen := 8
  isEncoded := 9
  left := zeroLeftover
  leftPrev := zeroLeftover

/-- A packet that was sent before the rotation, from one process to the other. -/
theorem process_roundTrip_receiverProcess :
    sentProcess.lengths 8 = 43 ∧
    ∃ q', heExpresslaneDecrypt keyTagAead receiverProcess sampleDecrypt = some (q', .success) ∧
      q'.lengths 8 = 3 ∧ q'.flags 9 = true ∧ load q'.bytes 3000 3 = [1, 2, 3] := by
  have hid : load receiverProcess.bytes 200 8 = load senderProcess.bytes 200 8 := by decide
  have hwire : load receiverProcess.bytes 2000 44 =
      load sentProcess.bytes 1000 (sentProcess.lengths 8) ++ [9] := by decide
  exact process_roundTrip keyTagAead rfl encrypt_sampleEncrypt run_receiverProcess rfl rfl
    awaits_rotatedReceiver hid hwire (by decide) (by decide) (by decide)

end Accounts

end Process

end LightwayCffi.Expresslane
