import LightwayCffi.Expresslane.KeyRotation
import LightwayCffi.Expresslane.RoundTrip
import LightwayCffi.Foundations.History
import Mathlib.Tactic.IntervalCases

/-!
# The parallel send pipeline

Any number of threads send on one session. Each of them reserves a counter and then encrypts with
it, over and over, while keys are staged and promoted. The packets reach a receiver in any order,
some of them never, some of them twice.

On the sending side the counters are what matters: the reservations are atomic increments, so they
are the numbers 1, 2, 3, … in the order of the log (`outline_reserved`), and as every thread uses a
reservation for one packet (`Pipelined`), no two packets share a counter. On the receiving side a
packet of the pipeline is always authentic, so that the replay window alone decides: `receiveAll` is
the run of the window over the counters (`receiveAll_eq`).
-/

namespace LightwayCffi.Expresslane

open ConcurrentObject SharedSession

/-! ## Reservations -/

section Reserved

variable {T : Type*}

/-- The counter of a finished reservation. -/
def reservation (e : Entry T Call Note Result) : Option (BitVec 64) :=
  match e.event with
  | .returned _ .reserveCounter (.counter counter) => some counter
  | _ => none

/-- The counters that were reserved, oldest first. -/
def reserved (log : List (Entry T Call Note Result)) : List (BitVec 64) := log.filterMap reservation

theorem reserved_noteEntries (t : T) (ns : List Note) :
    reserved (noteEntries t ns) = [] := by
  rw [reserved, List.filterMap_eq_nil_iff]
  intro e he
  obtain ⟨n, -, rfl⟩ := List.mem_map.1 he
  rfl

/-- The first `n` counters. -/
def countersTo (n : ℕ) : List (BitVec 64) := (List.range n).map fun i => BitVec.ofNat 64 (i + 1)

theorem countersTo_succ (n : ℕ) :
    countersTo (n + 1) = countersTo n ++ [BitVec.ofNat 64 n + 1#64] := by
  rw [countersTo, List.range_succ, List.map_append, List.map_singleton, BitVec.ofNat_add]
  rfl

theorem nodup_countersTo {n : ℕ} (h : n < 2 ^ 64) : (countersTo n).Nodup := by
  refine List.Nodup.map_on (fun i hi j hj hij => ?_) List.nodup_range
  have hi := List.mem_range.1 hi
  have hj := List.mem_range.1 hj
  have hval := congrArg BitVec.toNat hij
  rw [BitVec.toNat_ofNat, BitVec.toNat_ofNat, Nat.mod_eq_of_lt (by omega),
    Nat.mod_eq_of_lt (by omega)] at hval
  omega

/-- The counters are small as long as there are few. -/
theorem toNat_of_mem_countersTo {n : ℕ} (h : n < 2 ^ 64) {c : BitVec 64} (hc : c ∈ countersTo n) :
    1 ≤ c.toNat ∧ c.toNat ≤ n := by
  obtain ⟨i, hi, rfl⟩ := List.mem_map.1 hc
  have hi := List.mem_range.1 hi
  rw [BitVec.toNat_ofNat, Nat.mod_eq_of_lt (by omega)]
  omega

variable [DecidableEq T]

/-- **The reservations are 1, 2, 3, …** -/
theorem outline_reserved (A : Aead) :
    Outline (sessionObject A)
      (fun (m : SharedSession T) log => reserved log = countersTo (reserved log).length ∧
        m.session.nextCounter = BitVec.ofNat 64 (reserved log).length)
      fun _ _ _ _ => True where
  own {t m log a m' log' a'} h hG _ := by
    refine ⟨?_, trivial⟩
    cases h with
    | call _ c =>
      have hsame : reserved (log ++ [⟨t, .called c⟩]) = reserved log := by
        rw [reserved, List.filterMap_append]
        exact List.append_nil _
      rw [hsame]
      exact hG
    | @goto _ _ started c pc pc' ns h =>
      have hsame : reserved (log ++ noteEntries t ns) = reserved log := by
        rw [reserved, List.filterMap_append, ← reserved, ← reserved, reserved_noteEntries,
          List.append_nil]
      -- a reservation is one step, and it returns
      have hcounter : m'.session.nextCounter = m.session.nextCounter := by
        cases transition_of_step h <;> rfl
      rw [hsame, hcounter]
      exact hG
    | @ret _ _ started c pc r ns h =>
      have hlog : reserved (log ++ noteEntries t ns ++ [⟨t, .returned started c r⟩]) =
          reserved log ++ reserved [⟨t, .returned started c r⟩] := by
        rw [reserved, List.filterMap_append, List.filterMap_append, ← reserved, ← reserved,
          ← reserved, reserved_noteEntries, List.append_nil]
      rw [hlog]
      cases transition_of_step h with
      | reserve =>
        have hnew : reserved [(⟨t, .returned started .reserveCounter
            (.counter m.session.reserveCounter.2)⟩ : Entry T Call Note Result)] =
              [m.session.nextCounter + 1#64] := rfl
        rw [hnew, List.length_append, List.length_singleton, countersTo_succ, ← hG.1, hG.2]
        refine ⟨rfl, ?_⟩
        rw [BitVec.ofNat_add, ← hG.2]
        rfl
      | _ => exact (List.append_nil (reserved log)).symm ▸ hG
  others _ _ _ _ _ _ _ := trivial

end Reserved

/-! ## The packets -/

/-- A packet that `encrypt` has returned, with what went into it. -/
structure Packet where
  counter : BitVec 64
  sessionId : Vector UInt8 8
  plainText : Bytes
  isEncoded : Bool
  wire : Bytes

section Produced

variable {T : Type*} {log : List (Entry T Call Note Result)}

/-- The packet of a successful `encrypt`. -/
def packetOf (e : Entry T Call Note Result) : Option Packet :=
  match e.event with
  | .returned _ (.encrypt args) (.encrypted out (.ok n)) =>
    some ⟨args.counter, args.sessionId, args.plainText, args.isEncoded, out.take n⟩
  | _ => none

/-- The packets that were produced, oldest first. -/
def produced (log : List (Entry T Call Note Result)) : List Packet := log.filterMap packetOf

/-- The inversion of `packetOf`. -/
theorem packetOf_eq_some {e : Entry T Call Note Result} {packet : Packet}
    (h : packetOf e = some packet) :
    ∃ t started args out n, e = ⟨t, .returned started (.encrypt args) (.encrypted out (.ok n))⟩ ∧
      packet = ⟨args.counter, args.sessionId, args.plainText, args.isEncoded, out.take n⟩ := by
  obtain ⟨t, event⟩ := e
  rw [packetOf] at h
  split at h
  · rename_i started args out n heq
    exact ⟨t, started, args, out, n, by rw [← heq], (Option.some.inj h).symm⟩
  · cases h

/-- Each thread reserves a counter, encrypts with it, and does nothing in between. -/
def Pipelined (log : List (Entry T Call Note Result)) : Prop :=
  ∀ (k : ℕ) t args, log[k]? = some ⟨t, .called (.encrypt args)⟩ →
    ∃ r < k, (∃ started,
        log[r]? = some ⟨t, .returned started .reserveCounter (.counter args.counter)⟩) ∧
      ∀ (i : ℕ) e, r < i → i < k → log[i]? = some e → e.thread ≠ t

/-- Two calls of `encrypt` do not share a counter. -/
theorem Pipelined.counter_ne (h : Pipelined log) (hreserved : (reserved log).Nodup) {k k' : ℕ}
    {t t' : T} {args args' : EncryptArgs} (hk : log[k]? = some ⟨t, .called (.encrypt args)⟩)
    (hk' : log[k']? = some ⟨t', .called (.encrypt args')⟩) (hlt : k < k') :
    args.counter ≠ args'.counter := by
  intro hcounter
  obtain ⟨r, hrk, ⟨started, hr⟩, -⟩ := h k t args hk
  obtain ⟨r', hrk', ⟨started', hr'⟩, hquiet⟩ := h k' t' args' hk'
  rw [← hcounter] at hr'
  -- both use the one reservation of the counter, and so they are calls of one thread
  obtain rfl := History.position_unique hreserved hr hr' rfl rfl
  obtain ⟨rfl, -⟩ := Entry.mk.inj (Option.some.inj (hr.symm.trans hr'))
  exact hquiet k _ hrk hlt hk rfl

/-- **No two packets share a counter.** -/
theorem nodup_counters (hwf : WellFormed log) (h : Pipelined log)
    (hreserved : (reserved log).Nodup) :
    ((produced log).map Packet.counter).Nodup := by
  rw [List.Nodup, List.pairwise_map, produced, List.pairwise_filterMap, List.pairwise_iff_getElem]
  intro i j hi hj hij packet hpacket packet' hpacket'
  obtain ⟨t, started, args, out, n, he, rfl⟩ := packetOf_eq_some hpacket
  obtain ⟨t', started', args', out', n', he', rfl⟩ := packetOf_eq_some hpacket'
  have hi := List.getElem?_eq_some_iff.2 ⟨hi, he⟩
  have hj := List.getElem?_eq_some_iff.2 ⟨hj, he'⟩
  have hne := hwf.started_ne hi hj hij
  obtain ⟨-, hcall, -⟩ := hwf hi
  obtain ⟨-, hcall', -⟩ := hwf hj
  rcases Nat.lt_or_gt_of_ne hne with hlt | hgt
  · exact h.counter_ne hreserved hcall hcall' hlt
  · exact (h.counter_ne hreserved hcall' hcall hgt).symm

/-- Every packet carries a reserved counter. -/
theorem counter_mem_reserved (hwf : WellFormed log) (h : Pipelined log) {packet : Packet}
    (hmem : packet ∈ produced log) : packet.counter ∈ reserved log := by
  obtain ⟨e, he, hpacket⟩ := List.mem_filterMap.1 hmem
  obtain ⟨t, started, args, out, n, rfl, rfl⟩ := packetOf_eq_some hpacket
  obtain ⟨j, hj⟩ := List.mem_iff_getElem?.1 he
  obtain ⟨-, hcall, -⟩ := hwf hj
  obtain ⟨r, -, ⟨started', hr⟩, -⟩ := h _ _ _ hcall
  exact List.mem_filterMap.2 ⟨_, List.mem_of_getElem? hr, rfl⟩

end Produced

/-! ## The receiver -/

/-- The packet is the seal of its plaintext under a key that `rx` holds. -/
def Authentic (A : Aead) (version : ExpresslaneVersion) (rx : RxState) (packet : Packet) : Prop :=
  ∃ (hdr : WireHeader) (ct : Bytes) (cipher : Cipher),
    (rx.currentPeer = some cipher ∨ rx.prevPeer = some cipher) ∧
    packet.wire = hdr.encode ++ ct ∧ hdr.counter = packet.counter ∧
    hdr.flags = ExpresslaneSession.flagsOf packet.isEncoded ∧
    hdr.dataLen.toNat = packet.plainText.length ∧ ct.length = packet.plainText.length ∧
    A.sealInPlace cipher.key hdr.iv (aadOf version packet.sessionId hdr.counter hdr.flags)
      packet.plainText = some (ct, hdr.tag)

/-- A packet arrives; the receiver brings the buffer. -/
structure Arrival where
  packet : Packet
  out : Bytes
  left : Leftover
  leftPrev : Leftover

/-- What the receiver does with it. -/
def Arrival.deliver (A : Aead) (s : ExpresslaneSession) (a : Arrival) :
    Option (ExpresslaneSession × Bytes × Except ExpresslaneError (ℕ × Bool)) :=
  s.decrypt A a.packet.sessionId a.packet.wire a.out a.left a.leftPrev

/-- The receiver after an arrival, with the counters that it has accepted, newest first. -/
def receive (A : Aead) (st : ExpresslaneSession × List (BitVec 64)) (a : Arrival) :
    Option (ExpresslaneSession × List (BitVec 64)) :=
  (a.deliver A st.1).map fun (s', _, result) => (s', match result with
    | .ok _ => a.packet.counter :: st.2
    | .error _ => st.2)

/-- The receiver after a sequence of arrivals. -/
def receiveAll (A : Aead) (s : ExpresslaneSession) (arrivals : List Arrival) :
    Option (ExpresslaneSession × List (BitVec 64)) :=
  arrivals.foldlM (receive A) (s, [])

/-- The packet is delivered: the receiver gets the plaintext and the flag. -/
def Arrival.Delivered (A : Aead) (s : ExpresslaneSession) (a : Arrival) : Prop :=
  ∃ s', a.deliver A s = some (s', a.packet.plainText ++ a.out.drop a.packet.plainText.length,
    .ok (a.packet.plainText.length, a.packet.isEncoded))

/-- The packet is refused as a replay, and nothing changes. -/
def Arrival.Refused (A : Aead) (s : ExpresslaneSession) (a : Arrival) : Prop :=
  a.deliver A s = some (s, a.out, .error .replayed)

/-- The session with another replay window. -/
def ExpresslaneSession.withWindow (s : ExpresslaneSession) (w : ReplayWindow) :
    ExpresslaneSession :=
  { s with rx := { s.rx with replayWindow := w } }

section Receive

variable {A : Aead} {s : ExpresslaneSession} {a : Arrival}

/-- **The window decides**: an authentic packet is delivered if its counter is accepted, and refused
as a replay otherwise. -/
theorem deliver_eq (hprev : s.rx.currentPeer = none → s.rx.prevPeer = none)
    (hsep : KeySeparation A s.rx) (hauth : Authentic A s.version s.rx a.packet)
    (hroom : a.packet.plainText.length ≤ a.out.length) (w : ReplayWindow) :
    a.deliver A (s.withWindow w) = some (
      if (w.commit a.packet.counter).2 then
        (s.withWindow (w.commit a.packet.counter).1,
          a.packet.plainText ++ a.out.drop a.packet.plainText.length,
          .ok (a.packet.plainText.length, a.packet.isEncoded))
      else (s.withWindow w, a.out, .error .replayed)) := by
  obtain ⟨hdr, ct, cipher, hinstalled, hwire, hcounter, hflags, hdata, hct, hseal⟩ := hauth
  have hbody : ct.take hdr.dataLen.toNat = ct := List.take_of_length_le (by rw [hdata, hct])
  rw [← hbody] at hseal
  obtain ⟨call, hopen⟩ := @openPacket_of_sealCall A (s.withWindow w) cipher hprev hinstalled hsep
    _ hdr ct _ hseal
  have hreject : (s.withWindow w).rx.replayWindow.wouldReject hdr.counter =
      !(w.commit a.packet.counter).2 := by
    rw [hcounter]
    exact wouldReject_eq w _
  rw [Arrival.deliver, hwire]
  cases haccept : (w.commit a.packet.counter).2 with
  | false =>
    rw [haccept, Bool.not_false] at hreject
    rw [ExpresslaneSession.decrypt_encode, hreject, if_pos rfl]
    rfl
  | true =>
    rw [haccept, Bool.not_true] at hreject
    have hlong : hdr.dataLen.toNat ≤ ct.length := by rw [hdata, hct]
    rw [(s.withWindow w).decrypt_of_openPacket A _ hdr hreject hlong (hdata ▸ hroom) hopen, hdata,
      hflags, flagsOf_and_flagEncoded, hcounter]
    rfl

/-- An authentic packet is delivered if and only if the window accepts its counter, and refused
otherwise. -/
theorem delivered_iff (hprev : s.rx.currentPeer = none → s.rx.prevPeer = none)
    (hsep : KeySeparation A s.rx) (hauth : Authentic A s.version s.rx a.packet)
    (hroom : a.packet.plainText.length ≤ a.out.length) (w : ReplayWindow) :
    (a.Delivered A (s.withWindow w) ↔ (w.commit a.packet.counter).2 = true) ∧
      (¬a.Delivered A (s.withWindow w) → a.Refused A (s.withWindow w)) := by
  have hdeliver := deliver_eq hprev hsep hauth hroom w
  cases haccept : (w.commit a.packet.counter).2 with
  | true =>
    rw [haccept, if_pos rfl] at hdeliver
    have hdelivered : a.Delivered A (s.withWindow w) := ⟨_, hdeliver⟩
    exact ⟨iff_of_true hdelivered rfl, fun h => absurd hdelivered h⟩
  | false =>
    rw [haccept, if_neg Bool.false_ne_true] at hdeliver
    refine ⟨iff_of_false ?_ Bool.false_ne_true, fun _ => hdeliver⟩
    rintro ⟨s', hs'⟩
    rw [hdeliver] at hs'
    simp at hs'

/-- **The receiver runs the window over the counters.** -/
theorem receiveAll_eq (hprev : s.rx.currentPeer = none → s.rx.prevPeer = none)
    (hsep : KeySeparation A s.rx) (arrivals : List Arrival)
    (harrivals : ∀ a ∈ arrivals, Authentic A s.version s.rx a.packet ∧
      a.packet.plainText.length ≤ a.out.length) :
    receiveAll A s arrivals = some (
      s.withWindow (SlidingWindow.run ReplayWindow.commit s.rx.replayWindow
        (arrivals.map fun a => a.packet.counter)).1,
      (SlidingWindow.run ReplayWindow.commit s.rx.replayWindow
        (arrivals.map fun a => a.packet.counter)).2) := by
  induction arrivals using List.reverseRecOn with
  | nil => rfl
  | append_singleton past a ih =>
    have hpast := ih fun x hx => harrivals x (List.mem_append_left _ hx)
    obtain ⟨hauth, hroom⟩ := harrivals a (by simp)
    rw [receiveAll, List.foldlM_append, ← receiveAll, hpast, List.map_append, List.map_singleton,
      SlidingWindow.run_append_singleton, SlidingWindow.step]
    simp only [Option.bind_eq_bind, Option.bind_some, List.foldlM_cons, List.foldlM_nil, receive,
      deliver_eq hprev hsep hauth hroom, Option.map_some, Option.pure_def]
    split_ifs with haccept
    · rfl
    · rw [commit_eq_of_rejected (Bool.eq_false_iff.2 haccept)]

/-- **What becomes of an arrival** of an authentic packet at a receiver that was fresh before the
`past` arrivals: on its first arrival the window decides, and later it is refused. -/
theorem verdict (hrx : Receiving s.rx []) (hsep : KeySeparation A s.rx) (past : List Arrival)
    (harrivals : ∀ x ∈ past ++ [a], Authentic A s.version s.rx x.packet ∧
      x.packet.plainText.length ≤ x.out.length)
    (hsame : ∀ x ∈ past, x.packet.counter = a.packet.counter → x.packet = a.packet) :
    ∃ s' accepted, receiveAll A s past = some (s', accepted) ∧
      accepted ⊆ past.map (fun x => x.packet.counter) ∧
      (a.packet ∈ past.map Arrival.packet → a.Refused A s') ∧
      (a.packet ∉ past.map Arrival.packet →
        (a.Delivered A s' ↔ ∀ x ∈ accepted, x.toNat < a.packet.counter.toNat + 8192) ∧
        (¬a.Delivered A s' → a.Refused A s')) := by
  obtain ⟨hauth, hroom⟩ := harrivals a (by simp)
  have hpast := receiveAll_eq hrx.prev_none hsep past fun x hx =>
    harrivals x (List.mem_append_left _ hx)
  generalize hcounters : past.map (fun x => x.packet.counter) = counters at hpast ⊢
  generalize hfinal :
    SlidingWindow.run ReplayWindow.commit s.rx.replayWindow counters = final at hpast
  obtain ⟨hdelivered, hrefused⟩ := delivered_iff hrx.prev_none hsep hauth hroom final.1
  have hrep : Represents final.1 (final.2.map BitVec.toNat) := by
    rw [← hfinal]
    exact refines.run hrx.window counters
  have hsub : final.2 ⊆ counters := by
    rw [← hfinal]
    exact SlidingWindow.run_subset _ _
  refine ⟨_, _, hpast, hsub, fun hmem => ?_, fun hnew => ?_⟩
  · -- the counter was offered before
    obtain ⟨x, hx, hpacket⟩ := List.mem_map.1 hmem
    have hoffered : a.packet.counter ∈ counters := by
      rw [← hcounters, ← hpacket]
      exact List.mem_map_of_mem hx
    refine hrefused (hdelivered.not.2 (Bool.eq_false_iff.1 ?_))
    rw [← hfinal]
    exact refines.refuses_again hrx.window hoffered
  · have hnotin : a.packet.counter.toNat ∉ final.2.map BitVec.toNat := by
      intro hmem
      obtain ⟨counter, hcounter, heq⟩ := List.mem_map.1 hmem
      have hoffered := hsub hcounter
      rw [BitVec.eq_of_toNat_eq heq, ← hcounters] at hoffered
      obtain ⟨x, hx, hxa⟩ := List.mem_map.1 hoffered
      exact hnew (List.mem_map.2 ⟨x, hx, hsame x hx hxa⟩)
    refine ⟨hdelivered.trans ?_, hrefused⟩
    rw [refines.verdict hrep, SlidingWindow.accepts, decide_eq_true_eq]
    simp only [hnotin, not_false_eq_true, true_and, List.forall_mem_map]

end Receive

/-! ## The pipeline -/

section Main

variable {T : Type*} [DecidableEq T] {A : Aead} {version : ExpresslaneVersion}
  {c : Config T (SharedSession T) Call Pc Note Result}

/-- Every produced packet is authentic for a receiver that holds the installed keys. -/
theorem authentic_of_produced (h : Reachable (sessionObject A) (unused (.new version)) c)
    {rx : RxState} (hkeys : ∀ cipher ∈ installs (notes c.log),
      rx.currentPeer = some cipher ∨ rx.prevPeer = some cipher) {packet : Packet}
    (hpacket : packet ∈ produced c.log) : Authentic A version rx packet := by
  obtain ⟨hsealing, -⟩ := (outline_sealing A (.new version)).run h
    ⟨rfl, rfl, fun _ _ _ _ _ _ h => absurd h (by simp)⟩ fun _ => trivial
  obtain ⟨e, he, hpacket⟩ := List.mem_filterMap.1 hpacket
  obtain ⟨t, started, args, out, n, rfl, rfl⟩ := packetOf_eq_some hpacket
  obtain ⟨j, hj⟩ := List.mem_iff_getElem?.1 he
  obtain ⟨p, -, -, sender, sender', hversion, hkey, hrun⟩ :=
    hsealing.returned j t started args out n hj
  -- the key of the seal was active during the call, so it had been installed
  obtain ⟨cipher, hcipher⟩ : ∃ cipher, sender.currentSelf = some cipher := by
    obtain ⟨ct, tag, ⟨cipher, hcipher, -⟩, -⟩ :=
      ExpresslaneSession.packetBytes_of_encrypt_ok A sender _ _ _ _ _ _ hrun
    exact ⟨cipher, hcipher⟩
  have hinstalled : cipher ∈ installs (notes c.log) := by
    have hlast : (installs (notes (c.log.take p))).getLast? = some cipher := by
      rw [← hcipher, hkey]
      exact Option.or_none.symm
    have hsub : (installs (notes (c.log.take p))).Sublist (installs (notes c.log)) :=
      ((List.take_sublist p c.log).filterMap _).filterMap _
    exact hsub.subset (List.mem_of_getLast? hlast)
  obtain ⟨hdr, ct, hwire, hcounter, hflags, hdata, hct, hseal⟩ := packet_of_encrypt hcipher hrun
  rw [hversion] at hseal
  exact ⟨hdr, ct, cipher, hkeys cipher hinstalled, hwire, hcounter, hflags, hdata, hct, hseal⟩

/-- **Lossless parallel send pipeline.** Any number of threads reserve counters and encrypt with
them on one session, in any interleaving with key operations, with fewer than `2 ^ 64` reservations.
Then the packets have different counters. Let them arrive at a fresh receiver that holds the
installed keys as its current and previous peer key, in any order, with drops and duplicates. The
first arrival of a packet is delivered if its counter is less than 8192 below every counter accepted
so far, and refused as a replay otherwise; every later arrival is refused as a replay. So if at most
8192 counters were reserved, every packet is delivered on its first arrival. -/
theorem pipeline_lossless (A : Aead) (version : ExpresslaneVersion)
    {c : Config T (SharedSession T) Call Pc Note Result}
    (h : Reachable (sessionObject A) (unused (.new version)) c) (hpipelined : Pipelined c.log)
    (hcount : (reserved c.log).length < 2 ^ 64) :
    ((produced c.log).map Packet.counter).Nodup ∧
    ∀ (version' : ExpresslaneVersion) (receiver : ExpresslaneSession),
      Reaches A version' receiver [] → receiver.version = version →
      (∀ cipher ∈ installs (notes c.log),
        receiver.rx.currentPeer = some cipher ∨ receiver.rx.prevPeer = some cipher) →
      KeySeparation A receiver.rx →
      ∀ (past : List Arrival) (a : Arrival),
        (∀ x ∈ past ++ [a], x.packet ∈ produced c.log ∧
          x.packet.plainText.length ≤ x.out.length) →
        ∃ s accepted, receiveAll A receiver past = some (s, accepted) ∧
          (a.packet ∈ past.map Arrival.packet → a.Refused A s) ∧
          (a.packet ∉ past.map Arrival.packet →
            (a.Delivered A s ↔ ∀ x ∈ accepted, x.toNat < a.packet.counter.toNat + 8192) ∧
            (¬a.Delivered A s → a.Refused A s) ∧
            ((reserved c.log).length ≤ 8192 → a.Delivered A s)) := by
  have hwf := h.wellFormed
  obtain ⟨⟨hreserved, -⟩, -⟩ := (outline_reserved A).run h ⟨rfl, rfl⟩ fun _ => trivial
  have hnodup := nodup_counters hwf hpipelined (hreserved ▸ nodup_countersTo hcount)
  refine ⟨hnodup, fun version' receiver hreach hversion hkeys hsep past a harrivals => ?_⟩
  have hauth : ∀ x ∈ past ++ [a], Authentic A receiver.version receiver.rx x.packet ∧
      x.packet.plainText.length ≤ x.out.length := fun x hx =>
    ⟨hversion ▸ authentic_of_produced h hkeys (harrivals x hx).1, (harrivals x hx).2⟩
  have hsame : ∀ x ∈ past, x.packet.counter = a.packet.counter → x.packet = a.packet :=
    fun x hx => List.inj_on_of_nodup_map hnodup (harrivals x (List.mem_append_left _ hx)).1
      (harrivals a (by simp)).1
  obtain ⟨s, accepted, hpast, hsub, hagain, hfirst⟩ :=
    verdict hreach.receiving hsep past hauth hsame
  refine ⟨s, accepted, hpast, hagain, fun hnew => ?_⟩
  refine ⟨(hfirst hnew).1, (hfirst hnew).2, fun hfew => ?_⟩
  -- all counters lie in an interval that is no longer than the window
  have hbound : ∀ x ∈ past ++ [a], 1 ≤ x.packet.counter.toNat ∧ x.packet.counter.toNat ≤ 8192 := by
    intro x hx
    have hmem := counter_mem_reserved hwf hpipelined (harrivals x hx).1
    rw [hreserved] at hmem
    have hrange := toNat_of_mem_countersTo hcount hmem
    omega
  refine (hfirst hnew).1.2 fun counter hcounter => ?_
  obtain ⟨x, hx, rfl⟩ := List.mem_map.1 (hsub hcounter)
  have hx := hbound x (List.mem_append_left _ hx)
  have ha := hbound a (by simp)
  omega

end Main

/-- The arguments of the two calls in the run below. -/
def sendArgs (counter : BitVec 64) : EncryptArgs := { firstPacket with counter := counter }

/-- What they write. -/
def sentBytes (counter : BitVec 64) : Bytes :=
  ExpresslaneSession.packetBytes counter [1, 2, 3] (Vector.replicate 12 6) true [1, 2, 3]
    (Vector.replicate 16 1)

/-- Two threads reserve a counter each, and the one that was second encrypts first. -/
def overtakenConfig : Config Bool (SharedSession Bool) Call Pc Note Result where
  shared := unused { laggingSender with nextCounter := 2#64, packetsSent := 2#64 }
  threads _ := .idle
  log :=
    [⟨true, .called (.updateNextSelfKey (constKey 1))⟩,
      ⟨true, .noted (.staged ⟨constKey 1⟩)⟩,
      ⟨true, .returned 0 (.updateNextSelfKey (constKey 1)) (.done (.ok ()))⟩,
      ⟨true, .called .promoteSelfKey⟩,
      ⟨true, .noted (.took ⟨constKey 1⟩)⟩,
      ⟨true, .noted (.installed ⟨constKey 1⟩)⟩,
      ⟨true, .returned 3 .promoteSelfKey (.promoted true)⟩,
      ⟨true, .called .reserveCounter⟩,
      ⟨true, .returned 7 .reserveCounter (.counter 1#64)⟩,
      ⟨false, .called .reserveCounter⟩,
      ⟨false, .returned 9 .reserveCounter (.counter 2#64)⟩,
      ⟨false, .called (.encrypt (sendArgs 2#64))⟩,
      ⟨false, .returned 11 (.encrypt (sendArgs 2#64)) (.encrypted (sentBytes 2#64) (.ok 43))⟩,
      ⟨true, .called (.encrypt (sendArgs 1#64))⟩,
      ⟨true, .returned 13 (.encrypt (sendArgs 1#64)) (.encrypted (sentBytes 1#64) (.ok 43))⟩]

theorem reachable_overtakenConfig :
    Reachable (sessionObject keyTagAead) (unused (.new .version2)) overtakenConfig := by
  have hinit : Reachable (sessionObject (T := Bool) keyTagAead) (unused (.new .version2))
    (.init (unused (.new .version2))) := .refl
  have hstaged := hinit.solo (t := true) rfl
    (solo_of_run true (.updateNextSelfKey (constKey 1)) rfl)
  have hpromoted := hstaged.solo (t := true) rfl (solo_of_run true .promoteSelfKey rfl)
  have hfirst := hpromoted.solo (t := true) rfl (solo_of_run true .reserveCounter rfl)
  have hsecond := hfirst.solo (t := false) rfl (solo_of_run false .reserveCounter rfl)
  have hsent := hsecond.solo (t := false) rfl (solo_of_run false (.encrypt (sendArgs 2#64)) rfl)
  exact hsent.solo (t := true) rfl (solo_of_run true (.encrypt (sendArgs 1#64)) rfl)

theorem pipelined_overtakenConfig : Pipelined overtakenConfig.log := by
  intro k t args hk
  have hlt : k < 15 := (List.getElem?_eq_some_iff.1 hk).1
  interval_cases k <;> simp only [overtakenConfig, List.getElem?_cons_succ, List.getElem?_cons_zero,
    Option.some.injEq, Entry.mk.injEq, Event.called.injEq, Call.encrypt.injEq, reduceCtorEq,
    and_false] at hk
  · obtain ⟨rfl, rfl⟩ := hk
    refine ⟨10, by decide, ⟨9, rfl⟩, fun i e hlo hhi => ?_⟩
    omega
  · obtain ⟨rfl, rfl⟩ := hk
    refine ⟨8, by decide, ⟨7, rfl⟩, fun i e hlo hhi hi => ?_⟩
    interval_cases i <;> obtain rfl := Option.some.inj hi <;> exact Bool.false_ne_true

/-- The arrival of one of the two packets. -/
def sentArrival (counter : BitVec 64) : Arrival where
  packet := ⟨counter, Vector.replicate 8 3, [1, 2, 3], true, (sentBytes counter).take 43⟩
  out := [5, 5, 5, 5]
  left := zeroLeftover
  leftPrev := zeroLeftover

/-- The packets arrive in the order in which they were sent, and both are delivered. -/
theorem pipeline_lossless_overtakenConfig :
    ∃ s accepted, receiveAll keyTagAead rotatedReceiver [sentArrival 2#64] = some (s, accepted) ∧
      (sentArrival 1#64).Delivered keyTagAead s := by
  have hreach : Reaches keyTagAead .version2 rotatedReceiver [] :=
    .step (.updatePeerKey (constKey 2)) (.step (.updatePeerKey (constKey 1)) .new rfl) rfl
  have hkeys : ∀ cipher ∈ installs (notes overtakenConfig.log),
      rotatedReceiver.rx.currentPeer = some cipher ∨ rotatedReceiver.rx.prevPeer = some cipher := by
    intro cipher hcipher
    obtain rfl : cipher = ⟨constKey 1⟩ := List.mem_singleton.1 hcipher
    exact Or.inr rfl
  have harrivals : ∀ x ∈ [sentArrival 2#64] ++ [sentArrival 1#64],
      x.packet ∈ produced overtakenConfig.log ∧ x.packet.plainText.length ≤ x.out.length := by
    intro x hx
    have hproduced : produced overtakenConfig.log =
        [(sentArrival 2#64).packet, (sentArrival 1#64).packet] := rfl
    rw [hproduced]
    rcases List.mem_pair.1 hx with rfl | rfl
    · exact ⟨by simp, by decide⟩
    · exact ⟨by simp, by decide⟩
  have hnew : (sentArrival 1#64).packet ∉ [sentArrival 2#64].map Arrival.packet := by
    intro hmem
    have hcounter := congrArg Packet.counter (List.mem_singleton.1 hmem)
    exact absurd hcounter (by decide)
  obtain ⟨-, hreceive⟩ := pipeline_lossless keyTagAead .version2 reachable_overtakenConfig
    pipelined_overtakenConfig (by decide)
  obtain ⟨s, accepted, hpast, -, hfirst⟩ := hreceive .version2 rotatedReceiver hreach rfl hkeys
    keySeparation_rotatedReceiver _ _ harrivals
  exact ⟨s, accepted, hpast, (hfirst hnew).2.2 (by decide)⟩

end LightwayCffi.Expresslane
