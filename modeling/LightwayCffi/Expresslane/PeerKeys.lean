import LightwayCffi.Expresslane.RoundTrip
import LightwayCffi.Foundations.History
import LightwayCffi.Foundations.TwoSlots

/-!
# Redelivered peer keys

A receiver keeps two peer keys: the one in force, and the one before it for packets that were in
flight when the peer rotated its key. The key callback hands over the send key and the peer key
together, so a host that installs what it is given installs the same peer key again whenever only
its own key was refreshed.

`peers_of_runAll` says what `update_peer_key` makes of that: the two keys are the two slots of
`TwoSlots`, shifted by every valid key whether it is new or not. So a key that is delivered again
after a rotation ends up in both slots, and the key from before the rotation is gone, with all
packets that are still in flight under it. `inFlight_survives_iff` is the resulting law for every
run of a session: packets under the key in force and under the most recent other key are accepted in
every state, and no redelivery changes what is accepted, as long as no peer key is delivered again
after it has replaced another one.
-/

namespace LightwayCffi.Expresslane

open TwoSlots
open History (Always always_concat)

/-! ## Runs of operations -/

/-- One more operation of a run, with the events of the run so far. -/
def Op.advance (A : Aead) (st : ExpresslaneSession × List Event) (op : Op) :
    Option (ExpresslaneSession × List Event) :=
  (op.run A st.1).map fun r => (r.1, st.2 ++ r.2)

/-- The run of a list of operations on a new session. -/
def runAll (A : Aead) (version : ExpresslaneVersion) (ops : List Op) :
    Option (ExpresslaneSession × List Event) :=
  ops.foldlM (Op.advance A) (ExpresslaneSession.new version, [])

section Runs

variable {A : Aead} {version : ExpresslaneVersion} {s s' : ExpresslaneSession} {op : Op}
  {ops later : List Op} {events events' : List Event}

/-- No operation goes out of the range of a buffer. -/
theorem Op.exists_run (A : Aead) (s : ExpresslaneSession) (op : Op) :
    ∃ s' events, op.run A s = some (s', events) := by
  cases op with
  | reserveCounter => exact ⟨_, _, rfl⟩
  | updateNextSelfKey key => exact ⟨_, _, rfl⟩
  | promoteSelfKey => exact ⟨_, _, rfl⟩
  | encrypt counter sessionId plainText iv isEncoded out left =>
    rw [Op.run, ExpresslaneSession.encrypt_eq]
    exact ⟨_, _, rfl⟩
  | updatePeerKey key => exact ⟨_, _, rfl⟩
  | decrypt sessionId wirePacket out left leftPrev =>
    rcases Nat.lt_or_ge wirePacket.length 40 with hshort | hlong
    · rw [Op.run, ExpresslaneSession.decrypt_of_short A s sessionId hshort]
      exact ⟨_, _, rfl⟩
    · obtain ⟨hdr, body, rfl⟩ := exists_encode hlong
      rw [Op.run, ExpresslaneSession.decrypt_encode]
      exact ⟨_, _, rfl⟩

theorem runAll_concat (A : Aead) (version : ExpresslaneVersion) (ops : List Op) (op : Op) :
    runAll A version (ops ++ [op]) = (runAll A version ops).bind fun st => op.advance A st := by
  rw [runAll, List.foldlM_append]
  simp only [List.foldlM_cons, List.foldlM_nil, Option.bind_eq_bind, Option.pure_def,
    Option.bind_fun_some]
  rfl

/-- The last operation of a run. -/
theorem of_runAll_concat (h : runAll A version (ops ++ [op]) = some (s', events')) :
    ∃ s events fresh, runAll A version ops = some (s, events) ∧ op.run A s = some (s', fresh) ∧
      events' = events ++ fresh := by
  rw [runAll_concat] at h
  obtain ⟨⟨s, events⟩, hops, hop⟩ := Option.bind_eq_some_iff.1 h
  obtain ⟨⟨s₁, fresh⟩, hrun, heq⟩ := Option.map_eq_some_iff.1 hop
  obtain ⟨rfl, rfl⟩ := Prod.mk.inj heq
  exact ⟨s, events, fresh, hops, hrun, rfl⟩

/-- Every list of operations can be run. -/
theorem exists_runAll (A : Aead) (version : ExpresslaneVersion) (ops : List Op) :
    ∃ s events, runAll A version ops = some (s, events) := by
  induction ops using List.reverseRecOn with
  | nil => exact ⟨_, _, rfl⟩
  | append_singleton ops op ih =>
    obtain ⟨s, events, hops⟩ := ih
    obtain ⟨s', fresh, hrun⟩ := op.exists_run A s
    refine ⟨s', events ++ fresh, ?_⟩
    rw [runAll_concat, hops, Option.bind_some, Op.advance, hrun, Option.map_some]

theorem reaches_of_runAll (h : runAll A version ops = some (s, events)) :
    Reaches A version s events := by
  induction ops using List.reverseRecOn generalizing s events with
  | nil =>
    obtain ⟨rfl, rfl⟩ := Prod.mk.inj (Option.some.inj h)
    exact .new
  | append_singleton ops op ih =>
    obtain ⟨s₁, events₁, fresh, hops, hrun, rfl⟩ := of_runAll_concat h
    exact .step op (ih hops) hrun

/-- What has happened in a run has happened in every longer one. -/
theorem events_subset_of_runAll (h : runAll A version ops = some (s, events))
    (h' : runAll A version (ops ++ later) = some (s', events')) : events ⊆ events' := by
  induction later using List.reverseRecOn generalizing s' events' with
  | nil =>
    rw [List.append_nil, h] at h'
    obtain ⟨rfl, rfl⟩ := Prod.mk.inj (Option.some.inj h')
    exact List.Subset.refl events
  | append_singleton later op ih =>
    rw [← List.append_assoc] at h'
    obtain ⟨s₁, events₁, fresh, hlater, -, rfl⟩ := of_runAll_concat h'
    exact List.Subset.trans (ih hlater) (List.subset_append_left events₁ fresh)

end Runs

/-! ## The two keys -/

/-- The peer key that an operation installs; the all-zero sentinel is refused. -/
def Op.installs : Op → Option Cipher
  | .updatePeerKey key => if key.isInvalid then none else some ⟨key⟩
  | _ => none

/-- The peer keys that a list of operations installs, oldest first. -/
def installedPeers (ops : List Op) : List Cipher := ops.filterMap Op.installs

/-- The key in force and the fallback. -/
def RxState.peers (rx : RxState) : Slots Cipher := ⟨rx.currentPeer, rx.prevPeer⟩

section Peers

variable {A : Aead} {version : ExpresslaneVersion} {s s' : ExpresslaneSession} {op : Op}
  {ops : List Op} {events : List Event}

theorem installedPeers_concat (ops : List Op) (op : Op) :
    installedPeers (ops ++ [op]) = installedPeers ops ++ op.installs.toList := by
  rw [installedPeers, List.filterMap_append, ← installedPeers]
  cases h : op.installs with
  | none => simp [h]
  | some cipher => simp [h]

/-- Only valid keys are installed. -/
theorem installs_of_mem {cipher : Cipher} (h : cipher ∈ installedPeers ops) :
    (Op.updatePeerKey cipher.key).installs = some cipher := by
  obtain ⟨op, -, hop⟩ := List.mem_filterMap.1 h
  cases op with
  | updatePeerKey key =>
    rw [Op.installs] at hop
    split_ifs at hop with hvalid
    obtain rfl := Option.some.inj hop
    exact if_neg hvalid
  | _ => cases hop

theorem peers_updatePeerKey (s : ExpresslaneSession) (key : ExpresslaneKey) :
    (s.updatePeerKey key).1.rx.peers =
      (Op.updatePeerKey key).installs.elim s.rx.peers s.rx.peers.install := by
  rw [ExpresslaneSession.updatePeerKey, Cipher.new_eq, Op.installs]
  split_ifs
  · rfl
  · rfl

/-- An operation other than an install leaves the two keys alone. -/
theorem peers_run (h : op.run A s = some (s', events)) :
    s'.rx.peers = op.installs.elim s.rx.peers s.rx.peers.install := by
  by_cases hinstall : ∃ key, op = .updatePeerKey key
  · obtain ⟨key, rfl⟩ := hinstall
    obtain ⟨rfl, -⟩ := Prod.mk.inj (Option.some.inj h)
    exact peers_updatePeerKey s key
  · have hnone : op.installs = none := by
      cases op with
      | updatePeerKey key => exact absurd ⟨key, rfl⟩ hinstall
      | _ => rfl
    rw [hnone, Option.elim_none]
    cases Op.run_outcome h with
    | quiet _ hrx => rw [hrx]
    | installed key => exact absurd ⟨key, rfl⟩ hinstall
    | sent _ hrx => rw [hrx]
    | received _ _ _ hrx =>
      rw [hrx]
      rfl

/-- **The two keys of a receiver are the two slots**, shifted by every key that was installed. -/
theorem peers_of_runAll (h : runAll A version ops = some (s, events)) :
    s.rx.peers = installAll (installedPeers ops) := by
  induction ops using List.reverseRecOn generalizing s events with
  | nil =>
    obtain ⟨rfl, -⟩ := Prod.mk.inj (Option.some.inj h)
    rfl
  | append_singleton ops op ih =>
    obtain ⟨s₁, events₁, fresh, hops, hrun, -⟩ := of_runAll_concat h
    rw [peers_run hrun, installedPeers_concat, ih hops]
    cases op.installs with
    | none => rw [Option.elim_none, Option.toList_none, List.append_nil]
    | some cipher => rw [Option.elim_some, Option.toList_some, installAll_concat]

end Peers

/-! ## What a receiver accepts -/

/-- `decrypt` accepts a packet. -/
def ExpresslaneSession.Accepts (A : Aead) (s : ExpresslaneSession) (sessionId : Vector UInt8 8)
    (wirePacket out : Bytes) (left leftPrev : Leftover) : Prop :=
  ∃ s' out' r, s.decrypt A sessionId wirePacket out left leftPrev = some (s', out', .ok r)

/-- The receiver authenticates packets under `cipher`: what a sender of the same version encrypts
under this key, with a counter that the replay window does not refuse, is accepted, with its length
and its flag, and with its plaintext if the AEAD separates the two keys of the receiver. -/
def ExpresslaneSession.Authenticates (A : Aead) (s : ExpresslaneSession) (cipher : Cipher) : Prop :=
  ∀ (sender sender' : ExpresslaneSession) (counter : BitVec 64) (sessionId : Vector UInt8 8)
    (plainText : Bytes) (iv : Vector UInt8 12) (isEncoded : Bool) (wire wire' : Bytes)
    (left : Leftover) (n : ℕ), sender.version = s.version → sender.currentSelf = some cipher →
    sender.encrypt A counter sessionId plainText iv isEncoded wire left =
      some (sender', wire', .ok n) →
    s.rx.replayWindow.wouldReject counter = false →
    ∀ (out : Bytes) (left₁ left₂ : Leftover), plainText.length ≤ out.length →
      ∃ s' plain, s.decrypt A sessionId (wire'.take n) out left₁ left₂ =
          some (s', plain ++ out.drop plainText.length, .ok (plainText.length, isEncoded)) ∧
        (KeySeparation A s.rx → plain = plainText)

/-- For every two keys and all associated data some packet is sealed under the first and does not
open under the second. -/
def Distinguishes (A : Aead) : Prop :=
  ∀ key key' : ExpresslaneKey, key ≠ key' → ∀ aad : Bytes, ∃ iv plain ct tag,
    plain.length ≤ 65535 ∧ A.sealInPlace key iv aad plain = some (ct, tag) ∧
      A.openInPlace key' iv aad ct tag = none

section Accepting

variable {A : Aead} {s s' : ExpresslaneSession} {cipher current : Cipher}
  {sessionId : Vector UInt8 8} {hdr : WireHeader} {body wirePacket out plain : Bytes}
  {left leftPrev : Leftover}

theorem accepts_encode_iff :
    s.Accepts A sessionId (hdr.encode ++ body) out left leftPrev ↔
      s.rx.replayWindow.wouldReject hdr.counter = false ∧ hdr.dataLen.toNat ≤ body.length ∧
        hdr.dataLen.toNat ≤ out.length ∧ s.openPacket A sessionId hdr body ≠ none := by
  constructor
  · rintro ⟨s', out', r, h⟩
    rw [ExpresslaneSession.decrypt_encode] at h
    split_ifs at h with hrej hbody hout hkey
    · simp at h
    · simp at h
    · simp at h
    · simp at h
    · refine ⟨Bool.eq_false_iff.2 hrej, Nat.le_of_not_lt hbody, Nat.le_of_not_lt hout, ?_⟩
      intro hnone
      rw [hnone] at h
      simp at h
  · rintro ⟨hpass, hbody, hout, hopen⟩
    obtain ⟨⟨call, plain⟩, hopen⟩ := Option.ne_none_iff_exists'.1 hopen
    exact ⟨_, _, _, s.decrypt_of_openPacket A sessionId hdr hpass hbody hout hopen left leftPrev⟩

/-- What a receiver accepts is a matter of its window and of what it can open. -/
theorem accepts_congr (hwindow : s'.rx.replayWindow = s.rx.replayWindow)
    (hopen : ∀ hdr body, s'.openPacket A sessionId hdr body = s.openPacket A sessionId hdr body) :
    s'.Accepts A sessionId wirePacket out left leftPrev ↔
      s.Accepts A sessionId wirePacket out left leftPrev := by
  rcases Nat.lt_or_ge wirePacket.length 40 with hshort | hlong
  · refine iff_of_false ?_ ?_
    · rintro ⟨s₁, out', r, h⟩
      simp [ExpresslaneSession.decrypt_of_short A s' sessionId hshort] at h
    · rintro ⟨s₁, out', r, h⟩
      simp [ExpresslaneSession.decrypt_of_short A s sessionId hshort] at h
  · obtain ⟨hdr, body, rfl⟩ := exists_encode hlong
    rw [accepts_encode_iff, accepts_encode_iff, hwindow, hopen]

/-- A packet under an installed key opens, though without the separation of the keys it may be the
other key that opens it. -/
theorem exists_openPacket (hprev : s.rx.currentPeer = none → s.rx.prevPeer = none)
    (hinstalled : s.rx.currentPeer = some cipher ∨ s.rx.prevPeer = some cipher)
    (hseal : A.sealInPlace cipher.key hdr.iv (aadOf s.version sessionId hdr.counter hdr.flags)
      plain = some (body.take hdr.dataLen.toNat, hdr.tag)) :
    ∃ call plain', s.openPacket A sessionId hdr body = some (call, plain') ∧
      (KeySeparation A s.rx → plain' = plain) := by
  have hopen : s.openPacket A sessionId hdr body ≠ none := by
    have hcipher := A.open_seal hseal
    obtain ⟨current, hcur⟩ := exists_currentPeer hprev hinstalled
    simp only [ExpresslaneSession.openPacket, hcur, Option.bind_some, Cipher.openCall, ne_eq,
      Option.or_eq_none_iff, not_and]
    intro hrefuse
    rcases hinstalled with h | h
    · -- the key in force does not refuse the packet
      obtain rfl := Option.some.inj (h.symm.trans hcur)
      rw [hcipher] at hrefuse
      cases hrefuse
    · rw [h, Option.bind_some, hcipher]
      exact Option.some_ne_none _
  obtain ⟨⟨call, plain'⟩, hopen⟩ := Option.ne_none_iff_exists'.1 hopen
  refine ⟨call, plain', hopen, fun hsep => ?_⟩
  obtain ⟨call', hopen'⟩ := openPacket_of_sealCall hprev hinstalled hsep hseal
  rw [hopen] at hopen'
  exact (Prod.mk.inj (Option.some.inj hopen')).2

/-- Packets under an installed key are accepted. -/
theorem authenticates_of_installed (hprev : s.rx.currentPeer = none → s.rx.prevPeer = none)
    (hinstalled : s.rx.currentPeer = some cipher ∨ s.rx.prevPeer = some cipher) :
    s.Authenticates A cipher := by
  intro sender sender' counter sessionId plainText iv isEncoded wire wire' left n hversion hkey
    hencrypt hpass out left₁ left₂ hout
  obtain ⟨hdr, ct, hpacket, rfl, hflags, hdata, hct, hseal⟩ := packet_of_encrypt hkey hencrypt
  have hbody : ct.take hdr.dataLen.toNat = ct := List.take_of_length_le (by rw [hdata, hct])
  rw [hversion, ← hbody] at hseal
  obtain ⟨call, plain, hopen, hplain⟩ := exists_openPacket hprev hinstalled hseal
  have hdecrypt := s.decrypt_of_openPacket A sessionId hdr hpass (by rw [hdata, hct]) (hdata ▸ hout)
    hopen left₁ left₂
  rw [hdata, hflags, flagsOf_and_flagEncoded] at hdecrypt
  rw [hpacket]
  exact ⟨_, plain, hdecrypt, hplain⟩

/-- Packets under any other key are lost, if both slots hold one key. -/
theorem not_authenticates (hdist : Distinguishes A) (hcur : s.rx.currentPeer = some current)
    (hprev : s.rx.prevPeer = some current) (hne : cipher ≠ current) {counter : BitVec 64}
    (hpass : s.rx.replayWindow.wouldReject counter = false) : ¬s.Authenticates A cipher := by
  intro hauth
  have hkey : cipher.key ≠ current.key := fun h => hne (congrArg Cipher.mk h)
  obtain ⟨iv, plain, ct, tag, hlen, hseal, hrefuse⟩ := hdist cipher.key current.key hkey
    (aadOf s.version (Vector.replicate 8 0) counter (ExpresslaneSession.flagsOf false))
  -- a sender that still uses the other key
  obtain ⟨sender, hversion, hself⟩ : ∃ sender : ExpresslaneSession,
      sender.version = s.version ∧ sender.currentSelf = some cipher :=
    ⟨{ s with currentSelf := some cipher }, rfl, rfl⟩
  have hencrypt := sender.encrypt_of_sealInPlace A counter (Vector.replicate 8 0) plain iv false
    (List.replicate (40 + plain.length) 0) hself (by rw [List.length_replicate]) hlen
    (hversion ▸ hseal) zeroLeftover
  obtain ⟨s', plain', hdecrypt, -⟩ := hauth _ _ _ _ _ _ _ _ _ _ _ hversion hself hencrypt hpass
    plain zeroLeftover zeroLeftover le_rfl
  have hct := A.length_seal hseal
  rw [List.drop_eq_nil_of_le (by rw [List.length_replicate]), List.append_nil,
    List.take_of_length_le (by simp [hct])] at hdecrypt
  obtain ⟨-, -, -, hopen⟩ := accepts_encode_iff.1 ⟨_, _, _, hdecrypt⟩
  -- neither slot opens its packet
  have hdata : (BitVec.ofNat 16 plain.length).toNat = plain.length := by
    rw [BitVec.toNat_ofNat, Nat.mod_eq_of_lt (by omega)]
  refine hopen ?_
  simp only [ExpresslaneSession.openPacket, hcur, hprev, Option.bind_some, Option.or_self,
    Cipher.openCall, hdata, List.take_of_length_le hct.le, hrefuse, Option.map_none]

/-- Installing the key in force again changes nothing if it is the only key. -/
theorem accepts_updatePeerKey {key : ExpresslaneKey} (hcur : s.rx.currentPeer = some ⟨key⟩)
    (hprev : ∀ prev, s.rx.prevPeer = some prev → prev = ⟨key⟩) :
    (s.updatePeerKey key).1.Accepts A sessionId wirePacket out left leftPrev ↔
      s.Accepts A sessionId wirePacket out left leftPrev := by
  rcases updatePeerKey_cases s key with h | h
  · rw [h]
  · rw [h]
    refine accepts_congr rfl fun hdr body => ?_
    simp only [ExpresslaneSession.openPacket, hcur, Option.bind_some, Option.or_self]
    cases hslot : s.rx.prevPeer with
    | none => rw [Option.bind_none, Option.or_none]
    | some prev => rw [hprev prev hslot, Option.bind_some, Option.or_self]

end Accepting

/-! ## Every run -/

/-- Packets in flight survive a run. In every state of it the receiver authenticates packets under
the peer key that was installed last and under the most recent other one, and wherever the run
installs the key in force again, the same packets are accepted before and after. -/
def InFlightSurvives (A : Aead) (version : ExpresslaneVersion) (ops : List Op) : Prop :=
  ∀ past later, ops = past ++ later → ∃ s events, runAll A version past = some (s, events) ∧
    (∀ cipher, (installedPeers past).getLast? = some cipher → s.Authenticates A cipher) ∧
    (∀ cipher, lastOther (installedPeers past) = some cipher → s.Authenticates A cipher) ∧
    ∀ key rest, later = .updatePeerKey key :: rest →
      (installedPeers past).getLast? = some ⟨key⟩ →
        ∀ sessionId wirePacket out left leftPrev,
          (s.updatePeerKey key).1.Accepts A sessionId wirePacket out left leftPrev ↔
            s.Accepts A sessionId wirePacket out left leftPrev

section Survival

variable {A : Aead} {version : ExpresslaneVersion} {s s' : ExpresslaneSession}
  {ops past later : List Op} {events events' : List Event}

theorem currentPeer_of_runAll (h : runAll A version ops = some (s, events)) :
    s.rx.currentPeer = (installedPeers ops).getLast? := by
  rw [← current_installAll, ← peers_of_runAll h]
  rfl

theorem prevPeer_of_runAll (h : runAll A version ops = some (s, events)) :
    s.rx.prevPeer = (installAll (installedPeers ops)).previous := by
  rw [← peers_of_runAll h]
  rfl

/-- The most recent other key is the fallback, unless it was lost. -/
theorem prevPeer_of_lastOther (h : runAll A version ops = some (s, events))
    (hrotates : Always Rotates (installedPeers ops)) {cipher : Cipher}
    (hother : lastOther (installedPeers ops) = some cipher) : s.rx.prevPeer = some cipher := by
  rw [prevPeer_of_runAll h]
  rcases List.eq_nil_or_concat (installedPeers ops) with hnil | ⟨peers, last, hpeers⟩
  · rw [hnil] at hother
    cases hother
  · rw [List.concat_eq_append] at hpeers
    rw [hpeers] at hother hrotates ⊢
    exact (always_concat.1 hrotates).2.previous_of_lastOther hother

/-- Installing valid keys one by one, a run installs those of its first part first. -/
theorem installedPeers_append (past later : List Op) :
    installedPeers (past ++ later) = installedPeers past ++ installedPeers later :=
  List.filterMap_append ..

/-- A counter that is not refused was not refused before. -/
theorem passes_of_passes (h : runAll A version past = some (s, events))
    (h' : runAll A version (past ++ later) = some (s', events')) {counter : BitVec 64}
    (hpass : s'.rx.replayWindow.wouldReject counter = false) :
    s.rx.replayWindow.wouldReject counter = false := by
  have hsub : (decryptedCounters events).reverse.map BitVec.toNat ⊆
      (decryptedCounters events').reverse.map BitVec.toNat := by
    refine List.map_subset _ (List.reverse_subset.2 (List.subset_reverse.2 ?_))
    exact List.filterMap_subset _ (events_subset_of_runAll h h')
  rw [wouldReject_eq, refines.verdict (reaches_of_runAll h').receiving.window,
    Bool.not_eq_false'] at hpass
  rw [wouldReject_eq, refines.verdict (reaches_of_runAll h).receiving.window, Bool.not_eq_false']
  exact SlidingWindow.accepts_of_subset hpass hsub

theorem survives_of_rotates (hrotates : Always Rotates (installedPeers ops)) :
    InFlightSurvives A version ops := by
  rintro past later rfl
  rw [installedPeers_append] at hrotates
  have hpast := hrotates.of_append
  obtain ⟨s, events, hrun⟩ := exists_runAll A version past
  have hprev := (reaches_of_runAll hrun).receiving.prev_none
  have hcur := currentPeer_of_runAll hrun
  refine ⟨s, events, hrun, fun cipher hlast => ?_, fun cipher hother => ?_, ?_⟩
  · exact authenticates_of_installed hprev (Or.inl (hcur.trans hlast))
  · exact authenticates_of_installed hprev (Or.inr (prevPeer_of_lastOther hrun hpast hother))
  · rintro key rest rfl hlast sessionId wirePacket out left leftPrev
    -- the key is installed again, so that the step is one of the rotations
    have hkey : installedPeers (.updatePeerKey key :: rest) = ⟨key⟩ :: installedPeers rest :=
      List.filterMap_cons_some (installs_of_mem (List.mem_of_getLast? hlast))
    rw [hkey] at hrotates
    have hrotate : Rotates (installedPeers past) ⟨key⟩ := hrotates _ _ _ rfl
    refine accepts_updatePeerKey (hcur.trans hlast) fun prev hslot => ?_
    exact hrotate.previous_eq hlast ((prevPeer_of_runAll hrun).symm.trans hslot)

theorem rotates_of_survives (hdist : Distinguishes A)
    (hrun : runAll A version ops = some (s, events)) {counter : BitVec 64}
    (hpass : s.rx.replayWindow.wouldReject counter = false)
    (hsurvives : InFlightSurvives A version ops) : Always Rotates (installedPeers ops) := by
  intro peers last rest hpeers
  by_contra hlost
  -- the part of the run that ends with the install
  obtain ⟨before, rest', rfl, hbefore, hrest⟩ := List.filterMap_eq_append_iff.1 hpeers
  obtain ⟨quiet, op, later, rfl, hquiet, hop, -⟩ := List.filterMap_eq_cons_iff.1 hrest
  have hsplit : before ++ (quiet ++ op :: later) = before ++ quiet ++ [op] ++ later := by simp
  have hpast : installedPeers (before ++ quiet ++ [op]) = peers ++ [last] := by
    rw [installedPeers_concat, installedPeers_append, hop, Option.toList_some, installedPeers,
      hbefore, installedPeers, List.filterMap_eq_nil_iff.2 hquiet, List.append_nil]
  obtain ⟨s₁, events₁, hrun₁, -, hother, -⟩ := hsurvives _ later hsplit
  obtain ⟨hslots, other, hne, hlast⟩ := lost_of_not_rotates hlost
  have hpeers₁ := peers_of_runAll hrun₁
  rw [hpast, hslots] at hpeers₁
  obtain ⟨hcur, hprev⟩ := Slots.mk.inj hpeers₁
  rw [hsplit] at hrun
  have hpass₁ := passes_of_passes hrun₁ hrun hpass
  refine not_authenticates hdist hcur hprev hne hpass₁ (hother other ?_)
  rw [hpast]
  exact hlast

end Survival

/-- **When packets in flight survive redelivered peer keys.** In every run of a session in which no
peer key is delivered again, while it is in force, after it has replaced another one, packets in
flight survive. There is no weaker condition: in a run that ends with a counter still to spare, and
with an AEAD that tells keys apart, they survive exactly if it holds. -/
theorem inFlight_survives_iff (A : Aead) (version : ExpresslaneVersion) (ops : List Op) :
    (Always Rotates (installedPeers ops) → InFlightSurvives A version ops) ∧
      (Distinguishes A → ∀ s events, runAll A version ops = some (s, events) →
        (∃ counter, s.rx.replayWindow.wouldReject counter = false) →
          (InFlightSurvives A version ops ↔ Always Rotates (installedPeers ops))) := by
  refine ⟨survives_of_rotates, fun hdist s events hrun hspare => ?_⟩
  obtain ⟨counter, hpass⟩ := hspare
  exact ⟨rotates_of_survives hdist hrun hpass, survives_of_rotates⟩

/-- A rotation, and then the same peer key again. -/
def redeliveringRun : List Op :=
  [.updatePeerKey (constKey 1), .updatePeerKey (constKey 2), .updatePeerKey (constKey 2)]

/-- A packet in flight is accepted after the rotation, and lost after the redelivery. -/
theorem redelivered_key_loses_inFlight :
    (∃ s', rotatedReceiver.decrypt keyTagAead (Vector.replicate 8 3) laggingPacket [5, 5, 5]
      zeroLeftover zeroLeftover = some (s', [1, 2, 3], .ok (3, true))) ∧
    (rotatedReceiver.updatePeerKey (constKey 2)).1.decrypt keyTagAead (Vector.replicate 8 3)
      laggingPacket [5, 5, 5] zeroLeftover zeroLeftover =
        some ((rotatedReceiver.updatePeerKey (constKey 2)).1, [0, 0, 0], .error .invalidData) ∧
    ¬InFlightSurvives keyTagAead .version2 redeliveringRun := by
  have hlost : (rotatedReceiver.updatePeerKey (constKey 2)).1.decrypt keyTagAead
      (Vector.replicate 8 3) laggingPacket [5, 5, 5] zeroLeftover zeroLeftover =
        some ((rotatedReceiver.updatePeerKey (constKey 2)).1, [0, 0, 0], .error .invalidData) := rfl
  refine ⟨⟨_, rfl⟩, hlost, fun hsurvives => ?_⟩
  have hrun : runAll keyTagAead .version2 redeliveringRun =
      some ((rotatedReceiver.updatePeerKey (constKey 2)).1, []) := rfl
  have hencrypt : laggingSender.encrypt keyTagAead 7#64 (Vector.replicate 8 3) [1, 2, 3]
      (Vector.replicate 12 6) true (List.replicate 43 0) zeroLeftover =
        some ({ laggingSender with packetsSent := 1#64 }, laggingPacket, .ok 43) := rfl
  obtain ⟨s, events, hrun', -, hother, -⟩ := hsurvives redeliveringRun [] rfl
  rw [hrun] at hrun'
  obtain ⟨rfl, rfl⟩ := Prod.mk.inj (Option.some.inj hrun')
  have hauth := hother ⟨constKey 1⟩ (by decide)
  obtain ⟨s', plain, hdecrypt, -⟩ := hauth laggingSender _ _ _ _ _ _ _ _ _ _ rfl rfl hencrypt rfl
    [5, 5, 5] zeroLeftover zeroLeftover le_rfl
  have htake : laggingPacket.take 43 = laggingPacket := rfl
  rw [htake, hlost] at hdecrypt
  simp at hdecrypt

/-- The half of a key that the text asks for, as a tag. -/
def halfTag (key : ExpresslaneKey) (text : Bytes) : Vector UInt8 16 :=
  ⟨(if text = [] then key.bytes.toList.take 16 else key.bytes.toList.drop 16).toArray, by
    split_ifs <;> simp⟩

/-- The cipher that tags a text with one half of the key or the other; it tells any two keys
apart. -/
def halfTagAead : Aead where
  sealInPlace key _ _ plain := some (plain, halfTag key plain)
  openInPlace key _ _ ct tag := if tag = halfTag key ct then some ct else none
  length_seal h := by
    obtain ⟨rfl, -⟩ := Prod.mk.inj (Option.some.inj h)
    rfl
  length_open h := by
    split_ifs at h
    rw [Option.some.inj h]
  open_seal h := by
    obtain ⟨rfl, rfl⟩ := Prod.mk.inj (Option.some.inj h)
    exact if_pos rfl

theorem distinguishes_halfTagAead : Distinguishes halfTagAead := by
  intro key key' hne aad
  by_cases hfirst : halfTag key [] = halfTag key' []
  · -- the keys differ in the second half
    have hsecond : halfTag key [0] ≠ halfTag key' [0] := by
      intro hsecond
      have htake : key.bytes.toList.take 16 = key'.bytes.toList.take 16 :=
        congrArg (fun tag => tag.toArray.toList) hfirst
      have hdrop : key.bytes.toList.drop 16 = key'.bytes.toList.drop 16 :=
        congrArg (fun tag => tag.toArray.toList) hsecond
      have hbytes : key.bytes.toList = key'.bytes.toList :=
        calc key.bytes.toList
          _ = key.bytes.toList.take 16 ++ key.bytes.toList.drop 16 :=
            (List.take_append_drop 16 _).symm
          _ = key'.bytes.toList.take 16 ++ key'.bytes.toList.drop 16 := by rw [htake, hdrop]
          _ = key'.bytes.toList := List.take_append_drop 16 _
      exact hne (congrArg ExpresslaneKey.mk (Vector.toList_inj.1 hbytes))
    exact ⟨Vector.replicate 12 0, [0], [0], halfTag key [0], by decide, rfl, if_neg hsecond⟩
  · exact ⟨Vector.replicate 12 0, [], [], halfTag key [], by decide, rfl, if_neg hfirst⟩

/-- A run with a redelivery before the first rotation and a rejected key, and one with a redelivery
after a rotation. -/
theorem inFlight_survives_iff_redelivery :
    InFlightSurvives halfTagAead .version2
      [.updatePeerKey (constKey 1), .updatePeerKey (constKey 1), .updatePeerKey (constKey 2),
        .updatePeerKey (constKey 0), .updatePeerKey (constKey 3)] ∧
    ¬InFlightSurvives halfTagAead .version2 redeliveringRun := by
  refine ⟨(inFlight_survives_iff _ _ _).1 (by decide), fun hsurvives => ?_⟩
  have hiff := (inFlight_survives_iff halfTagAead .version2 redeliveringRun).2
    distinguishes_halfTagAead _ _ rfl ⟨0, rfl⟩
  exact absurd (hiff.1 hsurvives) (by decide)

end LightwayCffi.Expresslane
