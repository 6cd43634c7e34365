import LightwayCffi.Expresslane.Channel
import LightwayCffi.Expresslane.SharedSession
import LightwayCffi.Foundations.Linearization
import LightwayCffi.Foundations.Occupancy

/-!
# The shared session is the sequential one

A session that is used by many threads at once behaves like one whose operations happen one after
the other. Each operation takes effect at one of its steps: the staging of a key when `next_self` is
stored, a promotion when `current_self` is stored, a packet when it is sealed under the read guard
or opened under the `rx` mutex.

Two things are seen later than they happen. `packets_sent` is counted after the read guard is
dropped, and each hint of `has_valid_keys` is stored after its key; so the shared session lags
behind the sequential one, by as many packets and hints as there are calls between the two steps,
and by the key that a promotion has taken out of `next_self` and not yet stored (`Shows`). For the
packets this is not visible, since no operation here reads the count. The hint is visible: the
sequential `has_valid_keys` is allowed to answer `false` at any time (`Spec.early`), but `true` only
if both keys are in place.
-/

namespace LightwayCffi.Expresslane

open ConcurrentObject Occupancy

namespace ExpresslaneSession

/-- What a sealed packet adds to `packets_sent`. -/
def counted : Except ExpresslaneError ℕ → BitVec 64
  | .ok _ => 1#64
  | .error _ => 0#64

variable {A : Aead} {s s' a : ExpresslaneSession} {sessionId : Vector UInt8 8} {out out' : Bytes}
  {left leftPrev : Leftover}

/-- `encrypt` looks at the version and the active key, and counts the packet. -/
theorem encrypt_congr (hversion : a.version = s.version) (hkey : a.currentSelf = s.currentSelf)
    {counter : BitVec 64} {plainText : Bytes} {iv : Vector UInt8 12} {isEncoded : Bool}
    {result : Except ExpresslaneError ℕ}
    (h : s.encrypt A counter sessionId plainText iv isEncoded out left = some (s', out', result)) :
    a.encrypt A counter sessionId plainText iv isEncoded out left =
      some ({ a with packetsSent := a.packetsSent + counted result }, out', result) := by
  have hseal : s.sealPacket A counter sessionId plainText iv isEncoded =
      a.sealPacket A counter sessionId plainText iv isEncoded := by
    rw [sealPacket, sealPacket, hversion, hkey]
  rw [encrypt_eq] at h ⊢
  rw [hseal, ← hkey] at h
  split_ifs at h ⊢
  · cases h
    simp [counted]
  · cases h
    simp [counted]
  · cases h
    simp [counted]
  · split at h <;> cases h <;> simp [counted]

/-- `decrypt` looks at the version and the receive side, and changes the latter. -/
theorem decrypt_congr (hversion : a.version = s.version) (hrx : a.rx = s.rx) {wire : Bytes}
    {result : Except ExpresslaneError (ℕ × Bool)}
    (h : s.decrypt A sessionId wire out left leftPrev = some (s', out', result)) :
    a.decrypt A sessionId wire out left leftPrev = some ({ a with rx := s'.rx }, out', result) := by
  rcases Nat.lt_or_ge wire.length 40 with hshort | hlong
  · rw [decrypt_of_short A s sessionId hshort] at h
    cases h
    rw [decrypt_of_short A a sessionId hshort, ← hrx]
  obtain ⟨hdr, body, rfl⟩ := exists_encode hlong
  have hopen : s.openPacket A sessionId hdr body = a.openPacket A sessionId hdr body := by
    rw [openPacket, openPacket, hversion, hrx]
  rw [decrypt_encode] at h ⊢
  rw [hopen] at h
  simp only [← hrx] at h
  split_ifs at h ⊢
  · cases h
    simp [← hrx]
  · cases h
    simp [← hrx]
  · cases h
    simp [← hrx]
  · cases h
    simp [← hrx]
  · split at h <;> cases h <;> simp [← hrx]

end ExpresslaneSession

namespace SharedSession

variable {T : Type*}

/-! ## The specification -/

/-- The sequential session. A hint may be late: `has_valid_keys` may say `false`. -/
inductive Spec (A : Aead) (s : ExpresslaneSession) :
    Call → ExpresslaneSession → Result → Prop
  | run {call : Call} {s' : ExpresslaneSession} {r : Result} {ns : List Note}
    (h : call.run A s = some (s', r, ns)) : Spec A s call s' r
  | early : Spec A s .hasValidKeys s (.answer false)

namespace Pc

/-- The places at which a call holds the write lock of `current_self`. -/
def holdsWrite : Pc → Bool
  | promoteStore _ | promoteRelease => true
  | _ => false

/-- The places at which a call holds the read lock of `current_self`. -/
def holdsRead : Pc → Bool
  | encryptSeal | encryptRelease _ _ => true
  | _ => false

/-- A packet is sealed and not counted. -/
def uncounted : Pc → Bool
  | encryptRelease _ (.ok _) | encryptCount _ _ => true
  | _ => false

/-- A send key is installed and its hint is not set. -/
def selfPending : Pc → Bool
  | promoteRelease | promoteFlag => true
  | _ => false

/-- A receive key is installed and its hint is not set. -/
def peerPending : Pc → Bool
  | peerFlag => true
  | _ => false

/-- The first of the two hints was read, and was set. -/
def asks : Pc → Bool
  | hintSelf => true
  | _ => false

/-- The result of a call that has taken effect. -/
def committed : Pc → Option Result
  | stageUnlock => some (.done (.ok ()))
  | promoteRelease | promoteFlag => some (.promoted true)
  | promoteUnlock installed => some (.promoted installed)
  | encryptRelease out result => some (.encrypted out result)
  | encryptCount out n => some (.encrypted out (.ok n))
  | peerFlag | peerUnlock => some (.done (.ok ()))
  | decryptUnlock out result => some (.decrypted out result)
  | _ => none

end Pc

/-! ## How far the shared session lags behind -/

/-- The locks are held where the code says so. -/
structure Locks (place : T → Pc) (next writer : Option T) (readers : List T) (rx : Option T) :
    Prop where
  next : Held Pc.holdsNext place next
  writer : Held Pc.holdsWrite place writer
  readers : Inside Pc.holdsRead place readers
  rx : Held Pc.holdsRx place rx

/-- A staged key is in `next_self`, or with a promotion that has taken it out. -/
structure Staged (place : T → Pc) (shown stored : Option Cipher) : Prop where
  taken : ∀ u cipher, (place u).inFlight = some cipher → shown = some cipher ∧ stored = none
  settled : (∀ u, (place u).inFlight = none) → shown = stored

/-- The shared session `m` shows the sequential session `s`, up to what the calls under way have not
stored yet. -/
structure Shows (m : SharedSession T) (place : T → Pc) (s : ExpresslaneSession) : Prop where
  locks : Locks place m.nextSelfHolder m.writer m.readers m.rxHolder
  version : s.version = m.session.version
  currentSelf : s.currentSelf = m.session.currentSelf
  nextSelf : Staged place s.nextSelf m.session.nextSelf
  nextCounter : s.nextCounter = m.session.nextCounter
  packetsSent : LagsCount Pc.uncounted place s.packetsSent m.session.packetsSent
  rx : s.rx = m.session.rx
  selfHint : LagsFlag Pc.selfPending place s.selfKeyInstalled m.session.selfKeyInstalled
  peerHint : LagsFlag Pc.peerPending place s.peerKeyInstalled m.session.peerKeyInstalled
  asked : ∀ u, place u = .hintSelf → s.peerKeyInstalled = true

section Steps

variable [DecidableEq T] {A : Aead} {t : T} {m m' : SharedSession T} {place : T → Pc} {pc pc' : Pc}
  {call : Call} {mv : Move Pc Result} {ns : List Note} {s : ExpresslaneSession}

theorem Staged.stay {shown stored : Option Cipher} (h : Staged place shown stored)
    (hplace : place t = pc) (hflight : pc'.inFlight = pc.inFlight) :
    Staged (Function.update place t pc') shown stored := by
  have heq := apply_update Pc.inFlight hplace hflight
  exact ⟨fun u cipher hu => h.taken u cipher (heq u ▸ hu),
    fun hnone => h.settled fun u => heq u ▸ hnone u⟩

/-- **A step takes and lets go the locks as the places say.** -/
theorem Locks.step (h : Locks place m.nextSelfHolder m.writer m.readers m.rxHolder)
    (hplace : place t = pc) (hstep : Transition A t m call pc m' mv ns) :
    Locks (Function.update place t (placeOf mv)) m'.nextSelfHolder m'.writer m'.readers
      m'.rxHolder := by
  obtain ⟨hnext, hwriter, hreaders, hrx⟩ := h
  cases hstep with
  | stageLock key hkey hfree =>
    rw [hfree] at hnext
    exact ⟨hnext.enter rfl, hwriter.stay hplace rfl, hreaders.stay hplace rfl, hrx.stay hplace rfl⟩
  | promoteLock hfree =>
    rw [hfree] at hnext
    exact ⟨hnext.enter rfl, hwriter.stay hplace rfl, hreaders.stay hplace rfl, hrx.stay hplace rfl⟩
  | stageUnlock key =>
    exact ⟨hnext.leave hplace rfl rfl, hwriter.stay hplace rfl, hreaders.stay hplace rfl,
      hrx.stay hplace rfl⟩
  | promoteUnlock installed =>
    exact ⟨hnext.leave hplace rfl rfl, hwriter.stay hplace rfl, hreaders.stay hplace rfl,
      hrx.stay hplace rfl⟩
  | promoteWrite cipher hfree =>
    rw [hfree.1] at hwriter
    exact ⟨hnext.stay hplace rfl, hwriter.enter rfl, hreaders.stay hplace rfl, hrx.stay hplace rfl⟩
  | promoteRelease =>
    exact ⟨hnext.stay hplace rfl, hwriter.leave hplace rfl rfl, hreaders.stay hplace rfl,
      hrx.stay hplace rfl⟩
  | encryptLock args hfree =>
    exact ⟨hnext.stay hplace rfl, hwriter.stay hplace rfl, hreaders.enter hplace rfl rfl,
      hrx.stay hplace rfl⟩
  | encryptFail args out e =>
    exact ⟨hnext.stay hplace rfl, hwriter.stay hplace rfl, hreaders.leave rfl, hrx.stay hplace rfl⟩
  | encryptRelease args out n =>
    exact ⟨hnext.stay hplace rfl, hwriter.stay hplace rfl, hreaders.leave rfl, hrx.stay hplace rfl⟩
  | peerLock key hfree =>
    rw [hfree] at hrx
    exact ⟨hnext.stay hplace rfl, hwriter.stay hplace rfl, hreaders.stay hplace rfl, hrx.enter rfl⟩
  | decryptLock args hfree =>
    rw [hfree] at hrx
    exact ⟨hnext.stay hplace rfl, hwriter.stay hplace rfl, hreaders.stay hplace rfl, hrx.enter rfl⟩
  | peerUnlock key =>
    exact ⟨hnext.stay hplace rfl, hwriter.stay hplace rfl, hreaders.stay hplace rfl,
      hrx.leave hplace rfl rfl⟩
  | decryptUnlock args buf result =>
    exact ⟨hnext.stay hplace rfl, hwriter.stay hplace rfl, hreaders.stay hplace rfl,
      hrx.leave hplace rfl rfl⟩
  | _ =>
    exact ⟨hnext.stay hplace rfl, hwriter.stay hplace rfl, hreaders.stay hplace rfl,
      hrx.stay hplace rfl⟩

/-- A question that is half answered stays so, and no new one is asked. -/
theorem asked_update {shown : Bool} (h : ∀ u, place u = .hintSelf → shown = true)
    (hpc' : pc'.asks = false) (u : T) (hu : Function.update place t pc' u = .hintSelf) :
    shown = true := by
  rcases eq_or_ne u t with rfl | hne
  · rw [Function.update_self] at hu
    rw [hu] at hpc'
    exact absurd hpc'.symm Bool.false_ne_true
  · rw [Function.update_of_ne hne] at hu
    exact h u hu

/-- A step that leaves the session alone, and announces nothing. -/
theorem Shows.moved (h : Shows m place s) (hplace : place t = pc)
    (hlocks : Locks (Function.update place t pc') m'.nextSelfHolder m'.writer m'.readers
      m'.rxHolder)
    (hsession : m'.session = m.session) (hflight : pc'.inFlight = pc.inFlight)
    (hsent : pc'.uncounted = pc.uncounted) (hself : pc'.selfPending = pc.selfPending)
    (hpeer : pc'.peerPending = pc.peerPending) (hasked : pc'.asks = false) :
    Shows m' (Function.update place t pc') s where
  locks := hlocks
  version := hsession ▸ h.version
  currentSelf := hsession ▸ h.currentSelf
  nextSelf := hsession ▸ h.nextSelf.stay hplace hflight
  nextCounter := hsession ▸ h.nextCounter
  packetsSent := hsession ▸ h.packetsSent.stay hplace hsent
  rx := hsession ▸ h.rx
  selfHint := hsession ▸ h.selfHint.stay hplace hself
  peerHint := hsession ▸ h.peerHint.stay hplace hpeer
  asked := asked_update h.asked hasked

/-! ## The points -/

/-- The key that a call is about to store is the one it was called with. -/
def Ready : Call → Pc → Prop
  | .updateNextSelfKey key, .stageStore cipher => key.isInvalid = false ∧ cipher = ⟨key⟩
  | .updatePeerKey key, .peerStore cipher => key.isInvalid = false ∧ cipher = ⟨key⟩
  | _, _ => True

theorem ready_of_step (h : step A t call m pc = some (m', .goto pc', ns)) : Ready call pc' := by
  generalize hmv : Move.goto pc' = mv at h
  cases transition_of_step h with
  | stageLock key hkey hfree =>
    cases hmv
    exact ⟨hkey, rfl⟩
  | peerLock key hfree =>
    cases hmv
    refine ⟨Bool.eq_false_iff.2 fun hkey => ?_, rfl⟩
    simp [step, updatePeerKey, hkey] at h
  | _ => cases hmv <;> trivial

omit [DecidableEq T] in
theorem Call.run_encrypt {args : EncryptArgs} {s s' : ExpresslaneSession} {out : Bytes}
    {result : Except ExpresslaneError ℕ} (h : args.run A s = some (s', out, result)) :
    (Call.encrypt args).run A s = some (s', .encrypted out result, []) :=
  Option.map_eq_some_iff.2 ⟨_, h, rfl⟩

omit [DecidableEq T] in
theorem Call.run_decrypt {args : DecryptArgs} {s s' : ExpresslaneSession} {out : Bytes}
    {result : Except ExpresslaneError (ℕ × Bool)} (h : args.run A s = some (s', out, result)) :
    (Call.decrypt args).run A s = some (s', .decrypted out result, []) :=
  Option.map_eq_some_iff.2 ⟨_, h, rfl⟩

theorem run_encrypt_of_rejected {args : EncryptArgs} {r : Result}
    (h : step A t (.encrypt args) m .start = some (m', .ret r, ns)) (s : ExpresslaneSession) :
    (Call.encrypt args).run A s = some (s, r, []) := by
  simp only [step, encrypt] at h
  simp only [Call.run, EncryptArgs.run, ExpresslaneSession.encrypt]
  split_ifs at h ⊢ with hroom hlong
  · cases h
    rfl
  · cases h
    rfl
  · cases h

theorem run_decrypt_of_rejected {args : DecryptArgs} {r : Result}
    (h : step A t (.decrypt args) m .start = some (m', .ret r, ns)) (s : ExpresslaneSession) :
    (Call.decrypt args).run A s = some (s, r, []) := by
  simp only [step, decrypt] at h
  simp only [Call.run, DecryptArgs.run, ExpresslaneSession.decrypt]
  split_ifs at h ⊢ with hshort
  · cases h
    rfl
  · cases h

/-- The step of a call at `pc` is mirrored by the sequential session: it is the point of the call,
or it does not matter there. -/
def Mirrored (A : Aead) (t : T) (place : T → Pc) (s : ExpresslaneSession) (call : Call) (pc : Pc)
    (m' : SharedSession T) (mv : Move Pc Result) : Prop :=
  ∃ s', Advances (Spec A) Pc.committed call pc s mv s' ∧
    Shows m' (Function.update place t (placeOf mv)) s'

omit [DecidableEq T] in
/-- While a call is inside the mutex of `next_self`, no other one has a key in flight. -/
theorem inFlight_of_ne {holder : Option T} (hheld : Held Pc.holdsNext place holder)
    (hplace : place t = pc) (hholds : pc.holdsNext = true) {u : T} (hne : u ≠ t) :
    (place u).inFlight = none := by
  cases hu : (place u).holdsNext with
  | false => exact Pc.inFlight_eq_none hu
  | true => exact absurd (hheld.eq_of_mem (by rw [hplace, hholds]) hu) hne

/-- No key is in flight once the holder of the mutex has none. -/
theorem Staged.settle {shown stored : Option Cipher} {holder : Option T}
    (hheld : Held Pc.holdsNext place holder) (hplace : place t = pc)
    (hholds : pc.holdsNext = true) (hpc' : pc'.inFlight = none) (heq : shown = stored) :
    Staged (Function.update place t pc') shown stored := by
  have hnone : ∀ u, (Function.update place t pc' u).inFlight = none := by
    intro u
    rcases eq_or_ne u t with rfl | hne
    · rw [Function.update_self, hpc']
    · rw [Function.update_of_ne hne, inFlight_of_ne hheld hplace hholds hne]
  exact ⟨fun u cipher hu => absurd (hnone u) (by simp [hu]), fun _ => heq⟩

omit [DecidableEq T] in
/-- The holder of the mutex, with no key in flight, sees the staged key. -/
theorem Staged.eq_stored {shown stored : Option Cipher} {holder : Option T}
    (h : Staged place shown stored) (hheld : Held Pc.holdsNext place holder)
    (hplace : place t = pc) (hholds : pc.holdsNext = true) (hpc : pc.inFlight = none) :
    shown = stored := by
  refine h.settled fun u => ?_
  rcases eq_or_ne u t with rfl | hne
  · rw [hplace, hpc]
  · exact inFlight_of_ne hheld hplace hholds hne

theorem mirrored_stageStore (h : Shows m place s) {key : ExpresslaneKey}
    (hkey : key.isInvalid = false) (hplace : place t = .stageStore ⟨key⟩)
    (hmoved : Shows m (Function.update place t .stageUnlock) s) :
    Mirrored A t place s (.updateNextSelfKey key) (.stageStore ⟨key⟩)
      { m with session := { m.session with nextSelf := some ⟨key⟩ } } (.goto .stageUnlock) := by
  have hrun : (Call.updateNextSelfKey key).run A s =
      some ({ s with nextSelf := some ⟨key⟩ }, .done (.ok ()), [.staged ⟨key⟩]) := by
    simp [Call.run, ExpresslaneSession.updateNextSelfKey, hkey, Cipher.new_eq]
  refine ⟨_, .point rfl rfl (.run hrun), ?_⟩
  exact { hmoved with nextSelf := Staged.settle h.locks.next hplace rfl rfl rfl }

theorem mirrored_promoteNothing (h : Shows m place s) (hplace : place t = .promoteTake)
    (hnext : m.session.nextSelf = none)
    (hmoved : Shows m (Function.update place t (.promoteUnlock false)) s) :
    Mirrored A t place s .promoteSelfKey .promoteTake m (.goto (.promoteUnlock false)) := by
  have hshown : s.nextSelf = none := by
    rw [h.nextSelf.eq_stored h.locks.next hplace rfl rfl, hnext]
  have hrun : Call.promoteSelfKey.run A s = some (s, .promoted false, []) := by
    simp [Call.run, ExpresslaneSession.promoteSelfKey, hshown]
  exact ⟨s, .point rfl rfl (.run hrun), hmoved⟩

/-- The key leaves `next_self`, and is still staged as far as others can see. -/
theorem Staged.take {shown : Option Cipher} {cipher : Cipher} {holder : Option T}
    (hheld : Held Pc.holdsNext place holder) (hplace : place t = pc) (hholds : pc.holdsNext = true)
    (hshown : shown = some cipher) (hpc' : pc'.inFlight = some cipher) :
    Staged (Function.update place t pc') shown none := by
  refine ⟨fun u cipher' hu => ⟨?_, rfl⟩, fun hnone => ?_⟩
  · rcases eq_or_ne u t with rfl | hne
    · rw [Function.update_self, hpc'] at hu
      rw [hshown, hu]
    · rw [Function.update_of_ne hne, inFlight_of_ne hheld hplace hholds hne] at hu
      cases hu
  · have := hnone t
    rw [Function.update_self, hpc'] at this
    cases this

theorem mirrored_promoteStore (h : Shows m place s) {cipher : Cipher}
    (hplace : place t = .promoteStore cipher)
    (hlocks : Locks (Function.update place t .promoteRelease) m.nextSelfHolder m.writer m.readers
      m.rxHolder) :
    Mirrored A t place s .promoteSelfKey (.promoteStore cipher)
      { m with session := { m.session with currentSelf := some cipher } }
      (.goto .promoteRelease) := by
  obtain ⟨hshown, hstored⟩ := h.nextSelf.taken t cipher (by rw [hplace]; rfl)
  have hrun : Call.promoteSelfKey.run A s =
      some ({ s with nextSelf := none, currentSelf := some cipher, selfKeyInstalled := true },
        .promoted true, [.took cipher, .installed cipher]) := by
    simp [Call.run, ExpresslaneSession.promoteSelfKey, hshown]
  refine ⟨_, .point rfl rfl (.run hrun), ?_⟩
  exact {
    locks := hlocks
    version := h.version
    currentSelf := rfl
    nextSelf := Staged.settle h.locks.next hplace rfl rfl hstored.symm
    nextCounter := h.nextCounter
    packetsSent := h.packetsSent.stay hplace rfl
    rx := h.rx
    selfHint := .enter rfl
    peerHint := h.peerHint.stay hplace rfl
    asked := asked_update h.asked rfl }

theorem mirrored_encryptSeal (h : Shows m place s) (hplace : place t = .encryptSeal)
    {args : EncryptArgs} {s₁ : ExpresslaneSession} {out : Bytes}
    {result : Except ExpresslaneError ℕ} (hrun : args.run A m.session = some (s₁, out, result))
    (hlocks : Locks (Function.update place t (.encryptRelease out result)) m.nextSelfHolder
      m.writer m.readers m.rxHolder) :
    Mirrored A t place s (.encrypt args) .encryptSeal m (.goto (.encryptRelease out result)) := by
  have hsent : LagsCount Pc.uncounted (Function.update place t (.encryptRelease out result))
      (s.packetsSent + ExpresslaneSession.counted result) m.session.packetsSent := by
    cases result with
    | error e =>
      rw [ExpresslaneSession.counted, BitVec.add_zero]
      exact h.packetsSent.stay hplace rfl
    | ok n => exact h.packetsSent.enter hplace rfl rfl
  have hcall := Call.run_encrypt (ExpresslaneSession.encrypt_congr h.version h.currentSelf hrun)
  refine ⟨_, .point rfl rfl (.run hcall), ?_⟩
  exact {
    locks := hlocks
    version := h.version
    currentSelf := h.currentSelf
    nextSelf := h.nextSelf.stay hplace rfl
    nextCounter := h.nextCounter
    packetsSent := hsent
    rx := h.rx
    selfHint := h.selfHint.stay hplace rfl
    peerHint := h.peerHint.stay hplace rfl
    asked := asked_update h.asked rfl }

theorem mirrored_peerStore (h : Shows m place s) {key : ExpresslaneKey}
    (hkey : key.isInvalid = false) (hplace : place t = .peerStore ⟨key⟩)
    (hlocks : Locks (Function.update place t .peerFlag) m.nextSelfHolder m.writer m.readers
      m.rxHolder) :
    Mirrored A t place s (.updatePeerKey key) (.peerStore ⟨key⟩)
      { m with session := { m.session with
          rx := { m.session.rx with
            currentPeer := some ⟨key⟩
            prevPeer := m.session.rx.currentPeer } } } (.goto .peerFlag) := by
  have hrun : (Call.updatePeerKey key).run A s = some
      ({ s with
         rx := { s.rx with currentPeer := some ⟨key⟩, prevPeer := s.rx.currentPeer }
         peerKeyInstalled := true }, .done (.ok ()), []) := by
    simp [Call.run, ExpresslaneSession.updatePeerKey, hkey, Cipher.new_eq]
  refine ⟨_, .point rfl rfl (.run hrun), ?_⟩
  exact {
    locks := hlocks
    version := h.version
    currentSelf := h.currentSelf
    nextSelf := h.nextSelf.stay hplace rfl
    nextCounter := h.nextCounter
    packetsSent := h.packetsSent.stay hplace rfl
    rx := by rw [h.rx]
    selfHint := h.selfHint.stay hplace rfl
    peerHint := .enter rfl
    asked := fun _ _ => rfl }

theorem mirrored_decryptBody (h : Shows m place s) {args : DecryptArgs} {s₁ : ExpresslaneSession}
    {out : Bytes} {result : Except ExpresslaneError (ℕ × Bool)}
    (hrun : args.run A m.session = some (s₁, out, result))
    (hmoved : Shows m (Function.update place t (.decryptUnlock out result)) s) :
    Mirrored A t place s (.decrypt args) .decryptBody
      { m with session := { m.session with rx := s₁.rx } }
      (.goto (.decryptUnlock out result)) := by
  have hcall := Call.run_decrypt (ExpresslaneSession.decrypt_congr h.version h.rx hrun)
  exact ⟨_, .point rfl rfl (.run hcall), { hmoved with rx := rfl }⟩

/-- The second load of `has_valid_keys` says `true` only if both keys are there. -/
theorem mirrored_hintSelf (h : Shows m place s) (hplace : place t = .hintSelf)
    (hmoved : Shows m (Function.update place t .start) s) :
    Mirrored A t place s .hasValidKeys .hintSelf m (.ret (.answer m.session.selfKeyInstalled)) := by
  refine ⟨s, .point rfl rfl ?_, hmoved⟩
  cases hself : m.session.selfKeyInstalled with
  | false => exact .early
  | true =>
    have hboth : s.hasValidKeys = true := by
      rw [ExpresslaneSession.hasValidKeys, h.asked t hplace, h.selfHint.2 (Or.inl hself)]
      rfl
    have hrun : Call.hasValidKeys.run A s = some (s, .answer true, []) := by
      rw [Call.run, hboth]
    exact .run hrun

/-- **Every step is a point or does not matter**: the shared session goes on to show the sequential
one. -/
theorem mirrored_of_step (hready : Ready call pc) (h : Shows m place s) (hplace : place t = pc)
    (hstep : step A t call m pc = some (m', mv, ns)) : Mirrored A t place s call pc m' mv := by
  have hlocks := h.locks.step hplace (transition_of_step hstep)
  cases transition_of_step hstep with
  | reserve =>
    have hmoved : Shows m _ s := h.moved hplace hlocks rfl rfl rfl rfl rfl rfl
    have hrun : Call.reserveCounter.run A s =
        some (s.reserveCounter.1, .counter m.session.reserveCounter.2, []) := by
      rw [Call.run, ExpresslaneSession.reserveCounter, h.nextCounter]
      rfl
    exact ⟨_, .point rfl rfl (.run hrun),
      { hmoved with nextCounter := congrArg (· + 1#64) h.nextCounter }⟩
  | stageRejected key hkey =>
    have hrun : (Call.updateNextSelfKey key).run A s =
        some (s, .done (.error .invalidKey), []) := by
      simp [Call.run, ExpresslaneSession.updateNextSelfKey, hkey]
    exact ⟨s, .point rfl rfl (.run hrun), h.moved hplace hlocks rfl rfl rfl rfl rfl rfl⟩
  | stageStore key cipher =>
    obtain ⟨hkey, rfl⟩ := hready
    have hmoved : Shows m _ s := h.moved hplace hlocks rfl rfl rfl rfl rfl rfl
    exact mirrored_stageStore h hkey hplace hmoved
  | promoteNothing hnext =>
    exact mirrored_promoteNothing h hplace hnext (h.moved hplace hlocks rfl rfl rfl rfl rfl rfl)
  | promoteTake cipher hnext =>
    have hshown := (h.nextSelf.eq_stored h.locks.next hplace rfl rfl).trans hnext
    exact ⟨s, .quiet rfl, hlocks, h.version, h.currentSelf,
      Staged.take h.locks.next hplace rfl hshown rfl, h.nextCounter, h.packetsSent.stay hplace rfl,
      h.rx, h.selfHint.stay hplace rfl, h.peerHint.stay hplace rfl, asked_update h.asked rfl⟩
  | promoteStore cipher => exact mirrored_promoteStore h hplace hlocks
  | promoteFlag =>
    exact ⟨s, .quiet rfl, hlocks, h.version, h.currentSelf, h.nextSelf.stay hplace rfl,
      h.nextCounter, h.packetsSent.stay hplace rfl, h.rx, h.selfHint.leave hplace rfl,
      h.peerHint.stay hplace rfl, asked_update h.asked rfl⟩
  | encryptRejected args e he =>
    exact ⟨s, .point rfl rfl (.run (run_encrypt_of_rejected hstep s)),
      h.moved hplace hlocks rfl rfl rfl rfl rfl rfl⟩
  | encryptSeal args s₁ out result hrun => exact mirrored_encryptSeal h hplace hrun hlocks
  | encryptCount args out n =>
    exact ⟨s, .quiet rfl, hlocks, h.version, h.currentSelf, h.nextSelf.stay hplace rfl,
      h.nextCounter, h.packetsSent.leave hplace rfl rfl, h.rx, h.selfHint.stay hplace rfl,
      h.peerHint.stay hplace rfl, asked_update h.asked rfl⟩
  | peerRejected key hkey =>
    have hrun : (Call.updatePeerKey key).run A s = some (s, .done (.error .invalidKey), []) := by
      simp [Call.run, ExpresslaneSession.updatePeerKey, hkey]
    exact ⟨s, .point rfl rfl (.run hrun), h.moved hplace hlocks rfl rfl rfl rfl rfl rfl⟩
  | peerStore key cipher =>
    obtain ⟨hkey, rfl⟩ := hready
    exact mirrored_peerStore h hkey hplace hlocks
  | peerFlag key =>
    exact ⟨s, .quiet rfl, hlocks, h.version, h.currentSelf, h.nextSelf.stay hplace rfl,
      h.nextCounter, h.packetsSent.stay hplace rfl, h.rx, h.selfHint.stay hplace rfl,
      h.peerHint.leave hplace rfl, asked_update h.asked rfl⟩
  | hintPeer hpeer =>
    exact ⟨s, .quiet rfl, hlocks, h.version, h.currentSelf, h.nextSelf.stay hplace rfl,
      h.nextCounter, h.packetsSent.stay hplace rfl, h.rx, h.selfHint.stay hplace rfl,
      h.peerHint.stay hplace rfl, fun _ _ => h.peerHint.2 (Or.inl hpeer)⟩
  | hintNone hpeer =>
    exact ⟨s, .point rfl rfl .early, h.moved hplace hlocks rfl rfl rfl rfl rfl rfl⟩
  | hintSelf =>
    exact mirrored_hintSelf h hplace (h.moved hplace hlocks rfl rfl rfl rfl rfl rfl)
  | decryptRejected args =>
    exact ⟨s, .point rfl rfl (.run (run_decrypt_of_rejected hstep s)),
      h.moved hplace hlocks rfl rfl rfl rfl rfl rfl⟩
  | decryptBody args s₁ out result hrun =>
    exact mirrored_decryptBody h hrun (h.moved hplace hlocks rfl rfl rfl rfl rfl rfl)
  | _ => exact ⟨s, .quiet rfl, h.moved hplace hlocks rfl rfl rfl rfl rfl rfl⟩

end Steps

/-! ## Every run -/

/-- Where the threads of a configuration are. -/
def places (threads : T → Activity Call Pc) : T → Pc := fun t => place (threads t)

variable [DecidableEq T] {m : SharedSession T} {s : ExpresslaneSession}

theorem places_update (threads : T → Activity Call Pc) (t : T) (a : Activity Call Pc) :
    places (Function.update threads t a) = Function.update (places threads) t (place a) :=
  Function.comp_update place threads t a

theorem place_activity (started : ℕ) (call : Call) (mv : Move Pc Result) :
    place (mv.activity started call) = placeOf mv := by
  cases mv <;> rfl

theorem simulation_session (A : Aead) (s : SharedSession T) :
    Simulation (sessionObject A) s (Spec A) Pc.committed
      fun m threads s => Shows m (places threads) s where
  entry _ := rfl
  call {c a t} h hidle started call := by
    have hplace : places c.threads t = .start := by rw [places, hidle, place]
    rw [places_update, place, sessionObject, ← hplace, Function.update_eq_self]
    exact h
  step {c a t started call pc m' mv ns} hreach h hrunning hstep := by
    have hplace : places c.threads t = pc := by rw [places, hrunning, place]
    have hready : Ready call pc :=
      hreach.local (fun call => by cases call <;> trivial) (fun hstep _ => ready_of_step hstep)
        hrunning
    obtain ⟨s', hadv, hshows⟩ := mirrored_of_step hready h hplace hstep
    refine ⟨s', hadv, ?_⟩
    rw [places_update, place_activity]
    exact hshows

omit [DecidableEq T] in
theorem shows_unused (s : ExpresslaneSession) :
    Shows (unused s : SharedSession T) (places fun _ => .idle) s where
  locks := ⟨by simp [Held, places, place, Pc.holdsNext, unused],
    by simp [Held, places, place, Pc.holdsWrite, unused],
    ⟨List.nodup_nil, by simp [places, place, Pc.holdsRead, unused]⟩,
    by simp [Held, places, place, Pc.holdsRx, unused]⟩
  version := rfl
  currentSelf := rfl
  nextSelf := ⟨fun _ _ h => (nomatch h), fun _ => rfl⟩
  nextCounter := rfl
  packetsSent := ⟨[], ⟨List.nodup_nil, by simp [places, place, Pc.uncounted]⟩,
    (BitVec.add_zero _).symm⟩
  rx := rfl
  selfHint := by simp [LagsFlag, places, place, Pc.selfPending, unused]
  peerHint := by simp [LagsFlag, places, place, Pc.peerPending, unused]
  asked _ h := nomatch h

omit [DecidableEq T] in
/-- When no call is under way, the shared session is the sequential one. -/
theorem Shows.eq_unused {threads : T → Activity Call Pc} (h : Shows m (places threads) s)
    (hidle : ∀ t, threads t = .idle) : m = unused s := by
  have hstart : ∀ t, places threads t = .start := fun t => by rw [places, hidle, place]
  have hout : ∀ {region : Pc → Bool}, region .start = false → ∀ t,
      region (places threads t) = false := fun hregion t => by rw [hstart, hregion]
  obtain ⟨session, nextSelfHolder, writer, readers, rxHolder⟩ := m
  obtain rfl : nextSelfHolder = none := h.locks.next.eq_none (hout rfl)
  obtain rfl : writer = none := h.locks.writer.eq_none (hout rfl)
  obtain rfl : readers = [] := h.locks.readers.eq_nil (hout rfl)
  obtain rfl : rxHolder = none := h.locks.rx.eq_none (hout rfl)
  have hsession : session = s := by
    have hnext : s.nextSelf = session.nextSelf :=
      h.nextSelf.settled fun t => by rw [hstart]; rfl
    have hsent : s.packetsSent = session.packetsSent := h.packetsSent.eq_stored (hout rfl)
    have hself : s.selfKeyInstalled = session.selfKeyInstalled := h.selfHint.eq_stored (hout rfl)
    have hpeer : s.peerKeyInstalled = session.peerKeyInstalled := h.peerHint.eq_stored (hout rfl)
    have hversion := h.version
    have hcurrent := h.currentSelf
    have hcounter := h.nextCounter
    have hrx := h.rx
    cases s
    cases session
    simp_all
  rw [hsession]
  rfl

/-- **The shared session is linearizable.** Whatever the interleaving, the calls that have returned,
and some of those still under way, can be put in an order that keeps real time and in which the
sequential session gives each of them its result, but for a `has_valid_keys` that was too early and
answered `false`; and when no call is under way, the shared session is where the sequential one has
got to. -/
theorem session_linearizable (A : Aead) (version : ExpresslaneVersion)
    {c : Config T (SharedSession T) Call Pc Note Result}
    (h : Reachable (sessionObject A) (unused (.new version)) c) :
    ∃ points s, Sequential (Spec A) (.new version) points s ∧ Linearizes c.log points ∧
      ((∀ t, c.threads t = .idle) → c.shared = unused s) := by
  obtain ⟨points, s, hseq, hlin, hshows⟩ :=
    (simulation_session A _).linearizable h (shows_unused (.new version))
  exact ⟨points, s, hseq, hlin, hshows.eq_unused⟩

/-! ## Two threads receive the same packet -/

/-- The call that both threads make. -/
def racingCall : Call :=
  .decrypt ⟨Vector.replicate 8 3, deliveredHeader.encode ++ [1, 2, 3], [0, 0, 0], zeroLeftover,
    zeroLeftover⟩

/-- One thread installs a key and starts to receive a packet; the other one overtakes it with the
same packet. -/
def racingConfig : Config Bool (SharedSession Bool) Call Pc Note Result where
  shared := unused deliveredReceiver
  threads _ := .idle
  log :=
    [⟨true, .called (.updatePeerKey (constKey 1))⟩,
      ⟨true, .returned 0 (.updatePeerKey (constKey 1)) (.done (.ok ()))⟩,
      ⟨true, .called racingCall⟩,
      ⟨false, .called racingCall⟩,
      ⟨false, .returned 3 racingCall (.decrypted [1, 2, 3] (.ok (3, true)))⟩,
      ⟨true, .returned 2 racingCall (.decrypted [0, 0, 0] (.error .replayed))⟩]

theorem run_racingCall :
    racingCall.run keyTagAead ((ExpresslaneSession.new .version2).updatePeerKey (constKey 1)).1 =
      some (deliveredReceiver, .decrypted [1, 2, 3] (.ok (3, true)), []) :=
  Call.run_decrypt (decrypt_delivered le_rfl)

theorem rerun_racingCall :
    racingCall.run keyTagAead deliveredReceiver =
      some (deliveredReceiver, .decrypted [0, 0, 0] (.error .replayed), []) :=
  Call.run_decrypt (decrypt_delivered_again _)

theorem reachable_racingConfig :
    Reachable (sessionObject keyTagAead) (unused (.new .version2)) racingConfig := by
  have hinit : Reachable (sessionObject keyTagAead) (unused (.new .version2))
    (.init (unused (.new .version2)) : Config Bool _ _ _ _ _) := .refl
  have hkeyed := hinit.solo (t := true) rfl (solo_of_run true (.updatePeerKey (constKey 1)) rfl)
  have hfirst := hkeyed.tail (.turn true (.call _ _ racingCall))
  have hsecond := hfirst.tail (.turn false (.call _ _ racingCall))
  have hovertaken := hsecond.trans ((solo_of_run false _ run_racingCall).steps rfl _)
  have hdone := hovertaken.trans ((solo_of_run true _ rerun_racingCall).steps rfl _)
  have hidle : racingConfig.threads = Function.update (Function.update (Function.update
      (Function.update (fun _ => .idle) true (.running 2 racingCall .start)) false
        (.running 3 racingCall .start)) false .idle) true .idle := by
    funext t
    cases t <;> rfl
  rw [show racingConfig = ⟨racingConfig.shared, racingConfig.threads, racingConfig.log⟩ from rfl,
    hidle]
  exact hdone

/-- Two threads receive the same packet at once, and the session is left as if they had done so one
after the other. -/
theorem session_linearizable_racingConfig :
    ∃ points, Sequential (Spec keyTagAead) (.new .version2) points deliveredReceiver ∧
      Linearizes racingConfig.log points := by
  obtain ⟨points, s, hseq, hlin, hquiet⟩ :=
    session_linearizable keyTagAead .version2 reachable_racingConfig
  obtain rfl : deliveredReceiver = s := congrArg session (hquiet fun _ => rfl)
  exact ⟨points, hseq, hlin⟩

end SharedSession

end LightwayCffi.Expresslane
