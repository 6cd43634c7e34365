import LightwayCffi.Expresslane.Session
import LightwayCffi.Foundations.ConcurrentObject

/-!
# A session shared by threads

An ExpressLane session is used by many threads at once. Its send keys sit behind a mutex
(`next_self`) and a readers-writer lock (`current_self`), its receive side behind another mutex
(`rx`), and its counters and hints are atomics. `sessionObject` is the session as a concurrent
object: each operation is cut at its lock operations and at its atomic accesses, so that whatever
lies between two of them can be seen, and overtaken, by other threads.

What a thread does to its own buffers is not visible to others, and what it does while it holds a
lock is done in one step: `encrypt` reads the active key and seals under the read guard, `decrypt`
does its work under the `rx` mutex, both with the sequential functions. The readers-writer lock lets
a reader in whenever no writer is inside, which allows every interleaving that a fairer lock does.

The notes in the log are the events of a key's life: it is `staged` in `next_self`, it is taken out
of it (`took`), and it is `installed` in `current_self`. `KeyEffect` says once what a turn can do to
the send keys, to the lock of `next_self` and to the notes, and `Grows` what it cannot undo.
-/

namespace LightwayCffi.Expresslane

open ConcurrentObject

/-- The arguments of `encrypt`. -/
structure EncryptArgs where
  counter : BitVec 64
  sessionId : Vector UInt8 8
  plainText : Bytes
  iv : Vector UInt8 12
  isEncoded : Bool
  out : Bytes
  left : Leftover

/-- The arguments of `decrypt`. -/
structure DecryptArgs where
  sessionId : Vector UInt8 8
  wirePacket : Bytes
  out : Bytes
  left : Leftover
  leftPrev : Leftover

/-- The sequential `encrypt`. -/
def EncryptArgs.run (A : Aead) (s : ExpresslaneSession) (args : EncryptArgs) :
    Option (ExpresslaneSession × Bytes × Except ExpresslaneError ℕ) :=
  s.encrypt A args.counter args.sessionId args.plainText args.iv args.isEncoded args.out args.left

/-- The sequential `decrypt`. -/
def DecryptArgs.run (A : Aead) (s : ExpresslaneSession) (args : DecryptArgs) :
    Option (ExpresslaneSession × Bytes × Except ExpresslaneError (ℕ × Bool)) :=
  s.decrypt A args.sessionId args.wirePacket args.out args.left args.leftPrev

/-- The session and who is inside its locks. -/
structure SharedSession (T : Type*) where
  session : ExpresslaneSession
  /-- the holder of the mutex of `next_self` -/
  nextSelfHolder : Option T
  /-- the writer inside the lock of `current_self` -/
  writer : Option T
  /-- the readers inside the lock of `current_self` -/
  readers : List T
  /-- the holder of the mutex of `rx` -/
  rxHolder : Option T

namespace SharedSession

/-- The operations. -/
inductive Call where
  | reserveCounter
  | updateNextSelfKey (key : ExpresslaneKey)
  | promoteSelfKey
  | encrypt (args : EncryptArgs)
  | updatePeerKey (key : ExpresslaneKey)
  | hasValidKeys
  | decrypt (args : DecryptArgs)

/-- The places between the steps of the operations. -/
inductive Pc where
  | start
  | stageStore (cipher : Cipher)
  | stageUnlock
  | promoteTake
  | promoteWrite (cipher : Cipher)
  | promoteStore (cipher : Cipher)
  | promoteRelease
  | promoteFlag
  | promoteUnlock (installed : Bool)
  | encryptSeal
  | encryptRelease (out : Bytes) (result : Except ExpresslaneError ℕ)
  | encryptCount (out : Bytes) (n : ℕ)
  | peerStore (cipher : Cipher)
  | peerFlag
  | peerUnlock
  | hintSelf
  | decryptBody
  | decryptUnlock (out : Bytes) (result : Except ExpresslaneError (ℕ × Bool))

/-- The life of a send key. -/
inductive Note where
  | staged (cipher : Cipher)
  | took (cipher : Cipher)
  | installed (cipher : Cipher)
  deriving DecidableEq

/-- What the operations return; `promoted` also says whether a key was staged, which the operation
keeps to itself. -/
inductive Result where
  | counter (counter : BitVec 64)
  | done (result : Except ExpresslaneError Unit)
  | promoted (installed : Bool)
  | encrypted (out : Bytes) (result : Except ExpresslaneError ℕ)
  | answer (valid : Bool)
  | decrypted (out : Bytes) (result : Except ExpresslaneError (ℕ × Bool))

variable {T : Type*}

/-- What a step yields, if it is not blocked. -/
abbrev Effect (T : Type*) := Option (SharedSession T × Move Pc Result × List Note)

/-! ## The operations, step by step -/

/-- One atomic increment. -/
def reserveCounter (m : SharedSession T) : Pc → Effect T
  | .start => some ({ m with session := m.session.reserveCounter.1 },
      .ret (.counter m.session.reserveCounter.2), [])
  | _ => none

def updateNextSelfKey (t : T) (key : ExpresslaneKey) (m : SharedSession T) : Pc → Effect T
  | .start =>
    if key.isInvalid then some (m, .ret (.done (.error .invalidKey)), [])
    else match Cipher.new key with
    | .error e => some (m, .ret (.done (.error e)), [])
    | .ok cipher =>
      if m.nextSelfHolder = none then
        some ({ m with nextSelfHolder := some t }, .goto (.stageStore cipher), [])
      else none
  | .stageStore cipher =>
    some ({ m with session := { m.session with nextSelf := some cipher } }, .goto .stageUnlock,
      [.staged cipher])
  | .stageUnlock => some ({ m with nextSelfHolder := none }, .ret (.done (.ok ())), [])
  | _ => none

/-- The mutex of `next_self` is held to the end, around the write lock of `current_self`. -/
def promoteSelfKey (t : T) (m : SharedSession T) : Pc → Effect T
  | .start =>
    if m.nextSelfHolder = none then
      some ({ m with nextSelfHolder := some t }, .goto .promoteTake, [])
    else none
  | .promoteTake =>
    match m.session.nextSelf with
    | none => some (m, .goto (.promoteUnlock false), [])
    | some cipher =>
      some ({ m with session := { m.session with nextSelf := none } },
        .goto (.promoteWrite cipher), [.took cipher])
  | .promoteWrite cipher =>
    if m.writer = none ∧ m.readers = [] then
      some ({ m with writer := some t }, .goto (.promoteStore cipher), [])
    else none
  | .promoteStore cipher =>
    some ({ m with session := { m.session with currentSelf := some cipher } },
      .goto .promoteRelease, [.installed cipher])
  | .promoteRelease => some ({ m with writer := none }, .goto .promoteFlag, [])
  | .promoteFlag =>
    some ({ m with session := { m.session with selfKeyInstalled := true } },
      .goto (.promoteUnlock true), [])
  | .promoteUnlock installed =>
    some ({ m with nextSelfHolder := none }, .ret (.promoted installed), [])
  | _ => none

/-- The lengths are checked before the lock; the count is made after the read guard is dropped. -/
def encrypt [DecidableEq T] (A : Aead) (t : T) (args : EncryptArgs) (m : SharedSession T) :
    Pc → Effect T
  | .start =>
    if args.out.length < wireOverhead + args.plainText.length then
      some (m, .ret (.encrypted args.out (.error .bufferTooSmall)), [])
    else if args.plainText.length > 65535 then
      some (m, .ret (.encrypted args.out (.error .invalidData)), [])
    else if m.writer = none then
      some ({ m with readers := t :: m.readers }, .goto .encryptSeal, [])
    else none
  | .encryptSeal =>
    -- the buffer and the result; the packet is counted later
    (args.run A m.session).map fun (_, out, result) => (m, .goto (.encryptRelease out result), [])
  | .encryptRelease out (.error e) =>
    some ({ m with readers := m.readers.erase t }, .ret (.encrypted out (.error e)), [])
  | .encryptRelease out (.ok n) =>
    some ({ m with readers := m.readers.erase t }, .goto (.encryptCount out n), [])
  | .encryptCount out n =>
    some ({ m with session := { m.session with packetsSent := m.session.packetsSent + 1#64 } },
      .ret (.encrypted out (.ok n)), [])
  | _ => none

def updatePeerKey (t : T) (key : ExpresslaneKey) (m : SharedSession T) : Pc → Effect T
  | .start =>
    if key.isInvalid then some (m, .ret (.done (.error .invalidKey)), [])
    else match Cipher.new key with
    | .error e => some (m, .ret (.done (.error e)), [])
    | .ok cipher =>
      if m.rxHolder = none then some ({ m with rxHolder := some t }, .goto (.peerStore cipher), [])
      else none
  | .peerStore cipher =>
    some ({ m with session := { m.session with
        rx := { m.session.rx with
          currentPeer := some cipher
          prevPeer := m.session.rx.currentPeer } } }, .goto .peerFlag, [])
  | .peerFlag =>
    some ({ m with session := { m.session with peerKeyInstalled := true } }, .goto .peerUnlock, [])
  | .peerUnlock => some ({ m with rxHolder := none }, .ret (.done (.ok ())), [])
  | _ => none

/-- Two loads, the second one only if the first one was `true`; no lock is taken. -/
def hasValidKeys (m : SharedSession T) : Pc → Effect T
  | .start =>
    if m.session.peerKeyInstalled then some (m, .goto .hintSelf, [])
    else some (m, .ret (.answer false), [])
  | .hintSelf => some (m, .ret (.answer m.session.selfKeyInstalled), [])
  | _ => none

/-- The length is checked before the lock. -/
def decrypt (A : Aead) (t : T) (args : DecryptArgs) (m : SharedSession T) : Pc → Effect T
  | .start =>
    if args.wirePacket.length < wireOverhead then
      some (m, .ret (.decrypted args.out (.error .insufficientData)), [])
    else if m.rxHolder = none then some ({ m with rxHolder := some t }, .goto .decryptBody, [])
    else none
  | .decryptBody =>
    (args.run A m.session).map fun (s, out, result) =>
      ({ m with session := { m.session with rx := s.rx } }, .goto (.decryptUnlock out result), [])
  | .decryptUnlock out result =>
    some ({ m with rxHolder := none }, .ret (.decrypted out result), [])
  | _ => none

/-- The step of a call. -/
def step [DecidableEq T] (A : Aead) (t : T) : Call → SharedSession T → Pc → Effect T
  | .reserveCounter => reserveCounter
  | .updateNextSelfKey key => updateNextSelfKey t key
  | .promoteSelfKey => promoteSelfKey t
  | .encrypt args => encrypt A t args
  | .updatePeerKey key => updatePeerKey t key
  | .hasValidKeys => hasValidKeys
  | .decrypt args => decrypt A t args

/-- The session as a concurrent object. -/
def sessionObject [DecidableEq T] (A : Aead) :
    Object T (SharedSession T) Call Pc Note Result where
  entry _ := .start
  step := step A

/-- A session that no thread uses. -/
def unused (s : ExpresslaneSession) : SharedSession T where
  session := s
  nextSelfHolder := none
  writer := none
  readers := []
  rxHolder := none

/-! ## What a step does to the send keys -/

namespace Pc

/-- The places at which a call holds the mutex of `next_self`. -/
def holdsNext : Pc → Bool
  | stageStore _ | stageUnlock | promoteTake | promoteWrite _ | promoteStore _ | promoteRelease
  | promoteFlag | promoteUnlock _ => true
  | _ => false

/-- The places at which a call holds the mutex of `rx`. -/
def holdsRx : Pc → Bool
  | peerStore _ | peerFlag | peerUnlock | decryptBody | decryptUnlock _ _ => true
  | _ => false

/-- The key that a call has taken out of `next_self` and not yet installed. -/
def inFlight : Pc → Option Cipher
  | promoteWrite cipher | promoteStore cipher => some cipher
  | _ => none

/-- The key that a call is about to stage. -/
def toStage : Pc → Option Cipher
  | stageStore cipher => some cipher
  | _ => none

end Pc

/-- Where a step leaves a call. A call that has returned holds nothing, like one that has not
begun. -/
def placeOf : Move Pc Result → Pc
  | .goto pc => pc
  | .ret _ => .start

/-- Where a thread is. -/
def place : Activity Call Pc → Pc
  | .idle => .start
  | .running _ _ pc => pc

/-- What a step at `pc` does to the send keys and to the mutex of `next_self`, where it leaves the
call, and what it notes. -/
inductive KeyEffect (t : T) (m : SharedSession T) (pc : Pc) :
    SharedSession T → Pc → List Note → Prop
  | quiet {m' : SharedSession T} {pc' : Pc} (hnext : m'.session.nextSelf = m.session.nextSelf)
    (hcurrent : m'.session.currentSelf = m.session.currentSelf)
    (hholder : m'.nextSelfHolder = m.nextSelfHolder) (hholds : pc'.holdsNext = pc.holdsNext)
    (hflight : pc'.inFlight = pc.inFlight) (hstage : pc'.toStage = none) :
    KeyEffect t m pc m' pc' []
  | acquire {m' : SharedSession T} {pc' : Pc} (hfree : m.nextSelfHolder = none)
    (hm' : m' = { m with nextSelfHolder := some t }) (hholds : pc.holdsNext = false)
    (hholds' : pc'.holdsNext = true) (hflight : pc'.inFlight = none)
    (hvalid : ∀ cipher, pc'.toStage = some cipher → cipher.key.isInvalid = false) :
    KeyEffect t m pc m' pc' []
  | stage {m' : SharedSession T} (cipher : Cipher) (hpc : pc = .stageStore cipher)
    (hm' : m' = { m with session := { m.session with nextSelf := some cipher } }) :
    KeyEffect t m pc m' .stageUnlock [.staged cipher]
  | take {m' : SharedSession T} (cipher : Cipher) (hpc : pc = .promoteTake)
    (hstaged : m.session.nextSelf = some cipher)
    (hm' : m' = { m with session := { m.session with nextSelf := none } }) :
    KeyEffect t m pc m' (.promoteWrite cipher) [.took cipher]
  | install {m' : SharedSession T} (cipher : Cipher) (hpc : pc = .promoteStore cipher)
    (hm' : m' = { m with session := { m.session with currentSelf := some cipher } }) :
    KeyEffect t m pc m' .promoteRelease [.installed cipher]
  | release {m' : SharedSession T} (hholds : pc.holdsNext = true) (hflight : pc.inFlight = none)
    (hm' : m' = { m with nextSelfHolder := none }) : KeyEffect t m pc m' .start []

theorem Pc.inFlight_eq_none {pc : Pc} (h : pc.holdsNext = false) : pc.inFlight = none := by
  cases pc <;> first | rfl | exact absurd h (by simp [Pc.holdsNext])

namespace KeyEffect

variable {t u : T} {m m' : SharedSession T} {pc pc' : Pc} {ns : List Note}

/-- A thread is inside the mutex of `next_self` if and only if it is its holder. -/
theorem holds_iff (h : KeyEffect t m pc m' pc' ns)
    (hpc : pc.holdsNext = true ↔ m.nextSelfHolder = some t) :
    pc'.holdsNext = true ↔ m'.nextSelfHolder = some t := by
  cases h with
  | quiet hnext hcurrent hholder hholds => rw [hholds, hholder, hpc]
  | acquire hfree hm' hholds hholds' => simp [hm', hholds']
  | stage cipher hstore hm' => simpa [hm', hstore, Pc.holdsNext] using hpc
  | take cipher htake hstaged hm' => simpa [hm', htake, Pc.holdsNext] using hpc
  | install cipher hstore hm' => simpa [hm', hstore, Pc.holdsNext] using hpc
  | release hholds hflight hm' => simp [hm', Pc.holdsNext]

/-- No other thread gets into the mutex or out of it. -/
theorem holder_of_ne (h : KeyEffect t m pc m' pc' ns)
    (hpc : pc.holdsNext = true ↔ m.nextSelfHolder = some t) (hne : u ≠ t) :
    m'.nextSelfHolder = some u ↔ m.nextSelfHolder = some u := by
  cases h with
  | quiet hnext hcurrent hholder => rw [hholder]
  | acquire hfree hm' => simp [hm', hfree, hne.symm]
  | stage cipher hstore hm' => rw [hm']
  | take cipher htake hstaged hm' => rw [hm']
  | install cipher hstore hm' => rw [hm']
  | release hholds hflight hm' => simp [hm', hpc.1 hholds, hne.symm]

/-- The mutex becomes free, or the thread is inside, only if it was so before. -/
theorem free_or_holds (h : KeyEffect t m pc m' pc' ns)
    (h' : m'.nextSelfHolder = none ∨ pc'.holdsNext = true) :
    m.nextSelfHolder = none ∨ pc.holdsNext = true := by
  cases h with
  | quiet hnext hcurrent hholder hholds => rwa [hholder, hholds] at h'
  | acquire hfree => exact Or.inl hfree
  | stage cipher hstore => exact Or.inr (by rw [hstore]; rfl)
  | take cipher htake => exact Or.inr (by rw [htake]; rfl)
  | install cipher hstore => exact Or.inr (by rw [hstore]; rfl)
  | release hholds => exact Or.inr hholds

/-- Outside the mutex a thread does nothing to the staged key, and notes nothing. -/
theorem frame (h : KeyEffect t m pc m' pc' ns) (hpc : pc.holdsNext = false) :
    ns = [] ∧ m'.session.nextSelf = m.session.nextSelf := by
  cases h with
  | quiet hnext => exact ⟨rfl, hnext⟩
  | acquire hfree hm' => exact ⟨rfl, by rw [hm']⟩
  | stage cipher hstore => simp [hstore, Pc.holdsNext] at hpc
  | take cipher htake => simp [htake, Pc.holdsNext] at hpc
  | install cipher hstore => simp [hstore, Pc.holdsNext] at hpc
  | release hholds => exact absurd (hholds.symm.trans hpc) (by decide)

end KeyEffect

/-! ## What no step undoes -/

/-- The version stays, a key that is there is replaced but not removed, and a hint that is set stays
set. -/
structure Grows (s s' : ExpresslaneSession) : Prop where
  version : s'.version = s.version
  selfKey : s.currentSelf ≠ none → s'.currentSelf ≠ none
  peerKey : s.rx.currentPeer ≠ none → s'.rx.currentPeer ≠ none
  selfHint : s.selfKeyInstalled = true → s'.selfKeyInstalled = true
  peerHint : s.peerKeyInstalled = true → s'.peerKeyInstalled = true

theorem Grows.refl (s : ExpresslaneSession) : Grows s s := ⟨rfl, id, id, id, id⟩

/-- `decrypt` does not touch the keys. -/
theorem currentPeer_decrypt {A : Aead} {s s' : ExpresslaneSession} {args : DecryptArgs}
    {out : Bytes}
    {result : Except ExpresslaneError (ℕ × Bool)} (h : args.run A s = some (s', out, result)) :
    s'.rx.currentPeer = s.rx.currentPeer := by
  cases result with
  | error e => rw [s.decrypt_error A _ h]
  | ok r =>
    obtain ⟨hdr, body, call, plain, -, -, -, rfl, -⟩ := s.decrypt_ok A _ h
    rfl

/-! ## The inversion of a step -/

/-- The steps of the operations: one constructor for each branch of the code that is not blocked,
with the condition under which it is taken. -/
inductive Transition [DecidableEq T] (A : Aead) (t : T) (m : SharedSession T) :
    Call → Pc → SharedSession T → Move Pc Result → List Note → Prop
  | reserve : Transition A t m .reserveCounter .start
      { m with session := m.session.reserveCounter.1 } (.ret (.counter m.session.reserveCounter.2))
      []
  | stageRejected (key : ExpresslaneKey) (hkey : key.isInvalid = true) :
      Transition A t m (.updateNextSelfKey key) .start m (.ret (.done (.error .invalidKey))) []
  | stageLock (key : ExpresslaneKey) (hkey : key.isInvalid = false)
      (hfree : m.nextSelfHolder = none) :
      Transition A t m (.updateNextSelfKey key) .start { m with nextSelfHolder := some t }
        (.goto (.stageStore ⟨key⟩)) []
  | stageStore (key : ExpresslaneKey) (cipher : Cipher) :
      Transition A t m (.updateNextSelfKey key) (.stageStore cipher)
        { m with session := { m.session with nextSelf := some cipher } } (.goto .stageUnlock)
        [.staged cipher]
  | stageUnlock (key : ExpresslaneKey) :
      Transition A t m (.updateNextSelfKey key) .stageUnlock { m with nextSelfHolder := none }
        (.ret (.done (.ok ()))) []
  | promoteLock (hfree : m.nextSelfHolder = none) :
      Transition A t m .promoteSelfKey .start { m with nextSelfHolder := some t }
        (.goto .promoteTake) []
  | promoteNothing (hnext : m.session.nextSelf = none) :
      Transition A t m .promoteSelfKey .promoteTake m (.goto (.promoteUnlock false)) []
  | promoteTake (cipher : Cipher) (hnext : m.session.nextSelf = some cipher) :
      Transition A t m .promoteSelfKey .promoteTake
        { m with session := { m.session with nextSelf := none } } (.goto (.promoteWrite cipher))
        [.took cipher]
  | promoteWrite (cipher : Cipher) (hfree : m.writer = none ∧ m.readers = []) :
      Transition A t m .promoteSelfKey (.promoteWrite cipher) { m with writer := some t }
        (.goto (.promoteStore cipher)) []
  | promoteStore (cipher : Cipher) :
      Transition A t m .promoteSelfKey (.promoteStore cipher)
        { m with session := { m.session with currentSelf := some cipher } } (.goto .promoteRelease)
        [.installed cipher]
  | promoteRelease :
      Transition A t m .promoteSelfKey .promoteRelease { m with writer := none }
        (.goto .promoteFlag) []
  | promoteFlag :
      Transition A t m .promoteSelfKey .promoteFlag
        { m with session := { m.session with selfKeyInstalled := true } }
        (.goto (.promoteUnlock true)) []
  | promoteUnlock (installed : Bool) :
      Transition A t m .promoteSelfKey (.promoteUnlock installed) { m with nextSelfHolder := none }
        (.ret (.promoted installed)) []
  | encryptRejected (args : EncryptArgs) (e : ExpresslaneError) (he : e ≠ .keyNotSet) :
      Transition A t m (.encrypt args) .start m (.ret (.encrypted args.out (.error e))) []
  | encryptLock (args : EncryptArgs) (hfree : m.writer = none) :
      Transition A t m (.encrypt args) .start { m with readers := t :: m.readers }
        (.goto .encryptSeal) []
  | encryptSeal (args : EncryptArgs) (s : ExpresslaneSession) (out : Bytes)
      (result : Except ExpresslaneError ℕ) (hrun : args.run A m.session = some (s, out, result)) :
      Transition A t m (.encrypt args) .encryptSeal m (.goto (.encryptRelease out result)) []
  | encryptFail (args : EncryptArgs) (out : Bytes) (e : ExpresslaneError) :
      Transition A t m (.encrypt args) (.encryptRelease out (.error e))
        { m with readers := m.readers.erase t } (.ret (.encrypted out (.error e))) []
  | encryptRelease (args : EncryptArgs) (out : Bytes) (n : ℕ) :
      Transition A t m (.encrypt args) (.encryptRelease out (.ok n))
        { m with readers := m.readers.erase t } (.goto (.encryptCount out n)) []
  | encryptCount (args : EncryptArgs) (out : Bytes) (n : ℕ) :
      Transition A t m (.encrypt args) (.encryptCount out n)
        { m with session := { m.session with packetsSent := m.session.packetsSent + 1#64 } }
        (.ret (.encrypted out (.ok n))) []
  | peerRejected (key : ExpresslaneKey) (hkey : key.isInvalid = true) :
      Transition A t m (.updatePeerKey key) .start m (.ret (.done (.error .invalidKey))) []
  | peerLock (key : ExpresslaneKey) (hfree : m.rxHolder = none) :
      Transition A t m (.updatePeerKey key) .start { m with rxHolder := some t }
        (.goto (.peerStore ⟨key⟩)) []
  | peerStore (key : ExpresslaneKey) (cipher : Cipher) :
      Transition A t m (.updatePeerKey key) (.peerStore cipher)
        { m with session := { m.session with
            rx := { m.session.rx with
              currentPeer := some cipher
              prevPeer := m.session.rx.currentPeer } } } (.goto .peerFlag) []
  | peerFlag (key : ExpresslaneKey) :
      Transition A t m (.updatePeerKey key) .peerFlag
        { m with session := { m.session with peerKeyInstalled := true } } (.goto .peerUnlock) []
  | peerUnlock (key : ExpresslaneKey) :
      Transition A t m (.updatePeerKey key) .peerUnlock { m with rxHolder := none }
        (.ret (.done (.ok ()))) []
  | hintPeer (hpeer : m.session.peerKeyInstalled = true) :
      Transition A t m .hasValidKeys .start m (.goto .hintSelf) []
  | hintNone (hpeer : m.session.peerKeyInstalled = false) :
      Transition A t m .hasValidKeys .start m (.ret (.answer false)) []
  | hintSelf :
      Transition A t m .hasValidKeys .hintSelf m (.ret (.answer m.session.selfKeyInstalled)) []
  | decryptRejected (args : DecryptArgs) :
      Transition A t m (.decrypt args) .start m
        (.ret (.decrypted args.out (.error .insufficientData))) []
  | decryptLock (args : DecryptArgs) (hfree : m.rxHolder = none) :
      Transition A t m (.decrypt args) .start { m with rxHolder := some t } (.goto .decryptBody) []
  | decryptBody (args : DecryptArgs) (s : ExpresslaneSession) (out : Bytes)
      (result : Except ExpresslaneError (ℕ × Bool))
      (hrun : args.run A m.session = some (s, out, result)) :
      Transition A t m (.decrypt args) .decryptBody
        { m with session := { m.session with rx := s.rx } } (.goto (.decryptUnlock out result)) []
  | decryptUnlock (args : DecryptArgs) (out : Bytes)
      (result : Except ExpresslaneError (ℕ × Bool)) :
      Transition A t m (.decrypt args) (.decryptUnlock out result) { m with rxHolder := none }
        (.ret (.decrypted out result)) []

section Effects

variable {t : T} {m m' : SharedSession T} {pc : Pc} {mv : Move Pc Result} {ns : List Note}

theorem transition_of_updateNextSelfKey [DecidableEq T] {A : Aead} {key : ExpresslaneKey}
    (h : updateNextSelfKey t key m pc = some (m', mv, ns)) :
    Transition A t m (.updateNextSelfKey key) pc m' mv ns := by
  cases pc with
  | start =>
    simp only [updateNextSelfKey, Cipher.new_eq] at h
    split_ifs at h with hkey hfree
    · obtain ⟨rfl, rfl, rfl⟩ := h
      exact .stageRejected key hkey
    · obtain ⟨rfl, rfl, rfl⟩ := h
      exact .stageLock key (Bool.eq_false_iff.2 hkey) hfree
  | stageStore cipher =>
    obtain ⟨rfl, rfl, rfl⟩ := h
    exact .stageStore key cipher
  | stageUnlock =>
    obtain ⟨rfl, rfl, rfl⟩ := h
    exact .stageUnlock key
  | _ => cases h

theorem transition_of_promoteSelfKey [DecidableEq T] {A : Aead}
    (h : promoteSelfKey t m pc = some (m', mv, ns)) :
    Transition A t m .promoteSelfKey pc m' mv ns := by
  cases pc with
  | start =>
    simp only [promoteSelfKey] at h
    split_ifs at h with hfree
    obtain ⟨rfl, rfl, rfl⟩ := h
    exact .promoteLock hfree
  | promoteTake =>
    cases hnext : m.session.nextSelf with
    | none =>
      simp only [promoteSelfKey, hnext] at h
      obtain ⟨rfl, rfl, rfl⟩ := h
      exact .promoteNothing hnext
    | some cipher =>
      simp only [promoteSelfKey, hnext] at h
      obtain ⟨rfl, rfl, rfl⟩ := h
      exact .promoteTake cipher hnext
  | promoteWrite cipher =>
    simp only [promoteSelfKey] at h
    split_ifs at h with hfree
    obtain ⟨rfl, rfl, rfl⟩ := h
    exact .promoteWrite cipher hfree
  | promoteStore cipher =>
    obtain ⟨rfl, rfl, rfl⟩ := h
    exact .promoteStore cipher
  | promoteRelease =>
    obtain ⟨rfl, rfl, rfl⟩ := h
    exact .promoteRelease
  | promoteFlag =>
    obtain ⟨rfl, rfl, rfl⟩ := h
    exact .promoteFlag
  | promoteUnlock installed =>
    obtain ⟨rfl, rfl, rfl⟩ := h
    exact .promoteUnlock installed
  | _ => cases h

theorem transition_of_encrypt [DecidableEq T] {A : Aead} {args : EncryptArgs}
    (h : encrypt A t args m pc = some (m', mv, ns)) :
    Transition A t m (.encrypt args) pc m' mv ns := by
  cases pc with
  | start =>
    simp only [encrypt] at h
    split_ifs at h with hroom hlong hfree
    · obtain ⟨rfl, rfl, rfl⟩ := h
      exact .encryptRejected args _ (by simp)
    · obtain ⟨rfl, rfl, rfl⟩ := h
      exact .encryptRejected args _ (by simp)
    · obtain ⟨rfl, rfl, rfl⟩ := h
      exact .encryptLock args hfree
  | encryptSeal =>
    obtain ⟨⟨s, out, result⟩, hrun, heq⟩ := Option.map_eq_some_iff.1 h
    obtain ⟨rfl, rfl, rfl⟩ := heq
    exact .encryptSeal args s out result hrun
  | encryptRelease out result =>
    cases result with
    | error e =>
      obtain ⟨rfl, rfl, rfl⟩ := h
      exact .encryptFail args out e
    | ok n =>
      obtain ⟨rfl, rfl, rfl⟩ := h
      exact .encryptRelease args out n
  | encryptCount out n =>
    obtain ⟨rfl, rfl, rfl⟩ := h
    exact .encryptCount args out n
  | _ => cases h

theorem transition_of_updatePeerKey [DecidableEq T] {A : Aead} {key : ExpresslaneKey}
    (h : updatePeerKey t key m pc = some (m', mv, ns)) :
    Transition A t m (.updatePeerKey key) pc m' mv ns := by
  cases pc with
  | start =>
    simp only [updatePeerKey, Cipher.new_eq] at h
    split_ifs at h with hkey hfree
    · obtain ⟨rfl, rfl, rfl⟩ := h
      exact .peerRejected key hkey
    · obtain ⟨rfl, rfl, rfl⟩ := h
      exact .peerLock key hfree
  | peerStore cipher =>
    obtain ⟨rfl, rfl, rfl⟩ := h
    exact .peerStore key cipher
  | peerFlag =>
    obtain ⟨rfl, rfl, rfl⟩ := h
    exact .peerFlag key
  | peerUnlock =>
    obtain ⟨rfl, rfl, rfl⟩ := h
    exact .peerUnlock key
  | _ => cases h

theorem transition_of_hasValidKeys [DecidableEq T] {A : Aead}
    (h : hasValidKeys m pc = some (m', mv, ns)) :
    Transition A t m .hasValidKeys pc m' mv ns := by
  cases pc with
  | start =>
    simp only [hasValidKeys] at h
    split_ifs at h with hpeer
    · obtain ⟨rfl, rfl, rfl⟩ := h
      exact .hintPeer hpeer
    · obtain ⟨rfl, rfl, rfl⟩ := h
      exact .hintNone (Bool.eq_false_iff.2 hpeer)
  | hintSelf =>
    obtain ⟨rfl, rfl, rfl⟩ := h
    exact .hintSelf
  | _ => cases h

theorem transition_of_decrypt [DecidableEq T] {A : Aead} {args : DecryptArgs}
    (h : decrypt A t args m pc = some (m', mv, ns)) :
    Transition A t m (.decrypt args) pc m' mv ns := by
  cases pc with
  | start =>
    simp only [decrypt] at h
    split_ifs at h with hshort hfree
    · obtain ⟨rfl, rfl, rfl⟩ := h
      exact .decryptRejected args
    · obtain ⟨rfl, rfl, rfl⟩ := h
      exact .decryptLock args hfree
  | decryptBody =>
    obtain ⟨⟨s, out, result⟩, hrun, heq⟩ := Option.map_eq_some_iff.1 h
    obtain ⟨rfl, rfl, rfl⟩ := heq
    exact .decryptBody args s out result hrun
  | decryptUnlock out result =>
    obtain ⟨rfl, rfl, rfl⟩ := h
    exact .decryptUnlock args out result
  | _ => cases h

/-- **What a step can do**: the code is unfolded here, and nowhere below. -/
theorem transition_of_step [DecidableEq T] {A : Aead} {c : Call}
    (h : step A t c m pc = some (m', mv, ns)) : Transition A t m c pc m' mv ns := by
  cases c with
  | reserveCounter =>
    cases pc with
    | start =>
      obtain ⟨rfl, rfl, rfl⟩ := h
      exact .reserve
    | _ => cases h
  | updateNextSelfKey key => exact transition_of_updateNextSelfKey h
  | promoteSelfKey => exact transition_of_promoteSelfKey h
  | encrypt args => exact transition_of_encrypt h
  | updatePeerKey key => exact transition_of_updatePeerKey h
  | hasValidKeys => exact transition_of_hasValidKeys h
  | decrypt args => exact transition_of_decrypt h

theorem keyEffect_of_step [DecidableEq T] {A : Aead} {c : Call}
    (h : step A t c m pc = some (m', mv, ns)) : KeyEffect t m pc m' (placeOf mv) ns := by
  cases transition_of_step h with
  | stageLock key hkey hfree =>
    refine .acquire hfree rfl rfl rfl rfl fun cipher hcipher => ?_
    obtain rfl := Option.some.inj hcipher
    exact hkey
  | stageStore key cipher => exact .stage cipher rfl rfl
  | stageUnlock => exact .release rfl rfl rfl
  | promoteLock hfree => exact .acquire hfree rfl rfl rfl rfl nofun
  | promoteTake cipher hnext => exact .take cipher rfl hnext rfl
  | promoteStore cipher => exact .install cipher rfl rfl
  | promoteUnlock => exact .release rfl rfl rfl
  | _ => exact .quiet rfl rfl rfl rfl rfl rfl

theorem grows_of_step [DecidableEq T] {A : Aead} {c : Call}
    (h : step A t c m pc = some (m', mv, ns)) : Grows m.session m'.session := by
  cases transition_of_step h with
  | promoteStore cipher => exact ⟨rfl, fun _ => Option.some_ne_none cipher, id, id, id⟩
  | promoteFlag => exact ⟨rfl, id, id, fun _ => rfl, id⟩
  | peerStore key cipher => exact ⟨rfl, id, fun _ => Option.some_ne_none cipher, id, id⟩
  | peerFlag => exact ⟨rfl, id, id, id, fun _ => rfl⟩
  | decryptBody args s out result hrun =>
    exact ⟨rfl, id, fun hkey => (currentPeer_decrypt hrun).symm ▸ hkey, id, id⟩
  | _ => exact ⟨rfl, id, id, id, id⟩

/-- **What a turn can do.** -/
theorem turn_effect [DecidableEq T] {A : Aead} {log log' : List (Entry T Call Note Result)}
    {a a' : Activity Call Pc} (h : Turn (sessionObject A) t m log a m' log' a') :
    (∃ ns, notes log' = notes log ++ ns ∧ KeyEffect t m (place a) m' (place a') ns) ∧
      Grows m.session m'.session := by
  cases h with
  | call c => exact ⟨⟨[], by simp [notes_append], .quiet rfl rfl rfl rfl rfl rfl⟩, Grows.refl _⟩
  | goto h => exact ⟨⟨_, by simp [notes_append], keyEffect_of_step h⟩, grows_of_step h⟩
  | ret h => exact ⟨⟨_, by simp [notes_append], keyEffect_of_step h⟩, grows_of_step h⟩

end Effects

/-! ## The sequential operations -/

/-- A call as one operation: the session after it, its result and its notes. -/
def Call.run (A : Aead) (s : ExpresslaneSession) :
    Call → Option (ExpresslaneSession × Result × List Note)
  | .reserveCounter => some (s.reserveCounter.1, .counter s.reserveCounter.2, [])
  | .updateNextSelfKey key => some ((s.updateNextSelfKey key).1, .done (s.updateNextSelfKey key).2,
      if key.isInvalid then [] else [.staged ⟨key⟩])
  | .promoteSelfKey => some (s.promoteSelfKey, .promoted s.nextSelf.isSome,
      match s.nextSelf with
      | none => []
      | some cipher => [.took cipher, .installed cipher])
  | .encrypt args => (args.run A s).map fun (s', out, result) => (s', .encrypted out result, [])
  | .updatePeerKey key => some ((s.updatePeerKey key).1, .done (s.updatePeerKey key).2, [])
  | .hasValidKeys => some (s, .answer s.hasValidKeys, [])
  | .decrypt args => (args.run A s).map fun (s', out, result) => (s', .decrypted out result, [])

section Solo

variable [DecidableEq T] {A : Aead} {s s' : ExpresslaneSession} {r : Result} {ns : List Note}
  (t : T)

theorem solo_updateNextSelfKey {key : ExpresslaneKey}
    (h : (Call.updateNextSelfKey key).run A s = some (s', r, ns)) :
    Solo (sessionObject A) t (.updateNextSelfKey key) (unused s) .start (unused s') r ns := by
  obtain ⟨rfl, rfl, rfl⟩ := h
  simp only [ExpresslaneSession.updateNextSelfKey, Cipher.new_eq]
  split_ifs with hkey
  · exact .ret (by simp [sessionObject, step, updateNextSelfKey, hkey])
  · have hlock : (sessionObject A).step t (.updateNextSelfKey key) (unused s) .start =
        some ({ unused s with nextSelfHolder := some t }, .goto (.stageStore ⟨key⟩), []) := by
      simp [sessionObject, step, updateNextSelfKey, hkey, Cipher.new_eq, unused]
    exact .move hlock (.note rfl (.ret rfl))

theorem solo_promoteSelfKey
    (h : Call.promoteSelfKey.run A s = some (s', r, ns)) :
    Solo (sessionObject A) t .promoteSelfKey (unused s) .start (unused s') r ns := by
  obtain ⟨rfl, rfl, rfl⟩ := h
  have hlock : (sessionObject A).step t .promoteSelfKey (unused s) .start =
      some ({ unused s with nextSelfHolder := some t }, .goto .promoteTake, []) := rfl
  cases hnext : s.nextSelf with
  | none =>
    rw [ExpresslaneSession.promoteSelfKey, hnext]
    have hlook : (sessionObject A).step t .promoteSelfKey
        { unused s with nextSelfHolder := some t } .promoteTake =
          some ({ unused s with nextSelfHolder := some t },
            .goto (.promoteUnlock false), []) := by
      simp [sessionObject, step, promoteSelfKey, unused, hnext]
    exact .move hlock (.move hlook (.ret rfl))
  | some cipher =>
    rw [ExpresslaneSession.promoteSelfKey, hnext]
    have htake : (sessionObject A).step t .promoteSelfKey
        { unused s with nextSelfHolder := some t } .promoteTake =
          some ({ unused { s with nextSelf := none } with nextSelfHolder := some t },
            .goto (.promoteWrite cipher), [.took cipher]) := by
      simp [sessionObject, step, promoteSelfKey, unused, hnext]
    exact .move hlock (.note htake (.move rfl (.note rfl (.move rfl (.move rfl (.ret rfl))))))

/-- `encrypt` under the read guard: it seals, lets the guard go and counts the packet. -/
theorem solo_encrypt_sealed {args : EncryptArgs} {out : Bytes} {result : Except ExpresslaneError ℕ}
    (hrun : args.run A s = some (s', out, result)) :
    Solo (sessionObject A) t (.encrypt args) { unused s with readers := [t] } .encryptSeal
      (unused s') (.encrypted out result) [] := by
  have hseal : (sessionObject A).step t (.encrypt args) { unused s with readers := [t] }
      .encryptSeal =
        some ({ unused s with readers := [t] }, .goto (.encryptRelease out result), []) :=
    Option.map_eq_some_iff.2 ⟨_, hrun, rfl⟩
  refine .move hseal ?_
  cases result with
  | error e =>
    rw [s.encrypt_error A _ _ _ _ _ _ hrun]
    exact .ret (by simp [sessionObject, step, encrypt, unused])
  | ok n =>
    obtain ⟨call, -, rfl, -⟩ := s.encrypt_ok A _ _ _ _ _ _ hrun
    have hunlock : (sessionObject A).step t (.encrypt args) { unused s with readers := [t] }
        (.encryptRelease out (.ok n)) = some (unused s, .goto (.encryptCount out n), []) := by
      simp [sessionObject, step, encrypt, unused]
    exact .move hunlock (.ret rfl)

theorem solo_encrypt {args : EncryptArgs}
    (h : (Call.encrypt args).run A s = some (s', r, ns)) :
    Solo (sessionObject A) t (.encrypt args) (unused s) .start (unused s') r ns := by
  obtain ⟨⟨s₁, out, result⟩, hrun, heq⟩ := Option.map_eq_some_iff.1 h
  obtain ⟨rfl, rfl, rfl⟩ := heq
  by_cases hroom : args.out.length < wireOverhead + args.plainText.length
  · rw [EncryptArgs.run, ExpresslaneSession.encrypt, if_pos hroom] at hrun
    obtain ⟨rfl, rfl, rfl⟩ := hrun
    exact .ret (by simp only [sessionObject, step, encrypt, if_pos hroom])
  by_cases hlong : args.plainText.length > 65535
  · rw [EncryptArgs.run, ExpresslaneSession.encrypt, if_neg hroom, if_pos hlong] at hrun
    obtain ⟨rfl, rfl, rfl⟩ := hrun
    exact .ret (by simp only [sessionObject, step, encrypt, if_neg hroom, if_pos hlong])
  have hlock : (sessionObject A).step t (.encrypt args) (unused s) .start =
      some ({ unused s with readers := [t] }, .goto .encryptSeal, []) := by
    simp only [sessionObject, step, encrypt, if_neg hroom, if_neg hlong]
    rfl
  exact .move hlock (solo_encrypt_sealed t hrun)

theorem solo_updatePeerKey {key : ExpresslaneKey}
    (h : (Call.updatePeerKey key).run A s = some (s', r, ns)) :
    Solo (sessionObject A) t (.updatePeerKey key) (unused s) .start (unused s') r ns := by
  obtain ⟨rfl, rfl, rfl⟩ := h
  simp only [ExpresslaneSession.updatePeerKey, Cipher.new_eq]
  split_ifs with hkey
  · exact .ret (by simp [sessionObject, step, updatePeerKey, hkey])
  · have hlock : (sessionObject A).step t (.updatePeerKey key) (unused s) .start =
        some ({ unused s with rxHolder := some t }, .goto (.peerStore ⟨key⟩), []) := by
      simp [sessionObject, step, updatePeerKey, hkey, Cipher.new_eq, unused]
    exact .move hlock (.move rfl (.move rfl (.ret rfl)))

theorem solo_hasValidKeys
    (h : Call.hasValidKeys.run A s = some (s', r, ns)) :
    Solo (sessionObject A) t .hasValidKeys (unused s) .start (unused s') r ns := by
  obtain ⟨rfl, rfl, rfl⟩ := h
  cases hpeer : s.peerKeyInstalled with
  | false =>
    refine .ret ?_
    simp [sessionObject, step, hasValidKeys, unused, hpeer, ExpresslaneSession.hasValidKeys]
  | true =>
    have hfirst : (sessionObject A).step t .hasValidKeys (unused s) .start =
        some (unused s, .goto .hintSelf, []) := by
      simp [sessionObject, step, hasValidKeys, unused, hpeer]
    refine .move hfirst (.ret ?_)
    simp [sessionObject, step, hasValidKeys, unused, hpeer, ExpresslaneSession.hasValidKeys]

theorem solo_decrypt {args : DecryptArgs}
    (h : (Call.decrypt args).run A s = some (s', r, ns)) :
    Solo (sessionObject A) t (.decrypt args) (unused s) .start (unused s') r ns := by
  obtain ⟨⟨s₁, out, result⟩, hrun, heq⟩ := Option.map_eq_some_iff.1 h
  obtain ⟨rfl, rfl, rfl⟩ := heq
  by_cases hshort : args.wirePacket.length < wireOverhead
  · rw [DecryptArgs.run, ExpresslaneSession.decrypt, if_pos hshort] at hrun
    obtain ⟨rfl, rfl, rfl⟩ := hrun
    exact .ret (by simp only [sessionObject, step, decrypt, if_pos hshort])
  have hrx : { s with rx := s'.rx } = s' := by
    cases result with
    | error e => rw [s.decrypt_error A _ hrun]
    | ok r =>
      obtain ⟨hdr, body, call, plain, -, -, -, rfl, -⟩ := s.decrypt_ok A _ hrun
      rfl
  have hlock : (sessionObject A).step t (.decrypt args) (unused s) .start =
      some ({ unused s with rxHolder := some t }, .goto .decryptBody, []) := by
    simp only [sessionObject, step, decrypt, if_neg hshort]
    rfl
  have hbody : (sessionObject A).step t (.decrypt args) { unused s with rxHolder := some t }
      .decryptBody =
        some ({ unused s' with rxHolder := some t }, .goto (.decryptUnlock out result), []) := by
    refine Option.map_eq_some_iff.2 ⟨_, hrun, ?_⟩
    simp [unused, hrx]
  exact .move hlock (.move hbody (.ret rfl))

/-- **A call that runs alone is the sequential operation**: cut into steps, it changes the session
and returns as if it were one. -/
theorem solo_of_run (c : Call) (h : c.run A s = some (s', r, ns)) :
    Solo (sessionObject A) t c (unused s) .start (unused s') r ns := by
  cases c with
  | reserveCounter =>
    obtain ⟨rfl, rfl, rfl⟩ := h
    exact .ret rfl
  | updateNextSelfKey key => exact solo_updateNextSelfKey t h
  | promoteSelfKey => exact solo_promoteSelfKey t h
  | encrypt args => exact solo_encrypt t h
  | updatePeerKey key => exact solo_updatePeerKey t h
  | hasValidKeys => exact solo_hasValidKeys t h
  | decrypt args => exact solo_decrypt t h

end Solo

end SharedSession

end LightwayCffi.Expresslane
