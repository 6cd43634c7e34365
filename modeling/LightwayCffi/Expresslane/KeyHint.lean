import LightwayCffi.Expresslane.SharedSession
import LightwayCffi.Foundations.GuardedFlag

/-!
# The hint that keys are there

`has_valid_keys` reads two flags without any lock. Each flag follows a key that lives behind a lock
of its own, and is set after the key was stored and not together with it, so a `false` may be
outdated. A `true` is not: a flag that is set means a key that is there (`HintSound`), neither goes
away again, and so nobody who has been told `true` meets a missing key later.

What the flags mean exactly is known between the key operations, when nobody is inside the two
locks. Both are instances of one pattern, a flag that is set under a lock as the last act of the
operation it announces (`GuardedFlag`).
-/

namespace LightwayCffi.Expresslane

open ConcurrentObject SharedSession

/-! ## The hint is sound -/

/-- A flag that is set means a key that is there. -/
structure HintSound (s : ExpresslaneSession) : Prop where
  self : s.selfKeyInstalled = true → s.currentSelf ≠ none
  peer : s.peerKeyInstalled = true → s.rx.currentPeer ≠ none

/-- What a call knows at a place, where `clear` is that nobody had been told `true` when it
started. -/
def Knows (clear : Prop) (s : ExpresslaneSession) : Pc → Prop
  | .promoteRelease | .promoteFlag => s.currentSelf ≠ none
  | .peerFlag => s.rx.currentPeer ≠ none
  | .hintSelf => s.peerKeyInstalled = true
  | .encryptRelease _ (.error .keyNotSet) => clear
  | .decryptUnlock _ (.error .keyNotSet) => clear
  | _ => True

/-- The results that deny a key. -/
def denies : Result → Bool
  | .answer false => true
  | .encrypted _ (.error .keyNotSet) => true
  | .decrypted _ (.error .keyNotSet) => true
  | _ => false

/-- What is known of a call after a step. -/
def KnowsAfter (clear : Prop) (s : ExpresslaneSession) : Move Pc Result → Prop
  | .goto pc => Knows clear s pc
  | .ret r => (denies r = true → clear) ∧ (r = .answer true → s.hasValidKeys = true)

theorem Knows.mono {clear clear' : Prop} {s s' : ExpresslaneSession} {pc : Pc}
    (h : Knows clear s pc) (hgrows : Grows s s') (hclear : clear → clear') :
    Knows clear' s' pc := by
  cases pc with
  | promoteRelease => exact hgrows.selfKey h
  | promoteFlag => exact hgrows.selfKey h
  | peerFlag => exact hgrows.peerKey h
  | hintSelf => exact hgrows.peerHint h
  | encryptRelease out result =>
    cases result with
    | error e => cases e <;> first | exact hclear h | trivial
    | ok n => trivial
  | decryptUnlock out result =>
    cases result with
    | error e => cases e <;> first | exact hclear h | trivial
    | ok n => trivial
  | _ => trivial

theorem currentSelf_of_keyNotSet {A : Aead} {s s' : ExpresslaneSession} {args : EncryptArgs}
    {out : Bytes} (h : args.run A s = some (s', out, .error .keyNotSet)) :
    s.currentSelf = none := by
  rw [EncryptArgs.run, ExpresslaneSession.encrypt_eq] at h
  split_ifs at h with hout hlen hkey
  · simp at h
  · simp at h
  · exact hkey
  · split at h <;> simp at h

theorem currentPeer_of_keyNotSet {A : Aead} {s s' : ExpresslaneSession} {args : DecryptArgs}
    {out : Bytes} (h : args.run A s = some (s', out, .error .keyNotSet)) :
    s.rx.currentPeer = none := by
  rw [DecryptArgs.run] at h
  rcases Nat.lt_or_ge args.wirePacket.length 40 with hshort | hlong
  · simp [s.decrypt_of_short A _ hshort] at h
  obtain ⟨hdr, body, hwire⟩ := exists_encode hlong
  rw [hwire, ExpresslaneSession.decrypt_encode] at h
  split_ifs at h with hrej hbody hout hkey
  · simp at h
  · simp at h
  · simp at h
  · exact hkey
  · split at h <;> simp at h

/-- A missing key means a flag that is not set. -/
theorem HintSound.not_hasValidKeys {s : ExpresslaneSession} (h : HintSound s)
    (hkey : s.currentSelf = none ∨ s.rx.currentPeer = none) : s.hasValidKeys ≠ true := by
  rw [ExpresslaneSession.hasValidKeys, ne_eq, Bool.and_eq_true]
  rintro ⟨hpeer, hself⟩
  exact hkey.elim (h.self hself) (h.peer hpeer)

section Step

variable {T : Type*} [DecidableEq T] {A : Aead} {t : T} {m m' : SharedSession T} {pc : Pc}
  {mv : Move Pc Result} {ns : List Note} {clear : Prop}

/-- A step keeps the hint sound, and what it denies is denied rightly. -/
theorem knows_step {c : Call} (h : step A t c m pc = some (m', mv, ns))
    (hsound : HintSound m.session)
    (hclear : m.session.hasValidKeys ≠ true → clear) (hknows : Knows clear m.session pc) :
    HintSound m'.session ∧ KnowsAfter clear m'.session mv := by
  cases transition_of_step h with
  | promoteStore cipher =>
    exact ⟨⟨fun _ => Option.some_ne_none cipher, hsound.peer⟩, Option.some_ne_none cipher⟩
  | promoteRelease => exact ⟨hsound, hknows⟩
  | promoteFlag => exact ⟨⟨fun _ => hknows, hsound.peer⟩, trivial⟩
  | encryptRejected args e he =>
    refine ⟨hsound, fun hdenies => ?_, by simp⟩
    cases e with
    | keyNotSet => exact absurd rfl he
    | _ => cases hdenies
  | encryptSeal args s out result hrun =>
    refine ⟨hsound, ?_⟩
    -- the key is missing under the read guard
    cases result with
    | ok n => trivial
    | error e =>
      cases e with
      | keyNotSet => exact hclear (hsound.not_hasValidKeys (Or.inl (currentSelf_of_keyNotSet hrun)))
      | _ => trivial
  | encryptFail args out e =>
    refine ⟨hsound, fun hdenies => ?_, by simp⟩
    cases e with
    | keyNotSet => exact hknows
    | _ => cases hdenies
  | peerStore key cipher =>
    exact ⟨⟨hsound.self, fun _ => Option.some_ne_none cipher⟩, Option.some_ne_none cipher⟩
  | peerFlag => exact ⟨⟨hsound.self, fun _ => hknows⟩, trivial⟩
  | hintPeer hpeer => exact ⟨hsound, hpeer⟩
  | hintNone hpeer =>
    refine ⟨hsound, fun _ => hclear ?_, by simp⟩
    simp [ExpresslaneSession.hasValidKeys, hpeer]
  | hintSelf =>
    have hpeer : m.session.peerKeyInstalled = true := hknows
    refine ⟨hsound, fun hdenies => hclear ?_, fun hanswer => ?_⟩
    · cases hself : m.session.selfKeyInstalled with
      | true => simp [denies, hself] at hdenies
      | false => simp [ExpresslaneSession.hasValidKeys, hself]
    · rw [ExpresslaneSession.hasValidKeys, hpeer, Result.answer.inj hanswer]
      rfl
  | decryptBody args s out result hrun =>
    refine ⟨⟨hsound.self, fun hpeer => (currentPeer_decrypt hrun).symm ▸ hsound.peer hpeer⟩, ?_⟩
    cases result with
    | ok n => trivial
    | error e =>
      cases e with
      | keyNotSet => exact hclear (hsound.not_hasValidKeys (Or.inr (currentPeer_of_keyNotSet hrun)))
      | _ => trivial
  | decryptUnlock args out result =>
    refine ⟨hsound, fun hdenies => ?_, by simp⟩
    cases result with
    | ok n => cases hdenies
    | error e =>
      cases e with
      | keyNotSet => exact hknows
      | _ => cases hdenies
  | _ => exact ⟨⟨hsound.self, hsound.peer⟩, by simp [KnowsAfter, Knows, denies]⟩

end Step

/-- Nobody has been told `true` before the position `started` of the log. -/
def NobodyTold {T : Type*} (log : List (Entry T Call Note Result)) (started : ℕ) : Prop :=
  ∀ (i : ℕ) t started', i < started →
    log[i]? ≠ some ⟨t, .returned started' .hasValidKeys (.answer true)⟩

section Outline

variable {T : Type*} {log fresh : List (Entry T Call Note Result)} {started : ℕ}

theorem NobodyTold.append (h : NobodyTold log started) (hle : started ≤ log.length) :
    NobodyTold (log ++ fresh) started := by
  intro i t started' hi
  rw [List.getElem?_append_left (by omega)]
  exact h i t started' hi

/-- The invariant of the hint. -/
structure Hinted (m : SharedSession T) (log : List (Entry T Call Note Result)) : Prop where
  sound : HintSound m.session
  told : ∀ (i : ℕ) t started, log[i]? = some ⟨t, .returned started .hasValidKeys (.answer true)⟩ →
    m.session.hasValidKeys = true
  denied : ∀ (j : ℕ) t started c r, log[j]? = some ⟨t, .returned started c r⟩ → denies r = true →
    started ≤ j ∧ NobodyTold log started

/-- What holds of a thread. -/
def InHint (m : SharedSession T) (log : List (Entry T Call Note Result)) :
    Activity Call Pc → Prop
  | .idle => True
  | .running started _ pc => started ≤ log.length ∧ Knows (NobodyTold log started) m.session pc

theorem hasValidKeys_of_grows {s s' : ExpresslaneSession} (h : Grows s s')
    (hs : s.hasValidKeys = true) : s'.hasValidKeys = true := by
  rw [ExpresslaneSession.hasValidKeys, Bool.and_eq_true] at hs ⊢
  exact ⟨h.peerHint hs.1, h.selfHint hs.2⟩

/-- While the flags are not both set, nobody has been told `true`. -/
theorem Hinted.nobodyTold {m : SharedSession T} (h : Hinted m log)
    (hflags : m.session.hasValidKeys ≠ true) : NobodyTold log started :=
  fun i t started' _ hi => hflags (h.told i t started' hi)

/-- New entries keep the invariant, if it holds of the new returns. -/
theorem Hinted.append {m m' : SharedSession T} (h : Hinted m log)
    (hgrows : Grows m.session m'.session) (hsound : HintSound m'.session)
    (hfresh : ∀ t started c r, (⟨t, .returned started c r⟩ : Entry T Call Note Result) ∈ fresh →
      started ≤ log.length ∧ (denies r = true → NobodyTold log started) ∧
        (r = .answer true → m'.session.hasValidKeys = true)) : Hinted m' (log ++ fresh) where
  sound := hsound
  told i t started hi := by
    rcases Nat.lt_or_ge i log.length with hlt | hge
    · rw [List.getElem?_append_left hlt] at hi
      exact hasValidKeys_of_grows hgrows (h.told i t started hi)
    · rw [List.getElem?_append_right hge] at hi
      exact (hfresh t started _ _ (List.mem_of_getElem? hi)).2.2 rfl
  denied j t started c r hj hdenies := by
    rcases Nat.lt_or_ge j log.length with hlt | hge
    · rw [List.getElem?_append_left hlt] at hj
      obtain ⟨hle, htold⟩ := h.denied j t started c r hj hdenies
      exact ⟨hle, htold.append (by omega)⟩
    · rw [List.getElem?_append_right hge] at hj
      obtain ⟨hle, htold, -⟩ := hfresh t started c r (List.mem_of_getElem? hj)
      exact ⟨hle.trans hge, (htold hdenies).append hle⟩

/-- A call that is running when a step is made knows afterwards what the step has told it. -/
theorem outline_hint [DecidableEq T] (A : Aead) :
    Outline (sessionObject A) (Hinted (T := T)) fun _ m log a => InHint m log a where
  own {t m log a m' log' a'} h hG hP := by
    obtain ⟨-, hgrows⟩ := turn_effect h
    cases h with
    | call _ c => exact ⟨hG.append hgrows hG.sound (by simp), by simp, trivial⟩
    | goto h =>
      obtain ⟨hle, hknows⟩ := hP
      obtain ⟨hsound, hafter⟩ := knows_step h hG.sound hG.nobodyTold hknows
      refine ⟨hG.append hgrows hsound fun t started c r hmem => ?_, ?_, ?_⟩
      · obtain ⟨_, -, hn⟩ := List.mem_map.1 hmem
        simp at hn
      · rw [List.length_append]
        omega
      · exact hafter.mono (Grows.refl _) fun htold => htold.append hle
    | ret h =>
      obtain ⟨hle, hknows⟩ := hP
      obtain ⟨hsound, hafter⟩ := knows_step h hG.sound hG.nobodyTold hknows
      refine ⟨?_, trivial⟩
      rw [List.append_assoc]
      refine hG.append hgrows hsound fun t started c r hmem => ?_
      rcases List.mem_append.1 hmem with hmem | hmem
      · obtain ⟨_, -, hn⟩ := List.mem_map.1 hmem
        simp at hn
      · obtain ⟨-, hevent⟩ := Entry.mk.inj (List.mem_singleton.1 hmem)
        obtain ⟨rfl, rfl, rfl⟩ := Event.returned.inj hevent
        exact ⟨hle, hafter⟩
  others {t m log a m' log' a'} h hG hP u b hne hb := by
    obtain ⟨-, hgrows⟩ := turn_effect h
    obtain ⟨fresh, rfl, -⟩ := h.log_eq
    cases b with
    | idle => trivial
    | running started c pc =>
      obtain ⟨hle, hknows⟩ := hb
      refine ⟨?_, hknows.mono hgrows fun htold => htold.append hle⟩
      rw [List.length_append]
      omega

end Outline

/-! ## What the flags mean between the operations -/

/-- The flag of the send key, under the mutex of `next_self`. -/
def selfFlag {T : Type*} (m : SharedSession T) : GuardedFlag.State T :=
  ⟨m.nextSelfHolder, m.session.selfKeyInstalled⟩

/-- The flag of the receive key, under the mutex of `rx`. -/
def peerFlag {T : Type*} (m : SharedSession T) : GuardedFlag.State T :=
  ⟨m.rxHolder, m.session.peerKeyInstalled⟩

/-- The promotion is about to return, and has installed a key. -/
def afterPromotion : Pc → Bool
  | .promoteUnlock installed => installed
  | _ => false

/-- The install of a receive key is about to return. -/
def afterInstall : Pc → Bool
  | .peerUnlock => true
  | _ => false

/-- A promotion that has installed a key. -/
def promotes : Call → Result → Bool
  | .promoteSelfKey, .promoted installed => installed
  | _, _ => false

/-- A successful install of a receive key. -/
def installsPeer : Call → Result → Bool
  | .updatePeerKey _, .done (.ok _) => true
  | _, _ => false

/-- Whether a step is a return with the property `p`. -/
def returns (p : Call → Result → Bool) (c : Call) : Move Pc Result → Bool
  | .goto _ => false
  | .ret r => p c r

section Flags

variable {T : Type*} [DecidableEq T] {A : Aead} {t : T} {m m' : SharedSession T} {pc : Pc}
  {mv : Move Pc Result} {ns : List Note}

/-- Both flags are set under their locks, by the operations that they announce. -/
theorem flags_step {c : Call} (h : step A t c m pc = some (m', mv, ns)) :
    GuardedFlag.Effect Pc.holdsNext afterPromotion t (selfFlag m) pc (selfFlag m') (placeOf mv)
      (returns promotes c mv) ∧
    GuardedFlag.Effect Pc.holdsRx afterInstall t (peerFlag m) pc (peerFlag m') (placeOf mv)
      (returns installsPeer c mv) := by
  cases transition_of_step h with
  | stageLock key hkey hfree => exact ⟨.acquire hfree rfl rfl rfl rfl, .quiet rfl rfl rfl⟩
  | stageUnlock => exact ⟨.release rfl rfl rfl rfl rfl, .quiet rfl rfl rfl⟩
  | promoteLock hfree => exact ⟨.acquire hfree rfl rfl rfl rfl, .quiet rfl rfl rfl⟩
  | promoteFlag => exact ⟨.set rfl rfl rfl rfl, .quiet rfl rfl rfl⟩
  | promoteUnlock => exact ⟨.release rfl rfl rfl rfl rfl, .quiet rfl rfl rfl⟩
  | peerLock key hfree => exact ⟨.quiet rfl rfl rfl, .acquire hfree rfl rfl rfl rfl⟩
  | peerFlag => exact ⟨.quiet rfl rfl rfl, .set rfl rfl rfl rfl⟩
  | peerUnlock => exact ⟨.quiet rfl rfl rfl, .release rfl rfl rfl rfl rfl⟩
  | decryptLock args hfree => exact ⟨.quiet rfl rfl rfl, .acquire hfree rfl rfl rfl rfl⟩
  | decryptUnlock => exact ⟨.quiet rfl rfl rfl, .release rfl rfl rfl rfl rfl⟩
  | _ => exact ⟨.quiet rfl rfl rfl, .quiet rfl rfl rfl⟩

end Flags

/-- Some call with the property `p` has returned. -/
def Completed {T : Type*} (p : Call → Result → Bool) (log : List (Entry T Call Note Result)) :
    Prop :=
  ∃ t started c r, ⟨t, .returned started c r⟩ ∈ log ∧ p c r = true

section Completed

variable {T : Type*} {t : T} {p : Call → Result → Bool} {log : List (Entry T Call Note Result)}

/-- Entries that are not returns complete nothing. -/
theorem completed_append {fresh : List (Entry T Call Note Result)}
    (hfresh : ∀ t started c r, (⟨t, .returned started c r⟩ : Entry T Call Note Result) ∉ fresh) :
    Completed p (log ++ fresh) ↔ Completed p log := by
  constructor
  · rintro ⟨t, started, c, r, hmem, hp⟩
    exact ⟨t, started, c, r, (List.mem_append.1 hmem).resolve_right (hfresh _ _ _ _), hp⟩
  · rintro ⟨t, started, c, r, hmem, hp⟩
    exact ⟨t, started, c, r, List.mem_append_left _ hmem, hp⟩

theorem completed_append_returned {started : ℕ} {c : Call} {r : Result} :
    Completed p (log ++ [⟨t, .returned started c r⟩]) ↔ Completed p log ∨ p c r = true := by
  constructor
  · rintro ⟨t', started', c', r', hmem, hp⟩
    rcases List.mem_append.1 hmem with hmem | hmem
    · exact Or.inl ⟨t', started', c', r', hmem, hp⟩
    · obtain ⟨-, hevent⟩ := Entry.mk.inj (List.mem_singleton.1 hmem)
      obtain ⟨-, rfl, rfl⟩ := Event.returned.inj hevent
      exact Or.inr hp
  · rintro (⟨t', started', c', r', hmem, hp⟩ | hp)
    · exact ⟨t', started', c', r', List.mem_append_left _ hmem, hp⟩
    · exact ⟨t, started, c, r, List.mem_append_right _ (List.mem_singleton_self _), hp⟩

theorem not_returned_of_notes (ns : List Note) (t' : T) (started : ℕ) (c : Call) (r : Result) :
    (⟨t', .returned started c r⟩ : Entry T Call Note Result) ∉ noteEntries t ns := by
  intro hmem
  obtain ⟨n, -, hn⟩ := List.mem_map.1 hmem
  simp at hn

/-- What a turn does to the flags and to what has been completed. -/
theorem flags_turn [DecidableEq T] {A : Aead} {m m' : SharedSession T} {a a' : Activity Call Pc}
    {log' : List (Entry T Call Note Result)} (h : Turn (sessionObject A) t m log a m' log' a') :
    (∃ done, GuardedFlag.Effect Pc.holdsNext afterPromotion t (selfFlag m) (place a) (selfFlag m')
        (place a') done ∧ (Completed promotes log' ↔ Completed promotes log ∨ done = true)) ∧
    ∃ done, GuardedFlag.Effect Pc.holdsRx afterInstall t (peerFlag m) (place a) (peerFlag m')
      (place a') done ∧
        (Completed installsPeer log' ↔ Completed installsPeer log ∨ done = true) := by
  cases h with
  | call _ c =>
    refine ⟨⟨false, .quiet rfl rfl rfl, ?_⟩, false, .quiet rfl rfl rfl, ?_⟩ <;>
      rw [completed_append (by simp)] <;> simp
  | goto h =>
    obtain ⟨hself, hpeer⟩ := flags_step h
    refine ⟨⟨_, hself, ?_⟩, _, hpeer, ?_⟩ <;>
      rw [completed_append (not_returned_of_notes _)] <;> simp [returns]
  | ret h =>
    obtain ⟨hself, hpeer⟩ := flags_step h
    refine ⟨⟨_, hself, ?_⟩, _, hpeer, ?_⟩ <;>
      rw [completed_append_returned, completed_append (not_returned_of_notes _), returns]

/-- Both flags are flags under a lock. -/
theorem outline_flags [DecidableEq T] (A : Aead) :
    Outline (sessionObject A)
      (fun m log => GuardedFlag.Inv (selfFlag m) (Completed promotes log) ∧
        GuardedFlag.Inv (peerFlag m) (Completed installsPeer log))
      (fun (t : T) m log a =>
        GuardedFlag.Local Pc.holdsNext afterPromotion t (selfFlag m) (Completed promotes log)
          (place a) ∧
        GuardedFlag.Local Pc.holdsRx afterInstall t (peerFlag m) (Completed installsPeer log)
          (place a)) where
  own h hG hP := by
    obtain ⟨⟨_, hself, hpromotes⟩, _, hpeer, hinstalls⟩ := flags_turn h
    obtain ⟨hselfInv, hselfLocal⟩ := hself.own hpromotes hG.1 hP.1
    obtain ⟨hpeerInv, hpeerLocal⟩ := hpeer.own hinstalls hG.2 hP.2
    exact ⟨⟨hselfInv, hpeerInv⟩, hselfLocal, hpeerLocal⟩
  others h hG hP _ _ hne hb := by
    obtain ⟨⟨_, hself, hpromotes⟩, _, hpeer, hinstalls⟩ := flags_turn h
    exact ⟨hself.others hpromotes hP.1 hne hb.1, hpeer.others hinstalls hP.2 hne hb.2⟩

end Completed

/-! ## The calls that do not contribute -/

/-- The operations that change keys. -/
def keyOperation : Call → Bool
  | .updateNextSelfKey _ | .promoteSelfKey | .updatePeerKey _ => true
  | _ => false

/-- The calls that are rejected for their all-zero key. -/
def rejected : Call → Bool
  | .updateNextSelfKey key | .updatePeerKey key => key.isInvalid
  | _ => false

section Local

variable {T : Type*} [DecidableEq T] {A : Aead} {t : T} {m m' : SharedSession T} {pc pc' : Pc}
  {ns : List Note}

/-- Only the key operations get to where a flag has been set. -/
theorem flagless_of_step {call : Call} (hcall : keyOperation call = false)
    (h : step A t call m pc = some (m', .goto pc', ns)) :
    afterPromotion pc' = false ∧ afterInstall pc' = false := by
  cases transition_of_step h with
  | encryptLock => exact ⟨rfl, rfl⟩
  | encryptSeal => exact ⟨rfl, rfl⟩
  | encryptRelease => exact ⟨rfl, rfl⟩
  | hintPeer => exact ⟨rfl, rfl⟩
  | decryptLock => exact ⟨rfl, rfl⟩
  | decryptBody => exact ⟨rfl, rfl⟩
  | _ => cases hcall

/-- A rejected call returns at once and leaves everything as it is. -/
theorem step_of_rejected {call : Call} (hcall : rejected call = true) :
    step A t call m .start = some (m, .ret (.done (.error .invalidKey)), []) := by
  cases call with
  | updateNextSelfKey key => exact if_pos hcall
  | updatePeerKey key => exact if_pos hcall
  | _ => cases hcall

variable {s : SharedSession T} {c : Config T (SharedSession T) Call Pc Note Result} {started : ℕ}
  {call : Call}

theorem flagless_of_running (h : Reachable (sessionObject A) s c)
    (hrunning : c.threads t = .running started call pc) (hcall : keyOperation call = false) :
    afterPromotion pc = false ∧ afterInstall pc = false :=
  h.local (Q := fun call pc => keyOperation call = false →
      afterPromotion pc = false ∧ afterInstall pc = false)
    (fun _ _ => ⟨rfl, rfl⟩) (fun hstep _ hcall => flagless_of_step hcall hstep) hrunning hcall

theorem start_of_rejected (h : Reachable (sessionObject A) s c)
    (hrunning : c.threads t = .running started call pc) (hcall : rejected call = true) :
    pc = .start := by
  refine h.local (Q := fun call pc => rejected call = true → pc = .start) (fun _ _ => rfl) ?_
    hrunning hcall
  intro t call m pc m' pc' ns hstep hQ hcall
  obtain rfl := hQ hcall
  exact nomatch (step_of_rejected (A := A) (t := t) (m := m) hcall).symm.trans hstep

end Local

/-! ## The hint -/

section Main

variable {T : Type*} [DecidableEq T]

/-- **The hint that keys are there is sound and monotone.** In every run of any number of threads,
no call that starts after a `has_valid_keys` has returned `true` denies a key: no `has_valid_keys`
answers `false`, and no `encrypt` and no `decrypt` fails with `KeyNotSet`. Whenever no key operation
is in progress, the hint is `true` if and only if a promotion of a staged key and a successful
install of a peer key have been completed. A call with the all-zero key contributes nothing: all it
ever does is to return its error. -/
theorem key_hint_sound (A : Aead) (version : ExpresslaneVersion)
    {c : Config T (SharedSession T) Call Pc Note Result}
    (h : Reachable (sessionObject A) (unused (.new version)) c) :
    (∀ (i j : ℕ) t u started started' call r,
      c.log[i]? = some ⟨t, .returned started .hasValidKeys (.answer true)⟩ →
      c.log[j]? = some ⟨u, .returned started' call r⟩ → i < started' → denies r = false) ∧
    ((∀ t started call pc, c.threads t = .running started call pc → keyOperation call = false) →
      (c.shared.session.hasValidKeys = true ↔
        Completed promotes c.log ∧ Completed installsPeer c.log)) ∧
    ∀ t started call pc, c.threads t = .running started call pc → rejected call = true →
      (sessionObject A).step t call c.shared pc =
        some (c.shared, .ret (.done (.error .invalidKey)), []) := by
  refine ⟨?_, fun hquiet => ?_, ?_⟩
  · obtain ⟨hhinted, -⟩ := (outline_hint A).run h
      ⟨⟨nofun, nofun⟩, fun _ _ _ h => absurd h (by simp), fun _ _ _ _ _ h => absurd h (by simp)⟩
      fun _ => trivial
    intro i j t u started started' call r hi hj hlt
    by_contra hdenies
    obtain ⟨-, htold⟩ := hhinted.denied j u started' call r hj (Bool.not_eq_false _ ▸ hdenies)
    exact htold i t started hlt hi
  · have hstart : ∀ p, ¬ Completed (T := T) p [] := by
      rintro p ⟨t, started, c, r, hmem, -⟩
      exact absurd hmem List.not_mem_nil
    obtain ⟨⟨hself, hpeer⟩, hlocal⟩ := (outline_flags A).run h
      ⟨⟨fun h => absurd h (hstart _), nofun⟩, fun h => absurd h (hstart _), nofun⟩
      fun t => ⟨⟨by simp [place, Pc.holdsNext, selfFlag, unused], nofun, nofun⟩,
        by simp [place, Pc.holdsRx, peerFlag, unused], nofun, nofun⟩
    have hflagless : ∀ t, afterPromotion (place (c.threads t)) = false ∧
        afterInstall (place (c.threads t)) = false := by
      intro t
      cases hrunning : c.threads t with
      | idle => exact ⟨rfl, rfl⟩
      | running started call pc =>
        exact flagless_of_running h hrunning (hquiet t started call pc hrunning)
    have hpromoted := hself.flag_iff (fun t => (hlocal t).1) fun t => (hflagless t).1
    have hinstalled := hpeer.flag_iff (fun t => (hlocal t).2) fun t => (hflagless t).2
    rw [ExpresslaneSession.hasValidKeys, Bool.and_eq_true, and_comm]
    exact and_congr hpromoted hinstalled
  · intro t started call pc hrunning hcall
    obtain rfl := start_of_rejected h hrunning hcall
    exact step_of_rejected hcall

end Main

/-- One thread installs a send key, another one a receive key, and then the first one asks. -/
def keyedConfig : Config Bool (SharedSession Bool) Call Pc Note Result where
  shared := unused
    (((ExpresslaneSession.new .version1).updateNextSelfKey
      (constKey 1)).1.promoteSelfKey.updatePeerKey (constKey 2)).1
  threads _ := .idle
  log :=
    [⟨true, .called (.updateNextSelfKey (constKey 1))⟩,
      ⟨true, .noted (.staged ⟨constKey 1⟩)⟩,
      ⟨true, .returned 0 (.updateNextSelfKey (constKey 1)) (.done (.ok ()))⟩,
      ⟨true, .called .promoteSelfKey⟩,
      ⟨true, .noted (.took ⟨constKey 1⟩)⟩,
      ⟨true, .noted (.installed ⟨constKey 1⟩)⟩,
      ⟨true, .returned 3 .promoteSelfKey (.promoted true)⟩,
      ⟨false, .called (.updatePeerKey (constKey 2))⟩,
      ⟨false, .returned 7 (.updatePeerKey (constKey 2)) (.done (.ok ()))⟩,
      ⟨true, .called .hasValidKeys⟩,
      ⟨true, .returned 9 .hasValidKeys (.answer true)⟩]

theorem reachable_keyedConfig :
    Reachable (sessionObject keyTagAead) (unused (.new .version1)) keyedConfig := by
  have hinit : Reachable (sessionObject (T := Bool) keyTagAead) (unused (.new .version1))
    (.init (unused (.new .version1))) := .refl
  have hstaged := hinit.solo (t := true) rfl
    (solo_of_run true (.updateNextSelfKey (constKey 1)) rfl)
  have hpromoted := hstaged.solo (t := true) rfl (solo_of_run true .promoteSelfKey rfl)
  have hpeer := hpromoted.solo (t := false) rfl
    (solo_of_run false (.updatePeerKey (constKey 2)) rfl)
  exact hpeer.solo (t := true) rfl (solo_of_run true .hasValidKeys rfl)

/-- After the two installs the hint is `true`. -/
theorem key_hint_sound_keyedConfig : keyedConfig.shared.session.hasValidKeys = true := by
  obtain ⟨-, hexact, -⟩ := key_hint_sound keyTagAead .version1 reachable_keyedConfig
  have hquiet : ∀ t started call pc, keyedConfig.threads t = .running started call pc →
      keyOperation call = false := fun _ _ _ _ hrun => nomatch hrun
  refine (hexact hquiet).2 ⟨⟨true, 3, .promoteSelfKey, .promoted true, ?_, rfl⟩,
    false, 7, .updatePeerKey (constKey 2), .done (.ok ()), ?_, rfl⟩
  · simp [keyedConfig]
  · simp [keyedConfig]

end LightwayCffi.Expresslane
