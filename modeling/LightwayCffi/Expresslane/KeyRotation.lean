import LightwayCffi.Expresslane.Contract
import LightwayCffi.Expresslane.SharedSession

/-!
# Rotating the send key under concurrency

`promote_self_key` takes the staged key out of one lock and installs it in another one. Two such
calls around a restaging must not install the keys in the wrong order; they do not, because the
mutex of `next_self` is held from the taking to the installing.

What rotation is for is said by a machine with two places, `Rotation`: the slot of the staged key
and the hand of the one who promotes it. Staging overwrites the slot, a promotion moves the key from
the slot to the hand and from there to `current_self`. The notes of every run are a run of this
machine (`outline_rotation`), and what that machine installs is a subsequence of what it was given
(`Rotation.sublist_of_replay`).

The second result of this module is about `encrypt`: the key it seals under was the active one at
some moment between its call and its return (`outline_sealing`).
-/

namespace LightwayCffi.Expresslane

open ConcurrentObject SharedSession

/-! ## The machine of a rotation -/

/-- The key that is staged, and the key that is on its way to be installed. -/
structure Rotation where
  slot : Option Cipher
  hand : Option Cipher
  deriving DecidableEq

namespace Rotation

/-- Nothing staged, nothing on its way. -/
def empty : Rotation := ⟨none, none⟩

/-- One event. Staging overwrites the slot; a key is taken out of the slot into a free hand; what is
installed is the key in the hand. -/
def step (r : Rotation) : Note → Option Rotation
  | .staged cipher => some { r with slot := some cipher }
  | .took cipher => if r = ⟨some cipher, none⟩ then some ⟨none, some cipher⟩ else none
  | .installed cipher => if r.hand = some cipher then some { r with hand := none } else none

/-- A sequence of events. -/
def replay (r : Rotation) (ns : List Note) : Option Rotation := ns.foldlM step r

theorem replay_concat {r : Rotation} {ns : List Note} {n : Note} :
    r.replay (ns ++ [n]) = (r.replay ns).bind fun r' => r'.step n := by
  simp [replay, List.foldlM_append]

end Rotation

/-- The keys staged, in order. -/
def stagings (ns : List Note) : List Cipher :=
  ns.filterMap fun n => match n with
    | .staged cipher => some cipher
    | _ => none

/-- The keys installed, in order. -/
def installs (ns : List Note) : List Cipher :=
  ns.filterMap fun n => match n with
    | .installed cipher => some cipher
    | _ => none

/-- The key that the events have made the active one, starting from `initial`. -/
def activeKey (initial : Option Cipher) (ns : List Note) : Option Cipher :=
  (installs ns).getLast?.or initial

theorem installs_append (ns ms : List Note) : installs (ns ++ ms) = installs ns ++ installs ms :=
  List.filterMap_append

theorem stagings_append (ns ms : List Note) : stagings (ns ++ ms) = stagings ns ++ stagings ms :=
  List.filterMap_append

/-- **No key is installed out of order or twice**: the keys installed, the one in the hand and the
one in the slot are a subsequence of the keys staged. -/
theorem Rotation.sublist_of_replay {ns : List Note} {r : Rotation}
    (h : Rotation.empty.replay ns = some r) :
    (installs ns ++ (r.hand.toList ++ r.slot.toList)).Sublist (stagings ns) := by
  induction ns using List.reverseRecOn generalizing r with
  | nil =>
    obtain rfl : Rotation.empty = r := Option.some.inj h
    exact List.Sublist.refl _
  | append_singleton ns n ih =>
    rw [replay_concat, Option.bind_eq_some_iff] at h
    obtain ⟨r₀, hr₀, hstep⟩ := h
    have hold := ih hr₀
    rw [installs_append, stagings_append]
    cases n with
    | staged cipher =>
      obtain rfl := Option.some.inj hstep
      -- the key that was in the slot is given up
      have hless : (installs ns ++ r₀.hand.toList).Sublist (stagings ns) := by
        rw [← List.append_assoc] at hold
        exact (List.sublist_append_left _ _).trans hold
      have hgrow := hless.append (List.Sublist.refl [cipher])
      simpa [installs, stagings] using hgrow
    | took cipher =>
      simp only [Rotation.step] at hstep
      split_ifs at hstep with hr
      obtain rfl := Option.some.inj hstep
      subst hr
      simpa [installs, stagings] using hold
    | installed cipher =>
      simp only [Rotation.step] at hstep
      split_ifs at hstep with hhand
      obtain rfl := Option.some.inj hstep
      rw [hhand] at hold
      simpa [installs, stagings] using hold

/-! ## Every run is a run of the machine -/

section Rotation

variable {T : Type*} {t : T} {m m' : SharedSession T} {pc pc' : Pc} {ns past : List Note}

/-- A step is an event of the machine, or none. -/
theorem replay_of_effect (h : KeyEffect t m pc m' pc' ns)
    (hr : Rotation.empty.replay past = some ⟨m.session.nextSelf, pc.inFlight⟩) :
    Rotation.empty.replay (past ++ ns) = some ⟨m'.session.nextSelf, pc'.inFlight⟩ := by
  cases h with
  | quiet hnext hcurrent hholder hholds hflight =>
    rw [List.append_nil, hnext, hflight, hr]
  | acquire hfree hm' hholds hholds' hflight =>
    rw [List.append_nil, hflight, hm', hr, Pc.inFlight_eq_none hholds]
  | stage cipher hstore hm' =>
    rw [Rotation.replay_concat, hr, hm', hstore]
    rfl
  | take cipher htake hstaged hm' =>
    rw [Rotation.replay_concat, hr, hm', htake, hstaged]
    simp [Rotation.step, Pc.inFlight]
  | install cipher hstore hm' =>
    rw [Rotation.replay_concat, hr, hm', hstore]
    simp [Rotation.step, Pc.inFlight]
  | release hholds hflight hm' =>
    rw [List.append_nil, hr, hm', hflight]
    rfl

/-- `current_self` holds the key installed last. -/
theorem current_of_effect {initial : Option Cipher} (h : KeyEffect t m pc m' pc' ns)
    (hcurrent : m.session.currentSelf = activeKey initial past) :
    m'.session.currentSelf = activeKey initial (past ++ ns) := by
  cases h with
  | quiet hnext hsame => rw [List.append_nil, hsame, hcurrent]
  | acquire hfree hm' => rw [List.append_nil, hm', hcurrent]
  | stage cipher hstore hm' => simp [hm', hcurrent, activeKey, installs]
  | take cipher htake hstaged hm' => simp [hm', hcurrent, activeKey, installs]
  | install cipher hstore hm' => simp [hm', activeKey, installs]
  | release hholds hflight hm' => rw [List.append_nil, hm', hcurrent]

/-- Only the key that the thread was about to stage is staged. -/
theorem valid_of_effect (h : KeyEffect t m pc m' pc' ns)
    (hvalid : ∀ cipher, pc.toStage = some cipher → cipher.key.isInvalid = false) :
    (∀ cipher, Note.staged cipher ∈ ns → cipher.key.isInvalid = false) ∧
      ∀ cipher, pc'.toStage = some cipher → cipher.key.isInvalid = false := by
  cases h with
  | quiet hnext hcurrent hholder hholds hflight hstage => simp [hstage]
  | acquire hfree hm' hholds hholds' hflight hvalid' => exact ⟨by simp, hvalid'⟩
  | stage cipher hstore => simpa [Pc.toStage] using hvalid cipher (by rw [hstore]; rfl)
  | take cipher htake => simp [Pc.toStage]
  | install cipher hstore => simp [Pc.toStage]
  | release hholds => simp [Pc.toStage]

/-- The invariant of the send keys. -/
structure Rotating (m : SharedSession T) (log : List (Entry T Call Note Result)) : Prop where
  free : m.nextSelfHolder = none →
    Rotation.empty.replay (notes log) = some ⟨m.session.nextSelf, none⟩
  current : m.session.currentSelf = activeKey none (notes log)
  valid : ∀ cipher, Note.staged cipher ∈ notes log → cipher.key.isInvalid = false

/-- What holds of a thread: it is inside the mutex of `next_self` if and only if it is its holder,
and then the key that it has taken is the one in the hand. -/
structure InRotation (t : T) (m : SharedSession T) (log : List (Entry T Call Note Result))
    (a : Activity Call Pc) : Prop where
  holder : (place a).holdsNext = true ↔ m.nextSelfHolder = some t
  hand : (place a).holdsNext = true →
    Rotation.empty.replay (notes log) = some ⟨m.session.nextSelf, (place a).inFlight⟩
  valid : ∀ cipher, (place a).toStage = some cipher → cipher.key.isInvalid = false

/-- The two locks of the send keys and the machine of a rotation. -/
theorem outline_rotation [DecidableEq T] (A : Aead) :
    Outline (sessionObject A) (Rotating (T := T)) InRotation where
  own {t m log a m' log' a'} h hG hP := by
    obtain ⟨⟨ns, hns, heffect⟩, -⟩ := turn_effect h
    have hholder := heffect.holds_iff hP.holder
    obtain ⟨hstaged, hstage⟩ := valid_of_effect heffect hP.valid
    -- if the mutex is free or this thread is inside, the machine knows where the keys are
    have hbefore : m.nextSelfHolder = none ∨ (place a).holdsNext = true →
        Rotation.empty.replay (notes log) = some ⟨m.session.nextSelf, (place a).inFlight⟩ := by
      rintro (hfree | hholds)
      · have hout : (place a).holdsNext = false := by
          rw [← Bool.not_eq_true, hP.holder, hfree]
          exact (Option.some_ne_none t).symm
        rw [Pc.inFlight_eq_none hout]
        exact hG.free hfree
      · exact hP.hand hholds
    have hafter : m'.nextSelfHolder = none ∨ (place a').holdsNext = true →
        Rotation.empty.replay (notes log') = some ⟨m'.session.nextSelf, (place a').inFlight⟩ :=
      fun h' => hns ▸ replay_of_effect heffect (hbefore (heffect.free_or_holds h'))
    refine ⟨⟨fun hfree => ?_, ?_, fun cipher hmem => ?_⟩, hholder, fun h => hafter (Or.inr h),
      hstage⟩
    · have hout : (place a').holdsNext = false := by
        rw [← Bool.not_eq_true, hholder, hfree]
        exact (Option.some_ne_none t).symm
      rw [hafter (Or.inl hfree), Pc.inFlight_eq_none hout]
    · rw [hns]
      exact current_of_effect heffect hG.current
    · rw [hns, List.mem_append] at hmem
      exact hmem.elim (hG.valid cipher) (hstaged cipher)
  others {t m log a m' log' a'} h hG hP u b hne hb := by
    obtain ⟨⟨ns, hns, heffect⟩, -⟩ := turn_effect h
    have hholder := heffect.holder_of_ne hP.holder hne
    refine ⟨hb.holder.trans hholder.symm, fun hholds => ?_, hb.valid⟩
    -- `u` is inside, so `t` is not
    have hout : (place a).holdsNext = false := by
      rw [← Bool.not_eq_true, hP.holder, hb.holder.1 hholds, Option.some.injEq]
      exact hne
    obtain ⟨rfl, hnext⟩ := heffect.frame hout
    rw [hns, hnext, List.append_nil]
    exact hb.hand hholds

end Rotation

/-! ## The key of a seal -/

section Sealing

variable {T : Type*} {A : Aead} {s₀ : ExpresslaneSession}
  {log log' : List (Entry T Call Note Result)} {lo hi hi' : ℕ} {args : EncryptArgs} {out : Bytes}
  {n : ℕ}

/-- At some moment after the entry `lo` of the log and not after the entry `hi`, a session with the
key that was active then would have encrypted as it was done. -/
def SealedWithin (A : Aead) (s₀ : ExpresslaneSession) (log : List (Entry T Call Note Result))
    (lo hi : ℕ) (args : EncryptArgs) (out : Bytes) (n : ℕ) : Prop :=
  ∃ p, lo < p ∧ p ≤ hi ∧ ∃ sender sender' : ExpresslaneSession,
    sender.version = s₀.version ∧
    sender.currentSelf = activeKey s₀.currentSelf (notes (log.take p)) ∧
    args.run A sender = some (sender', out, .ok n)

theorem SealedWithin.mono (h : SealedWithin A s₀ log lo hi args out n) (hle : hi ≤ hi')
    (hlog : ∀ p, p ≤ hi → log'.take p = log.take p) : SealedWithin A s₀ log' lo hi' args out n := by
  obtain ⟨p, hlo, hhi, sender, sender', hversion, hkey, hrun⟩ := h
  exact ⟨p, hlo, hhi.trans hle, sender, sender', hversion, by rw [hlog p hhi, hkey], hrun⟩

/-- The packet that a call has sealed and not yet returned. -/
def SharedSession.Pc.sealed : Pc → Option (Bytes × ℕ)
  | .encryptRelease out (.ok n) => some (out, n)
  | .encryptCount out n => some (out, n)
  | _ => none

/-- The same for a step that has just been made. -/
def sealedBy : Move Pc Result → Option (Bytes × ℕ)
  | .goto pc => pc.sealed
  | .ret (.encrypted out (.ok n)) => some (out, n)
  | .ret _ => none

variable [DecidableEq T]

/-- A packet that `encrypt` carries along was sealed in this step, or before. -/
theorem sealed_of_step {t : T} {m m' : SharedSession T} {pc : Pc} {mv : Move Pc Result}
    {ns : List Note} (h : SharedSession.encrypt A t args m pc = some (m', mv, ns))
    (hsealed : sealedBy mv = some (out, n)) :
    pc.sealed = some (out, n) ∨ ∃ s', args.run A m.session = some (s', out, .ok n) := by
  cases transition_of_encrypt h with
  | encryptRejected => cases hsealed
  | encryptLock => cases hsealed
  | encryptSeal _ s' out' result hrun =>
    cases result with
    | error e => cases hsealed
    | ok n' =>
      obtain ⟨rfl, rfl⟩ := Prod.mk.inj (Option.some.inj hsealed)
      exact Or.inr ⟨s', hrun⟩
  | encryptFail => cases hsealed
  | encryptRelease => exact Or.inl hsealed
  | encryptCount => exact Or.inl hsealed

/-- The invariant of `encrypt`. -/
structure Sealing (A : Aead) (s₀ : ExpresslaneSession) (m : SharedSession T)
    (log : List (Entry T Call Note Result)) : Prop where
  version : m.session.version = s₀.version
  current : m.session.currentSelf = activeKey s₀.currentSelf (notes log)
  returned : ∀ j t started args out n,
    log[j]? = some ⟨t, .returned started (.encrypt args) (.encrypted out (.ok n))⟩ →
      SealedWithin A s₀ log started j args out n

/-- What holds of a thread in `encrypt`. -/
def InSealing (A : Aead) (s₀ : ExpresslaneSession) (log : List (Entry T Call Note Result)) :
    Activity Call Pc → Prop
  | .running started (.encrypt args) pc => started < log.length ∧
      ∀ out n, pc.sealed = some (out, n) → SealedWithin A s₀ log started log.length args out n
  | _ => True

omit [DecidableEq T] in
/-- New entries keep what is known of the returns, if it is known of the new ones. -/
theorem returned_append {fresh : List (Entry T Call Note Result)}
    (h : ∀ j t started args out n,
      log[j]? = some ⟨t, .returned started (.encrypt args) (.encrypted out (.ok n))⟩ →
        SealedWithin A s₀ log started j args out n)
    (hfresh : ∀ t started args out n,
      (⟨t, .returned started (.encrypt args) (.encrypted out (.ok n))⟩ :
        Entry T Call Note Result) ∈ fresh →
      SealedWithin A s₀ log started log.length args out n) :
    ∀ j t started args out n, (log ++ fresh)[j]? =
        some ⟨t, .returned started (.encrypt args) (.encrypted out (.ok n))⟩ →
      SealedWithin A s₀ (log ++ fresh) started j args out n := by
  intro j t started args out n hj
  have htake : ∀ p, p ≤ log.length → (log ++ fresh).take p = log.take p := fun p hp =>
    List.take_append_of_le_length hp
  rcases Nat.lt_or_ge j log.length with hlt | hge
  · rw [List.getElem?_append_left hlt] at hj
    exact (h j t started args out n hj).mono le_rfl fun p hp => htake p (by omega)
  · rw [List.getElem?_append_right hge] at hj
    exact (hfresh t started args out n (List.mem_of_getElem? hj)).mono hge htake

omit [DecidableEq T] in
/-- New entries keep what is known of a thread. -/
theorem InSealing.append {b : Activity Call Pc} (h : InSealing A s₀ log b)
    (fresh : List (Entry T Call Note Result)) : InSealing A s₀ (log ++ fresh) b := by
  cases b with
  | idle => trivial
  | running started c pc =>
    cases c with
    | encrypt args =>
      obtain ⟨hlt, hsealed⟩ := h
      refine ⟨by rw [List.length_append]; omega, fun out n hpc => ?_⟩
      exact (hsealed out n hpc).mono (by simp) fun p hp => List.take_append_of_le_length hp
    | _ => trivial

/-- A packet that is sealed in a step is sealed under the key that is active now; one that was
sealed before is known. -/
theorem Sealing.of_step {t : T} {m m' : SharedSession T} {pc : Pc} {mv : Move Pc Result}
    {ns : List Note} {started : ℕ} (hG : Sealing A s₀ m log)
    (hP : InSealing A s₀ log (.running started (.encrypt args) pc))
    (h : SharedSession.encrypt A t args m pc = some (m', mv, ns))
    (hsealed : sealedBy mv = some (out, n)) :
    SealedWithin A s₀ log started log.length args out n := by
  rcases sealed_of_step h hsealed with hpc | ⟨s', hrun⟩
  · exact hP.2 out n hpc
  · refine ⟨log.length, hP.1, le_rfl, m.session, s', hG.version, ?_, hrun⟩
    rw [List.take_length]
    exact hG.current

/-- **Every seal is made under a key that is active at that moment.** -/
theorem outline_sealing (A : Aead) (s₀ : ExpresslaneSession) :
    Outline (sessionObject A) (Sealing (T := T) A s₀) fun _ _ log a => InSealing A s₀ log a where
  own {t m log a m' log' a'} h hG hP := by
    obtain ⟨⟨ns, hns, heffect⟩, hgrows⟩ := turn_effect h
    have hversion := hgrows.version.trans hG.version
    have hcurrent : m'.session.currentSelf = activeKey s₀.currentSelf (notes log') :=
      hns ▸ current_of_effect heffect hG.current
    cases h with
    | call _ c =>
      refine ⟨⟨hversion, hcurrent, returned_append hG.returned (by simp)⟩, ?_⟩
      cases c with
      | encrypt args => exact ⟨by simp, nofun⟩
      | _ => trivial
    | @goto _ _ started c pc pc' ns h =>
      refine ⟨⟨hversion, hcurrent, returned_append hG.returned fun t started args out n hmem => ?_⟩,
        ?_⟩
      · obtain ⟨_, -, hn⟩ := List.mem_map.1 hmem
        simp at hn
      · cases c with
        | encrypt args =>
          have hnow : InSealing A s₀ log (.running started (.encrypt args) pc') :=
            ⟨hP.1, fun out n hpc' => hG.of_step hP h hpc'⟩
          exact hnow.append _
        | _ => trivial
    | @ret _ _ started c pc r ns h =>
      refine ⟨⟨hversion, hcurrent, ?_⟩, trivial⟩
      rw [List.append_assoc]
      refine returned_append hG.returned fun t' started' args out n hmem => ?_
      rcases List.mem_append.1 hmem with hmem | hmem
      · obtain ⟨_, -, hn⟩ := List.mem_map.1 hmem
        simp at hn
      · obtain ⟨-, hevent⟩ := Entry.mk.inj (List.mem_singleton.1 hmem)
        obtain ⟨rfl, rfl, rfl⟩ := Event.returned.inj hevent
        exact hG.of_step hP h rfl
  others {t m log a m' log' a'} h hG hP u b hne hb := by
    obtain ⟨fresh, rfl, -⟩ := h.log_eq
    exact hb.append fresh

end Sealing

/-! ## Rotation never rolls back -/

section Main

variable {T : Type*} [DecidableEq T]

theorem mem_stagings {cipher : Cipher} {ns : List Note} :
    cipher ∈ stagings ns ↔ Note.staged cipher ∈ ns := by
  constructor
  · intro h
    obtain ⟨n, hn, hcipher⟩ := List.mem_filterMap.1 h
    cases n with
    | staged c => rwa [← Option.some.inj hcipher]
    | _ => cases hcipher
  · exact fun h => List.mem_filterMap.2 ⟨_, h, rfl⟩

/-- The machine is never stuck, and its slot is `next_self`. -/
theorem exists_replay {A : Aead} {version : ExpresslaneVersion}
    {c : Config T (SharedSession T) Call Pc Note Result}
    (h : Reachable (sessionObject A) (unused (.new version)) c) :
    ∃ hand, Rotation.empty.replay (notes c.log) = some ⟨c.shared.session.nextSelf, hand⟩ := by
  obtain ⟨hG, hP⟩ := (outline_rotation A).run h ⟨fun _ => rfl, rfl, by simp [notes]⟩
    fun t => ⟨by simp [place, Pc.holdsNext, unused], nofun, nofun⟩
  cases hholder : c.shared.nextSelfHolder with
  | none => exact ⟨none, hG.free hholder⟩
  | some t => exact ⟨_, (hP t).hand ((hP t).holder.2 hholder)⟩

omit [DecidableEq T] in
/-- A promotion that finds nothing staged takes the mutex, looks and returns. -/
theorem promoteSelfKey_nothing {t : T} {m m' : SharedSession T} {pc : Pc} {mv : Move Pc Result}
    {ns : List Note} (h : SharedSession.promoteSelfKey t m pc = some (m', mv, ns))
    (hpc : pc = .start ∨ (pc = .promoteTake ∧ m.session.nextSelf = none) ∨
      pc = .promoteUnlock false) :
    m'.session = m.session ∧ ns = [] ∧
      (mv = .goto .promoteTake ∨ mv = .goto (.promoteUnlock false) ∨
        mv = .ret (.promoted false)) := by
  rcases hpc with rfl | ⟨rfl, hnext⟩ | rfl
  · simp only [SharedSession.promoteSelfKey] at h
    split_ifs at h
    obtain ⟨rfl, rfl, rfl⟩ := h
    simp
  · simp only [SharedSession.promoteSelfKey, hnext] at h
    obtain ⟨rfl, rfl, rfl⟩ := h
    simp
  · obtain ⟨rfl, rfl, rfl⟩ := h
    simp

/-- **Send-key rotation never rolls back.** In every run of any number of threads, the installs of
the active key are events of the machine of a rotation, and so a subsequence of the stagings: each
staging is installed at most once, none that was overwritten is, and none after a later one. The
all-zero key is never staged and never active. A promotion that finds nothing staged changes
nothing. And every packet that `encrypt` has returned is the packet of a seal under the key that was
active at some moment between the call and the return. -/
theorem rotation_never_rolls_back (A : Aead) (version : ExpresslaneVersion)
    {c : Config T (SharedSession T) Call Pc Note Result}
    (h : Reachable (sessionObject A) (unused (.new version)) c) :
    (∃ r, Rotation.empty.replay (notes c.log) = some r) ∧
    (installs (notes c.log)).Sublist (stagings (notes c.log)) ∧
    c.shared.session.currentSelf = (installs (notes c.log)).getLast? ∧
    (∀ cipher, Note.staged cipher ∈ notes c.log ∨ c.shared.session.nextSelf = some cipher ∨
      c.shared.session.currentSelf = some cipher → cipher.key.isInvalid = false) ∧
    (∀ t started pc m' mv ns, c.threads t = .running started .promoteSelfKey pc →
      (pc = .start ∨ (pc = .promoteTake ∧ c.shared.session.nextSelf = none) ∨
        pc = .promoteUnlock false) →
      (sessionObject A).step t .promoteSelfKey c.shared pc = some (m', mv, ns) →
        m'.session = c.shared.session ∧ ns = [] ∧
          (mv = .goto .promoteTake ∨ mv = .goto (.promoteUnlock false) ∨
            mv = .ret (.promoted false))) ∧
    ∀ j t started args out n,
      c.log[j]? = some ⟨t, .returned started (.encrypt args) (.encrypted out (.ok n))⟩ →
        ∃ p cipher ct tag, started < p ∧ p ≤ j ∧
          (installs (notes (c.log.take p))).getLast? = some cipher ∧
          A.sealInPlace cipher.key args.iv
            (aadOf version args.sessionId args.counter (ExpresslaneSession.flagsOf args.isEncoded))
            args.plainText = some (ct, tag) ∧
          out.take n = ExpresslaneSession.packetBytes args.counter args.plainText args.iv
            args.isEncoded ct tag := by
  have hactive : ∀ ns, activeKey none ns = (installs ns).getLast? := fun ns => Option.or_none
  obtain ⟨hrotating, -⟩ := (outline_rotation A).run h ⟨fun _ => rfl, rfl, by simp [notes]⟩
    fun t => ⟨by simp [place, Pc.holdsNext, unused], nofun, nofun⟩
  obtain ⟨hsealing, -⟩ := (outline_sealing A (.new version)).run h
    ⟨rfl, rfl, fun _ _ _ _ _ _ h => absurd h (by simp)⟩ fun _ => trivial
  obtain ⟨hand, hreplay⟩ := exists_replay h
  have hsub := Rotation.sublist_of_replay hreplay
  have hinstalls : (installs (notes c.log)).Sublist (stagings (notes c.log)) :=
    (List.sublist_append_left _ _).trans hsub
  have hcurrent := hrotating.current.trans (hactive _)
  refine ⟨⟨_, hreplay⟩, hinstalls, hcurrent, ?_, ?_, ?_⟩
  · rintro cipher (hmem | hnext | hcur)
    · exact hrotating.valid cipher hmem
    · refine hrotating.valid cipher (mem_stagings.1 (hsub.subset ?_))
      simp [hnext]
    · refine hrotating.valid cipher (mem_stagings.1 (hinstalls.subset ?_))
      exact List.mem_of_getLast? (hcurrent.symm.trans hcur)
  · intro t started pc m' mv ns _ hpc hstep
    exact promoteSelfKey_nothing hstep hpc
  · intro j t started args out n hj
    obtain ⟨p, hlo, hhi, sender, sender', hversion, hkey, hrun⟩ :=
      hsealing.returned j t started args out n hj
    obtain ⟨ct, tag, ⟨cipher, hcipher, hseal⟩, hpacket⟩ :=
      ExpresslaneSession.packetBytes_of_encrypt_ok A sender _ _ _ _ _ _ hrun
    rw [hversion] at hseal
    rw [hcipher] at hkey
    exact ⟨p, cipher, ct, tag, hlo, hhi, (hactive _).symm.trans hkey.symm, hseal, hpacket⟩

end Main

/-- The packet that is encrypted in the run below. -/
def firstPacket : EncryptArgs where
  counter := 7#64
  sessionId := Vector.replicate 8 3
  plainText := [1, 2, 3]
  iv := Vector.replicate 12 6
  isEncoded := true
  out := List.replicate 43 0
  left := zeroLeftover

/-- One thread stages a key, another one promotes it, and the first one encrypts. -/
def rotatedConfig : Config Bool (SharedSession Bool) Call Pc Note Result where
  shared := unused
    { ((ExpresslaneSession.new .version2).updateNextSelfKey (constKey 1)).1.promoteSelfKey with
      packetsSent := 1#64 }
  threads _ := .idle
  log :=
    [⟨true, .called (.updateNextSelfKey (constKey 1))⟩,
      ⟨true, .noted (.staged ⟨constKey 1⟩)⟩,
      ⟨true, .returned 0 (.updateNextSelfKey (constKey 1)) (.done (.ok ()))⟩,
      ⟨false, .called .promoteSelfKey⟩,
      ⟨false, .noted (.took ⟨constKey 1⟩)⟩,
      ⟨false, .noted (.installed ⟨constKey 1⟩)⟩,
      ⟨false, .returned 3 .promoteSelfKey (.promoted true)⟩,
      ⟨true, .called (.encrypt firstPacket)⟩,
      ⟨true, .returned 7 (.encrypt firstPacket) (.encrypted
        (ExpresslaneSession.packetBytes 7#64 [1, 2, 3] (Vector.replicate 12 6) true [1, 2, 3]
          (Vector.replicate 16 1)) (.ok 43))⟩]

theorem reachable_rotatedConfig :
    Reachable (sessionObject keyTagAead) (unused (.new .version2)) rotatedConfig := by
  have hinit : Reachable (sessionObject (T := Bool) keyTagAead) (unused (.new .version2))
    (.init (unused (.new .version2))) := .refl
  have hstaged := hinit.solo (t := true) rfl
    (solo_of_run true (.updateNextSelfKey (constKey 1)) rfl)
  have hpromoted := hstaged.solo (t := false) rfl (solo_of_run false .promoteSelfKey rfl)
  exact hpromoted.solo (t := true) rfl (solo_of_run true (.encrypt firstPacket) rfl)

/-- The packet was sealed under a key that was active during the call. -/
theorem rotation_never_rolls_back_rotatedConfig :
    ∃ p cipher, 7 < p ∧ p ≤ 8 ∧
      (installs (notes (rotatedConfig.log.take p))).getLast? = some cipher := by
  obtain ⟨-, -, -, -, -, hsealed⟩ :=
    rotation_never_rolls_back keyTagAead .version2 reachable_rotatedConfig
  obtain ⟨p, cipher, ct, tag, hlo, hhi, hactive, -⟩ := hsealed 8 true 7 firstPacket _ 43 rfl
  exact ⟨p, cipher, hlo, hhi, hactive⟩

end LightwayCffi.Expresslane
