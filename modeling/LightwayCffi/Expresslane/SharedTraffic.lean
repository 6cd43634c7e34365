import LightwayCffi.Expresslane.Linearizable

/-!
# What many threads send and receive

The accounts of a session that is used by many threads at once. The sequential session that
explains a run (`Linearizable`) keeps them, and they carry over to the log of the run: the packets
that `decrypt` lets through have different counters whichever threads receive them, and the
statistics are exact whenever no call is under way.
-/

namespace LightwayCffi.Expresslane

open ConcurrentObject

namespace SharedSession

variable {T : Type*}

/-- The counter of a packet that a call let through. -/
def accepted (p : Point T Call Result) : Option (BitVec 64) :=
  match p.call, p.result with
  | .decrypt args, .decrypted _ (.ok _) => some (wireCounter args.wirePacket)
  | _, _ => none

/-- The counter of a packet that a call sealed. -/
def sealed (p : Point T Call Result) : Option (BitVec 64) :=
  match p.call, p.result with
  | .encrypt args, .encrypted _ (.ok _) => some args.counter
  | _, _ => none

/-- A call has the outcome of an operation, with the packet that it sealed or let through. -/
theorem Spec.exists_outcome {A : Aead} {s s' : ExpresslaneSession} {p : Point T Call Result}
    (h : Spec A s p.call s' p.result) :
    ∃ op fresh, Outcome A s s' op fresh ∧ decryptedCounters fresh = (accepted p).toList ∧
      encryptedCounters fresh = (sealed p).toList := by
  obtain ⟨t, started, call, r⟩ := p
  cases h with
  | early => exact ⟨.promoteSelfKey, [], .quiet _ rfl rfl, rfl, rfl⟩
  | @run _ _ _ ns h =>
    cases call with
    | hasValidKeys =>
      obtain ⟨rfl, rfl, rfl⟩ := h
      exact ⟨.promoteSelfKey, [], .quiet _ rfl rfl, rfl, rfl⟩
    | reserveCounter =>
      obtain ⟨rfl, rfl, rfl⟩ := h
      have hop : Op.reserveCounter.run A s = some (_, []) := rfl
      exact ⟨_, [], Op.run_outcome hop, rfl, rfl⟩
    | updateNextSelfKey key =>
      obtain ⟨rfl, rfl, rfl⟩ := h
      have hop : (Op.updateNextSelfKey key).run A s = some (_, []) := rfl
      exact ⟨_, [], Op.run_outcome hop, rfl, rfl⟩
    | promoteSelfKey =>
      obtain ⟨rfl, rfl, rfl⟩ := h
      have hop : Op.promoteSelfKey.run A s = some (_, []) := rfl
      exact ⟨_, [], Op.run_outcome hop, rfl, rfl⟩
    | updatePeerKey key =>
      obtain ⟨rfl, rfl, rfl⟩ := h
      have hop : (Op.updatePeerKey key).run A s = some (_, []) := rfl
      exact ⟨_, [], Op.run_outcome hop, rfl, rfl⟩
    | encrypt args =>
      obtain ⟨⟨s₁, out, result⟩, hrun, heq⟩ := Option.map_eq_some_iff.1 h
      obtain ⟨rfl, rfl, rfl⟩ := heq
      cases result with
      | error e =>
        rw [s.encrypt_error A _ _ _ _ _ _ hrun]
        exact ⟨.promoteSelfKey, [], .quiet _ rfl rfl, rfl, rfl⟩
      | ok n =>
        obtain ⟨call, hseal, rfl, -⟩ := s.encrypt_ok A _ _ _ _ _ args.out hrun
        exact ⟨.encrypt _ _ _ _ _ args.out args.left, _, .sent hseal rfl rfl, rfl, rfl⟩
    | decrypt args =>
      obtain ⟨⟨s₁, out, result⟩, hrun, heq⟩ := Option.map_eq_some_iff.1 h
      obtain ⟨rfl, rfl, rfl⟩ := heq
      cases result with
      | error e =>
        rw [s.decrypt_error A _ hrun]
        exact ⟨.promoteSelfKey, [], .quiet _ rfl rfl, rfl, rfl⟩
      | ok r =>
        have hop : (Op.decrypt args.sessionId args.wirePacket args.out args.left args.leftPrev).run
            A s = some (_, [.decrypted (wireCounter args.wirePacket) (out.take r.1)]) :=
          Option.bind_eq_some_iff.2 ⟨_, hrun, rfl⟩
        exact ⟨_, _, Op.run_outcome hop, rfl, rfl⟩

/-- The points so far, in the books of the sequential session. -/
structure Account (points : List (Point T Call Result)) (s : ExpresslaneSession) : Prop where
  receiving : Receiving s.rx (points.filterMap accepted)
  sent : s.packetsSent = BitVec.ofNat 64 (points.filterMap sealed).length

/-- One more point is entered in the books. -/
theorem Account.concat {A : Aead} {points : List (Point T Call Result)} {s s' : ExpresslaneSession}
    {p : Point T Call Result} (h : Account points s) (hp : Spec A s p.call s' p.result) :
    Account (points ++ [p]) s' := by
  obtain ⟨op, fresh, houtcome, hdecrypted, hencrypted⟩ := hp.exists_outcome
  have hlast : ∀ f : Point T Call Result → Option (BitVec 64),
      (points ++ [p]).filterMap f = points.filterMap f ++ (f p).toList := by
    intro f
    rw [List.filterMap_append, List.filterMap_cons, List.filterMap_nil]
    cases f p <;> rfl
  refine ⟨?_, ?_⟩
  · rw [hlast, ← hdecrypted]
    exact h.receiving.step houtcome
  · rw [hlast, ← hencrypted, List.length_append, BitVec.ofNat_add, ← h.sent]
    exact houtcome.packetsSent

/-- **The books of every sequential run.** -/
theorem account_of_sequential {A : Aead} {version : ExpresslaneVersion}
    {points : List (Point T Call Result)} {s : ExpresslaneSession}
    (h : Sequential (Spec A) (.new version) points s) : Account points s := by
  induction h with
  | nil => exact ⟨receiving_new version, rfl⟩
  | concat _ hp ih => exact ih.concat hp

/-! ## The log of a run -/

variable [DecidableEq T] {A : Aead} {version : ExpresslaneVersion}
  {c : Config T (SharedSession T) Call Pc Note Result}

/-- A run has a sequential explanation, with its books. -/
theorem exists_account (h : Reachable (sessionObject A) (unused (.new version)) c) :
    ∃ points s, Linearizes c.log points ∧ Account points s ∧
      Shows c.shared (places c.threads) s := by
  obtain ⟨points, s, hseq, hlin, hshows⟩ :=
    (simulation_session A _).linearizable h (shows_unused (.new version))
  exact ⟨points, s, hlin, account_of_sequential hseq, hshows⟩

/-- **No packet is let through twice.** Whatever threads call `decrypt` in whatever interleaving,
with key installations and everything else going on, the calls that return with a plaintext have
different counters. -/
theorem shared_decrypt_no_replay (A : Aead) (version : ExpresslaneVersion)
    (h : Reachable (sessionObject A) (unused (.new version)) c) :
    ((answeredCalls c.log).filterMap accepted).Nodup := by
  obtain ⟨points, s, hlin, haccount, -⟩ := exists_account h
  have hsub : (answeredCalls c.log).Subperm points := by
    refine List.subperm_of_subset h.wellFormed.nodup_answeredCalls fun p hp => ?_
    obtain ⟨j, hj⟩ := mem_answeredCalls.1 hp
    exact hlin.returned j p hj
  obtain ⟨l, hperm, hsublist⟩ := hsub
  exact (hperm.filterMap accepted).nodup_iff.1
    (haccount.receiving.nodup.sublist (hsublist.filterMap accepted))

/-- Of the two threads that receive the same packet at once, one lets it through. -/
theorem shared_decrypt_no_replay_racingConfig :
    (answeredCalls racingConfig.log).filterMap accepted = [7#64] ∧
      ((answeredCalls racingConfig.log).filterMap accepted).Nodup :=
  ⟨congrArg (fun counter => [counter]) (wireCounter_encode deliveredHeader [1, 2, 3]),
    shared_decrypt_no_replay keyTagAead .version2 reachable_racingConfig⟩

/-- **The statistics are exact when no call is under way**: no packet is lost from `packets_sent` or
counted twice, although it is counted outside the locks, and `packets_received` is the number of
packets that were let through. -/
theorem shared_statistics_exact (A : Aead) (version : ExpresslaneVersion)
    (h : Reachable (sessionObject A) (unused (.new version)) c) (hidle : ∀ t, c.threads t = .idle) :
    c.shared.session.packetsSent = BitVec.ofNat 64 ((answeredCalls c.log).filterMap sealed).length ∧
      c.shared.session.packetsReceived =
        BitVec.ofNat 64 ((answeredCalls c.log).filterMap accepted).length := by
  obtain ⟨points, s, hlin, haccount, hshows⟩ := exists_account h
  have hperm := hlin.perm_answeredCalls h hidle
  rw [hshows.eq_unused hidle, ← (hperm.filterMap sealed).length_eq,
    ← (hperm.filterMap accepted).length_eq]
  refine ⟨haccount.sent, ?_⟩
  have hreceived := haccount.receiving.window.received
  rwa [List.length_map, List.length_reverse] at hreceived

/-- The call by which two threads send at once in the run below. -/
def sendingCall : Call :=
  .encrypt ⟨7#64, Vector.replicate 8 3, [1, 2, 3], Vector.replicate 12 6, true,
    List.replicate 43 0, zeroLeftover⟩

/-- The two threads of `racingConfig` go on: one of them installs a send key, and then both send,
the one that was called last first. -/
theorem exists_sendingConfig :
    ∃ c : Config Bool (SharedSession Bool) Call Pc Note Result,
      Reachable (sessionObject keyTagAead) (unused (.new .version2)) c ∧
      (∀ t, c.threads t = .idle) ∧
      ((answeredCalls c.log).filterMap sealed).length = 2 ∧
      ((answeredCalls c.log).filterMap accepted).length = 1 := by
  have hstaged := reachable_racingConfig.solo (t := true) rfl
    (solo_of_run true (.updateNextSelfKey (constKey 1)) rfl)
  have hkeyed := hstaged.solo (t := true) rfl (solo_of_run true .promoteSelfKey rfl)
  have hfirst := hkeyed.tail (.turn true (.call _ _ sendingCall))
  have hsecond := hfirst.tail (.turn false (.call _ _ sendingCall))
  have hovertaken := hsecond.trans ((solo_of_run false sendingCall rfl).steps rfl _)
  have hdone := hovertaken.trans ((solo_of_run true sendingCall rfl).steps rfl _)
  refine ⟨_, hdone, fun t => ?_, rfl, rfl⟩
  cases t <;> rfl

/-- Two packets that were sent at once are both counted, and one that two threads received at once
is counted once. -/
theorem shared_statistics_exact_sendingConfig :
    ∃ c : Config Bool (SharedSession Bool) Call Pc Note Result,
      Reachable (sessionObject keyTagAead) (unused (.new .version2)) c ∧
      (∀ t, c.threads t = .idle) ∧
      c.shared.session.packetsSent = 2#64 ∧ c.shared.session.packetsReceived = 1#64 := by
  obtain ⟨c, hreach, hidle, hsealed, haccepted⟩ := exists_sendingConfig
  obtain ⟨hsent, hreceived⟩ := shared_statistics_exact keyTagAead .version2 hreach hidle
  rw [hsealed] at hsent
  rw [haccepted] at hreceived
  exact ⟨c, hreach, hidle, hsent, hreceived⟩

end SharedSession

end LightwayCffi.Expresslane
