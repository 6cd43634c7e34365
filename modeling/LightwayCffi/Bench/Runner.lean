import LightwayCffi.Bench.Arms
import Mathlib.Data.List.Rotate

/-!
# The benchmark runner

`run_all` takes samples of every arm, in an order that is permuted from round to round; all samples
use one output buffer and one sending session, and each has a receiving session of its own. Its
results carry the checksum of the first sample of each arm, whether the later ones had the same, and
how many operations succeeded. The report takes the numbers for valid only if

* all arms that decrypt have the same checksum, and so have all arms that encrypt with one cipher,
* the checksum of no arm has changed, but for the null arm, which shows what the previous sample has
  left in the buffer, and
* every operation was a success.

`runAll_valid` says that no sound run is rejected: with ciphers that work (`Works`), and two
implementations of one cipher that agree (`Alike`), these gates pass for every selection of arms,
every number of rounds and every number of samples that the calibration asks for, and the assertion
on the count of packets received holds after every sample. `selfTest_passes` says the same of the
test at the start.
-/

namespace LightwayCffi.Bench

open Expresslane Buffer Memory Loop

/-! ## The runner -/

/-- `Family`. -/
inductive Family
  | null
  | copy
  | dec
  | enc
  | encChaCha
  deriving DecidableEq

/-- `Spec`. -/
structure Spec where
  f : ArmFn
  family : Family
  coldOnly : Bool
  isSessionDec : Bool

/-- `specs`. -/
def specs : List Spec :=
  [⟨armNull, .null, false, false⟩,
   ⟨armCopy, .copy, false, false⟩,
   ⟨armRcAesgcmDec, .dec, false, false⟩,
   ⟨armRingAesgcmDec, .dec, false, false⟩,
   ⟨armRcChachaDec, .dec, false, false⟩,
   ⟨armSessionDec, .dec, true, true⟩,
   ⟨armRcAesgcmEnc, .enc, false, false⟩,
   ⟨armRingAesgcmEnc, .enc, false, false⟩,
   ⟨armRcChachaEnc, .encChaCha, false, false⟩,
   ⟨armSessionEnc, .enc, false, false⟩]

/-- `Keys`. -/
structure Keys where
  rc : Aead
  ring : Aead
  cc : Aead
  tx : ExpresslaneSession
  key : ExpresslaneKey

/-- `build_keys`, for any key and ciphers. -/
def buildKeys (rc ring cc : Aead) (key : ExpresslaneKey) : Option Keys := do
  let tx ← freshTx key
  pure ⟨rc, ring, cc, tx, key⟩

/-- `fresh_rx`. -/
def freshRx (keys : Keys) : Option ExpresslaneSession :=
  match (ExpresslaneSession.new .version2).updatePeerKey keys.key with
  | (rx, .ok ()) => some rx
  | (_, .error _) => none

/-- `Res`, without the times. -/
structure Res where
  hot : Bool
  family : Family
  totalOps : BitVec 64
  expectedOps : BitVec 64
  acc : BitVec 64
  accStable : Bool

/-- What a sample that counts does to the result of its arm. The sums wrap, as they do in a release
build. -/
def Res.record (r : Res) (acc ok n : BitVec 64) : Res :=
  { r with
    acc := if r.totalOps == 0#64 then acc else r.acc
    accStable := if r.totalOps == 0#64 then r.accStable else
      if r.acc != acc then false else r.accStable
    totalOps := r.totalOps + ok
    expectedOps := r.expectedOps + n }

/-- A sample to take: an arm, and whether it is hot. -/
abbrev Job := Spec × Bool

/-- What `run_all` has at hand before the first sample. -/
structure Rig where
  keys : Keys
  src : Src
  schedCold : Sched
  schedHot : Sched
  jobs : List Job
  noise : ℕ → Noise

/-- What changes from sample to sample: the output buffer, the sending session, the results, and the
number of samples so far. -/
structure Bed where
  dst : Region UInt8
  tx : ExpresslaneSession
  results : List Res
  clock : ℕ

namespace Rig

variable (rig : Rig)

def sched (hot : Bool) : Sched := if hot then rig.schedHot else rig.schedCold

/-- The context of a sample. -/
def ctx (rx tx : ExpresslaneSession) : Ctx :=
  ⟨rig.keys.rc, rig.keys.ring, rig.keys.cc, rig.keys.key, rx, tx, rig.src.sessionId⟩

/-- A fresh receiving session and `take_sample`. -/
def takeSample (job : Job) (b : Bed) : Option (Tally × Bed) := do
  let rx ← freshRx rig.keys
  let t ← job.1.f (rig.ctx rx b.tx) rig.src (rig.sched job.2) (rig.noise b.clock) b.dst
  pure (t, { b with dst := t.dst, tx := t.tx, clock := b.clock + 1 })

/-- A sample whose result is not used. -/
def discard (b : Bed) (job : Job) : Option Bed := do
  let (_, b) ← rig.takeSample job b
  pure b

/-- A sample that counts, with the assertion on the receiving session. -/
def measure (j : ℕ) (job : Job) (b : Bed) : Option Bed := do
  let (t, b) ← rig.takeSample job b
  let n := BitVec.ofNat 64 (rig.sched job.2).n
  let r ← b.results[j]?
  if job.1.isSessionDec && t.rx.packetsReceived != n then none
  else some { b with results := b.results.set j (r.record t.acc t.ok n) }

/-- The samples of a job in one round: two for warming up, then those that count. -/
def block (nSamples : ℕ → ℕ) (b : Bed) (j : ℕ) : Option Bed := do
  let job ← rig.jobs[j]?
  let b ← (List.range 2).foldlM (fun b _ => rig.discard b job) b
  (List.range (nSamples j)).foldlM (fun b _ => rig.measure j job b) b

/-- A round, with the order of the jobs. -/
def round (nSamples : ℕ → ℕ) (st : List ℕ × Bed) (k : ℕ) : Option (List ℕ × Bed) := do
  let order := st.1.rotate (k % max st.1.length 1)
  let order := if k % 2 == 1 then order.reverse else order
  let b ← order.foldlM (rig.block nSamples) st.2
  pure (order, b)

end Rig

/-- The jobs of a selection of arms. -/
def jobsOf (specs : List Spec) : List Job :=
  specs.flatMap fun s => (if s.coldOnly then [] else [(s, true)]) ++ [(s, false)]

/-- A result before the first sample. -/
def Res.init (job : Job) : Res := ⟨job.2, job.1.family, 0, 0, 0, true⟩

/-- `SEED`. -/
def seed : BitVec 64 := 0xC0FFEE015EED1350#64

/-- `run_all`. `estimate` is what the clock has shown in the calibration: the number of samples of
each job, before the bounds are applied. -/
def runAll (rounds : ℕ) (estimate : ℕ → ℕ) (noise : ℕ → Noise) (keys : Keys) (src : Src)
    (dst : Region UInt8) (specs : List Spec) : Option (List Res) := do
  let schedCold ← Sched.new src false (seed ^^^ 0xABCD#64)
  let schedHot ← Sched.new src true (seed ^^^ 0xABCD#64)
  let jobs := jobsOf specs
  let rig : Rig := ⟨keys, src, schedCold, schedHot, jobs, noise⟩
  let b ← jobs.foldlM rig.discard ⟨dst, keys.tx, jobs.map Res.init, 0⟩
  let nSamples := fun j => max 8 (min (estimate j) 512)
  let (_, b) ← (List.range rounds).foldlM (rig.round nSamples) (List.range jobs.length, b)
  pure b.results

/-- The gate on the successes. -/
def allOk (res : List Res) : Bool := res.all fun r => r.totalOps == r.expectedOps

/-- The gate on the checksums of each arm. -/
def allAcc (res : List Res) : Bool := (res.filter fun r => r.family != .null).all (·.accStable)

/-- One result of the loop in `family_ok`; `none` is its early return. -/
def sameAcc (seen : Option (BitVec 64)) (r : Res) : Option (Option (BitVec 64)) :=
  match seen with
  | none => some (some r.acc)
  | some v => if v != r.acc then none else some (some v)

/-- `family_ok`. -/
def familyOk (res : List Res) (fam : Family) : Bool :=
  [true, false].all fun hot =>
    ((res.filter fun r => r.family == fam && r.hot == hot).foldlM sameAcc none).isSome

/-- `SelfTest`. -/
structure SelfTest where
  rcRoundtrip : Bool
  ringRoundtrip : Bool
  ccRoundtrip : Bool
  sessionRoundtrip : Bool
  crossProviderCt : Bool

/-- A round trip in `self_test`: what is in the buffer after it, and the verdict. -/
def roundtrip (A : Aead) (key : ExpresslaneKey) (iv : Vector UInt8 12) (aad ct : Bytes)
    (tag : Vector UInt8 16) (expected : Bytes) (left : Leftover) : Bytes × Bool :=
  let (buf, r) := Cipher.decrypt A ⟨key⟩ iv aad ct tag left
  (buf, r.isOk && buf == expected)

/-- `self_test`, on the packets of the first slot. -/
def selfTest (keys : Keys) (src : Src) (noise : Noise) : Option SelfTest := do
  let w ← src.wire.read 0 (40 + src.len)
  let expected ← src.plain.read 0 src.len
  let counter := BitVec.ofNat 64 (ofBE (← slice w 0 8))
  let flags := BitVec.ofNat 16 (ofBE (← slice w 38 40))
  let aad := aadV2 src.sessionId counter flags
  let iv ← tryInto 12 (← slice w 8 20)
  let tag ← tryInto 16 (← slice w 20 36)
  let ct ← slice w 40 (40 + src.len)
  let (_, rcRoundtrip) := roundtrip keys.rc keys.key iv aad ct tag expected (noise.left 0)
  let (_, ringRoundtrip) := roundtrip keys.ring keys.key iv aad ct tag expected (noise.left 1)
  let wc ← src.wireCc.read 0 (40 + src.len)
  let ccTag ← tryInto 16 (← slice wc 20 36)
  let ctCc ← slice wc 40 (40 + src.len)
  let (buf, ccRoundtrip) := roundtrip keys.cc keys.key iv aad ctCc ccTag expected (noise.left 2)
  let rx ← freshRx keys
  let (_, buf, r) ← rx.decrypt keys.ring src.sessionId w buf (noise.left 3) (noise.leftPrev 3)
  let sessionRoundtrip := match r with
    | .ok (n, false) => n == src.len && buf == expected
    | _ => false
  let (a, ta) ← keys.rc.sealInPlace keys.key iv aad expected
  let (b, tb) ← keys.ring.sealInPlace keys.key iv aad expected
  pure ⟨rcRoundtrip, ringRoundtrip, ccRoundtrip, sessionRoundtrip, a == b && ta == tb⟩

/-! ## Passes -/

/-- The checksum that the arms of a family should have; for the null arm there is none. -/
def familySum (ring cc : Aead) (key : ExpresslaneKey) (s : Src) (sch : Sched) (hot : Bool) :
    Family → BitVec 64
  | .null => 0
  | .copy => (List.range s.slots).foldl (cipherMix s sch hot) 0
  | .dec => (List.range s.slots).foldl (plainMix s sch hot) 0
  | .enc => (List.range s.slots).foldl (sealMix ring key s sch hot) 0
  | .encChaCha => (List.range s.slots).foldl (sealMix cc key s sch hot) 0

/-- What an arm has to deliver. -/
structure Passed (c : Ctx) (s : Src) (sch : Sched) (job : Job) (t : Tally) : Prop where
  size : t.dst.size = s.slots * s.stride
  ok : t.ok = BitVec.ofNat 64 s.slots
  tx : Sends c.key t.tx
  acc : job.1.family ≠ .null → t.acc = familySum c.ring c.cc c.key s sch job.2 job.1.family
  received : job.1.isSessionDec = true → t.rx.packetsReceived = BitVec.ofNat 64 s.slots

section Arms

variable {c : Ctx} {s : Src} {sch : Sched} {hot : Bool} {noise : Noise} {dst : Region UInt8}

/-- An arm whose turns are all successes delivers, if its checksum is that of its family. -/
theorem Ready.exists_pass {turn : Ctx → Src → Sched → Noise → Tally → ℕ → Option Tally}
    {g : BitVec 64 → ℕ → BitVec 64} {job : Job} (hr : Ready c s job.2 sch)
    (hdst : dst.size = s.slots * s.stride) (htx : Sends c.key c.tx) (hf : job.1.f = arm turn)
    (hsession : job.1.isSessionDec = false)
    (hacc : (List.range s.slots).foldl g 0 = familySum c.ring c.cc c.key s sch job.2 job.1.family)
    (hturn : ∀ i < s.slots, ∀ t, Done s c.key g i t →
      ∃ t', turn c s sch noise t i = some t' ∧ Done s c.key g (i + 1) t') :
    ∃ t, job.1.f c s sch noise dst = some t ∧ Passed c s sch job t := by
  obtain ⟨t, ht, h⟩ := exists_arm hr hdst htx hturn
  refine ⟨t, hf ▸ ht, h.size, h.ok, h.tx, fun _ => h.acc.trans hacc, fun hdec => ?_⟩
  rw [hsession] at hdec
  exact absurd hdec Bool.false_ne_true

/-- The pool is also one of the other implementation. -/
theorem Ready.sealedAt_rc (hr : Ready c s hot sch) {k : ℕ} (hk : k < s.slots) :
    SealedAt c.rc c.key s.sessionId s.len s.stride s.plain s.wire k := by
  obtain ⟨ct, tag, hseal, hload⟩ := hr.pool.wire k hk
  have halike := hr.alike (ivFor (counterOf k)) (aadV2 s.sessionId (counterOf k) 0#16)
    (load s.plain.cell (k * s.stride) s.len) (by rw [length_load]; exact hr.len)
  exact ⟨ct, tag, halike.trans hseal, hload⟩

theorem Ready.sealMix_rc (hr : Ready c s hot sch) :
    sealMix c.rc c.key s sch hot = sealMix c.ring c.key s sch hot := by
  funext acc i
  rw [sealMix, hr.alike _ _ _ (by rw [length_plainAt]; exact hr.len)]
  rfl

/-- Every arm delivers, in every context. -/
theorem exists_pass {job : Job} (hspec : job.1 ∈ specs)
    (hcold : job.1.coldOnly = true → job.2 = false) (hr : Ready c s job.2 sch)
    (hdst : dst.size = s.slots * s.stride) (htx : Sends c.key c.tx)
    (hrx : Receives c.ring c.key 0 c.rx) :
    ∃ t, job.1.f c s sch noise dst = some t ∧ Passed c s sch job t := by
  obtain ⟨spec, hot⟩ := job
  simp only [specs, List.mem_cons, List.not_mem_nil, or_false] at hspec
  rcases hspec with rfl | rfl | rfl | rfl | rfl | rfl | rfl | rfl | rfl | rfl
  · obtain ⟨acc, h⟩ := exists_armNull hr noise hdst
    exact ⟨_, h, hdst, rfl, htx, fun hne => absurd rfl hne,
      fun hdec => absurd hdec Bool.false_ne_true⟩
  · exact hr.exists_pass hdst htx rfl rfl rfl fun i hi t h => exists_copyTurn hr hi h
  · exact hr.exists_pass hdst htx rfl rfl rfl fun i hi t h =>
      exists_decTurn hr hi hr.pool.size_wire (fun _ => hr.sealedAt_rc) h
  · exact hr.exists_pass hdst htx rfl rfl rfl fun i hi t h =>
      exists_decTurn hr hi hr.pool.size_wire hr.pool.wire h
  · exact hr.exists_pass hdst htx rfl rfl rfl fun i hi t h =>
      exists_decTurn hr hi hr.pool.size_wireCc hr.pool.wireCc h
  · obtain rfl : hot = false := hcold rfl
    obtain ⟨t, ht, h, hrx⟩ := exists_armSessionDec hr noise hdst htx hrx
    exact ⟨t, ht, h.size, h.ok, h.tx, fun _ => h.acc, fun _ => hrx.packetsReceived_eq⟩
  · exact hr.exists_pass hdst htx rfl rfl (congrArg (fun g => (List.range s.slots).foldl g 0)
      hr.sealMix_rc) fun i hi t h =>
        exists_encTurn hr hi (fun k hk => (hr.sealedAt_rc hk).exists_seals) h
  · exact hr.exists_pass hdst htx rfl rfl rfl fun i hi t h =>
      exists_encTurn hr hi (fun k hk => (hr.pool.wire k hk).exists_seals) h
  · exact hr.exists_pass hdst htx rfl rfl rfl fun i hi t h =>
      exists_encTurn hr hi (fun k hk => (hr.pool.wireCc k hk).exists_seals) h
  · exact hr.exists_pass hdst htx rfl rfl rfl fun i hi t h => exists_sessionEncTurn hr hi h

end Arms

/-! ## Runs -/

/-- A receiving session for each sample. -/
theorem exists_freshRx (A : Aead) (keys : Keys) (hvalid : keys.key.isInvalid = false) :
    ∃ rx, freshRx keys = some rx ∧ Receives A keys.key 0 rx := by
  have hkey : (ExpresslaneSession.new .version2).updatePeerKey keys.key =
      ({ ExpresslaneSession.new .version2 with
         rx := ⟨some ⟨keys.key⟩, none, ReplayWindow.default⟩
         peerKeyInstalled := true }, .ok ()) := by
    rw [ExpresslaneSession.updatePeerKey, if_neg (by simp [hvalid]), Cipher.new_eq]
    rfl
  have hreach := (@Reaches.new A .version2).step (.updatePeerKey keys.key)
    (by rw [Op.run, hkey])
  rw [freshRx, hkey]
  exact ⟨_, rfl, ⟨_, hreach, rfl⟩, rfl, rfl⟩

/-- The checksum that a result should have. -/
def Rig.want (rig : Rig) (fam : Family) (hot : Bool) : BitVec 64 :=
  familySum rig.keys.ring rig.keys.cc rig.keys.key rig.src (rig.sched hot) hot fam

/-- The rig is fit for every sample. -/
structure Rig.Sound (rig : Rig) : Prop where
  ready : ∀ hot rx tx, Ready (rig.ctx rx tx) rig.src hot (rig.sched hot)
  valid : rig.keys.key.isInvalid = false
  jobs : ∀ job ∈ rig.jobs, job.1 ∈ specs ∧ (job.1.coldOnly = true → job.2 = false)

/-- A result that passes the gates, if `want` is the checksum that it should have. -/
structure InOrder (want : BitVec 64) (r : Res) : Prop where
  ops : r.totalOps = r.expectedOps
  stable : r.family ≠ .null → r.accStable = true
  acc : r.family ≠ .null → r.totalOps ≠ 0 → r.acc = want

theorem InOrder.record {want acc : BitVec 64} {r : Res} (h : InOrder want r) (n : BitVec 64)
    (hacc : r.family ≠ .null → acc = want) :
    InOrder want (r.record acc n n) ∧ (r.family ≠ .null → (r.record acc n n).acc = want) := by
  have hnew : r.family ≠ .null → (r.record acc n n).acc = want := by
    intro hne
    rw [Res.record]
    dsimp only
    split_ifs with hzero
    · exact hacc hne
    · exact h.acc hne (by simpa using hzero)
  refine ⟨⟨?_, ?_, fun hne _ => hnew hne⟩, hnew⟩
  · rw [Res.record, h.ops]
  · intro hne
    have hstable := h.stable hne
    rw [Res.record]
    dsimp only
    split_ifs with hzero hdiff
    · exact hstable
    · rw [h.acc hne (by simpa using hzero), hacc hne] at hdiff
      simp at hdiff
    · exact hstable

/-- The state between two samples. -/
structure Steady (rig : Rig) (b : Bed) : Prop where
  size : b.dst.size = rig.src.slots * rig.src.stride
  tx : Sends rig.keys.key b.tx
  labels : b.results.map (fun r => (r.family, r.hot)) =
    rig.jobs.map fun job => (job.1.family, job.2)
  inOrder : ∀ r ∈ b.results, InOrder (rig.want r.family r.hot) r

/-- A sample of the job has been recorded. -/
def Sampled (rig : Rig) (b : Bed) (j : ℕ) : Prop :=
  ∀ r, b.results[j]? = some r → r.family ≠ .null → r.acc = rig.want r.family r.hot

section Run

variable {rig : Rig} {b : Bed} {job : Job} {j : ℕ}

theorem Steady.takeSample (h : Steady rig b) (hs : rig.Sound) (hjob : job ∈ rig.jobs) :
    ∃ rx t b', rig.takeSample job b = some (t, b') ∧ Steady rig b' ∧ b'.results = b.results ∧
      Passed (rig.ctx rx b.tx) rig.src (rig.sched job.2) job t := by
  obtain ⟨hspec, hcold⟩ := hs.jobs job hjob
  obtain ⟨rx, hfresh, hrx⟩ := exists_freshRx rig.keys.ring rig.keys hs.valid
  obtain ⟨t, ht, hpassed⟩ := exists_pass (c := rig.ctx rx b.tx) hspec hcold
    (hs.ready job.2 rx b.tx) h.size h.tx hrx
  refine ⟨rx, t, { b with dst := t.dst, tx := t.tx, clock := b.clock + 1 }, ?_,
    ⟨hpassed.size, hpassed.tx, h.labels, h.inOrder⟩, rfl, hpassed⟩
  rw [Rig.takeSample, hfresh]
  simp only [Option.bind_eq_bind, Option.bind_some]
  rw [ht]
  rfl

theorem Steady.discard (h : Steady rig b) (hs : rig.Sound) (hjob : job ∈ rig.jobs) :
    ∃ b', rig.discard b job = some b' ∧ Steady rig b' ∧ b'.results = b.results := by
  obtain ⟨-, t, b', hsample, h', hresults, -⟩ := h.takeSample hs hjob
  refine ⟨b', ?_, h', hresults⟩
  rw [Rig.discard, hsample]
  rfl

/-- The result of a job carries the labels of the job. -/
theorem Steady.exists_result (h : Steady rig b) (hj : rig.jobs[j]? = some job) :
    ∃ r, b.results[j]? = some r ∧ r.family = job.1.family ∧ r.hot = job.2 := by
  have hlabel := congrArg (·[j]?) h.labels
  simp only [List.getElem?_map, hj, Option.map_some] at hlabel
  obtain ⟨r, hr, hlabel⟩ := Option.map_eq_some_iff.1 hlabel
  exact ⟨r, hr, congrArg Prod.fst hlabel, congrArg Prod.snd hlabel⟩

/-- A sample that counts: the result of its job is replaced, the others are as they were. -/
theorem Steady.measure (h : Steady rig b) (hs : rig.Sound) (hj : rig.jobs[j]? = some job) :
    ∃ b', rig.measure j job b = some b' ∧ Steady rig b' ∧ Sampled rig b' j ∧
      ∀ k, Sampled rig b k → Sampled rig b' k := by
  obtain ⟨rx, t, b', hsample, h', hresults, hpassed⟩ :=
    h.takeSample hs (List.mem_of_getElem? hj)
  obtain ⟨r, hr, hfam, hhot⟩ := h'.exists_result hj
  have hn : (rig.sched job.2).n = rig.src.slots := (hs.ready job.2 rx b.tx).fits.n_eq
  obtain ⟨hrec, hacc⟩ := (h'.inOrder r (List.mem_of_getElem? hr)).record
    (BitVec.ofNat 64 rig.src.slots) (by
      rw [hfam, hhot]
      exact hpassed.acc)
  let r' := r.record t.acc (BitVec.ofNat 64 rig.src.slots) (BitVec.ofNat 64 rig.src.slots)
  have hmeasure : rig.measure j job b = some { b' with results := b'.results.set j r' } := by
    have hassert : (job.1.isSessionDec &&
        t.rx.packetsReceived != BitVec.ofNat 64 rig.src.slots) = false := by
      cases hdec : job.1.isSessionDec
      · rfl
      · rw [hpassed.received hdec, bne_self_eq_false]
        rfl
    simp only [Rig.measure, hsample, hr, hn, hassert, hpassed.ok, Option.bind_eq_bind,
      Option.bind_some, Bool.false_eq_true, if_false]
    rfl
  have hlt : j < b'.results.length := (List.getElem?_eq_some_iff.1 hr).1
  have hsampled : Sampled rig { b' with results := b'.results.set j r' } j := by
    intro r'' hr'' hne
    rw [List.getElem?_set_self hlt] at hr''
    obtain rfl := Option.some.inj hr''
    exact hacc hne
  refine ⟨_, hmeasure, ⟨h'.size, h'.tx, ?_, ?_⟩, hsampled, fun k hk => ?_⟩
  · -- The labels of the result are not changed by `record`.
    rw [← h'.labels, List.map_set]
    refine List.ext_getElem? fun k => ?_
    by_cases hkj : j = k
    · rw [← hkj, List.getElem?_set_self (by rwa [List.length_map]), List.getElem?_map, hr]
      rfl
    · rw [List.getElem?_set_ne hkj]
  · intro r'' hr''
    rcases List.mem_or_eq_of_mem_set hr'' with hold | rfl
    · exact h'.inOrder r'' hold
    · exact hrec
  · by_cases hkj : k = j
    · exact hkj ▸ hsampled
    · intro r'' hr''
      rw [List.getElem?_set_ne (Ne.symm hkj), hresults] at hr''
      exact hk r'' hr''

/-- The samples of a job in one round. -/
theorem Steady.block (h : Steady rig b) (hs : rig.Sound) {nSamples : ℕ → ℕ}
    (hsamples : 0 < nSamples j) (hj : j < rig.jobs.length) :
    ∃ b', rig.block nSamples b j = some b' ∧ Steady rig b' ∧ Sampled rig b' j ∧
      ∀ k, Sampled rig b k → Sampled rig b' k := by
  have hjob : rig.jobs[j]? = some (rig.jobs[j]) := List.getElem?_eq_getElem hj
  obtain ⟨b₁, hwarm, h₁, hresults⟩ := exists_foldlM_range (n := 2)
    (f := fun b _ => rig.discard b rig.jobs[j]) (fun _ b' => Steady rig b' ∧ b'.results = b.results)
    ⟨h, rfl⟩ fun i hi b' ⟨h', hb'⟩ => by
      obtain ⟨b'', hb'', h'', hr⟩ := h'.discard hs (List.getElem_mem hj)
      exact ⟨b'', hb'', h'', hr.trans hb'⟩
  have hkeep : ∀ k, Sampled rig b k → Sampled rig b₁ k := fun k hk r hr => hk r (hresults ▸ hr)
  obtain ⟨b₂, hcount, h₂, hold, hnew⟩ := exists_foldlM_range (n := nSamples j)
    (f := fun b _ => rig.measure j rig.jobs[j] b)
    (fun i b' => Steady rig b' ∧ (∀ k, Sampled rig b k → Sampled rig b' k) ∧
      (0 < i → Sampled rig b' j))
    ⟨h₁, hkeep, fun hlt => absurd hlt (lt_irrefl 0)⟩ fun i hi b' ⟨h', hold, _⟩ => by
      obtain ⟨b'', hb'', h'', hnew, hold'⟩ := h'.measure hs hjob
      exact ⟨b'', hb'', h'', fun k hk => hold' k (hold k hk), fun _ => hnew⟩
  refine ⟨b₂, ?_, h₂, hnew hsamples, hold⟩
  rw [Rig.block, hjob, Option.bind_eq_bind, Option.bind_some, hwarm]
  exact hcount

/-- The state after `n` rounds. -/
structure Rounds (rig : Rig) (n : ℕ) (st : List ℕ × Bed) : Prop where
  order : st.1.Perm (List.range rig.jobs.length)
  steady : Steady rig st.2
  sampled : 0 < n → ∀ j < rig.jobs.length, Sampled rig st.2 j
  fresh : n = 0 → st.2.results = rig.jobs.map Res.init

theorem Rounds.round {n : ℕ} {st : List ℕ × Bed} (h : Rounds rig n st) (hs : rig.Sound)
    {nSamples : ℕ → ℕ} (hsamples : ∀ j, 0 < nSamples j) :
    ∃ st', rig.round nSamples st n = some st' ∧ Rounds rig (n + 1) st' := by
  let rotated := st.1.rotate (n % max st.1.length 1)
  let order := if n % 2 == 1 then rotated.reverse else rotated
  have horder : order.Perm (List.range rig.jobs.length) := by
    have hrotated := (List.rotate_perm st.1 (n % max st.1.length 1)).trans h.order
    dsimp only [order]
    split_ifs
    · exact (List.reverse_perm _).trans hrotated
    · exact hrotated
  have hmem : ∀ j, j ∈ order ↔ j < rig.jobs.length := fun j =>
    horder.mem_iff.trans List.mem_range
  obtain ⟨b', hb', h', hall⟩ := exists_foldlM (f := rig.block nSamples) order
    (fun done b' => Steady rig b' ∧ ∀ j ∈ done, Sampled rig b' j)
    ⟨h.steady, fun j hj => absurd hj List.not_mem_nil⟩ fun j hj done b ⟨hb, hdone⟩ => by
      obtain ⟨b', hb', h', hnew, hold⟩ := hb.block hs (hsamples j) ((hmem j).1 hj)
      refine ⟨b', hb', h', fun k hk => ?_⟩
      rcases List.mem_append.1 hk with hk | hk
      · exact hold k (hdone k hk)
      · exact List.mem_singleton.1 hk ▸ hnew
  refine ⟨(order, b'), ?_, horder, h', fun _ j hj => hall j ((hmem j).2 hj),
    fun hzero => absurd hzero (Nat.succ_ne_zero n)⟩
  change (order.foldlM (rig.block nSamples) st.2 >>= fun b => pure (order, b)) = some (order, b')
  rw [hb']
  rfl

/-- The calibration and the rounds. -/
theorem exists_rounds (hs : rig.Sound) {dst : Region UInt8}
    (hdst : dst.size = rig.src.slots * rig.src.stride) (htx : Sends rig.keys.key rig.keys.tx)
    (nSamples : ℕ → ℕ) (hsamples : ∀ j, 0 < nSamples j) (rounds : ℕ) :
    ∃ b st, rig.jobs.foldlM rig.discard ⟨dst, rig.keys.tx, rig.jobs.map Res.init, 0⟩ = some b ∧
      (List.range rounds).foldlM (rig.round nSamples) (List.range rig.jobs.length, b) = some st ∧
      Rounds rig rounds st := by
  have hstart : Steady rig ⟨dst, rig.keys.tx, rig.jobs.map Res.init, 0⟩ := by
    refine ⟨hdst, htx, ?_, fun r hr => ?_⟩
    · rw [List.map_map]
      rfl
    · obtain ⟨job, -, rfl⟩ := List.mem_map.1 hr
      exact ⟨rfl, fun _ => rfl, fun _ hne => absurd rfl hne⟩
  obtain ⟨b, hb, h, hresults⟩ := exists_foldlM (f := rig.discard) rig.jobs
    (fun _ b => Steady rig b ∧ b.results = rig.jobs.map Res.init) ⟨hstart, rfl⟩
    fun job hjob _ b ⟨h, hb⟩ => by
      obtain ⟨b', hb', h', hr⟩ := h.discard hs hjob
      exact ⟨b', hb', h', hr.trans hb⟩
  obtain ⟨st, hst, hrounds⟩ := exists_foldlM_range (n := rounds) (f := rig.round nSamples)
    (s := (List.range rig.jobs.length, b)) (Rounds rig)
    ⟨.refl _, h, fun hlt => absurd hlt (lt_irrefl 0), fun _ => hresults⟩
    fun n _ st h => h.round hs hsamples
  exact ⟨b, st, hb, hst, hrounds⟩

/-! ## Gates -/

theorem isSome_sameAcc {l : List Res} {v : BitVec 64} (h : ∀ r ∈ l, r.acc = v) :
    (l.foldlM sameAcc none).isSome = true := by
  obtain ⟨seen, hseen, -⟩ := exists_foldlM (f := sameAcc) (s := none) l
    (fun _ seen => seen = none ∨ seen = some v) (Or.inl rfl) fun r hr _ seen hP => by
      rcases hP with rfl | rfl
      · exact ⟨_, rfl, Or.inr (congrArg some (h r hr))⟩
      · refine ⟨some v, ?_, Or.inr rfl⟩
        rw [sameAcc, h r hr]
        simp
  rw [hseen]
  rfl

theorem Rounds.familyOk {n : ℕ} {st : List ℕ × Bed} (h : Rounds rig n st) {fam : Family}
    (hfam : fam ≠ .null) : Bench.familyOk st.2.results fam = true := by
  rw [Bench.familyOk, List.all_eq_true]
  intro hot _
  rcases Nat.eq_zero_or_pos n with hzero | hpos
  · refine isSome_sameAcc (v := 0) fun r hr => ?_
    have hmem := List.mem_of_mem_filter hr
    rw [h.fresh hzero] at hmem
    obtain ⟨job, -, rfl⟩ := List.mem_map.1 hmem
    rfl
  · refine isSome_sameAcc (v := rig.want fam hot) fun r hr => ?_
    obtain ⟨hmem, hlabel⟩ := List.mem_filter.1 hr
    obtain ⟨rfl, rfl⟩ : r.family = fam ∧ r.hot = hot := by simpa using hlabel
    obtain ⟨j, hj, hget⟩ := List.getElem_of_mem hmem
    have hlen := congrArg List.length h.steady.labels
    rw [List.length_map, List.length_map] at hlen
    exact h.sampled hpos j (hlen ▸ hj) r (List.getElem?_eq_some_iff.2 ⟨hj, hget⟩) hfam

theorem Steady.allOk (h : Steady rig b) : Bench.allOk b.results = true := by
  rw [Bench.allOk, List.all_eq_true]
  intro r hr
  exact beq_iff_eq.2 (h.inOrder r hr).ops

theorem Steady.allAcc (h : Steady rig b) : Bench.allAcc b.results = true := by
  rw [Bench.allAcc, List.all_eq_true]
  intro r hr
  obtain ⟨hmem, hne⟩ := List.mem_filter.1 hr
  exact (h.inOrder r hmem).stable (by simpa using hne)

end Run

/-- A selection of arms gives jobs that can be run. -/
theorem jobsOf_sound {selection : List Spec} (hsel : ∀ spec ∈ selection, spec ∈ specs) :
    ∀ job ∈ jobsOf selection, job.1 ∈ specs ∧ (job.1.coldOnly = true → job.2 = false) := by
  intro job hjob
  obtain ⟨spec, hspec, hmem⟩ := List.mem_flatMap.1 hjob
  rcases List.mem_append.1 hmem with hhot | hcold
  · split_ifs at hhot with hcold
    · exact absurd hhot List.not_mem_nil
    · obtain rfl := List.mem_singleton.1 hhot
      exact ⟨hsel spec hspec, fun h => absurd h hcold⟩
  · obtain rfl := List.mem_singleton.1 hcold
    exact ⟨hsel spec hspec, fun _ => rfl⟩

/-- The cipher that masks the text and the tag, for texts up to a limit. -/
def maskAead (mask : UInt8) (limit : ℕ) : Aead where
  sealInPlace key _ _ plain :=
    if plain.length ≤ limit then some (plain.map (· ^^^ mask), (keyTag key).map (· ^^^ mask))
    else none
  openInPlace key _ _ ct tag :=
    if tag = (keyTag key).map (· ^^^ mask) then some (ct.map (· ^^^ mask)) else none
  length_seal h := by
    split_ifs at h
    obtain ⟨rfl, -⟩ := Prod.mk.inj (Option.some.inj h)
    exact List.length_map _
  length_open h := by
    split_ifs at h
    rw [← Option.some.inj h, List.length_map]
  open_seal h := by
    split_ifs at h
    obtain ⟨rfl, rfl⟩ := Prod.mk.inj (Option.some.inj h)
    have hself : (· ^^^ mask) ∘ (· ^^^ mask) = (id : UInt8 → UInt8) := by
      funext b
      rw [Function.comp_apply, UInt8.xor_assoc, UInt8.xor_self, UInt8.xor_zero, id_eq]
    rw [if_pos rfl, List.map_map, hself, List.map_id]

/-- Two implementations of one cipher, which differ in the length of the texts that they take, and a
second cipher. -/
def sampleRc : Aead := maskAead 7 65535

def sampleRing : Aead := maskAead 7 1048576

def sampleCc : Aead := maskAead 9 65535

theorem works_sampleRing : Works sampleRing sampleCc (constKey 1) where
  valid := by decide
  ring_seals _ _ plain h := ⟨_, _, if_pos (by omega)⟩
  cc_seals _ _ plain h := ⟨_, _, if_pos h⟩

theorem alike_sampleRc : Alike sampleRc sampleRing (constKey 1) :=
  fun _ _ plain h => (if_pos h).trans (if_pos (show plain.length ≤ 1048576 by omega)).symm

/-- Ciphers that leave zeros when they fail. -/
def zeroNoise : Noise := ⟨fun _ => zeroLeftover, fun _ => zeroLeftover⟩

section Valid

variable {rc ring cc : Aead} {key : ExpresslaneKey} {len maxSlots : ℕ}

/-- **A sound run is valid.** Let `ring` and `cc` work on packets, and let `rc` seal them as `ring`
does. Then the keys and a pool can be made for packets of any length from 8 on, and from then on, if
the pool has been limited to `2 ^ 32` packets, which a schedule can number, the runner does not
abort, whatever is in the output buffer, whichever arms are selected, and however many rounds and
samples there are: it ends with one result for each arm, hot and cold, in which every operation has
succeeded, no checksum has changed between samples, and the checksums are the same within the arms
that decrypt and within those that encrypt. -/
theorem runAll_valid (hworks : Works ring cc key) (halike : Alike rc ring key) (hlo : 8 ≤ len)
    (hhi : len ≤ 65535) (hmax : maxSlots ≤ 4294967296) (sessionId : Vector UInt8 8)
    (left : Leftover) (targetBytes : ℕ) (poolSeed : BitVec 64) {selection : List Spec}
    (hsel : ∀ spec ∈ selection, spec ∈ specs) (rounds : ℕ) (estimate : ℕ → ℕ)
    (noise : ℕ → Noise) :
    ∃ keys src, buildKeys rc ring cc key = some keys ∧
      Src.build ring cc key sessionId left len targetBytes maxSlots poolSeed = some src ∧
      ∀ dst : Region UInt8, dst.size = src.slots * src.stride →
        ∃ res, runAll rounds estimate noise keys src dst selection = some res ∧
          res.map (fun r => (r.family, r.hot)) =
            (jobsOf selection).map (fun job => (job.1.family, job.2)) ∧
          allOk res = true ∧ allAcc res = true ∧
          familyOk res .dec = true ∧ familyOk res .enc = true := by
  obtain ⟨tx, htx, hsends⟩ := exists_freshTx hworks
  obtain ⟨src, hsrc, hpool, rfl, rfl, hslots⟩ := exists_build hworks hhi sessionId left targetBytes
    maxSlots poolSeed
  have hslots : src.slots ≤ 4294967296 := by
    rw [hslots, slotsOf]
    omega
  refine ⟨⟨rc, ring, cc, tx, key⟩, src, ?_, hsrc, fun dst hdst => ?_⟩
  · rw [buildKeys, htx]
    rfl
  obtain ⟨cold, hcold, hfitsCold⟩ := exists_sched src false (seed ^^^ 0xABCD#64) hlo hhi hslots
  obtain ⟨hot, hhot, hfitsHot⟩ := exists_sched src true (seed ^^^ 0xABCD#64) hlo hhi hslots
  let rig : Rig := ⟨⟨rc, ring, cc, tx, key⟩, src, cold, hot, jobsOf selection, noise⟩
  have hs : rig.Sound := by
    refine ⟨fun b rx tx => ⟨hpool, ?_, rfl, hhi, hslots, halike⟩, hworks.valid, jobsOf_sound hsel⟩
    cases b
    · exact hfitsCold
    · exact hfitsHot
  obtain ⟨b, st, hb, hst, hrounds⟩ := exists_rounds hs hdst hsends
    (fun j => max 8 (min (estimate j) 512)) (fun j => by omega) rounds
  refine ⟨st.2.results, ?_, hrounds.steady.labels, hrounds.steady.allOk, hrounds.steady.allAcc,
    hrounds.familyOk (by decide), hrounds.familyOk (by decide)⟩
  simp only [runAll, hcold, hhot, Option.bind_eq_bind, Option.bind_some]
  rw [hb, Option.bind_some, hst]
  rfl

/-- One round of all arms. -/
theorem runAll_valid_specs : ∃ keys src,
    buildKeys sampleRc sampleRing sampleCc (constKey 1) = some keys ∧
      Src.build sampleRing sampleCc (constKey 1) (Vector.replicate 8 3) zeroLeftover 64 0 64
        5#64 = some src ∧
      ∃ res, runAll 1 (fun _ => 8) (fun _ => zeroNoise) keys src
          (Region.filled (src.slots * src.stride) 0) specs = some res ∧
        res.length = 19 ∧ allOk res = true ∧ familyOk res .dec = true ∧
        familyOk res .enc = true := by
  obtain ⟨keys, src, hkeys, hsrc, h⟩ := @runAll_valid sampleRc sampleRing sampleCc (constKey 1)
    64 64 works_sampleRing alike_sampleRc (by decide) (by decide) (by decide)
    (Vector.replicate 8 3) zeroLeftover 0 5#64 specs (fun _ h => h) 1 (fun _ => 8)
    (fun _ => zeroNoise)
  obtain ⟨res, hres, hlabels, hok, -, hdec, henc⟩ :=
    h (Region.filled (src.slots * src.stride) 0) rfl
  have hlen := congrArg List.length hlabels
  rw [List.length_map, List.length_map] at hlen
  exact ⟨keys, src, hkeys, hsrc, res, hres, hlen, hok, hdec, henc⟩

theorem roundtrip_of_seals {A : Aead} {sessionId : Vector UInt8 8} {k : ℕ} {p ct : Bytes}
    {tag : Vector UInt8 16} (h : Seals A key sessionId k p ct tag) (left : Leftover) :
    roundtrip A key (ivFor (counterOf k)) (aadV2 sessionId (counterOf k) 0#16) ct tag p left =
      (p, true) := by
  rw [roundtrip, Cipher.decrypt, A.open_seal h]
  simp [Except.isOk, Except.toBool]

/-- **The test at the start.** If `ring` and `cc` work on packets, and `rc` seals them as `ring`
does, every test passes on every pool. -/
theorem selfTest_passes (hworks : Works ring cc key) (halike : Alike rc ring key)
    (hhi : len ≤ 65535) (sessionId : Vector UInt8 8) (left : Leftover) (targetBytes : ℕ)
    (poolSeed : BitVec 64) (noise : Noise) :
    ∃ keys src, buildKeys rc ring cc key = some keys ∧
      Src.build ring cc key sessionId left len targetBytes maxSlots poolSeed = some src ∧
      selfTest keys src noise = some ⟨true, true, true, true, true⟩ := by
  obtain ⟨tx, htx, -⟩ := exists_freshTx hworks
  obtain ⟨src, hsrc, hpool, rfl, rfl, hslots⟩ := exists_build hworks hhi sessionId left targetBytes
    maxSlots poolSeed
  have hzero : 0 < src.slots := by
    rw [hslots, slotsOf]
    omega
  have hroom : src.len ≤ src.stride := by
    have hroom := hpool.room
    omega
  refine ⟨⟨rc, ring, cc, tx, key⟩, src, by rw [buildKeys, htx]; rfl, hsrc, ?_⟩
  obtain ⟨ct, tag, hseal, hload⟩ := hpool.wire 0 hzero
  obtain ⟨ctCc, tagCc, hsealCc, hloadCc⟩ := hpool.wireCc 0 hzero
  have hread := Region.read_slot hpool.size_wire hzero hpool.room
  have hreadCc := Region.read_slot hpool.size_wireCc hzero hpool.room
  have hplain := Region.read_slot hpool.size_plain hzero hroom
  obtain ⟨p, hp⟩ : ∃ p, load src.plain.cell (0 * src.stride) src.len = p := ⟨_, rfl⟩
  have hlen : p.length = src.len := hp ▸ length_load _ _ _
  rw [hp] at hseal hsealCc hplain
  obtain ⟨hcounter, hiv, htag, hflags, hbody⟩ := slices_packet (headerOf src.len 0 tag)
    ((ring.length_seal hseal).trans hlen)
  obtain ⟨-, -, htagCc, -, hbodyCc⟩ := slices_packet (headerOf src.len 0 tagCc)
    ((cc.length_seal hsealCc).trans hlen)
  obtain ⟨rx, hrx, hfresh⟩ := exists_freshRx ring ⟨rc, ring, cc, tx, key⟩ hworks.valid
  obtain ⟨rx', hdecrypt, -⟩ := hfresh.decrypt (c := ⟨rc, ring, cc, key, rx, tx, src.sessionId⟩)
    (by omega) hhi hlen hseal hlen (noise.left 3) (noise.leftPrev 3)
  rw [← hload] at hcounter hiv htag hflags hbody hdecrypt
  rw [← hloadCc] at htagCc hbodyCc
  rw [Nat.zero_mul] at *
  have hrc : Seals rc key src.sessionId 0 p ct tag :=
    (halike _ _ _ (by omega)).trans hseal
  rw [selfTest, hread, Option.bind_eq_bind, Option.bind_some, hplain]
  simp only [hreadCc, hcounter, hflags, hiv, htag, hbody, htagCc, hbodyCc, tryInto_toList,
    ofNat_ofBE_toBE (show 64 = 8 * 8 from rfl), ofNat_ofBE_toBE (show 16 = 8 * 2 from rfl),
    Option.bind_eq_bind, Option.bind_some]
  simp only [headerOf, roundtrip_of_seals hseal, roundtrip_of_seals hrc,
    roundtrip_of_seals hsealCc, hrx, Option.bind_some, hdecrypt]
  rw [Seals] at hseal hrc
  rw [hseal, hrc]
  simp

/-- The test on a pool of packets with 64 bytes of plaintext. -/
theorem selfTest_passes_sampleRing : ∃ keys src,
    buildKeys sampleRc sampleRing sampleCc (constKey 1) = some keys ∧
      Src.build sampleRing sampleCc (constKey 1) (Vector.replicate 8 3) zeroLeftover 64 0 64
        5#64 = some src ∧
      selfTest keys src zeroNoise = some ⟨true, true, true, true, true⟩ :=
  selfTest_passes works_sampleRing alike_sampleRc (by decide) _ _ _ _ _

end Valid

end LightwayCffi.Bench
