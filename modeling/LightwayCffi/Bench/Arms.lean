import LightwayCffi.Bench.Pool

/-!
# The timed loops of the benchmark

Each arm of the benchmark walks over a pool and does one thing to each packet, and folds eight bytes
of the result into a checksum. Two arms calibrate: one does nothing and one copies the ciphertext.
The arms that decrypt are `ring`, which the sessions use as well, another implementation `rc` of the
same cipher, the second cipher `cc` on its own packets, and a packet session; those that encrypt are
the same four.

All arms have the same loop (`arm`) and differ in the turn. For each kind of turn there is a lemma
that it succeeds on a pool (`Ready`) and what it does to the checksum: `plainMix` if it recovers the
plaintext, `sealMix` if it seals it, so that the arms of each kind end with the same checksum
whatever was in the output buffer (`Done`). The session that decrypts sees every counter once, in
order, and receives every packet (`exists_armSessionDec`).

Arithmetic wraps, as in the release profile in which the benchmark is built.
-/

namespace LightwayCffi.Bench

open Expresslane Buffer Memory Loop

/-! ## The arms -/

/-- `Sched`: for each turn, the slot and the offset at which the checksum is taken. -/
structure Sched where
  slot : List (BitVec 32)
  fold : List (BitVec 32)
  n : ℕ

/-- A turn of the loop of `Sched::new`. The remainder by zero panics in every profile. -/
def Sched.push (hot : Bool) (span : BitVec 64)
    (st : Rng × List (BitVec 32) × List (BitVec 32)) (i : ℕ) :
    Option (Rng × List (BitVec 32) × List (BitVec 32)) :=
  let (rng, slot, fold) := st
  let (rng, r) := rng.next
  if span = 0#64 then none
  else some (rng, slot ++ [if hot then 0#32 else BitVec.ofNat 32 i],
    fold ++ [(r % span).setWidth 32])

/-- `Sched::new`. -/
def Sched.new (src : Src) (hot : Bool) (seed : BitVec 64) : Option Sched := do
  let span := BitVec.ofNat 64 src.len - 8#64 + 1#64
  let (_, slot, fold) ← (List.range src.slots).foldlM (Sched.push hot span) (Rng.new seed, [], [])
  pure ⟨slot, fold, src.slots⟩

/-- `fold`. -/
def fold (acc : BitVec 64) (buf : Bytes) (off : ℕ) : Option (BitVec 64) := do
  let bytes ← slice buf off (off + 8)
  pure (acc.rotateLeft 1 ^^^ BitVec.ofNat 64 (ofBE bytes.reverse))

/-- `Ctx`. The ciphers are called with the key they were made for. -/
structure Ctx where
  rc : Aead
  ring : Aead
  cc : Aead
  key : ExpresslaneKey
  rx : ExpresslaneSession
  tx : ExpresslaneSession
  sid : Vector UInt8 8

/-- What the ciphers leave in the buffers when they fail, at each turn. -/
structure Noise where
  left : ℕ → Leftover
  leftPrev : ℕ → Leftover

/-- What an arm has at hand: the output buffer, the checksum, the number of successes, and the
sessions as they are by now. -/
structure Tally where
  dst : Region UInt8
  acc : BitVec 64
  ok : BitVec 64
  rx : ExpresslaneSession
  tx : ExpresslaneSession

/-- `ArmFn`. -/
abbrev ArmFn := Ctx → Src → Sched → Noise → Region UInt8 → Option Tally

/-- One more turn, which was a success or not. -/
def count {α : Type} (ok : BitVec 64) : Except ExpresslaneError α → BitVec 64
  | .ok _ => ok + 1#64
  | .error _ => ok

/-- The loop that all arms have. -/
def arm (turn : Ctx → Src → Sched → Noise → Tally → ℕ → Option Tally) : ArmFn :=
  fun c s sch noise dst => (List.range sch.n).foldlM (turn c s sch noise) ⟨dst, 0, 0, c.rx, c.tx⟩

section Turn

variable (A : Aead) (c : Ctx) (s : Src) (sch : Sched) (noise : Noise) (t : Tally) (i : ℕ)

def nullTurn : Option Tally := do
  let base := (← sch.slot[i]?).toNat * s.stride
  let out ← t.dst.read base s.len
  let acc ← fold t.acc out (← sch.fold[i]?).toNat
  pure { t with acc, ok := t.ok + 1#64 }

def copyTurn : Option Tally := do
  let base := (← sch.slot[i]?).toNat * s.stride
  let w ← s.wire.read base (40 + s.len)
  let _ ← t.dst.read base s.len
  let out ← slice w 40 (40 + s.len)
  let acc ← fold t.acc out (← sch.fold[i]?).toNat
  pure { t with dst := ← t.dst.write base out, acc, ok := t.ok + 1#64 }

/-- A turn of an arm that decrypts the packets `wire` with a cipher. -/
def decTurn (wire : Region UInt8) : Option Tally := do
  let base := (← sch.slot[i]?).toNat * s.stride
  let w ← wire.read base (40 + s.len)
  let counter := BitVec.ofNat 64 (ofBE (← slice w 0 8))
  let flags := BitVec.ofNat 16 (ofBE (← slice w 38 40))
  let aad := aadV2 c.sid counter flags
  let _ ← t.dst.read base s.len
  let ct ← slice w 40 (40 + s.len)
  let iv ← tryInto 12 (← slice w 8 20)
  let tag ← tryInto 16 (← slice w 20 36)
  let (out, r) := Cipher.decrypt A ⟨c.key⟩ iv aad ct tag (noise.left i)
  let acc ← fold t.acc out (← sch.fold[i]?).toNat
  pure { t with dst := ← t.dst.write base out, acc, ok := count t.ok r }

/-- A turn of an arm that encrypts the plaintexts with a cipher. -/
def encTurn : Option Tally := do
  let slot := (← sch.slot[i]?).toNat
  let base := slot * s.stride
  let counter := counterOf slot
  let aad := aadV2 c.sid counter 0#16
  let _ ← t.dst.read base s.len
  let p ← s.plain.read base s.len
  let (out, r) := Cipher.encrypt A ⟨c.key⟩ (ivFor counter) aad p (noise.left i)
  let acc ← match r with
    | .ok tag => fold t.acc tag.toList 0
    | .error _ => some (t.acc.rotateLeft 1)
  let acc ← fold acc out (← sch.fold[i]?).toNat
  pure { t with dst := ← t.dst.write base out, acc, ok := count t.ok r }

def sessionDecTurn : Option Tally := do
  let base := (← sch.slot[i]?).toNat * s.stride
  let w ← s.wire.read base (40 + s.len)
  let out ← t.dst.read base s.len
  let (rx, out, r) ← t.rx.decrypt c.ring c.sid w out (noise.left i) (noise.leftPrev i)
  let acc ← fold t.acc out (← sch.fold[i]?).toNat
  pure { t with dst := ← t.dst.write base out, acc, ok := count t.ok r, rx }

def sessionEncTurn : Option Tally := do
  let slot := (← sch.slot[i]?).toNat
  let base := slot * s.stride
  let counter := counterOf slot
  let out ← t.dst.read base (40 + s.len)
  let p ← s.plain.read base s.len
  let (tx, out, r) ← t.tx.encrypt c.ring counter c.sid p (ivFor counter) false out (noise.left i)
  let acc ← fold t.acc out 20
  let acc ← fold acc out (40 + (← sch.fold[i]?).toNat)
  pure { t with dst := ← t.dst.write base out, acc, ok := count t.ok r, tx }

end Turn

/-- `arm_null`. -/
def armNull : ArmFn := arm fun _ s sch _ => nullTurn s sch

/-- `arm_copy`. -/
def armCopy : ArmFn := arm fun _ s sch _ => copyTurn s sch

/-- `arm_rc_aesgcm_dec`. -/
def armRcAesgcmDec : ArmFn := arm fun c s sch noise t i => decTurn c.rc c s sch noise t i s.wire

/-- `arm_ring_aesgcm_dec`. -/
def armRingAesgcmDec : ArmFn := arm fun c s sch noise t i => decTurn c.ring c s sch noise t i s.wire

/-- `arm_rc_chacha_dec`. -/
def armRcChachaDec : ArmFn := arm fun c s sch noise t i => decTurn c.cc c s sch noise t i s.wireCc

/-- `arm_rc_aesgcm_enc`. -/
def armRcAesgcmEnc : ArmFn := arm fun c => encTurn c.rc c

/-- `arm_ring_aesgcm_enc`. -/
def armRingAesgcmEnc : ArmFn := arm fun c => encTurn c.ring c

/-- `arm_rc_chacha_enc`. -/
def armRcChachaEnc : ArmFn := arm fun c => encTurn c.cc c

/-- `arm_session_dec`. -/
def armSessionDec : ArmFn := arm sessionDecTurn

/-- `arm_session_enc`. -/
def armSessionEnc : ArmFn := arm sessionEncTurn

/-! ## The schedule -/

/-- The slot of a turn: every turn takes the first one in a hot run. -/
def slotAt (hot : Bool) (i : ℕ) : ℕ := if hot then 0 else i

/-- A schedule for a pool: every turn has a slot of it, and an offset within the plaintext. -/
structure Fits (s : Src) (hot : Bool) (sch : Sched) : Prop where
  n_eq : sch.n = s.slots
  turn : ∀ i < s.slots, ∃ v o, sch.slot[i]? = some v ∧ v.toNat = slotAt hot i ∧
    slotAt hot i < s.slots ∧ sch.fold[i]? = some o ∧ o.toNat + 8 ≤ s.len

/-- The offset of a turn. -/
def Sched.off (sch : Sched) (i : ℕ) : ℕ := (sch.fold[i]?.getD 0).toNat

/-- What `fold` computes, for an offset within the buffer. -/
def mix (acc : BitVec 64) (buf : Bytes) (off : ℕ) : BitVec 64 :=
  acc.rotateLeft 1 ^^^ BitVec.ofNat 64 (ofBE ((buf.drop off).take 8).reverse)

theorem fold_eq (acc : BitVec 64) {buf : Bytes} {off : ℕ} (h : off + 8 ≤ buf.length) :
    fold acc buf off = some (mix acc buf off) := by
  rw [fold, slice, if_pos ⟨by omega, h⟩, List.drop_take, Nat.add_sub_cancel_left]
  rfl

/-- The turns taken so far: the slots are those of `slotAt`, the offsets are below `span`. -/
structure Pushed (hot : Bool) (span : BitVec 64) (n : ℕ)
    (st : Rng × List (BitVec 32) × List (BitVec 32)) : Prop where
  slot : st.2.1 = (List.range n).map fun i => BitVec.ofNat 32 (slotAt hot i)
  length : st.2.2.length = n
  below : ∀ o ∈ st.2.2, o.toNat < span.toNat

theorem Pushed.push {hot : Bool} {span : BitVec 64} {n : ℕ}
    {st : Rng × List (BitVec 32) × List (BitVec 32)} (hspan : 0 < span.toNat)
    (h : Pushed hot span n st) :
    ∃ st', Sched.push hot span st n = some st' ∧ Pushed hot span (n + 1) st' := by
  refine ⟨_, if_neg fun hzero => ?_, ?_, ?_, ?_⟩
  · rw [hzero] at hspan
    exact absurd hspan (lt_irrefl 0)
  · rw [h.slot, List.range_succ, List.map_append]
    cases hot <;> rfl
  · rw [List.length_append, h.length]
    rfl
  · intro o ho
    rcases List.mem_append.1 ho with ho | ho
    · exact h.below o ho
    · rw [List.mem_singleton.1 ho, BitVec.toNat_setWidth, BitVec.toNat_umod]
      exact lt_of_le_of_lt (Nat.mod_le _ _) (Nat.mod_lt _ hspan)

theorem exists_sched (s : Src) (hot : Bool) (seed : BitVec 64) (hlo : 8 ≤ s.len)
    (hhi : s.len ≤ 65535) (hmax : s.slots ≤ 4294967296) :
    ∃ sch, Sched.new s hot seed = some sch ∧ Fits s hot sch := by
  let span := BitVec.ofNat 64 s.len - 8#64 + 1#64
  have hspan : span.toNat = s.len - 7 := by
    rw [BitVec.toNat_add, BitVec.toNat_sub, BitVec.toNat_ofNat, BitVec.toNat_ofNat,
      BitVec.toNat_ofNat]
    omega
  obtain ⟨st, hst, h⟩ := exists_foldlM_range (n := s.slots) (f := Sched.push hot span)
    (s := (Rng.new seed, [], [])) (Pushed hot span)
    ⟨rfl, rfl, fun _ ho => absurd ho List.not_mem_nil⟩ fun _ _ st h => h.push (by omega)
  refine ⟨⟨st.2.1, st.2.2, s.slots⟩, ?_, rfl, fun i hi => ?_⟩
  · rw [Sched.new, hst]
    rfl
  have hslot : slotAt hot i < s.slots := by
    cases hot
    · exact hi
    · exact Nat.zero_lt_of_lt hi
  have hlt := hi.trans_eq h.length.symm
  refine ⟨BitVec.ofNat 32 (slotAt hot i), _, ?_, ?_, hslot, List.getElem?_eq_getElem hlt, ?_⟩
  · rw [h.slot, List.getElem?_map, List.getElem?_range hi]
    rfl
  · rw [BitVec.toNat_ofNat]
    omega
  · have hbelow := h.below _ (List.getElem_mem hlt)
    omega

/-- What a turn finds in the schedule. -/
theorem Fits.at {s : Src} {hot : Bool} {sch : Sched} {i : ℕ} (hfits : Fits s hot sch)
    (hi : i < s.slots) :
    ∃ v o, sch.slot[i]? = some v ∧ v.toNat = slotAt hot i ∧ slotAt hot i < s.slots ∧
      sch.fold[i]? = some o ∧ o.toNat = sch.off i ∧ sch.off i + 8 ≤ s.len := by
  obtain ⟨v, o, hv, hvi, hslot, ho, hoff⟩ := hfits.turn i hi
  have hoi : sch.off i = o.toNat := by
    rw [Sched.off, ho]
    rfl
  exact ⟨v, o, hv, hvi, hslot, ho, hoi.symm, hoi ▸ hoff⟩

/-! ## Turns that succeed -/

/-- Two implementations of one cipher seal packets alike. -/
def Alike (rc ring : Aead) (key : ExpresslaneKey) : Prop :=
  ∀ iv aad plain, plain.length ≤ 65535 →
    rc.sealInPlace key iv aad plain = ring.sealInPlace key iv aad plain

/-- What the arms rely on: the pool and the schedule are as made by `build` and `new`, and the two
implementations of the cipher seal alike. -/
structure Ready (c : Ctx) (s : Src) (hot : Bool) (sch : Sched) : Prop where
  pool : Pool c.ring c.cc c.key s
  fits : Fits s hot sch
  sid : s.sessionId = c.sid
  len : s.len ≤ 65535
  slots : s.slots ≤ 4294967296
  alike : Alike c.rc c.ring c.key

/-- `n` turns are done, all of them successes; `g` is what a turn does to the checksum. -/
structure Done (s : Src) (key : ExpresslaneKey) (g : BitVec 64 → ℕ → BitVec 64) (n : ℕ)
    (t : Tally) : Prop where
  size : t.dst.size = s.slots * s.stride
  acc : t.acc = (List.range n).foldl g 0
  ok : t.ok = BitVec.ofNat 64 n
  tx : Sends key t.tx

section Turns

variable {A : Aead} {c : Ctx} {s : Src} {sch : Sched} {hot : Bool} {noise : Noise} {t : Tally}
  {g : BitVec 64 → ℕ → BitVec 64} {i : ℕ}

theorem Done.next (h : Done s c.key g i t) (cell : ℕ → UInt8) (rx : ExpresslaneSession)
    {tx : ExpresslaneSession} (htx : Sends c.key tx) :
    Done s c.key g (i + 1) ⟨⟨t.dst.size, cell⟩, g t.acc i, t.ok + 1#64, rx, tx⟩ := by
  refine ⟨h.size, ?_, ?_, htx⟩
  · rw [List.range_succ, List.foldl_append, ← h.acc]
    rfl
  · rw [h.ok, BitVec.ofNat_add]

/-- The plaintext of a turn. -/
def plainAt (s : Src) (hot : Bool) (i : ℕ) : Bytes :=
  load s.plain.cell (slotAt hot i * s.stride) s.len

@[simp]
theorem length_plainAt (s : Src) (hot : Bool) (i : ℕ) : (plainAt s hot i).length = s.len :=
  length_load _ _ _

/-- The ciphertext of a turn. -/
def cipherAt (s : Src) (hot : Bool) (i : ℕ) : Bytes :=
  load s.wire.cell (slotAt hot i * s.stride + 40) s.len

@[simp]
theorem length_cipherAt (s : Src) (hot : Bool) (i : ℕ) : (cipherAt s hot i).length = s.len :=
  length_load _ _ _

/-- What a turn does to the checksum if its output is the ciphertext. -/
def cipherMix (s : Src) (sch : Sched) (hot : Bool) (acc : BitVec 64) (i : ℕ) : BitVec 64 :=
  mix acc (cipherAt s hot i) (sch.off i)

/-- What a turn does to the checksum if its output is the plaintext. -/
def plainMix (s : Src) (sch : Sched) (hot : Bool) (acc : BitVec 64) (i : ℕ) : BitVec 64 :=
  mix acc (plainAt s hot i) (sch.off i)

/-- What a turn does to the checksum if it seals the plaintext. -/
def sealMix (A : Aead) (key : ExpresslaneKey) (s : Src) (sch : Sched) (hot : Bool)
    (acc : BitVec 64) (i : ℕ) : BitVec 64 :=
  let counter := counterOf (slotAt hot i)
  match A.sealInPlace key (ivFor counter) (aadV2 s.sessionId counter 0#16) (plainAt s hot i) with
  | some (ct, tag) => mix (mix acc tag.toList 0) ct (sch.off i)
  | none => acc

theorem sealMix_of_seals {ct : Bytes} {tag : Vector UInt8 16}
    (h : Seals A c.key s.sessionId (slotAt hot i) (plainAt s hot i) ct tag) (acc : BitVec 64) :
    sealMix A c.key s sch hot acc i = mix (mix acc tag.toList 0) ct (sch.off i) := by
  rw [Seals] at h
  rw [sealMix, h]

/-- The parts of a packet. -/
theorem slices_packet (hdr : WireHeader) {ct : Bytes} {len : ℕ} (hct : ct.length = len) :
    slice (hdr.encode ++ ct) 0 8 = some (toBE 8 hdr.counter.toNat) ∧
      slice (hdr.encode ++ ct) 8 20 = some hdr.iv.toList ∧
      slice (hdr.encode ++ ct) 20 36 = some hdr.tag.toList ∧
      slice (hdr.encode ++ ct) 38 40 = some (toBE 2 hdr.flags.toNat) ∧
      slice (hdr.encode ++ ct) 40 (40 + len) = some ct := by
  have hwire : hdr.encode ++ ct = (hdr.fields ++ [ct]).flatten := by
    simp [WireHeader.encode]
  rw [hwire]
  refine ⟨slice_flatten 0 rfl rfl (by simp), slice_flatten 1 rfl ?_ (by simp),
    slice_flatten 2 rfl ?_ (by simp), slice_flatten 4 rfl ?_ (by simp),
    slice_flatten 5 rfl ?_ (by rw [hct])⟩
  all_goals simp [WireHeader.fields]

theorem Ready.room (hr : Ready c s hot sch) : s.len ≤ s.stride := by
  have hroom := hr.pool.room
  omega

/-! ## The arms that calibrate -/

/-- A turn of the null arm changes nothing, so nothing is known about its checksum. -/
theorem exists_nullTurn (hr : Ready c s hot sch) (hi : i < s.slots)
    (hsize : t.dst.size = s.slots * s.stride) :
    ∃ acc, nullTurn s sch t i = some { t with acc, ok := t.ok + 1#64 } := by
  obtain ⟨v, o, hv, hvi, hslot, ho, hoi, hoff⟩ := hr.fits.at hi
  refine ⟨mix t.acc (load t.dst.cell (slotAt hot i * s.stride) s.len) (sch.off i), ?_⟩
  simp only [nullTurn, hv, hvi, Region.read_slot hsize hslot hr.room, ho, hoi, Option.bind_eq_bind,
    Option.bind_some]
  rw [fold_eq _ (by rw [length_load]; exact hoff)]
  rfl

theorem exists_copyTurn (hr : Ready c s hot sch) (hi : i < s.slots)
    (h : Done s c.key (cipherMix s sch hot) i t) :
    ∃ t', copyTurn s sch t i = some t' ∧ Done s c.key (cipherMix s sch hot) (i + 1) t' := by
  obtain ⟨v, o, hv, hvi, hslot, ho, hoi, hoff⟩ := hr.fits.at hi
  have hbody : slice (load s.wire.cell (slotAt hot i * s.stride) (40 + s.len)) 40 (40 + s.len) =
      some (cipherAt s hot i) := by
    rw [slice, if_pos ⟨by omega, by rw [length_load]⟩, List.take_of_length_le (by rw [length_load]),
      load_add, List.drop_left' (length_load _ _ _)]
    rfl
  refine ⟨_, ?_, h.next (store t.dst.cell (slotAt hot i * s.stride) (cipherAt s hot i)) t.rx h.tx⟩
  simp only [copyTurn, hv, hvi, Region.read_slot hr.pool.size_wire hslot hr.pool.room,
    Region.read_slot h.size hslot hr.room, hbody, ho, hoi, Option.bind_eq_bind, Option.bind_some]
  rw [fold_eq _ (by rw [length_cipherAt]; exact hoff), Option.bind_some,
    Region.write_slot h.size hslot (by rw [length_cipherAt]; exact hr.room)]
  rfl

/-! ## The arms that decrypt -/

/-- A turn of an arm that decrypts with a cipher, on a packet of this cipher. -/
theorem exists_decTurn {wire : Region UInt8} (hr : Ready c s hot sch) (hi : i < s.slots)
    (hwire : wire.size = s.slots * s.stride)
    (hsealed : ∀ k < s.slots, SealedAt A c.key s.sessionId s.len s.stride s.plain wire k)
    (h : Done s c.key (plainMix s sch hot) i t) :
    ∃ t', decTurn A c s sch noise t i wire = some t' ∧
      Done s c.key (plainMix s sch hot) (i + 1) t' := by
  obtain ⟨v, o, hv, hvi, hslot, ho, hoi, hoff⟩ := hr.fits.at hi
  obtain ⟨ct, tag, hseal, hload⟩ := hsealed _ hslot
  have hct : ct.length = s.len := (A.length_seal hseal).trans (length_load _ _ _)
  obtain ⟨hcounter, hiv, htag, hflags, hbody⟩ :=
    slices_packet (headerOf s.len (slotAt hot i) tag) hct
  have hopen : Cipher.decrypt A ⟨c.key⟩ (ivFor (counterOf (slotAt hot i)))
      (aadV2 c.sid (counterOf (slotAt hot i)) 0#16) ct tag (noise.left i) =
        (plainAt s hot i, .ok ()) := by
    rw [Cipher.decrypt, ← hr.sid, A.open_seal hseal]
    rfl
  refine ⟨_, ?_, h.next (store t.dst.cell (slotAt hot i * s.stride) (plainAt s hot i)) t.rx h.tx⟩
  simp only [decTurn, hv, hvi, Region.read_slot hwire hslot hr.pool.room, hload, hcounter, hflags,
    Region.read_slot h.size hslot hr.room, hbody, hiv, htag, tryInto_toList,
    ofNat_ofBE_toBE (show 64 = 8 * 8 from rfl), ofNat_ofBE_toBE (show 16 = 8 * 2 from rfl), ho, hoi,
    Option.bind_eq_bind, Option.bind_some]
  simp only [headerOf, hopen, count]
  rw [fold_eq _ (by rw [length_plainAt]; exact hoff), Option.bind_some,
    Region.write_slot h.size hslot (by rw [length_plainAt]; exact hr.room)]
  rfl

theorem toNat_counterOf {k : ℕ} (hk : k < 4294967296) : (counterOf k).toNat = k + 1 := by
  rw [counterOf, BitVec.toNat_add, BitVec.toNat_ofNat, BitVec.toNat_ofNat]
  omega

/-- A session with one key that has received the first `n` packets of the pool. -/
structure Receives (A : Aead) (key : ExpresslaneKey) (n : ℕ) (rx : ExpresslaneSession) : Prop where
  history : ∃ events, Reaches A .version2 rx events ∧
    decryptedCounters events = (List.range n).map counterOf
  peer : rx.rx.currentPeer = some ⟨key⟩
  prev : rx.rx.prevPeer = none

theorem Receives.packetsReceived_eq {n : ℕ} {rx : ExpresslaneSession} {key : ExpresslaneKey}
    (h : Receives A key n rx) : rx.packetsReceived = BitVec.ofNat 64 n := by
  obtain ⟨events, hreach, hcounters⟩ := h.history
  have hreceived := hreach.receiving.window.received
  rw [hcounters] at hreceived
  simpa [ExpresslaneSession.packetsReceived] using hreceived

/-- The next packet is not refused. -/
theorem Receives.passes {n : ℕ} {rx : ExpresslaneSession} (h : Receives A c.key n rx)
    (hn : n < 4294967296) : rx.rx.replayWindow.wouldReject (counterOf n) = false := by
  obtain ⟨events, hreach, hcounters⟩ := h.history
  have hbelow : ∀ x ∈ (List.range n).map counterOf, x.toNat < (counterOf n).toNat := by
    intro x hx
    obtain ⟨k, hk, rfl⟩ := List.mem_map.1 hx
    have hk := List.mem_range.1 hk
    rw [toNat_counterOf (by omega), toNat_counterOf hn]
    omega
  refine hreach.receiving.passes ?_ ?_
  · rw [hcounters]
    exact fun hmem => lt_irrefl _ (hbelow _ hmem)
  · rw [hcounters]
    exact fun x hx => Nat.lt_add_right _ (hbelow x hx)

/-- A session decrypts the next packet of the pool. -/
theorem Receives.decrypt {n len : ℕ} {rx : ExpresslaneSession} {plain ct : Bytes}
    {tag : Vector UInt8 16} (h : Receives A c.key n rx) (hn : n < 4294967296) (hlen : len ≤ 65535)
    (hplain : plain.length = len) (hseal : Seals A c.key c.sid n plain ct tag) {out : Bytes}
    (hout : out.length = len) (left leftPrev : Leftover) :
    ∃ rx', rx.decrypt A c.sid ((headerOf len n tag).encode ++ ct) out left leftPrev =
        some (rx', plain, .ok (len, false)) ∧ Receives A c.key (n + 1) rx' := by
  obtain ⟨events, hreach, hcounters⟩ := h.history
  have hct : ct.length = len := (A.length_seal hseal).trans hplain
  have hdata : (headerOf len n tag).dataLen.toNat = len := by
    rw [headerOf, BitVec.toNat_ofNat]
    omega
  have hsep : KeySeparation A rx.rx := by
    intro x x' hx hx' hne
    rw [h.peer, h.prev] at hx hx'
    simp only [Option.some.injEq, reduceCtorEq, or_false] at hx hx'
    exact absurd (hx.symm.trans hx') hne
  rw [Seals, aadV2_eq, ← hreach.version_eq] at hseal
  obtain ⟨call, hopen⟩ : ∃ call, rx.openPacket A c.sid (headerOf len n tag) ct =
      some (call, plain) :=
    openPacket_of_sealCall hreach.receiving.prev_none (Or.inl h.peer) hsep
      (by rw [hdata, List.take_of_length_le hct.le]; exact hseal)
  have hflag : ((headerOf len n tag).flags &&& flagEncoded != 0#16) = false := by simp [headerOf]
  let rx' : ExpresslaneSession := { rx with
    rx := { rx.rx with replayWindow := (rx.rx.replayWindow.commit (counterOf n)).1 } }
  have hdecrypt : rx.decrypt A c.sid ((headerOf len n tag).encode ++ ct) out left leftPrev =
      some (rx', plain, .ok (len, false)) := by
    rw [rx.decrypt_of_openPacket A c.sid (headerOf len n tag) (h.passes hn) (by rw [hdata, hct])
      (by rw [hdata, hout]) hopen, hdata, hflag, List.drop_of_length_le hout.le, List.append_nil]
    rfl
  have hrun : (Op.decrypt c.sid ((headerOf len n tag).encode ++ ct) out left leftPrev).run A rx =
      some (rx', [Event.decrypted (counterOf n) plain]) := by
    simp only [Op.run, hdecrypt, Option.bind_eq_bind, Option.bind_some, wireCounter_encode,
      Option.pure_def, List.take_of_length_le hplain.le]
    rfl
  refine ⟨rx', hdecrypt, ⟨_, hreach.step _ hrun, ?_⟩, h.peer, h.prev⟩
  rw [decryptedCounters, List.filterMap_append, ← decryptedCounters, hcounters, List.range_succ,
    List.map_append]
  rfl

/-- A turn of the arm that decrypts with a session. -/
theorem exists_sessionDecTurn (hr : Ready c s false sch) (hi : i < s.slots)
    (h : Done s c.key (plainMix s sch false) i t) (hrx : Receives c.ring c.key i t.rx) :
    ∃ t', sessionDecTurn c s sch noise t i = some t' ∧
      Done s c.key (plainMix s sch false) (i + 1) t' ∧ Receives c.ring c.key (i + 1) t'.rx := by
  obtain ⟨v, o, hv, hvi, hslot, ho, hoi, hoff⟩ := hr.fits.at hi
  obtain ⟨ct, tag, hseal, hload⟩ := hr.pool.wire _ hslot
  have hslots := hr.slots
  obtain ⟨rx', hdecrypt, hrx'⟩ : ∃ rx', t.rx.decrypt c.ring c.sid
      ((headerOf s.len (slotAt false i) tag).encode ++ ct)
      (load t.dst.cell (slotAt false i * s.stride) s.len) (noise.left i) (noise.leftPrev i) =
        some (rx', plainAt s false i, .ok (s.len, false)) ∧ Receives c.ring c.key (i + 1) rx' :=
    hrx.decrypt (by omega) hr.len (length_load _ _ _) (hr.sid ▸ hseal) (length_load _ _ _) _ _
  refine ⟨_, ?_, h.next (store t.dst.cell (slotAt false i * s.stride) (plainAt s false i)) rx' h.tx,
    hrx'⟩
  simp only [sessionDecTurn, hv, hvi, Region.read_slot hr.pool.size_wire hslot hr.pool.room, hload,
    Region.read_slot h.size hslot hr.room, hdecrypt, ho, hoi, count, Option.bind_eq_bind,
    Option.bind_some]
  rw [fold_eq _ (by rw [length_plainAt]; exact hoff), Option.bind_some,
    Region.write_slot h.size hslot (by rw [length_plainAt]; exact hr.room)]
  rfl

/-! ## The arms that encrypt -/

theorem mix_of_slice (acc : BitVec 64) {buf part : Bytes} {lo hi off : ℕ}
    (h : slice buf lo hi = some part) (hoff : off + 8 ≤ part.length) :
    mix acc buf (lo + off) = mix acc part off := by
  rw [slice] at h
  split_ifs at h
  obtain rfl := Option.some.inj h
  rw [List.length_drop, List.length_take] at hoff
  rw [mix, mix, List.drop_drop, List.drop_take, List.take_take, min_eq_left (by omega)]

/-- A turn of an arm that encrypts with a cipher. -/
theorem exists_encTurn (hr : Ready c s hot sch) (hi : i < s.slots)
    (hseals : ∀ k < s.slots, ∃ ct tag,
      Seals A c.key s.sessionId k (load s.plain.cell (k * s.stride) s.len) ct tag)
    (h : Done s c.key (sealMix A c.key s sch hot) i t) :
    ∃ t', encTurn A c s sch noise t i = some t' ∧
      Done s c.key (sealMix A c.key s sch hot) (i + 1) t' := by
  obtain ⟨v, o, hv, hvi, hslot, ho, hoi, hoff⟩ := hr.fits.at hi
  obtain ⟨ct, tag, hseal⟩ := hseals _ hslot
  rw [← plainAt] at hseal
  have hroom := hr.room
  have hct : ct.length = s.len := (A.length_seal hseal).trans (length_plainAt _ _ _)
  have hcall : Cipher.encrypt A ⟨c.key⟩ (ivFor (counterOf (slotAt hot i)))
      (aadV2 c.sid (counterOf (slotAt hot i)) 0#16) (plainAt s hot i) (noise.left i) =
        (ct, .ok tag) := by
    rw [Seals, hr.sid] at hseal
    rw [Cipher.encrypt, hseal]
  have hread : s.plain.read (slotAt hot i * s.stride) s.len = some (plainAt s hot i) :=
    Region.read_slot hr.pool.size_plain hslot hr.room
  refine ⟨_, ?_, h.next (store t.dst.cell (slotAt hot i * s.stride) ct) t.rx h.tx⟩
  simp only [encTurn, hv, hvi, hread, Region.read_slot h.size hslot hr.room, hcall, ho, hoi, count,
    Option.bind_eq_bind, Option.bind_some]
  rw [fold_eq _ (by simp), Option.bind_some, fold_eq _ (by omega), Option.bind_some,
    Region.write_slot h.size hslot (by omega), sealMix_of_seals hseal]
  rfl

/-- A turn of the arm that encrypts with a session. -/
theorem exists_sessionEncTurn (hr : Ready c s hot sch) (hi : i < s.slots)
    (h : Done s c.key (sealMix c.ring c.key s sch hot) i t) :
    ∃ t', sessionEncTurn c s sch noise t i = some t' ∧
      Done s c.key (sealMix c.ring c.key s sch hot) (i + 1) t' := by
  obtain ⟨v, o, hv, hvi, hslot, ho, hoi, hoff⟩ := hr.fits.at hi
  obtain ⟨ct, tag, hseal, -⟩ := hr.pool.wire _ hslot
  rw [← plainAt] at hseal
  have hroom := hr.pool.room
  have hct : ct.length = s.len := (c.ring.length_seal hseal).trans (length_plainAt _ _ _)
  have hread : s.plain.read (slotAt hot i * s.stride) s.len = some (plainAt s hot i) :=
    Region.read_slot hr.pool.size_plain hslot hr.room
  have hencrypt := h.tx.encrypt (hr.sid ▸ hseal) (length_plainAt _ _ _) hr.len
    (length_load t.dst.cell (slotAt hot i * s.stride) (40 + s.len)) (noise.left i)
  obtain ⟨packet, hpacket⟩ : ∃ packet, (headerOf s.len (slotAt hot i) tag).encode ++ ct = packet :=
    ⟨_, rfl⟩
  obtain ⟨-, -, htag, -, hbody⟩ := slices_packet (headerOf s.len (slotAt hot i) tag) hct
  rw [hpacket] at hencrypt htag hbody
  have hlength : packet.length = 40 + s.len := by
    rw [← hpacket, List.length_append, WireHeader.length_encode, hct]
  have hacc : mix (mix t.acc packet 20) packet (40 + sch.off i) =
      sealMix c.ring c.key s sch hot t.acc i := by
    have hmix := @mix_of_slice t.acc _ _ 20 36 0 htag (by simp)
    rw [mix_of_slice _ hbody (by omega), sealMix_of_seals hseal, hmix]
    rfl
  refine ⟨_, ?_, h.next (store t.dst.cell (slotAt hot i * s.stride) packet) t.rx
    (h.tx.sent (t.tx.packetsSent + 1#64))⟩
  simp only [sessionEncTurn, hv, hvi, hread, Region.read_slot h.size hslot hr.pool.room, hencrypt,
    ho, hoi, count, Option.bind_eq_bind, Option.bind_some]
  rw [fold_eq _ (by omega), Option.bind_some, fold_eq _ (by omega), Option.bind_some, hacc,
    Region.write_slot h.size hslot (by omega)]
  rfl

/-! ## Whole passes -/

/-- An arm whose turns are all successes. -/
theorem exists_arm {turn : Ctx → Src → Sched → Noise → Tally → ℕ → Option Tally}
    (hr : Ready c s hot sch) {dst : Region UInt8} (hdst : dst.size = s.slots * s.stride)
    (htx : Sends c.key c.tx)
    (hturn : ∀ i < s.slots, ∀ t, Done s c.key g i t →
      ∃ t', turn c s sch noise t i = some t' ∧ Done s c.key g (i + 1) t') :
    ∃ t, arm turn c s sch noise dst = some t ∧ Done s c.key g s.slots t := by
  rw [← hr.fits.n_eq] at hturn ⊢
  exact exists_foldlM_range (Done s c.key g) ⟨hdst, rfl, rfl, htx⟩ hturn

/-- The null arm. -/
theorem exists_armNull (hr : Ready c s hot sch) (noise : Noise) {dst : Region UInt8}
    (hdst : dst.size = s.slots * s.stride) :
    ∃ acc, armNull c s sch noise dst =
      some ⟨dst, acc, BitVec.ofNat 64 s.slots, c.rx, c.tx⟩ := by
  obtain ⟨t, ht, acc, rfl⟩ := exists_foldlM_range (f := nullTurn s sch) (n := sch.n)
    (s := ⟨dst, 0, 0, c.rx, c.tx⟩) (fun n t => ∃ acc, t = ⟨dst, acc, BitVec.ofNat 64 n, c.rx, c.tx⟩)
    ⟨0, rfl⟩ (by
      rintro i hi - ⟨acc, rfl⟩
      obtain ⟨acc', h⟩ := exists_nullTurn (t := ⟨dst, acc, BitVec.ofNat 64 i, c.rx, c.tx⟩) hr
        (hr.fits.n_eq ▸ hi) hdst
      exact ⟨_, h, acc', by rw [BitVec.ofNat_add]⟩)
  exact ⟨acc, hr.fits.n_eq ▸ ht⟩

/-- The arm that decrypts with a session: the session receives every packet. -/
theorem exists_armSessionDec (hr : Ready c s false sch) (noise : Noise) {dst : Region UInt8}
    (hdst : dst.size = s.slots * s.stride) (htx : Sends c.key c.tx)
    (hrx : Receives c.ring c.key 0 c.rx) :
    ∃ t, armSessionDec c s sch noise dst = some t ∧
      Done s c.key (plainMix s sch false) s.slots t ∧ Receives c.ring c.key s.slots t.rx := by
  rw [← hr.fits.n_eq]
  refine exists_foldlM_range (fun n t => Done s c.key (plainMix s sch false) n t ∧
    Receives c.ring c.key n t.rx) ⟨⟨hdst, rfl, rfl, htx⟩, hrx⟩ ?_
  rintro i hi t ⟨h, hrx⟩
  exact exists_sessionDecTurn hr (hr.fits.n_eq ▸ hi) h hrx

end Turns

end LightwayCffi.Bench
