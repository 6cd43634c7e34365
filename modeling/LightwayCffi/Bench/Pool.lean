import LightwayCffi.Expresslane.RoundTrip
import LightwayCffi.Foundations.Loop
import LightwayCffi.Foundations.Region

/-!
# The packet pools of the benchmark

The benchmark measures what the packet sessions and the ciphers under them cost. Before it starts,
`Src::build` fills a pool with packets: random plaintexts, the packets that a session makes of them,
and packets of the same form under a second cipher. The packets lie `stride` bytes apart, with
counters from 1 on. A session calls `ring`; the benchmark links two more implementations of ciphers,
one of the same cipher (`rc`) and one of the second (`cc`).

`exists_build` says that a pool can be built with any ciphers that do not fail, and what is in it
then (`Pool`): in every slot, the header and the ciphertext of the plaintext in this slot, under
`ring` and under `cc`.
-/

namespace LightwayCffi.Bench

open Expresslane Buffer Memory Loop

/-! ## Building a pool -/

/-- `iv_for`. -/
def ivFor (counter : BitVec 64) : Vector UInt8 12 :=
  ⟨(toBE 8 counter.toNat ++ List.replicate 4 0).toArray, by simp⟩

/-- `aad_v2`. -/
def aadV2 (sessionId : Vector UInt8 8) (counter : BitVec 64) (flags : BitVec 16) : Bytes :=
  sessionId.toList ++ (toBE 8 counter.toNat ++ toBE 2 flags.toNat)

/-- `Rng`. -/
structure Rng where
  state : BitVec 64

/-- `Rng::new`. -/
def Rng.new (seed : BitVec 64) : Rng := ⟨seed ||| 1#64⟩

/-- `Rng::next`: xorshift64*. -/
def Rng.next (rng : Rng) : Rng × BitVec 64 :=
  let x := rng.state
  let x := x ^^^ (x >>> 12)
  let x := x ^^^ (x <<< 25)
  let x := x ^^^ (x >>> 27)
  (⟨x⟩, x * 0x2545F4914F6CDD1D#64)

/-- `Src`. -/
structure Src where
  wire : Region UInt8
  wireCc : Region UInt8
  plain : Region UInt8
  slots : ℕ
  len : ℕ
  stride : ℕ
  sessionId : Vector UInt8 8
  poolHash : BitVec 64

/-- `align_up`. -/
def alignUp (v a : ℕ) : ℕ := (v + a - 1) / a * a

/-- The distance of packets with `len` bytes of plaintext: not a power of two. -/
def strideOf (len : ℕ) : ℕ :=
  let stride := alignUp (40 + len + 16) 64 + 128
  if 1 <<< stride.log2 = stride then stride + 64 else stride

/-- The number of packets: at least 64. -/
def slotsOf (stride targetBytes maxSlots : ℕ) : ℕ :=
  max 64 (min (targetBytes / stride) (max maxSlots 64))

/-- The `while` loop that fills one plaintext, from the index `w` on; `fuel` bounds the number of
turns. -/
def fillPlain (len : ℕ) : ℕ → Rng → ℕ → Bytes → Option (Rng × Bytes)
  | 0, rng, w, p => if w < len then none else some (rng, p)
  | fuel + 1, rng, w, p =>
    if w < len then do
      let (rng, r) := rng.next
      let take := min (len - w) 8
      let p ← copyFromSlice p w (w + take) ((toBE 8 r.toNat).reverse.take take)
      fillPlain len fuel rng (w + take) p
    else some (rng, p)

/-- One turn of the loop over the plaintexts. -/
def plainSlot (len stride : ℕ) (st : Rng × Region UInt8) (i : ℕ) :
    Option (Rng × Region UInt8) := do
  let base := i * stride
  let p ← st.2.read base len
  let (rng, p) ← fillPlain len len st.1 0 p
  pure (rng, ← st.2.write base p)

/-- The counter of the packet in a slot: `i as u64 + 1`. -/
def counterOf (i : ℕ) : BitVec 64 := BitVec.ofNat 64 i + 1#64

/-- The sending session, and the two arrays of packets. -/
structure Sealing where
  tx : ExpresslaneSession
  wire : Region UInt8
  wireCc : Region UInt8

section Build

variable (ring cc : Aead) (key : ExpresslaneKey) (sessionId : Vector UInt8 8) (left : Leftover)

/-- The packet of the second cipher, with the header of the session's packet but for the tag. -/
def sealCc (len stride : ℕ) (plain wire wireCc : Region UInt8) (i : ℕ) :
    Option (Region UInt8) := do
  let base := i * stride
  let flags := BitVec.ofNat 16 (ofBE (← wire.read (base + 38) 2))
  let aad := aadV2 sessionId (counterOf i) flags
  let wireCc ← wireCc.write base (← wire.read base 40)
  let wireCc ← wireCc.write (base + 40) (← plain.read base len)
  let (ct, tag) ← cc.sealInPlace key (ivFor (counterOf i)) aad (← wireCc.read (base + 40) len)
  let wireCc ← wireCc.write (base + 40) ct
  wireCc.write (base + 20) tag.toList

/-- One turn of the loop over the packets. -/
def sealSlot (len stride : ℕ) (plain : Region UInt8) (st : Sealing) (i : ℕ) : Option Sealing := do
  let base := i * stride
  let p ← plain.read base len
  let out ← st.wire.read base (40 + len)
  let (tx, out, result) ← st.tx.encrypt ring (counterOf i) sessionId p (ivFor (counterOf i)) false
    out left
  match result with
  | .error _ => none
  | .ok _ =>
    let wire ← st.wire.write base out
    let wireCc ← sealCc cc key sessionId len stride plain wire st.wireCc i
    pure ⟨tx, wire, wireCc⟩

/-- One byte of the hash. The factor is the one in the source, `0x1000_0000_01b3`; the prime of
FNV-1a has a zero less. -/
def hashByte (h : BitVec 64) (b : UInt8) : BitVec 64 :=
  (h ^^^ BitVec.ofNat 64 b.toNat) * 0x1000000001b3#64

/-- The hash over the packets of the session. -/
def hashOf (wire : Region UInt8) (slots stride len : ℕ) : Option (BitVec 64) :=
  (List.range slots).foldlM (fun h i => do
    let w ← wire.read (i * stride) (40 + len)
    pure (w.foldl hashByte h))
    0xcbf29ce484222325#64

/-- The session that seals, as both `Src::build` and `build_keys` make it. -/
def freshTx : Option ExpresslaneSession :=
  match (ExpresslaneSession.new .version2).updateNextSelfKey key with
  | (tx, .ok ()) => some tx.promoteSelfKey
  | (_, .error _) => none

/-- `Src::build`. -/
def Src.build (len targetBytes maxSlots : ℕ) (seed : BitVec 64) : Option Src := do
  let stride := strideOf len
  let slots := slotsOf stride targetBytes maxSlots
  let zeros := Region.filled (slots * stride) 0
  let (_, plain) ← (List.range slots).foldlM (plainSlot len stride) (.new seed, zeros)
  let tx ← freshTx key
  let sealing ← (List.range slots).foldlM (sealSlot ring cc key sessionId left len stride plain)
    ⟨tx, zeros, zeros⟩
  let poolHash ← hashOf sealing.wire slots stride len
  pure { wire := sealing.wire, wireCc := sealing.wireCc, plain, slots, len, stride, sessionId,
         poolHash }

end Build

/-! ## What is in a pool -/

/-- The header of the packet in a slot. -/
def headerOf (len k : ℕ) (tag : Vector UInt8 16) : WireHeader :=
  ⟨counterOf k, ivFor (counterOf k), tag, BitVec.ofNat 16 len, 0#16⟩

/-- A cipher seals the plaintext of a slot. -/
def Seals (A : Aead) (key : ExpresslaneKey) (sessionId : Vector UInt8 8) (k : ℕ) (plain ct : Bytes)
    (tag : Vector UInt8 16) : Prop :=
  A.sealInPlace key (ivFor (counterOf k)) (aadV2 sessionId (counterOf k) 0#16) plain =
    some (ct, tag)

/-- A slot has the packet of the plaintext in the same slot. -/
def SealedAt (A : Aead) (key : ExpresslaneKey) (sessionId : Vector UInt8 8) (len stride : ℕ)
    (plain wire : Region UInt8) (k : ℕ) : Prop :=
  ∃ ct tag, Seals A key sessionId k (load plain.cell (k * stride) len) ct tag ∧
    load wire.cell (k * stride) (40 + len) = (headerOf len k tag).encode ++ ct

/-- A pool: arrays of the same size with a packet in every slot. -/
structure Pool (ring cc : Aead) (key : ExpresslaneKey) (src : Src) : Prop where
  room : 40 + src.len ≤ src.stride
  size_wire : src.wire.size = src.slots * src.stride
  size_wireCc : src.wireCc.size = src.slots * src.stride
  size_plain : src.plain.size = src.slots * src.stride
  wire : ∀ k < src.slots, SealedAt ring key src.sessionId src.len src.stride src.plain src.wire k
  wireCc : ∀ k < src.slots, SealedAt cc key src.sessionId src.len src.stride src.plain src.wireCc k

theorem le_alignUp (v : ℕ) {a : ℕ} (ha : 0 < a) : v ≤ alignUp v a := by
  have hmod := Nat.div_add_mod (v + a - 1) a
  have hlt := Nat.mod_lt (v + a - 1) ha
  rw [alignUp, Nat.mul_comm]
  omega

theorem room_strideOf (len : ℕ) : 40 + len ≤ strideOf len := by
  have hle := le_alignUp (40 + len + 16) (show 0 < 64 by decide)
  unfold strideOf
  dsimp only
  split_ifs <;> omega

theorem aadV2_eq (sessionId : Vector UInt8 8) (counter : BitVec 64) (flags : BitVec 16) :
    aadV2 sessionId counter flags = aadOf .version2 sessionId counter flags := by
  simp [aadV2, aadOf]

/-- Every turn of the `while` loop takes at least one byte. -/
theorem exists_fillPlain (len fuel : ℕ) (rng : Rng) (w : ℕ) (p : Bytes) (hp : p.length = len)
    (hfuel : len ≤ w + fuel) : ∃ rng' p', fillPlain len fuel rng w p = some (rng', p') ∧
      p'.length = len := by
  induction fuel generalizing rng w p with
  | zero => exact ⟨rng, p, if_neg (by omega), hp⟩
  | succ fuel ih =>
    rw [fillPlain]
    split_ifs with hw
    · have hsrc : ((toBE 8 rng.next.2.toNat).reverse.take (min (len - w) 8)).length =
          w + min (len - w) 8 - w := by
        rw [List.length_take, List.length_reverse, length_toBE]
        omega
      have hend : w + min (len - w) 8 ≤ p.length := by omega
      obtain ⟨p', hcopy, hp'⟩ := exists_copyFromSlice (by omega) hend hsrc
      simp only [hcopy, Option.bind_eq_bind, Option.bind_some]
      exact ih rng.next.1 (w + min (len - w) 8) p' (hp'.trans hp) (by omega)
    · exact ⟨rng, p, rfl, hp⟩

/-- The loop over the plaintexts stays within its array. -/
theorem exists_plain (len stride slots : ℕ) (rng : Rng) (hlen : len ≤ stride) :
    ∃ st, (List.range slots).foldlM (plainSlot len stride)
        (rng, Region.filled (slots * stride) 0) = some st ∧ st.2.size = slots * stride := by
  refine exists_foldlM_range (fun _ (st : Rng × Region UInt8) => st.2.size = slots * stride) rfl
    fun i hi st hsize => ?_
  have hle := slot_le hi hlen
  obtain ⟨rng', p', hfill, hp'⟩ := exists_fillPlain len len st.1 0
    (load st.2.cell (i * stride) len) (length_load _ _ _) (by omega)
  refine ⟨(rng', { st.2 with cell := store st.2.cell (i * stride) p' }), ?_, hsize⟩
  rw [plainSlot, Region.read_of_le (by omega)]
  simp only [Option.bind_eq_bind, Option.bind_some, hfill]
  rw [Region.write_of_le (by omega)]
  rfl

section Seal

variable {ring cc : Aead} {key : ExpresslaneKey} {sessionId : Vector UInt8 8} {left : Leftover}
  {len stride slots : ℕ} {plain : Region UInt8}

/-- The key is not the sentinel, and the ciphers do not fail on packets. -/
structure Works (ring cc : Aead) (key : ExpresslaneKey) : Prop where
  valid : key.isInvalid = false
  ring_seals : ∀ iv aad plain, plain.length ≤ 65535 →
    ∃ ct tag, ring.sealInPlace key iv aad plain = some (ct, tag)
  cc_seals : ∀ iv aad plain, plain.length ≤ 65535 →
    ∃ ct tag, cc.sealInPlace key iv aad plain = some (ct, tag)

/-- A session that seals with the key. -/
structure Sends (key : ExpresslaneKey) (tx : ExpresslaneSession) : Prop where
  version : tx.version = .version2
  self : tx.currentSelf = some ⟨key⟩

theorem exists_freshTx (hworks : Works ring cc key) :
    ∃ tx, freshTx key = some tx ∧ Sends key tx := by
  have hkey : (ExpresslaneSession.new .version2).updateNextSelfKey key =
      ({ ExpresslaneSession.new .version2 with nextSelf := some ⟨key⟩ }, .ok ()) := by
    rw [ExpresslaneSession.updateNextSelfKey, if_neg (by simp [hworks.valid]), Cipher.new_eq]
  rw [freshTx, hkey]
  exact ⟨_, rfl, rfl, rfl⟩

/-- The packet that the session makes of a plaintext, in a buffer of its length. -/
theorem Sends.encrypt {tx : ExpresslaneSession} (h : Sends key tx) {k : ℕ} {p ct out : Bytes}
    {tag : Vector UInt8 16} (hseal : Seals ring key sessionId k p ct tag) (hp : p.length = len)
    (hlen : len ≤ 65535) (hout : out.length = 40 + len) (left : Leftover) :
    tx.encrypt ring (counterOf k) sessionId p (ivFor (counterOf k)) false out left = some (
      { tx with packetsSent := tx.packetsSent + 1#64 }, (headerOf len k tag).encode ++ ct,
      .ok (40 + len)) := by
  rw [tx.encrypt_of_sealInPlace ring (counterOf k) sessionId _ (ivFor (counterOf k)) false _ h.self
    (by rw [hp, hout]) (by omega) (by rw [h.version, ← aadV2_eq]; exact hseal) left, hp,
    List.drop_of_length_le hout.le, List.append_nil]
  rfl

theorem Sends.sent {tx : ExpresslaneSession} (h : Sends key tx) (n : BitVec 64) :
    Sends key { tx with packetsSent := n } :=
  ⟨h.version, h.self⟩

/-- The session that seals, and the slots that are done. -/
structure Sealed (ring cc : Aead) (key : ExpresslaneKey) (sessionId : Vector UInt8 8)
    (len stride slots : ℕ) (plain : Region UInt8) (i : ℕ) (st : Sealing) : Prop where
  tx : Sends key st.tx
  size_wire : st.wire.size = slots * stride
  size_wireCc : st.wireCc.size = slots * stride
  wire : ∀ k < i, SealedAt ring key sessionId len stride plain st.wire k
  wireCc : ∀ k < i, SealedAt cc key sessionId len stride plain st.wireCc k

theorem SealedAt.exists_seals {A : Aead} {wire : Region UInt8} {k : ℕ}
    (h : SealedAt A key sessionId len stride plain wire k) :
    ∃ ct tag, Seals A key sessionId k (load plain.cell (k * stride) len) ct tag := by
  obtain ⟨ct, tag, hseal, -⟩ := h
  exact ⟨ct, tag, hseal⟩

/-- A packet in another slot is not affected by a write. -/
theorem SealedAt.store {A : Aead} {wire : Region UInt8} {k i a : ℕ} {vs : Bytes}
    (h : SealedAt A key sessionId len stride plain wire k) (hne : k ≠ i)
    (hroom : 40 + len ≤ stride) (hlo : i * stride ≤ a)
    (hhi : a + vs.length ≤ i * stride + stride) :
    SealedAt A key sessionId len stride plain { wire with cell := store wire.cell a vs } k := by
  obtain ⟨ct, tag, hseal, hload⟩ := h
  exact ⟨ct, tag, hseal, (load_store_of_slot hne hroom hlo hhi).trans hload⟩

theorem take_drop_flags (hdr : WireHeader) (body : Bytes) :
    ((hdr.encode ++ body).drop 38).take 2 = toBE 2 hdr.flags.toNat := by
  have hwire : hdr.encode ++ body = (hdr.fields ++ [body]).flatten := by
    simp [WireHeader.encode]
  rw [hwire, drop_flatten 4 (by simp [WireHeader.fields])]
  exact List.take_left' (length_toBE 2 _)

/-- The header of the session with the tag of the second cipher, and its ciphertext. -/
theorem load_retagged (m : ℕ → UInt8) (a : ℕ) (hdr : WireHeader) {p ct : Bytes}
    (tag : Vector UInt8 16) (hct : ct.length = len) :
    load (store (store (store (store m a hdr.encode) (a + 40) p) (a + 40) ct) (a + 20)
      tag.toList) a (40 + len) = WireHeader.encode { hdr with tag := tag } ++ ct := by
  have hparts : hdr.encode = (toBE 8 hdr.counter.toNat ++ hdr.iv.toList) ++ (hdr.tag.toList ++
      (toBE 2 hdr.dataLen.toNat ++ toBE 2 hdr.flags.toNat)) := by
    simp [WireHeader.encode, WireHeader.fields]
  have hfront : load (store m a hdr.encode) a 20 = toBE 8 hdr.counter.toNat ++ hdr.iv.toList := by
    rw [load_store_take _ _ (by simp), hparts]
    exact List.take_left' (by simp)
  have hback : load (store m a hdr.encode) (a + 36) 4 =
      toBE 2 hdr.dataLen.toNat ++ toBE 2 hdr.flags.toNat := by
    rw [← take_drop_load _ _ (show 36 + 4 ≤ 40 by decide),
      load_store_of_length _ _ hdr.length_encode, hparts, ← List.append_assoc,
      List.drop_left' (by simp)]
    exact List.take_of_length_le (by simp)
  have htag : tag.toList.length = 16 := tag.length_toList
  have hsplit : 40 + len = 20 + (16 + (4 + len)) := by omega
  rw [hsplit, load_add, load_add, load_add, load_store_of_length _ _ htag,
    load_store_of_disjoint (Or.inl (by omega)), load_store_of_disjoint (Or.inl (by omega)),
    load_store_of_disjoint (Or.inl (by omega)), hfront]
  -- behind the tag, the lengths and the flags are the session's, and the rest is new
  rw [load_store_of_disjoint (Or.inr (by omega)), load_store_of_disjoint (Or.inl (by omega)),
    load_store_of_disjoint (Or.inl (by omega)), hback, load_store_of_disjoint (Or.inr (by omega)),
    load_store_of_length _ _ hct]
  simp [WireHeader.encode, WireHeader.fields]

/-- The second cipher seals in a copy of the session's packet. -/
theorem exists_sealCc (sessionId : Vector UInt8 8) {i : ℕ} {wire wireCc : Region UInt8} {ct : Bytes}
    {tag : Vector UInt8 16} (hworks : Works ring cc key) (hroom : 40 + len ≤ stride)
    (hlen : len ≤ 65535) (hi : i < slots)
    (hplain : plain.size = slots * stride) (hwire : wire.size = slots * stride)
    (hwireCc : wireCc.size = slots * stride)
    (hpacket : load wire.cell (i * stride) (40 + len) = (headerOf len i tag).encode ++ ct) :
    ∃ wireCc', sealCc cc key sessionId len stride plain wire wireCc i = some wireCc' ∧
      wireCc'.size = slots * stride ∧
      SealedAt cc key sessionId len stride plain wireCc' i ∧
      ∀ k, k ≠ i → SealedAt cc key sessionId len stride plain wireCc k →
        SealedAt cc key sessionId len stride plain wireCc' k := by
  have hle := slot_le hi hroom
  have hp : (load plain.cell (i * stride) len).length = len := length_load _ _ _
  obtain ⟨ct', tag', hseal⟩ := hworks.cc_seals (ivFor (counterOf i))
    (aadV2 sessionId (counterOf i) 0#16) (load plain.cell (i * stride) len) (by omega)
  have hct := cc.length_seal hseal
  have htag : tag'.toList.length = 16 := tag'.length_toList
  have hencode := (headerOf len i tag).length_encode
  have hflags : wire.read (i * stride + 38) 2 = some (toBE 2 0) := by
    rw [Region.read_of_le (by omega), ← take_drop_load _ _ (show 38 + 2 ≤ 40 + len by omega),
      hpacket, take_drop_flags]
    rfl
  have hheader : wire.read (i * stride) 40 = some (headerOf len i tag).encode := by
    rw [Region.read_of_le (by omega), ← take_load _ _ (show 40 ≤ 40 + len by omega), hpacket,
      List.take_left' hencode]
  let c₁ := store wireCc.cell (i * stride) (headerOf len i tag).encode
  let c₂ := store c₁ (i * stride + 40) (load plain.cell (i * stride) len)
  let c₃ := store c₂ (i * stride + 40) ct'
  let c₄ := store c₃ (i * stride + 20) tag'.toList
  refine ⟨⟨wireCc.size, c₄⟩, ?_, hwireCc, ⟨ct', tag', hseal, load_retagged _ _ _ _ (hct.trans hp)⟩,
    fun k hne hk => ?_⟩
  · have hw₁ : wireCc.write (i * stride) (headerOf len i tag).encode =
        some ⟨wireCc.size, c₁⟩ := Region.write_of_le (by omega)
    have hw₂ : Region.write ⟨wireCc.size, c₁⟩ (i * stride + 40) (load plain.cell (i * stride) len) =
        some ⟨wireCc.size, c₂⟩ := Region.write_of_le (by dsimp only; omega)
    have hw₃ : Region.write ⟨wireCc.size, c₂⟩ (i * stride + 40) ct' = some ⟨wireCc.size, c₃⟩ :=
      Region.write_of_le (by dsimp only; omega)
    have hw₄ : Region.write ⟨wireCc.size, c₃⟩ (i * stride + 20) tag'.toList =
        some ⟨wireCc.size, c₄⟩ := Region.write_of_le (by dsimp only; omega)
    have hcopy : Region.read ⟨wireCc.size, c₂⟩ (i * stride + 40) len =
        some (load plain.cell (i * stride) len) := by
      rw [Region.read_of_le (by dsimp only; omega), load_store_of_length _ _ hp]
    have hread : plain.read (i * stride) len = some (load plain.cell (i * stride) len) :=
      Region.read_of_le (by omega)
    have hzero : BitVec.ofNat 16 (ofBE (toBE 2 0)) = 0#16 := rfl
    simp only [sealCc, hflags, hheader, hread, hw₁, hw₂, hcopy, hzero, hseal, hw₃, hw₄,
      Option.bind_eq_bind, Option.bind_some]
  · have h₁ := hk.store hne hroom le_rfl (show i * stride + _ ≤ _ by rw [hencode]; omega)
    have h₂ := h₁.store hne hroom (Nat.le_add_right _ 40)
      (show i * stride + 40 + (load plain.cell (i * stride) len).length ≤ _ by omega)
    have h₃ := h₂.store hne hroom (Nat.le_add_right _ 40)
      (show i * stride + 40 + ct'.length ≤ _ by omega)
    exact h₃.store hne hroom (Nat.le_add_right _ 20) (by omega)

/-- One turn of the loop over the packets. -/
theorem Sealed.step {i : ℕ} {st : Sealing} (hworks : Works ring cc key) (hroom : 40 + len ≤ stride)
    (hlen : len ≤ 65535) (hplain : plain.size = slots * stride) (hi : i < slots)
    (h : Sealed ring cc key sessionId len stride slots plain i st) :
    ∃ st', sealSlot ring cc key sessionId left len stride plain st i = some st' ∧
      Sealed ring cc key sessionId len stride slots plain (i + 1) st' := by
  have hle := slot_le hi hroom
  have hp : (load plain.cell (i * stride) len).length = len := length_load _ _ _
  obtain ⟨ct, tag, hseal⟩ := hworks.ring_seals (ivFor (counterOf i))
    (aadV2 sessionId (counterOf i) 0#16) (load plain.cell (i * stride) len) (by omega)
  have hct := ring.length_seal hseal
  have hpacket : ((headerOf len i tag).encode ++ ct).length = 40 + len := by
    rw [List.length_append, WireHeader.length_encode, hct, hp]
  have hencrypt := h.tx.encrypt hseal hp hlen
    (length_load st.wire.cell (i * stride) (40 + len)) left
  have hsize := h.size_wire
  let wire : Region UInt8 :=
    ⟨st.wire.size, store st.wire.cell (i * stride) ((headerOf len i tag).encode ++ ct)⟩
  have hwrite : st.wire.write (i * stride) ((headerOf len i tag).encode ++ ct) = some wire :=
    Region.write_of_le (by omega)
  have hload : load wire.cell (i * stride) (40 + len) = (headerOf len i tag).encode ++ ct :=
    load_store_of_length _ _ hpacket
  have hsize' : wire.size = slots * stride := hsize
  obtain ⟨wireCc, hcc, hsizeCc, hnew, hold⟩ := exists_sealCc sessionId hworks hroom hlen hi hplain
    hsize' h.size_wireCc hload
  refine ⟨⟨{ st.tx with packetsSent := st.tx.packetsSent + 1#64 }, wire, wireCc⟩, ?_,
    h.tx.sent _, hsize, hsizeCc, fun k hk => ?_, fun k hk => ?_⟩
  · simp only [sealSlot, Region.read_of_le (show i * stride + len ≤ plain.size by omega),
      Region.read_of_le (show i * stride + (40 + len) ≤ st.wire.size by omega), hencrypt, hwrite,
      hcc, Option.bind_eq_bind, Option.bind_some]
    rfl
  · rcases Nat.lt_succ_iff_lt_or_eq.1 hk with hlt | rfl
    · exact (h.wire k hlt).store (by omega) hroom le_rfl (by omega)
    · exact ⟨ct, tag, hseal, hload⟩
  · rcases Nat.lt_succ_iff_lt_or_eq.1 hk with hlt | rfl
    · exact hold k (by omega) (h.wireCc k hlt)
    · exact hnew

theorem exists_hashOf (wire : Region UInt8) (slots stride len : ℕ) (hroom : 40 + len ≤ stride)
    (hwire : wire.size = slots * stride) : ∃ h, hashOf wire slots stride len = some h := by
  obtain ⟨h, hh, -⟩ := exists_foldlM_range (f := fun (h : BitVec 64) i => do
      let w ← wire.read (i * stride) (40 + len)
      pure (w.foldl hashByte h))
    (s := 0xcbf29ce484222325#64) (n := slots) (fun _ _ => True) trivial fun i hi h _ => by
      have hle := slot_le hi hroom
      rw [Region.read_of_le (by omega)]
      exact ⟨_, rfl, trivial⟩
  exact ⟨h, hh⟩

/-- With ciphers that work, a pool can be built for packets of any length. -/
theorem exists_build (hworks : Works ring cc key) (hlen : len ≤ 65535)
    (sessionId : Vector UInt8 8) (left : Leftover) (targetBytes maxSlots : ℕ) (seed : BitVec 64) :
    ∃ src, Src.build ring cc key sessionId left len targetBytes maxSlots seed = some src ∧
      Pool ring cc key src ∧ src.len = len ∧ src.sessionId = sessionId ∧
      src.slots = slotsOf (strideOf len) targetBytes maxSlots := by
  let stride := strideOf len
  let slots := slotsOf stride targetBytes maxSlots
  have hroom : 40 + len ≤ stride := room_strideOf len
  obtain ⟨⟨rng, plain⟩, hplain, hsize⟩ := exists_plain len stride slots (.new seed) (by omega)
  obtain ⟨tx, htx, hsends⟩ := exists_freshTx hworks
  let zeros : Region UInt8 := Region.filled (slots * stride) 0
  have hstart : Sealed ring cc key sessionId len stride slots plain 0 ⟨tx, zeros, zeros⟩ :=
    ⟨hsends, rfl, rfl, fun k hk => absurd hk (Nat.not_lt_zero k),
      fun k hk => absurd hk (Nat.not_lt_zero k)⟩
  obtain ⟨st, hst, hsealed⟩ := exists_foldlM_range
    (f := sealSlot ring cc key sessionId left len stride plain)
    (Sealed ring cc key sessionId len stride slots plain) hstart
    fun i hi st h => h.step hworks hroom hlen hsize hi
  obtain ⟨h, hhash⟩ := exists_hashOf st.wire slots stride len hroom hsealed.size_wire
  refine ⟨⟨st.wire, st.wireCc, plain, slots, len, stride, sessionId, h⟩, ?_, ⟨hroom,
    hsealed.size_wire, hsealed.size_wireCc, hsize, hsealed.wire, hsealed.wireCc⟩, rfl, rfl, rfl⟩
  simp only [Src.build]
  rw [hplain]
  simp only [htx, Option.bind_eq_bind, Option.bind_some]
  rw [hst, Option.bind_some, hhash]
  rfl

end Seal

end LightwayCffi.Bench
