import LightwayCffi.Expresslane.Cipher

/-!
# The wire format

An ExpressLane packet is a header of 40 bytes and the ciphertext: the counter (8 bytes), the
initialisation vector (12), the tag (16), the length of the data (2) and the flags (2), numbers
big-endian. `WireHeader.encode` is that layout, `parseHeader` is how the receiver reads it, and the
two are inverse: every string of at least 40 bytes is an encoded header followed by the rest
(`exists_encode`), and parsing returns that header (`parseHeader_encode`). Later proofs therefore
speak of `h.encode ++ body` and not of offsets.

The associated data binds the session, the counter and, from `version2` on, all 16 flag bits.
`buildAad` builds it in a fixed buffer as the code does and `buildAad_eq` says what it is.
-/

namespace LightwayCffi.Expresslane

open Buffer

/-- The bit of the flags that says that the payload is encoded. -/
def flagEncoded : BitVec 16 := 0x8000

/-- The length of the header. -/
abbrev wireOverhead : ℕ := 40

/-! ## The associated data -/

/-- Build the associated data: a buffer of 18 bytes and the number of significant ones. -/
def buildAad (version : ExpresslaneVersion) (sessionId : Vector UInt8 8) (counter : BitVec 64)
    (flags : BitVec 16) : Option (Bytes × ℕ) := do
  let buf : Bytes := List.replicate 18 0
  let buf ← copyFromSlice buf 0 8 sessionId.toList
  let buf ← copyFromSlice buf 8 16 (toBE 8 counter.toNat)
  if ExpresslaneVersion.version2.toU8 ≤ version.toU8 then
    let buf ← copyFromSlice buf 16 18 (toBE 2 flags.toNat)
    pure (buf, 18)
  else pure (buf, 16)

/-- The associated data of a packet: the flags are part of it from `version2` on. -/
def aadOf (version : ExpresslaneVersion) (sessionId : Vector UInt8 8) (counter : BitVec 64)
    (flags : BitVec 16) : Bytes :=
  [sessionId.toList, toBE 8 counter.toNat,
    if ExpresslaneVersion.version2.toU8 ≤ version.toU8 then toBE 2 flags.toNat else []].flatten

/-- The significant part of the buffer is the associated data. -/
theorem buildAad_eq (version : ExpresslaneVersion) (sessionId : Vector UInt8 8)
    (counter : BitVec 64) (flags : BitVec 16) :
    ∃ buf len, buildAad version sessionId counter flags = some (buf, len) ∧
      slice buf 0 len = some (aadOf version sessionId counter flags) := by
  have hbuf : (List.replicate 18 0 : Bytes) =
      [List.replicate 8 0, List.replicate 8 0, List.replicate 2 0].flatten := rfl
  have hsid : sessionId.toList.length = 8 := sessionId.length_toList
  have hw₀ : copyFromSlice [List.replicate 8 0, List.replicate 8 0, List.replicate 2 0].flatten 0 8
      sessionId.toList = some [sessionId.toList, List.replicate 8 0, List.replicate 2 0].flatten :=
    copyFromSlice_flatten 0 rfl rfl rfl hsid
  have hw₁ : copyFromSlice [sessionId.toList, List.replicate 8 0, List.replicate 2 0].flatten 8 16
      (toBE 8 counter.toNat) =
        some [sessionId.toList, toBE 8 counter.toNat, List.replicate 2 0].flatten :=
    copyFromSlice_flatten 1 rfl (by simp) rfl (length_toBE 8 _)
  have hw₂ : copyFromSlice [sessionId.toList, toBE 8 counter.toNat, List.replicate 2 0].flatten
      16 18 (toBE 2 flags.toNat) =
        some [sessionId.toList, toBE 8 counter.toNat, toBE 2 flags.toNat].flatten :=
    copyFromSlice_flatten 2 rfl (by simp) rfl (length_toBE 2 _)
  simp only [buildAad, aadOf, hbuf, hw₀, hw₁, hw₂, Option.bind_eq_bind, Option.bind_some,
    Option.pure_def]
  split_ifs with hv
  · refine ⟨_, _, rfl, ?_⟩
    simpa using slice_front (sessionId.toList ++ (toBE 8 counter.toNat ++ toBE 2 flags.toNat)) []
      (by simp)
  · refine ⟨_, _, rfl, ?_⟩
    simpa using slice_front (sessionId.toList ++ toBE 8 counter.toNat) (List.replicate 2 0)
      (by simp)

/-- The associated data determines the session and the counter, whatever the versions. -/
theorem aadOf_inj {version version' : ExpresslaneVersion} {sessionId sessionId' : Vector UInt8 8}
    {counter counter' : BitVec 64} {flags flags' : BitVec 16}
    (h : aadOf version sessionId counter flags = aadOf version' sessionId' counter' flags') :
    sessionId = sessionId' ∧ counter = counter' := by
  simp only [aadOf, List.flatten_cons] at h
  obtain ⟨hsid, h⟩ := List.append_inj h (by simp)
  obtain ⟨hcounter, -⟩ := List.append_inj h (by simp)
  exact ⟨Vector.toList_inj.1 hsid, toBE_toNat_inj rfl hcounter⟩

/-- The associated data also determines whether the flags are part of it, and then the flags. -/
theorem aadOf_inj_flags {version version' : ExpresslaneVersion}
    {sessionId sessionId' : Vector UInt8 8} {counter counter' : BitVec 64}
    {flags flags' : BitVec 16}
    (h : aadOf version sessionId counter flags = aadOf version' sessionId' counter' flags') :
    (version = .version2 ↔ version' = .version2) ∧ (version = .version2 → flags = flags') := by
  obtain ⟨rfl, rfl⟩ := aadOf_inj h
  simp only [aadOf, List.flatten_cons, List.append_cancel_left_eq, List.flatten_nil,
    List.append_nil] at h
  have hlen := congrArg List.length h
  cases version <;> cases version' <;> simp [ExpresslaneVersion.toU8] at h hlen ⊢
  exact toBE_toNat_inj rfl h

/-! ## The header -/

/-- The fields of the header. -/
structure WireHeader where
  counter : BitVec 64
  iv : Vector UInt8 12
  tag : Vector UInt8 16
  dataLen : BitVec 16
  flags : BitVec 16
  deriving DecidableEq

/-- Read the header of a packet. -/
def parseHeader (wirePacket : Bytes) : Option WireHeader := do
  let counter := BitVec.ofNat 64 (ofBE (← slice wirePacket 0 8))
  let iv ← tryInto 12 (← slice wirePacket 8 20)
  let tag ← tryInto 16 (← slice wirePacket 20 36)
  let dataLen := BitVec.ofNat 16 (ofBE (← slice wirePacket 36 38))
  let flags := BitVec.ofNat 16 (ofBE (← slice wirePacket 38 40))
  pure { counter, iv, tag, dataLen, flags }

/-- Write the header of a packet around its initialisation vector, which is already in place. -/
def writeHeader (h : WireHeader) (out : Bytes) : Option Bytes := do
  let out ← copyFromSlice out 0 8 (toBE 8 h.counter.toNat)
  let out ← copyFromSlice out 20 36 h.tag.toList
  let out ← copyFromSlice out 36 38 (toBE 2 h.dataLen.toNat)
  copyFromSlice out 38 40 (toBE 2 h.flags.toNat)

namespace WireHeader

/-- The fields of a header as strings of bytes. -/
def fields (h : WireHeader) : List Bytes :=
  [toBE 8 h.counter.toNat, h.iv.toList, h.tag.toList, toBE 2 h.dataLen.toNat, toBE 2 h.flags.toNat]

/-- The header of a packet. -/
def encode (h : WireHeader) : Bytes := h.fields.flatten

@[simp] theorem length_encode (h : WireHeader) : h.encode.length = 40 := by
  simp [encode, fields]

end WireHeader

/-- A buffer that has room for a header is a sequence of its five fields, and the rest. -/
theorem exists_fields (buf : Bytes) (h : 40 ≤ buf.length) :
    ∃ c v t l f r : Bytes, buf = [c, v, t, l, f, r].flatten ∧ c.length = 8 ∧ v.length = 12 ∧
      t.length = 16 ∧ l.length = 2 ∧ f.length = 2 := by
  obtain ⟨c, buf, rfl, hc⟩ := exists_append buf (n := 8) (by omega)
  rw [List.length_append, hc] at h
  obtain ⟨v, buf, rfl, hv⟩ := exists_append buf (n := 12) (by omega)
  rw [List.length_append, hv] at h
  obtain ⟨t, buf, rfl, ht⟩ := exists_append buf (n := 16) (by omega)
  rw [List.length_append, ht] at h
  obtain ⟨l, buf, rfl, hl⟩ := exists_append buf (n := 2) (by omega)
  rw [List.length_append, hl] at h
  obtain ⟨f, r, rfl, hf⟩ := exists_append buf (n := 2) (by omega)
  exact ⟨c, v, t, l, f, r, by simp, hc, hv, ht, hl, hf⟩

/-- Every string that is long enough is a header and the rest. -/
theorem exists_encode {wire : Bytes} (h : 40 ≤ wire.length) :
    ∃ (hdr : WireHeader) (body : Bytes), wire = hdr.encode ++ body := by
  obtain ⟨c, v, t, l, f, r, rfl, hc, hv, ht, hl, hf⟩ := exists_fields wire h
  obtain ⟨counter, rfl⟩ := exists_toBE (w := 64) rfl hc
  obtain ⟨iv, rfl⟩ := exists_toList hv
  obtain ⟨tag, rfl⟩ := exists_toList ht
  obtain ⟨dataLen, rfl⟩ := exists_toBE (w := 16) rfl hl
  obtain ⟨flags, rfl⟩ := exists_toBE (w := 16) rfl hf
  exact ⟨⟨counter, iv, tag, dataLen, flags⟩, r, by simp [WireHeader.encode, WireHeader.fields]⟩

/-- Parsing returns the header that was written. -/
theorem parseHeader_encode (h : WireHeader) (body : Bytes) :
    parseHeader (h.encode ++ body) = some h := by
  have hwire : h.encode ++ body = (h.fields ++ [body]).flatten := by
    simp [WireHeader.encode]
  have hcounter : slice (h.fields ++ [body]).flatten 0 8 = some (toBE 8 h.counter.toNat) :=
    slice_flatten 0 rfl rfl (by simp)
  have hiv : slice (h.fields ++ [body]).flatten 8 20 = some h.iv.toList :=
    slice_flatten 1 rfl (by simp [WireHeader.fields]) (by simp)
  have htag : slice (h.fields ++ [body]).flatten 20 36 = some h.tag.toList :=
    slice_flatten 2 rfl (by simp [WireHeader.fields]) (by simp)
  have hlen : slice (h.fields ++ [body]).flatten 36 38 = some (toBE 2 h.dataLen.toNat) :=
    slice_flatten 3 rfl (by simp [WireHeader.fields]) (by simp)
  have hflags : slice (h.fields ++ [body]).flatten 38 40 = some (toBE 2 h.flags.toNat) :=
    slice_flatten 4 rfl (by simp [WireHeader.fields]) (by simp)
  simp only [parseHeader, hwire, hcounter, hiv, htag, hlen, hflags, tryInto_toList,
    Option.bind_eq_bind, Option.bind_some, Option.pure_def]
  rw [ofNat_ofBE_toBE (w := 64) rfl, ofNat_ofBE_toBE (w := 16) rfl, ofNat_ofBE_toBE (w := 16) rfl]

/-- Writing the header yields its encoding, whatever the buffer held. -/
theorem writeHeader_eq (h : WireHeader) {c t l f : Bytes} (r : Bytes) (hc : c.length = 8)
    (ht : t.length = 16) (hl : l.length = 2) (hf : f.length = 2) :
    writeHeader h [c, h.iv.toList, t, l, f, r].flatten = some (h.encode ++ r) := by
  have hcounter : copyFromSlice [c, h.iv.toList, t, l, f, r].flatten 0 8 (toBE 8 h.counter.toNat) =
      some [toBE 8 h.counter.toNat, h.iv.toList, t, l, f, r].flatten :=
    copyFromSlice_flatten 0 rfl rfl (by simp [*]) (by simp [*])
  have htag : copyFromSlice [toBE 8 h.counter.toNat, h.iv.toList, t, l, f, r].flatten 20 36
      h.tag.toList = some [toBE 8 h.counter.toNat, h.iv.toList, h.tag.toList, l, f, r].flatten :=
    copyFromSlice_flatten 2 rfl (by simp) (by simp [*]) (by simp [*])
  have hlen : copyFromSlice [toBE 8 h.counter.toNat, h.iv.toList, h.tag.toList, l, f, r].flatten
      36 38 (toBE 2 h.dataLen.toNat) = some [toBE 8 h.counter.toNat, h.iv.toList, h.tag.toList,
        toBE 2 h.dataLen.toNat, f, r].flatten :=
    copyFromSlice_flatten 3 rfl (by simp) (by simp [*]) (by simp [*])
  have hflags : copyFromSlice [toBE 8 h.counter.toNat, h.iv.toList, h.tag.toList,
      toBE 2 h.dataLen.toNat, f, r].flatten 38 40 (toBE 2 h.flags.toNat) =
        some [toBE 8 h.counter.toNat, h.iv.toList, h.tag.toList, toBE 2 h.dataLen.toNat,
          toBE 2 h.flags.toNat, r].flatten :=
    copyFromSlice_flatten 4 rfl (by simp) (by simp [*]) (by simp [*])
  simp only [writeHeader, hcounter, htag, hlen, hflags, Option.bind_eq_bind, Option.bind_some]
  simp [WireHeader.encode, WireHeader.fields]

end LightwayCffi.Expresslane
