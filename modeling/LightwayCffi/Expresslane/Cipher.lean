import LightwayCffi.Foundations.Buffer

/-!
# The packet cipher

Keys, errors and the AES-256-GCM wrapper of an ExpressLane session. The AEAD itself belongs to
another library, so the development is parametric in it: an `Aead` is any pair of functions with the
three documented facts that the wrapper relies on, that both directions work in place and so keep
the length of the buffer, and that opening undoes sealing. Nothing is assumed about forgeries here;
the results that need it name it as a hypothesis.

A failing call leaves *unspecified* bytes in the buffer it was given. What it leaves is the
`Leftover` argument of each call: a result that holds for every `Leftover` does not depend on it.
-/

namespace LightwayCffi.Expresslane

/-- The wire-format version; it controls the layout of the associated data. -/
inductive ExpresslaneVersion where
  | unknown
  | version1
  | version2
  deriving DecidableEq

/-- The discriminant, by which versions are ordered. -/
def ExpresslaneVersion.toU8 : ExpresslaneVersion → UInt8
  | unknown => 0
  | version1 => 1
  | version2 => 2

/-- Errors of packet operations. -/
inductive ExpresslaneError where
  | insufficientData
  | bufferTooSmall
  | invalidData
  | replayed
  | keyNotSet
  | invalidKey
  deriving DecidableEq

/-- An AES-256-GCM key. -/
structure ExpresslaneKey where
  bytes : Vector UInt8 32
  deriving DecidableEq

namespace ExpresslaneKey

/-- The all-zero sentinel of an unset key. -/
def invalid : ExpresslaneKey := ⟨Vector.replicate 32 0⟩

def isInvalid (key : ExpresslaneKey) : Bool := key == invalid

end ExpresslaneKey

/-- An authenticated cipher with associated data, working in place with a detached tag. -/
structure Aead where
  sealInPlace : ExpresslaneKey → Vector UInt8 12 → Bytes → Bytes → Option (Bytes × Vector UInt8 16)
  openInPlace : ExpresslaneKey → Vector UInt8 12 → Bytes → Bytes → Vector UInt8 16 → Option Bytes
  length_seal : ∀ {key iv aad plain ct tag},
    sealInPlace key iv aad plain = some (ct, tag) → ct.length = plain.length
  length_open : ∀ {key iv aad ct tag plain},
    openInPlace key iv aad ct tag = some plain → plain.length = ct.length
  open_seal : ∀ {key iv aad plain ct tag},
    sealInPlace key iv aad plain = some (ct, tag) → openInPlace key iv aad ct tag = some plain

/-- The bytes that a failing in-place call leaves in a buffer, by the length of the buffer. -/
structure Leftover where
  bytes : ℕ → Bytes
  length_bytes : ∀ n, (bytes n).length = n

/-- One AEAD tuple under a key: what a seal produced, or what an open was asked about. -/
structure AeadCall where
  key : ExpresslaneKey
  iv : Vector UInt8 12
  aad : Bytes
  ciphertext : Bytes
  tag : Vector UInt8 16
  deriving DecidableEq

/-- A loaded key. -/
structure Cipher where
  key : ExpresslaneKey
  deriving DecidableEq

namespace Cipher

/-- Load a key. The length check is the library's only documented failure, and a key has the right
length by its type. -/
def new (key : ExpresslaneKey) : Except ExpresslaneError Cipher :=
  if key.bytes.toList.length = 32 then .ok ⟨key⟩ else .error .invalidKey

theorem new_eq (key : ExpresslaneKey) : new key = .ok ⟨key⟩ :=
  if_pos key.bytes.length_toList

/-- Encrypt `buf` in place: the bytes left in the buffer, and the tag. -/
def encrypt (A : Aead) (cipher : Cipher) (iv : Vector UInt8 12) (aad buf : Bytes)
    (left : Leftover) : Bytes × Except ExpresslaneError (Vector UInt8 16) :=
  match A.sealInPlace cipher.key iv aad buf with
  | some (ct, tag) => (ct, .ok tag)
  | none => (left.bytes buf.length, .error .invalidData)

/-- Verify `tag` and decrypt `buf` in place: the bytes left in the buffer, and the verdict. -/
def decrypt (A : Aead) (cipher : Cipher) (iv : Vector UInt8 12) (aad buf : Bytes)
    (tag : Vector UInt8 16) (left : Leftover) : Bytes × Except ExpresslaneError Unit :=
  match A.openInPlace cipher.key iv aad buf tag with
  | some plain => (plain, .ok ())
  | none => (left.bytes buf.length, .error .invalidData)

/-- The tuple that a successful seal of `plain` produces. -/
def sealCall (A : Aead) (cipher : Cipher) (iv : Vector UInt8 12) (aad plain : Bytes) :
    Option AeadCall :=
  (A.sealInPlace cipher.key iv aad plain).map fun sealed =>
    ⟨cipher.key, iv, aad, sealed.1, sealed.2⟩

/-- The tuple that a successful open is about, and the plaintext it yields. -/
def openCall (A : Aead) (cipher : Cipher) (iv : Vector UInt8 12) (aad ct : Bytes)
    (tag : Vector UInt8 16) : Option (AeadCall × Bytes) :=
  (A.openInPlace cipher.key iv aad ct tag).map fun plain => (⟨cipher.key, iv, aad, ct, tag⟩, plain)

variable {A : Aead} {cipher cipher' : Cipher} {iv iv' : Vector UInt8 12} {aad aad' ct : Bytes}
  {plain plain' : Bytes} {tag : Vector UInt8 16} {call : AeadCall}

theorem sealCall_eq_some :
    cipher.sealCall A iv aad plain = some call ↔
      A.sealInPlace cipher.key iv aad plain = some (call.ciphertext, call.tag) ∧
        call.key = cipher.key ∧ call.iv = iv ∧ call.aad = aad := by
  rw [sealCall, Option.map_eq_some_iff]
  refine ⟨fun ⟨sealed, hs, hc⟩ => ?_, fun ⟨hs, hk, hiv, haad⟩ => ⟨_, hs, ?_⟩⟩
  · subst hc
    exact ⟨hs, rfl, rfl, rfl⟩
  · rw [← hk, ← hiv, ← haad]

theorem openCall_eq_some :
    cipher.openCall A iv aad ct tag = some (call, plain) ↔
      A.openInPlace cipher.key iv aad ct tag = some plain ∧
        call = ⟨cipher.key, iv, aad, ct, tag⟩ := by
  rw [openCall, Option.map_eq_some_iff]
  refine ⟨fun ⟨p, hp, hc⟩ => ?_, fun ⟨hp, hc⟩ => ⟨plain, hp, by rw [hc]⟩⟩
  obtain ⟨rfl, rfl⟩ := Prod.mk.inj hc
  exact ⟨hp, rfl⟩

/-- A tuple opens to the plaintext that was sealed into it, and its associated data is the sealed
one. -/
theorem openCall_sealCall (ho : cipher.openCall A iv aad ct tag = some (call, plain))
    (hs : cipher'.sealCall A iv' aad' plain' = some call) : plain = plain' ∧ aad = aad' := by
  obtain ⟨hopen, rfl⟩ := openCall_eq_some.1 ho
  obtain ⟨hseal, hk, hiv, haad⟩ := sealCall_eq_some.1 hs
  rw [← hk, ← hiv, ← haad] at hseal
  have := A.open_seal hseal
  rw [hopen] at this
  exact ⟨Option.some.inj this, haad⟩

end Cipher

/-! ## An instance of the assumptions -/

/-- The first 16 bytes of a key, as a tag. -/
def keyTag (key : ExpresslaneKey) : Vector UInt8 16 :=
  ⟨(key.bytes.toList.take 16).toArray, by simp⟩

/-- The cipher that leaves the text as it is and tags it with the key. It has all the functional
properties of an AEAD, and separates keys that differ in their first 16 bytes. -/
def keyTagAead : Aead where
  sealInPlace key _ _ plain := some (plain, keyTag key)
  openInPlace key _ _ ct tag := if tag = keyTag key then some ct else none
  length_seal h := by
    obtain ⟨rfl, -⟩ := Prod.mk.inj (Option.some.inj h)
    rfl
  length_open h := by
    split_ifs at h
    rw [Option.some.inj h]
  open_seal h := by
    obtain ⟨rfl, rfl⟩ := Prod.mk.inj (Option.some.inj h)
    exact if_pos rfl

/-- What opens carries the tag of the key. -/
theorem tag_of_openInPlace {key : ExpresslaneKey} {iv : Vector UInt8 12} {aad ct plain : Bytes}
    {tag : Vector UInt8 16} (h : keyTagAead.openInPlace key iv aad ct tag = some plain) :
    tag = keyTag key := by
  by_contra hne
  exact absurd (h.symm.trans (if_neg hne)) (Option.some_ne_none _)

/-- A failing call that leaves zeros. -/
def zeroLeftover : Leftover := ⟨fun n => List.replicate n 0, fun _ => List.length_replicate⟩

/-- The key all of whose bytes are `b`. -/
def constKey (b : UInt8) : ExpresslaneKey := ⟨Vector.replicate 32 b⟩

end LightwayCffi.Expresslane
