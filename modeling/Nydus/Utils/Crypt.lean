import Mathlib
import Nydus.Lib.Outcome
import Nydus.Lib.Segments

/-!
# Padding of short XTS plaintexts

`Cipher::encrypt` runs the OpenSSL XTS cipher over the plaintext. XTS needs at least one data unit
(16 bytes), so a shorter plaintext is first padded to 18 bytes the CMS way: the bytes after it
up to 16 hold the number of padding bytes, and the last two are the magic `0x78 0x90`
(`xtsData`). `Cipher::decrypt` runs the cipher backwards and then trims what looks like that
padding (`trimPadding`): an 18-byte result that ends in the magic loses its padding, the count
being read from byte 15. `Cipher::encrypted_size` gives the ciphertext size for a plaintext
size.

The OpenSSL cipher behind `Cipher::cipher` is a parameter (`SymmCipher`); the results assume
only that, for the key and IV in use, it is a length-preserving permutation of the inputs of at
least a data unit (`SymmCipher.IsXtsPermutation`). Under that assumption a round trip gives back
the data the cipher ran on, trimmed (`decrypt_encrypt`). So every non-empty plaintext comes
back, except an 18-byte one that itself ends in the magic, and a plaintext below a data unit
encrypts to 18 bytes (`decrypt_encrypt_roundtrip`); but the empty plaintext is padded with the
count 16, which the trimming rejects, `encrypted_size` says 16 for the 18 bytes of a short
plaintext, and an 18-byte plaintext ending in the magic comes back cut
(`xts_roundtrip_breaks`).
-/

namespace Nydus.Utils.Crypt

open Nydus.Lib
open Nydus.Lib.Outcome (bail)

/-- `DATA_UNIT_LENGTH`. -/
def dataUnitLength : Nat := 16

/-- `PADDING_MAGIC_END`. -/
def paddingMagicEnd : List UInt8 := [0x78, 0x90]

/-- `PADDING_LENGTH`: a data unit and the magic. -/
def paddingLength : Nat := 18

/-- `AES_128_XTS_KEY_LENGTH`. -/
def aes128XtsKeyLength : Nat := 32

/-- `AES_256_XTS_KEY_LENGTH`. -/
def aes256XtsKeyLength : Nat := 64

/-- `symm::Mode`. -/
inductive Mode where
  | encrypt
  | decrypt
  deriving DecidableEq, Repr

/-- An OpenSSL `symm::Cipher` as `Cipher::cipher` runs it: for a mode, a key, an IV and the
whole input, the output of one `Crypter` pass (`update` and `finalize`), or its error. -/
structure SymmCipher where
  cipher : Mode → List UInt8 → Option (List UInt8) → List UInt8 → Except String (List UInt8)

/-- `Cipher`. -/
inductive Cipher where
  | none
  | aes128Xts (c : SymmCipher)
  | aes256Xts (c : SymmCipher)
  | aes256Gcm (c : SymmCipher)

/-- The padding of a plaintext shorter than a data unit: 18 bytes of the padding count, the
plaintext copied over the front and the magic over the last two. -/
def pad (data : List UInt8) : List UInt8 :=
  let val := (dataUnitLength - data.length).toUInt8
  overwrite (overwrite (List.replicate paddingLength val) 0 data) dataUnitLength paddingMagicEnd

/-- The data an XTS `Cipher::encrypt` hands to the cipher: the plaintext from a data unit on,
its padding below. -/
def xtsData (data : List UInt8) : List UInt8 :=
  if data.length ≥ dataUnitLength then data else pad data

/-- The two XTS arms of `Cipher::encrypt`, for the key length each asserts. -/
def xtsEncrypt (keyLength : Nat) (t : SymmCipher) (key : List UInt8) (iv : Option (List UInt8))
    (data : List UInt8) : Outcome (List UInt8) :=
  if key.length ≠ keyLength then Outcome.panic "assertion `left == right` failed"
  else
    match t.cipher .encrypt key iv (xtsData data) with
    | .ok out => .ok out
    | .error e => bail s!"failed to encrypt data, {e}"

/-- `Cipher::encrypt`. -/
def Cipher.encrypt : Cipher → List UInt8 → Option (List UInt8) → List UInt8 → Outcome (List UInt8)
  | .none, _, _, data => .ok data
  | .aes128Xts t, key, iv, data => xtsEncrypt aes128XtsKeyLength t key iv data
  | .aes256Xts t, key, iv, data => xtsEncrypt aes256XtsKeyLength t key iv data
  | .aes256Gcm _, _, _, _ => bail "Cipher::entrypt() doesn't support Aes256Gcm"

/-- The XTS arms of the first part of `Cipher::decrypt`. -/
def xtsDecrypt (t : SymmCipher) (key : List UInt8) (iv : Option (List UInt8))
    (data : List UInt8) : Outcome (List UInt8) :=
  match t.cipher .decrypt key iv data with
  | .ok out => .ok out
  | .error e => bail s!"failed to decrypt data, {e}"

/-- The end of `Cipher::decrypt`: trim possible padding. -/
def trimPadding (data : List UInt8) : Outcome (List UInt8) :=
  if data.length = paddingLength ∧
      data.extract (paddingLength - paddingMagicEnd.length) paddingLength = paddingMagicEnd then
    -- `data[DATA_UNIT_LENGTH - 1]`, inside the 18 bytes
    let val := (data.getD (dataUnitLength - 1) 0).toNat
    if val < dataUnitLength then .ok (data.take (dataUnitLength - val))
    else bail s!"Cipher::decrypt: invalid padding data, value {val}"
  else .ok data

/-- `Cipher::decrypt`. -/
def Cipher.decrypt (c : Cipher) (key : List UInt8) (iv : Option (List UInt8))
    (data : List UInt8) : Outcome (List UInt8) := do
  let data ← match c with
    | .none => pure data
    | .aes128Xts t => xtsDecrypt t key iv data
    | .aes256Xts t => xtsDecrypt t key iv data
    | .aes256Gcm _ => bail "Cipher::detrypt() doesn't support Aes256Gcm"
  trimPadding data

/-- `Cipher::encrypted_size`. -/
def Cipher.encryptedSize : Cipher → Nat → Outcome Nat
  | .none, n => .ok n
  | .aes128Xts _, n | .aes256Xts _, n => .ok (if n < dataUnitLength then dataUnitLength else n)
  | .aes256Gcm _, n =>
    if n + 12 ≥ 2 ^ 64 then Outcome.panic "assertion failed: plaintext_size.checked_add(12).is_some()"
    else .ok (n + 12)

/-! ## The padding -/

theorem pad_eq {data : List UInt8} (h : data.length < dataUnitLength) :
    pad data = data ++ List.replicate (dataUnitLength - data.length)
      (dataUnitLength - data.length).toUInt8 ++ paddingMagicEnd := by
  generalize hval : (dataUnitLength - data.length).toUInt8 = val
  -- the plaintext over the front of the 18 count bytes leaves 16 - len of them, then 2 more
  have hfront : overwrite (List.replicate paddingLength val) 0 data =
      data ++ List.replicate (dataUnitLength - data.length) val ++ List.replicate 2 val ++ [] := by
    simp only [overwrite, List.take_zero, List.nil_append, Nat.zero_add, List.drop_replicate,
      List.append_nil, List.append_assoc, List.replicate_append_replicate]
    congr 2
    simp only [dataUnitLength, paddingLength] at h ⊢
    omega
  have hlen : (data ++ List.replicate (dataUnitLength - data.length) val).length + 0 =
      dataUnitLength := by
    simp only [List.length_append, List.length_replicate]
    omega
  -- the magic goes over the last two
  have hmagic := overwrite_append_left
    (a := data ++ List.replicate (dataUnitLength - data.length) val) (b := List.replicate 2 val) (c := []) (o := 0)
    (d := paddingMagicEnd) (by simp [paddingMagicEnd])
  rw [hlen] at hmagic
  simp only [pad, hval]
  rw [hfront, hmagic]
  simp [overwrite, paddingMagicEnd]

theorem length_pad {data : List UInt8} (h : data.length < dataUnitLength) :
    (pad data).length = paddingLength := by
  rw [pad_eq h]
  simp only [List.length_append, List.length_replicate, paddingMagicEnd, List.length_cons,
    List.length_nil, paddingLength]
  simp only [dataUnitLength] at h ⊢
  omega

theorem length_xtsData (data : List UInt8) :
    (xtsData data).length = if data.length < dataUnitLength then paddingLength else data.length := by
  by_cases h : data.length < dataUnitLength
  · rw [xtsData, if_neg (by omega), if_pos h, length_pad h]
  · rw [xtsData, if_pos (by omega), if_neg h]

theorem le_length_xtsData (data : List UInt8) : dataUnitLength ≤ (xtsData data).length := by
  rw [length_xtsData]
  split_ifs with h
  · simp [dataUnitLength, paddingLength]
  · omega

/-! ## Trimming -/

theorem trimPadding_of_not_padded {data : List UInt8}
    (h : ¬(data.length = paddingLength ∧ data.drop dataUnitLength = paddingMagicEnd)) :
    trimPadding data = .ok data := by
  have hnot : ¬(data.length = paddingLength ∧
      data.extract (paddingLength - paddingMagicEnd.length) paddingLength = paddingMagicEnd) := by
    rintro ⟨hlen, hend⟩
    apply h
    refine ⟨hlen, ?_⟩
    -- with 18 bytes the slice `[16..18]` is everything from byte 16 on
    rw [← hend, List.extract, List.take_of_length_le (by simp [hlen, paddingLength])]
    rfl
  rw [trimPadding, if_neg hnot]

theorem trimPadding_pad {data : List UInt8} (hpos : 0 < data.length)
    (h : data.length < dataUnitLength) : trimPadding (pad data) = .ok data := by
  have hlen : (pad data).length = paddingLength := length_pad h
  have hend : (pad data).extract (paddingLength - paddingMagicEnd.length) paddingLength =
      paddingMagicEnd := by
    rw [pad_eq h, List.extract]
    have hfront : (data ++ List.replicate (dataUnitLength - data.length)
        (dataUnitLength - data.length).toUInt8).length = paddingLength - paddingMagicEnd.length := by
      simp only [List.length_append, List.length_replicate, paddingLength, paddingMagicEnd,
        List.length_cons, List.length_nil]
      simp only [dataUnitLength] at h ⊢
      omega
    rw [List.drop_left' hfront]
    rfl
  -- byte 15 is a padding byte, the count `16 - len`
  have hval : ((pad data).getD (dataUnitLength - 1) 0).toNat = dataUnitLength - data.length := by
    have hcount : data.length ≤ dataUnitLength - 1 ∧ dataUnitLength - 1 - data.length <
        dataUnitLength - data.length := by omega
    rw [pad_eq h, List.getD_eq_getElem?_getD, List.append_assoc, List.getElem?_append_right hcount.1,
      List.getElem?_append_left (by simpa using hcount.2), List.getElem?_replicate, if_pos hcount.2]
    simp only [Option.getD_some, Nat.toUInt8, UInt8.toNat_ofNat', dataUnitLength] at h ⊢
    omega
  rw [trimPadding, if_pos ⟨hlen, hend⟩]
  dsimp only
  rw [hval, if_pos (by omega), pad_eq h, List.append_assoc,
    List.take_left' (by simp only [dataUnitLength] at h ⊢; omega)]

theorem trimPadding_pad_nil :
    trimPadding (pad []) = bail "Cipher::decrypt: invalid padding data, value 16" := by
  rfl

/-! ## Round trips

What the round trip can rely on, and nothing more: for the key and IV in use, the OpenSSL XTS
cipher encrypts an input of at least a data unit to an output as long, which it decrypts
back. -/

/-- The cipher `t` with key `key` and IV `iv` is a length-preserving permutation of the inputs of
at least a data unit. -/
def SymmCipher.IsXtsPermutation (t : SymmCipher) (key : List UInt8) (iv : Option (List UInt8)) :
    Prop :=
  ∀ x : List UInt8, dataUnitLength ≤ x.length →
    ∃ y, t.cipher .encrypt key iv x = .ok y ∧ y.length = x.length ∧
      t.cipher .decrypt key iv y = .ok x

/-- A length-preserving permutation of the inputs of at least a data unit, standing in for the
OpenSSL cipher in tests: every byte XORed with the key's first, and an error on a shorter input,
as XTS gives. -/
def xorCipher : SymmCipher :=
  ⟨fun _ key _ data =>
    if data.length < dataUnitLength then .error "data too short" else
      .ok (data.map (· ^^^ key.headD 0))⟩

theorem xorCipher_isXtsPermutation (key : List UInt8) (iv : Option (List UInt8)) :
    xorCipher.IsXtsPermutation key iv := by
  intro x hx
  have hlong : ¬x.length < dataUnitLength := by omega
  refine ⟨x.map (· ^^^ key.headD 0), ?_, by simp, ?_⟩
  · simp only [xorCipher, if_neg hlong]
  · simp [xorCipher, if_neg hlong, Function.comp_def]

/-- A 32-byte key whose halves differ. -/
def testKey : List UInt8 := (List.range 32).map Nat.toUInt8

/-- `cipher` is an XTS cipher over `t` and `key` has the length its `encrypt` asserts. -/
def Cipher.IsXts (cipher : Cipher) (t : SymmCipher) (key : List UInt8) : Prop :=
  cipher = .aes128Xts t ∧ key.length = aes128XtsKeyLength ∨
    cipher = .aes256Xts t ∧ key.length = aes256XtsKeyLength

section RoundTrip

variable {cipher : Cipher} {t : SymmCipher} {key : List UInt8} {iv : Option (List UInt8)}

theorem xtsEncrypt_spec {keyLength : Nat} (hc : t.IsXtsPermutation key iv)
    (hkey : key.length = keyLength) (data : List UInt8) :
    ∃ y, xtsEncrypt keyLength t key iv data = .ok y ∧ y.length = (xtsData data).length ∧
      xtsDecrypt t key iv y = .ok (xtsData data) := by
  obtain ⟨y, henc, hlen, hdec⟩ := hc (xtsData data) (le_length_xtsData data)
  refine ⟨y, ?_, hlen, ?_⟩
  · simp only [xtsEncrypt, hkey, ne_eq, not_true_eq_false, if_false, henc]
  · simp only [xtsDecrypt, hdec]

/-- A round trip through an XTS cipher gives back what the cipher ran on, trimmed. -/
theorem decrypt_encrypt (hxts : cipher.IsXts t key) (hc : t.IsXtsPermutation key iv)
    (data : List UInt8) :
    ∃ y, cipher.encrypt key iv data = .ok y ∧ y.length = (xtsData data).length ∧
      cipher.decrypt key iv y = trimPadding (xtsData data) := by
  -- both XTS arms are the same code over their own key length
  obtain ⟨rfl, hkey⟩ | ⟨rfl, hkey⟩ := hxts <;>
  · obtain ⟨y, henc, hlen, hdec⟩ := xtsEncrypt_spec hc hkey data
    exact ⟨y, henc, hlen, by simp only [Cipher.decrypt, hdec, ok_bind]⟩

theorem encryptedSize_of_isXts (hxts : cipher.IsXts t key) (n : Nat) :
    cipher.encryptedSize n = .ok (if n < dataUnitLength then dataUnitLength else n) := by
  obtain ⟨rfl, -⟩ | ⟨rfl, -⟩ := hxts <;> rfl

theorem decrypt_encrypt_roundtrip (hxts : cipher.IsXts t key) (hc : t.IsXtsPermutation key iv)
    {data : List UInt8} (hne : data ≠ [])
    (hmagic : ¬(data.length = paddingLength ∧ data.drop dataUnitLength = paddingMagicEnd)) :
    ∃ y, cipher.encrypt key iv data = .ok y ∧ cipher.decrypt key iv y = .ok data ∧
      y.length = if data.length < dataUnitLength then paddingLength else data.length := by
  obtain ⟨y, henc, hlen, hdec⟩ := decrypt_encrypt hxts hc data
  refine ⟨y, henc, ?_, by rw [hlen, length_xtsData]⟩
  rw [hdec]
  by_cases hshort : data.length < dataUnitLength
  · -- padded: the count is below 16 since the plaintext is not empty
    rw [xtsData, if_neg (by omega)]
    exact trimPadding_pad (List.length_pos_iff.mpr hne) hshort
  · rw [xtsData, if_pos (by omega)]
    exact trimPadding_of_not_padded hmagic

theorem decrypt_encrypt_roundtrip_three_bytes :
    ∃ y, (Cipher.aes128Xts xorCipher).encrypt testKey none [1, 2, 3] = .ok y ∧
      (Cipher.aes128Xts xorCipher).decrypt testKey none y = .ok [1, 2, 3] ∧
      y.length = if [(1 : UInt8), 2, 3].length < dataUnitLength then paddingLength else 3 :=
  decrypt_encrypt_roundtrip (.inl ⟨rfl, by simp [testKey, aes128XtsKeyLength]⟩)
    (xorCipher_isXtsPermutation testKey none) (by simp) (by simp [paddingLength])

theorem xts_roundtrip_breaks (hxts : cipher.IsXts t key) (hc : t.IsXtsPermutation key iv) :
    (∃ y, cipher.encrypt key iv [] = .ok y ∧
      cipher.decrypt key iv y = bail "Cipher::decrypt: invalid padding data, value 16") ∧
    (∀ data : List UInt8, data.length < dataUnitLength →
      ∃ y, cipher.encrypt key iv data = .ok y ∧ y.length = paddingLength ∧
        cipher.encryptedSize data.length = .ok dataUnitLength) ∧
    (∃ y, cipher.encrypt key iv (List.replicate 16 0 ++ paddingMagicEnd) = .ok y ∧
      cipher.decrypt key iv y = .ok (List.replicate 16 0)) := by
  refine ⟨?empty, ?short, ?looksPadded⟩
  case empty =>
    obtain ⟨y, henc, -, hdec⟩ := decrypt_encrypt hxts hc []
    exact ⟨y, henc, by rw [hdec, xtsData, if_neg (by decide), trimPadding_pad_nil]⟩
  case short =>
    intro data hshort
    obtain ⟨y, henc, hlen, -⟩ := decrypt_encrypt hxts hc data
    refine ⟨y, henc, ?_, ?_⟩
    · rw [hlen, length_xtsData, if_pos hshort]
    · rw [encryptedSize_of_isXts hxts, if_pos hshort]
  case looksPadded =>
    -- 18 bytes ending in the magic, with byte 15 zero: the trimming keeps the first 16
    obtain ⟨y, henc, -, hdec⟩ := decrypt_encrypt hxts hc (List.replicate 16 0 ++ paddingMagicEnd)
    exact ⟨y, henc, by rw [hdec, xtsData, if_pos (by decide)]; rfl⟩

theorem xts_roundtrip_breaks_aes128 :
    (∃ y, (Cipher.aes128Xts xorCipher).encrypt testKey none [] = .ok y ∧
      (Cipher.aes128Xts xorCipher).decrypt testKey none y =
        bail "Cipher::decrypt: invalid padding data, value 16") ∧
    (∀ data : List UInt8, data.length < dataUnitLength →
      ∃ y, (Cipher.aes128Xts xorCipher).encrypt testKey none data = .ok y ∧
        y.length = paddingLength ∧
        (Cipher.aes128Xts xorCipher).encryptedSize data.length = .ok dataUnitLength) ∧
    (∃ y, (Cipher.aes128Xts xorCipher).encrypt testKey none
        (List.replicate 16 0 ++ paddingMagicEnd) = .ok y ∧
      (Cipher.aes128Xts xorCipher).decrypt testKey none y = .ok (List.replicate 16 0)) :=
  xts_roundtrip_breaks (.inl ⟨rfl, by simp [testKey, aes128XtsKeyLength]⟩)
    (xorCipher_isXtsPermutation testKey none)

end RoundTrip

end Nydus.Utils.Crypt
