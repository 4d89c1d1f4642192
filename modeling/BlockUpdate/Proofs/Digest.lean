import BlockUpdate.Proofs.Reading

/-!
# Digests identify contents

- **`Hex.encode_injective`**, `Hex.lowerAscii_encode`: a digest and its text determine each other.
- `CollisionFree P involved`: no two of the given byte strings have one digest.
- **`Checksum.eq_of_verify`**: of such strings, only one passes a check.
-/

namespace BlockUpdate

/-! ## Digits -/

namespace Hex

theorem toLower_digit : ∀ {n : Nat}, n < 16 → (digit n).toLower = digit n := by decide

theorem digit_injective {m n : Nat} (hm : m < 16) (hn : n < 16) (h : digit m = digit n) :
    m = n := by
  have hm := digitValue?_digit hm
  rw [h, digitValue?_digit hn] at hm
  exact (Option.some.inj hm).symm

theorem byteDigits_injective {a b : UInt8} (h : byteDigits a = byteDigits b) : a = b := by
  obtain ⟨hhigh, hlow⟩ : digit (a.toNat / 16) = digit (b.toNat / 16) ∧
      digit (a.toNat % 16) = digit (b.toNat % 16) := by
    simpa [byteDigits] using h
  have ha := a.toNat_lt
  have hb := b.toNat_lt
  have hhigh := digit_injective (by omega) (by omega) hhigh
  have hlow := digit_injective (by omega) (by omega) hlow
  exact UInt8.toNat_inj.mp (by omega)

/-- The digits of a byte string are lowercase. -/
theorem lowerAscii_encode (b : Bytes) : lowerAscii (encode b) = encode b := by
  refine String.toList_injective ?_
  rw [lowerAscii, String.toList_map, encode, String.toList_ofList, List.map_flatMap]
  congr 1
  funext byte
  have hbyte := byte.toNat_lt
  simp only [byteDigits, List.map_cons, List.map_nil]
  rw [toLower_digit (by omega), toLower_digit (by omega)]

theorem flatMap_byteDigits_injective {a b : List UInt8}
    (h : a.flatMap byteDigits = b.flatMap byteDigits) : a = b := by
  induction a generalizing b with
  | nil =>
    cases b with
    | nil => rfl
    | cons y b => simp [byteDigits] at h
  | cons x a ih =>
    cases b with
    | nil => simp [byteDigits] at h
    | cons y b =>
      rw [List.flatMap_cons, List.flatMap_cons] at h
      obtain ⟨hhead, htail⟩ := List.append_inj h rfl
      rw [byteDigits_injective hhead, ih htail]

/-- **The digits of a byte string determine it.** -/
theorem encode_injective {a b : Bytes} (h : encode a = encode b) : a = b := by
  have hlist := congrArg String.toList h
  rw [encode, encode, String.toList_ofList, String.toList_ofList] at hlist
  have hdata : a.data.toList = b.data.toList := flatMap_byteDigits_injective hlist
  exact ByteArray.ext (Array.toList_inj.mp hdata)

end Hex

/-! ## Checks -/

/-- No two of the byte strings involved have one digest. -/
def CollisionFree (P : Primitives) (involved : Bytes → Prop) : Prop :=
  ∀ a b, involved a → involved b → P.sha256 a = P.sha256 b → a = b

theorem CollisionFree.mono {P : Primitives} {involved fewer : Bytes → Prop}
    (h : CollisionFree P involved) (hfewer : ∀ data, fewer data → involved data) :
    CollisionFree P fewer :=
  fun a b ha hb => h a b (hfewer a ha) (hfewer b hb)

namespace Checksum

variable {P : Primitives} {a b : Bytes} {m n : Nat} {expected : String}

/-- What a check digests. -/
theorem lowerAscii_eq_of_verify (h : verify P a n expected = true) :
    text P (a.takeFirst (n * blockSize)) = Hex.lowerAscii expected := by
  simp only [verify, Bool.and_eq_true, Hex.sameDigest, beq_iff_eq] at h
  rw [← h.2, text, Hex.lowerAscii_encode]

/-- Strings that pass the same check have one digest. -/
theorem sha256_eq_of_verify (ha : verify P a m expected = true)
    (hb : verify P b n expected = true) :
    P.sha256 (a.takeFirst (m * blockSize)) = P.sha256 (b.takeFirst (n * blockSize)) :=
  Hex.encode_injective
    ((lowerAscii_eq_of_verify ha).trans (lowerAscii_eq_of_verify hb).symm)

/-- Of the strings involved, only one has a given digest. -/
theorem eq_of_sameDigest {involved : Bytes → Prop} (hfree : CollisionFree P involved)
    (ha : Hex.sameDigest (text P a) expected = true)
    (hb : Hex.sameDigest (text P b) expected = true) (ha' : involved a) (hb' : involved b) :
    a = b := by
  simp only [Hex.sameDigest, beq_iff_eq, text, Hex.lowerAscii_encode] at ha hb
  exact hfree a b ha' hb' (Hex.encode_injective (ha.trans hb.symm))

/-- **Of the strings involved, only one passes a check.** -/
theorem eq_of_verify {involved : Bytes → Prop} (hfree : CollisionFree P involved)
    (ha : verify P a m expected = true) (hb : verify P b n expected = true)
    (hm : a.size = m * blockSize) (hn : b.size = n * blockSize) (ha' : involved a)
    (hb' : involved b) : a = b := by
  have h := sha256_eq_of_verify ha hb
  rw [Bytes.takeFirst_of_size_le (Nat.le_of_eq hm),
    Bytes.takeFirst_of_size_le (Nat.le_of_eq hn)] at h
  exact hfree _ _ ha' hb' h

end Checksum

end BlockUpdate
