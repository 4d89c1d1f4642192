import BlockUpdate.Proofs.Words

/-!
# Signed fields in words of sixty-four bits

Writing takes the absolute value of a word and sets the top bit of its last byte; reading clears
that bit and negates. The two are inverse to each other but for one value on either side: the least
word has no magnitude below the sign bit, and zero with a sign is read as zero.

- `SignMagnitude.toBits_ofBits`, `SignMagnitude.encode_eq_iff`: what is written from what was read.
- `Words.writeSigned`: the machine's writer. **`Words.writeSigned_eq`**: it writes the field of its
  number, whatever the word.
- **`Words.readSigned_cases`**: reading does not overflow, and does not give the least word.
- **`Words.signed_inverse`**: the two inverses, with their exceptions.
-/

namespace BlockUpdate

/-! ## Sixty-four bits -/

namespace SignMagnitude

/-- The sign bit by itself, which says zero with a sign. -/
def negativeZero : Bytes := Bytes.ofList [0, 0, 0, 0, 0, 0, 0, 0x80]

variable {b : Bytes}

theorem toBits_ofBits {bits : Nat} (h : bits < 2 ^ 64) :
    toBits (ofBits bits) = if bits = signWeight then 0 else bits := by
  have hweight : signWeight = 2 ^ 63 := rfl
  rw [toBits, ofBits]
  split_ifs <;> omega

theorem toBits_lt_of_natAbs_le {n : Int} (h : n.natAbs ≤ signWeight) : toBits n < 256 ^ 8 := by
  have hweight : signWeight = 2 ^ 63 := rfl
  rw [toBits]
  split <;> omega

theorem read_eq (hb : b.size = 8) : read b 0 = .ok (ofBits (LittleEndian.decode b)) := by
  have hwhole : b.slice? 0 8 = some b := by
    rw [Bytes.slice?, if_pos (by omega), Nat.zero_add, ← hb, ByteArray.extract_zero_size]
  rw [read, Field.read, Field.window, hwhole]
  rfl

theorem eq_negativeZero_iff (hb : b.size = 8) :
    b = negativeZero ↔ LittleEndian.decode b = signWeight := by
  constructor
  · rintro rfl
    decide
  · intro hbits
    rw [← LittleEndian.encode_decode hb, hbits]
    decide

/-- **What was read is written back**, unless it was zero with a sign. -/
theorem encode_eq_iff (hb : b.size = 8) :
    encode (ofBits (LittleEndian.decode b)) = b ↔ b ≠ negativeZero := by
  have hbits : LittleEndian.decode b < 256 ^ 8 := hb ▸ LittleEndian.decode_lt b
  rw [encode, toBits_ofBits hbits, Ne, eq_negativeZero_iff hb]
  split
  · rename_i hzero
    refine iff_of_false (fun hsame => ?_) (not_not_intro hzero)
    have hdecode := congrArg LittleEndian.decode hsame
    rw [hzero] at hdecode
    exact absurd hdecode (by decide)
  · exact iff_of_true (LittleEndian.encode_decode hb) ‹_›

end SignMagnitude

namespace Words

/-! ## Writing -/

/-- The absolute value of a signed word, which fits an unsigned one. -/
def unsignedAbs (v : Int64) : UInt64 := (if v < 0 then -v else v).toUInt64

/-- The eight bytes of a signed word: its absolute value, and the sign in the top bit of the last
byte. -/
def writeSigned (v : Int64) : Bytes :=
  let bytes := LittleEndian.encode 8 (unsignedAbs v).toNat
  if v < 0 then bytes.set! 7 (bytes.get! 7 ||| 0x80) else bytes

theorem toNat_unsignedAbs (v : Int64) : (unsignedAbs v).toNat = v.toInt.natAbs := by
  have hlow := v.le_toInt
  rw [unsignedAbs]
  by_cases hneg : v < 0
  · rw [if_pos hneg]
    rw [lt_zero_iff] at hneg
    by_cases hleast : v = Int64.minValue
    · rw [hleast]
      decide
    · have hnot : v.toInt ≠ -2 ^ 63 := fun heq =>
        hleast (Int64.toInt_inj.mp (heq.trans Int64.toInt_minValue.symm))
      have hvalue : (-v).toInt = -v.toInt := toInt_neg (by constructor <;> omega)
      rw [toNat_toUInt64 (by omega), hvalue]
      omega
  · rw [if_neg hneg]
    rw [lt_zero_iff] at hneg
    rw [toNat_toUInt64 (by omega)]
    omega

theorem toNat_or_topBit (x : UInt8) : (x ||| 0x80).toNat = x.toNat % 2 ^ 7 + 2 ^ 7 := by
  have hlt := x.toNat_lt
  have hmask : (0x80 : UInt8).toNat = 2 ^ 7 * 1 := rfl
  have hsum := Nat.two_pow_add_eq_or_of_lt (Nat.mod_lt x.toNat (Nat.two_pow_pos 7)) 1
  rw [UInt8.toNat_or, hmask, Nat.or_comm]
  by_cases htop : x.toNat < 2 ^ 7
  · rw [Nat.mod_eq_of_lt htop] at hsum ⊢
    omega
  · -- the bit is set already
    have hx : x.toNat = 2 ^ 7 * 1 ||| x.toNat % 2 ^ 7 := by omega
    rw [hx, ← Nat.or_assoc, Nat.or_self, ← hx]
    omega

/-- **The machine writes the field of its number**, for the least word too. -/
theorem writeSigned_eq (v : Int64) : writeSigned v = SignMagnitude.encode v.toInt := by
  have hlow := v.le_toInt
  have hhigh := v.toInt_lt
  have hweight : SignMagnitude.signWeight = 2 ^ 63 := rfl
  rw [writeSigned, SignMagnitude.encode, toNat_unsignedAbs, SignMagnitude.toBits]
  by_cases hneg : v < 0
  · rw [if_pos hneg]
    rw [lt_zero_iff] at hneg
    obtain ⟨front, last, hsplit, hfront⟩ :=
      Bytes.exists_push (LittleEndian.size_encode 8 v.toInt.natAbs)
    have hfits : v.toInt.natAbs < 256 ^ 8 := by omega
    have hbits := LittleEndian.decode_encode hfits
    have hset : (front.push last).set! 7 ((front.push last).get! 7 ||| 0x80) =
        front.push (last ||| 0x80) := by
      rw [← hfront, Bytes.get!_push, Bytes.set!_push]
    have hsize : (front.push (last ||| 0x80)).size = 8 := by rw [ByteArray.size_push, hfront]
    have hlast := last.toNat_lt
    have hlower := LittleEndian.decode_lt front
    rw [hsplit, LittleEndian.decode_push] at hbits
    rw [hsplit, hset, ← LittleEndian.encode_decode hsize, LittleEndian.decode_push,
      toNat_or_topBit]
    rw [hfront] at hbits hlower ⊢
    refine congrArg (LittleEndian.encode 8) ?_
    split <;> omega
  · rw [if_neg hneg]
    rw [lt_zero_iff] at hneg
    rw [if_neg (by omega)]

/-! ## Reading -/

/-- **Reading at any place gives a word other than the least, or says that the field is not there**;
it does not overflow. -/
theorem readSigned_cases (b : Bytes) (offset : UInt64) :
    (∃ w : Int64, readSigned b offset = pure w ∧ w ≠ Int64.minValue) ∨
      readSigned b offset = fail (.corruptHeader (.shortField 8 offset.toNat b.size)) := by
  by_cases hoffset : offset.toNat + 8 < 2 ^ 64
  · rw [readSigned_eq hoffset]
    cases hread : SignMagnitude.read b offset.toNat with
    | ok n =>
      have hn := natAbs_of_read hread
      refine .inl ⟨Int64.ofInt n, rfl, fun hleast => ?_⟩
      have hvalue := congrArg Int64.toInt hleast
      rw [toInt_ofInt (by constructor <;> omega), Int64.toInt_minValue] at hvalue
      omega
    | error e =>
      rw [SignMagnitude.read, Field.read, Field.window] at hread
      cases hslice : b.slice? offset.toNat 8 with
      | none =>
        rw [hslice] at hread
        cases hread
        exact .inr rfl
      | some w =>
        rw [hslice] at hread
        cases hread
  · have hnone : checkedAdd offset 8 = none := if_neg hoffset
    right
    rw [readSigned, field, hnone]
    rfl

/-- Eight bytes are read as the number that they hold. -/
theorem readSigned_eq_pure {b : Bytes} (hb : b.size = 8) :
    ∃ w : Int64, readSigned b 0 = pure w ∧
      w.toInt = SignMagnitude.ofBits (LittleEndian.decode b) := by
  have hn := natAbs_ofBits (decode_lt hb)
  refine ⟨Int64.ofInt (SignMagnitude.ofBits (LittleEndian.decode b)), ?_,
    toInt_ofInt (by constructor <;> omega)⟩
  have hread : SignMagnitude.read b (0 : UInt64).toNat = _ := SignMagnitude.read_eq hb
  rw [readSigned_eq (by decide), hread]
  rfl

theorem pure_inj {α : Type} {a b : α} : (pure a : Run α) = pure b ↔ a = b := by
  refine ⟨fun h => ?_, congrArg pure⟩
  have hrun := congrArg (fun x => (outcome x #[]).1) h
  simp only [outcome_pure] at hrun
  exact Except.ok.inj hrun

/-- The field of a word is read as the word again, unless it is the least. -/
theorem ofBits_decode_encode_iff (v : Int64) :
    SignMagnitude.ofBits (LittleEndian.decode (SignMagnitude.encode v.toInt)) = v.toInt ↔
      v ≠ Int64.minValue := by
  have hlow := v.le_toInt
  have hhigh := v.toInt_lt
  have hweight : SignMagnitude.signWeight = 2 ^ 63 := rfl
  have hleast : v = Int64.minValue ↔ v.toInt = -2 ^ 63 := by
    rw [← Int64.toInt_inj, Int64.toInt_minValue]
  rw [SignMagnitude.encode,
    LittleEndian.decode_encode (SignMagnitude.toBits_lt_of_natAbs_le (by omega)), Ne, hleast]
  by_cases hmin : v.toInt = -2 ^ 63
  · rw [hmin]
    decide
  · exact iff_of_true (SignMagnitude.ofBits_toBits (by omega)) hmin

/-- **Writing and reading signed fields are inverse to each other.** A word that was written is read
back, exactly if it is not the least one, by the machine and as a number. Eight bytes are read as a
word which is written as these bytes again, exactly if they are not zero with a sign. No read
overflows or gives the least word, wherever it is. -/
theorem signed_inverse :
    (∀ v : Int64, writeSigned v = SignMagnitude.encode v.toInt ∧
      (readSigned (writeSigned v) 0 = pure v ↔ v ≠ Int64.minValue) ∧
      (SignMagnitude.read (SignMagnitude.encode v.toInt) 0 = .ok v.toInt ↔
        v ≠ Int64.minValue)) ∧
    (∀ b : Bytes, b.size = 8 →
      ∃ w : Int64, readSigned b 0 = pure w ∧ SignMagnitude.read b 0 = .ok w.toInt ∧
        (writeSigned w = b ↔ b ≠ SignMagnitude.negativeZero)) ∧
    ∀ (b : Bytes) (offset : UInt64),
      (∃ w : Int64, readSigned b offset = pure w ∧ w ≠ Int64.minValue) ∨
        readSigned b offset = fail (.corruptHeader (.shortField 8 offset.toNat b.size)) := by
  refine ⟨fun v => ⟨writeSigned_eq v, ?_, ?_⟩, fun b hb => ?_, readSigned_cases⟩
  · obtain ⟨w, hread, hw⟩ := readSigned_eq_pure (SignMagnitude.size_encode v.toInt)
    rw [writeSigned_eq, hread, pure_inj, ← ofBits_decode_encode_iff, ← hw, Int64.toInt_inj]
  · rw [SignMagnitude.read_eq (SignMagnitude.size_encode _), Except.ok.injEq]
    exact ofBits_decode_encode_iff v
  · obtain ⟨w, hread, hw⟩ := readSigned_eq_pure hb
    refine ⟨w, hread, by rw [SignMagnitude.read_eq hb, hw], ?_⟩
    rw [writeSigned_eq, hw]
    exact SignMagnitude.encode_eq_iff hb

/-- The field of minus one, which is the word with the sign bit and the lowest one. -/
theorem signed_inverse_minusOne :
    let b := Bytes.ofList [1, 0, 0, 0, 0, 0, 0, 0x80]
    b.size = 8 ∧ b ≠ SignMagnitude.negativeZero ∧
      ∃ w : Int64, readSigned b 0 = pure w ∧ SignMagnitude.read b 0 = .ok w.toInt ∧
        writeSigned w = b := by
  intro b
  have hsize : b.size = 8 := rfl
  have hsign : b ≠ SignMagnitude.negativeZero := by decide
  obtain ⟨w, hread, hvalue, hwrite⟩ := signed_inverse.2.1 b hsize
  exact ⟨hsize, hsign, w, hread, hvalue, hwrite.mpr hsign⟩

end Words

end BlockUpdate
