import BlockUpdate.Proofs.Fields
import BlockUpdate.Proofs.PatchRuns
import Mathlib.Data.Nat.Bitwise

/-!
# Words of sixty-four bits

A machine computes with words, and what a computation on numbers means there depends on whether
its results fit. This file has the operations of a machine that checks them: a sum that does not
fit, a negation that does not, or an index outside a string ends the run with a fault.

- `Words.Run`: runs of such a machine, which hand over pieces and end in a value, in an error of the
  patch, or in a fault.
- `Words.add`, `Words.sub`, `Words.addSigned`, `Words.negSigned`, `Words.index`, `Words.slice`: the
  checked operations, each with a lemma that says when it is the operation on numbers.
- `Words.readSigned`: a number in sign and magnitude. **`Words.readSigned_eq`**: it is read without
  a fault, wherever the field is.
- `Words.Follows`: a run does what an output does, step by step. Its rules are those of the ways to
  build a computation.
-/

namespace BlockUpdate.Words

/-- What goes wrong in the machine and not in the patch. -/
inductive Fault
  /-- A result does not fit a word. -/
  | overflow
  /-- An index or a range outside the string that it is about. -/
  | outOfBounds
  /-- A loop went round more often than it was allowed to. -/
  | unfinished
  deriving Repr, DecidableEq

/-- Why a run stops early. -/
inductive Stop
  | fault (fault : Fault)
  | patch (error : PatchError)
  deriving Repr, DecidableEq

/-- Runs of the machine: pieces that were handed over, and a result. -/
abbrev Run := ExceptT Stop (StateM (Array Bytes))

variable {α β γ δ : Type}

/-- Stops with a fault. -/
def fault (f : Fault) : Run α := throw (.fault f)

/-- Stops with an error of the patch. -/
def fail (e : PatchError) : Run α := throw (.patch e)

/-- Goes on with what was read, or stops with its error. -/
def lift : Except PatchError α → Run α
  | .ok a => pure a
  | .error e => fail e

/-- Hands over one piece. -/
def put (piece : Bytes) : Run Unit := modify (·.push piece)

theorem fail_bind (e : PatchError) (f : α → Run β) : (fail e >>= f) = fail e := rfl

/-! ## Unsigned words -/

/-- A sum that must fit. -/
def add (a b : UInt64) : Run UInt64 :=
  if a.toNat + b.toNat < 2 ^ 64 then return a + b else fault .overflow

/-- A difference that must not be negative. -/
def sub (a b : UInt64) : Run UInt64 :=
  if b.toNat ≤ a.toNat then return a - b else fault .overflow

/-- A sum, if it fits. -/
def checkedAdd (a b : UInt64) : Option UInt64 :=
  if a.toNat + b.toNat < 2 ^ 64 then some (a + b) else none

/-- The length of a string as a word. -/
def len (b : Bytes) : UInt64 := UInt64.ofNat b.size

theorem toNat_ofNat {n : Nat} (h : n < 2 ^ 64) : (UInt64.ofNat n).toNat = n := by
  rw [UInt64.toNat_ofNat', Nat.mod_eq_of_lt h]

theorem toNat_add {a b : UInt64} (h : a.toNat + b.toNat < 2 ^ 64) :
    (a + b).toNat = a.toNat + b.toNat := by
  rw [UInt64.toNat_add, Nat.mod_eq_of_lt h]

theorem add_eq {a b : UInt64} (h : a.toNat + b.toNat < 2 ^ 64) : add a b = pure (a + b) :=
  if_pos h

theorem sub_eq {a b : UInt64} (h : b.toNat ≤ a.toNat) : sub a b = pure (a - b) := if_pos h

/-- A sum that fits is too large for a limit if the sum of the numbers is. -/
theorem lt_add_iff {limit a b : UInt64} {n : Nat} (ha : a.toNat = n) (h : n + b.toNat < 2 ^ 64) :
    limit < a + b ↔ limit.toNat < n + b.toNat := by
  rw [UInt64.lt_iff_toNat_lt, toNat_add (by rwa [ha]), ha]

theorem toNat_sub {a b : UInt64} (h : b.toNat ≤ a.toNat) : (a - b).toNat = a.toNat - b.toNat :=
  UInt64.toNat_sub_of_le a b (UInt64.le_iff_toNat_le.mpr h)

theorem toNat_len_le (b : Bytes) : (len b).toNat ≤ b.size := by
  rw [len, UInt64.toNat_ofNat']
  exact Nat.mod_le _ _

theorem toNat_len {b : Bytes} (h : b.size < 2 ^ 64) : (len b).toNat = b.size := toNat_ofNat h

/-! ## Signed words -/

/-- Numbers that fit a signed word. -/
def Fits (n : Int) : Prop := -2 ^ 63 ≤ n ∧ n < 2 ^ 63

instance (n : Int) : Decidable (Fits n) := inferInstanceAs (Decidable (_ ∧ _))

/-- A sum that must fit. -/
def addSigned (a b : Int64) : Run Int64 :=
  if Fits (a.toInt + b.toInt) then return a + b else fault .overflow

/-- A negation that must fit. -/
def negSigned (a : Int64) : Run Int64 :=
  if Fits (-a.toInt) then return -a else fault .overflow

/-- A sum, if it fits. -/
def checkedAddSigned (a b : Int64) : Option Int64 :=
  if Fits (a.toInt + b.toInt) then some (a + b) else none

theorem toInt_add {a b : Int64} (h : Fits (a.toInt + b.toInt)) :
    (a + b).toInt = a.toInt + b.toInt := by
  obtain ⟨hlow, hhigh⟩ := h
  rw [Int64.toInt_add, Int.bmod_eq_of_le] <;> omega

theorem toInt_neg {a : Int64} (h : Fits (-a.toInt)) : (-a).toInt = -a.toInt := by
  obtain ⟨hlow, hhigh⟩ := h
  rw [Int64.toInt_neg, Int.bmod_eq_of_le] <;> omega

theorem toInt_ofInt {n : Int} (h : Fits n) : (Int64.ofInt n).toInt = n :=
  Int64.toInt_ofInt_of_le h.1 h.2

theorem lt_zero_iff (a : Int64) : a < 0 ↔ a.toInt < 0 := by
  rw [Int64.lt_iff_toInt_lt, Int64.toInt_zero]

theorem zero_le_iff (a : Int64) : 0 ≤ a ↔ 0 ≤ a.toInt := by
  rw [Int64.le_iff_toInt_le, Int64.toInt_zero]

theorem addSigned_eq {a b : Int64} (h : Fits (a.toInt + b.toInt)) :
    addSigned a b = pure (a + b) := if_pos h

/-- A sum fits and is the sum of the numbers, or there is none. -/
theorem checkedAddSigned_cases (a b : Int64) :
    (∃ c, checkedAddSigned a b = some c ∧ c.toInt = a.toInt + b.toInt ∧
        Fits (a.toInt + b.toInt)) ∨
      checkedAddSigned a b = none ∧ ¬ Fits (a.toInt + b.toInt) := by
  by_cases hfits : Fits (a.toInt + b.toInt)
  · exact .inl ⟨a + b, if_pos hfits, toInt_add hfits, hfits⟩
  · exact .inr ⟨if_neg hfits, hfits⟩

theorem negSigned_eq {a : Int64} (h : Fits (-a.toInt)) : negSigned a = pure (-a) := if_pos h

/-- A word below the sign bit keeps its value as a signed word. -/
theorem toInt_toInt64 {a : UInt64} (h : a.toNat < 2 ^ 63) : a.toInt64.toInt = a.toNat := by
  have hbits : a.toInt64.toInt = a.toBitVec.toInt := rfl
  have hnat : a.toBitVec.toNat = a.toNat := rfl
  rw [hbits, BitVec.toInt_eq_toNat_of_lt (by omega), hnat]

/-- A signed word that is not negative keeps its value as an unsigned word. -/
theorem toNat_toUInt64 {a : Int64} (h : 0 ≤ a.toInt) : a.toUInt64.toNat = a.toInt.toNat :=
  Int64.toNat_toUInt64_of_le ((zero_le_iff a).mpr h)

/-! ## Strings -/

/-- The byte at an index. -/
def index (b : Bytes) (i : UInt64) : Run UInt8 :=
  if i.toNat < b.size then return b.get! i.toNat else fault .outOfBounds

/-- The bytes from `start` to before `stop`, if they are there. -/
def get? (b : Bytes) (start stop : UInt64) : Option Bytes :=
  if start.toNat ≤ stop.toNat ∧ stop.toNat ≤ b.size then
    some (b.extract start.toNat stop.toNat)
  else none

/-- The bytes from `start` to before `stop`, which must be there. -/
def slice (b : Bytes) (start stop : UInt64) : Run Bytes :=
  match get? b start stop with
  | some w => return w
  | none => fault .outOfBounds

/-- The bytes from `start` on. -/
def sliceFrom (b : Bytes) (start : UInt64) : Run Bytes :=
  if start.toNat ≤ b.size then return b.dropFirst start.toNat else fault .outOfBounds

theorem index_eq {b : Bytes} {i : UInt64} (h : i.toNat < b.size) :
    index b i = pure (b.byte i.toNat) := by
  rw [index, if_pos h, Bytes.get!_eq_byte]

theorem slice_eq {b : Bytes} {start stop : UInt64} (hle : start.toNat ≤ stop.toNat)
    (hsize : stop.toNat ≤ b.size) :
    slice b start stop = pure (b.extract start.toNat stop.toNat) := by
  rw [slice, get?, if_pos ⟨hle, hsize⟩]

theorem sliceFrom_eq {b : Bytes} {start : UInt64} (h : start.toNat ≤ b.size) :
    sliceFrom b start = pure (b.dropFirst start.toNat) := if_pos h

/-! ## Fields -/

/-- The eight bytes at an offset. -/
def field (b : Bytes) (offset : UInt64) : Run Bytes :=
  match (checkedAdd offset 8).bind (get? b offset) with
  | some w => return w
  | none => fail (.corruptHeader (.shortField 8 offset.toNat b.size))

/-- All bits of a word but the sign. -/
def magnitudeMask : UInt64 := ~~~((1 : UInt64) <<< 63)

/-- The signed number at an offset: the magnitude without its top bit, which is the sign. -/
def readSigned (b : Bytes) (offset : UInt64) : Run Int64 := do
  let bytes ← field b offset
  let magnitude := (UInt64.ofNat (LittleEndian.decode bytes) &&& magnitudeMask).toInt64
  if bytes.get! 7 &&& 0x80 ≠ 0 then
    negSigned magnitude
  else
    return magnitude

theorem field_eq {b : Bytes} {offset : UInt64} (h : offset.toNat + 8 < 2 ^ 64) :
    field b offset = lift (Field.window b offset.toNat 8) := by
  have hstop : (offset + 8).toNat = offset.toNat + 8 := toNat_add h
  have hadd : checkedAdd offset 8 = some (offset + 8) := if_pos h
  rw [field, hadd, Option.bind_some, get?, hstop, Field.window, Bytes.slice?]
  by_cases hsize : offset.toNat + 8 ≤ b.size
  · rw [if_pos ⟨Nat.le_add_right _ _, hsize⟩, if_pos hsize]
    rfl
  · rw [if_neg (fun hboth => hsize hboth.2), if_neg hsize]
    rfl

theorem topBit_iff (b : UInt8) : b &&& 0x80 ≠ 0 ↔ 128 ≤ b.toNat := by
  have hlt := b.toNat_lt
  have hmask : (0x80 : UInt8).toNat = 2 ^ 7 := rfl
  have hzero : (0 : UInt8).toNat = 0 := rfl
  rw [Ne, ← UInt8.toNat_inj, UInt8.toNat_and, hmask, hzero, Nat.and_two_pow,
    Nat.testBit_eq_decide_div_mod_eq]
  by_cases htop : b.toNat / 2 ^ 7 % 2 = 1
  · rw [decide_eq_true htop, Bool.toNat_true]
    omega
  · rw [decide_eq_false htop, Bool.toNat_false]
    omega

/-- The sign bit is the top bit of the last byte. -/
theorem sign_iff {w : Bytes} (hw : w.size = 8) :
    w.get! 7 &&& 0x80 ≠ 0 ↔ 2 ^ 63 ≤ LittleEndian.decode w := by
  obtain ⟨front, last, rfl, hfront⟩ := Bytes.exists_push hw
  have hlow := LittleEndian.decode_lt front
  have hget := Bytes.get!_push front last
  rw [hfront] at hlow hget
  rw [hget, topBit_iff, LittleEndian.decode_push, hfront]
  omega

/-- A number in sign and magnitude is below the weight of the sign. -/
theorem natAbs_ofBits {bits : Nat} (h : bits < 2 ^ 64) :
    (SignMagnitude.ofBits bits).natAbs < 2 ^ 63 := by
  have hweight : SignMagnitude.signWeight = 2 ^ 63 := rfl
  rw [SignMagnitude.ofBits]
  split <;> omega

theorem decode_lt {w : Bytes} (hw : w.size = 8) : LittleEndian.decode w < 2 ^ 64 := by
  have hlt := LittleEndian.decode_lt w
  rw [hw] at hlt
  exact hlt

theorem natAbs_of_read {b : Bytes} {offset : Nat} {n : Int}
    (h : SignMagnitude.read b offset = .ok n) : n.natAbs < 2 ^ 63 := by
  rw [SignMagnitude.read, Field.read, Field.window] at h
  cases hslice : b.slice? offset 8 with
  | none =>
    rw [hslice] at h
    cases h
  | some w =>
    rw [hslice] at h
    cases h
    exact natAbs_ofBits (decode_lt (Bytes.size_of_slice? hslice))

theorem toNat_magnitude {bits : Nat} (h : bits < 2 ^ 64) :
    (UInt64.ofNat bits &&& magnitudeMask).toNat = bits % 2 ^ 63 := by
  have hmask : magnitudeMask.toNat = 2 ^ 63 - 1 := by decide
  rw [UInt64.toNat_and, hmask, Nat.and_two_pow_sub_one_eq_mod, toNat_ofNat h]

/-- **A number in sign and magnitude** is read without a fault: without the sign bit the word is its
magnitude, and that can be negated. -/
theorem readSigned_eq {b : Bytes} {offset : UInt64} (h : offset.toNat + 8 < 2 ^ 64) :
    readSigned b offset = lift ((SignMagnitude.read b offset.toNat).map Int64.ofInt) := by
  rw [readSigned, field_eq h, SignMagnitude.read, Field.read, Field.window]
  cases hslice : b.slice? offset.toNat 8 with
  | none => rfl
  | some w =>
    have hw := Bytes.size_of_slice? hslice
    obtain ⟨bits, hdecode⟩ : ∃ bits, bits = LittleEndian.decode w := ⟨_, rfl⟩
    have hbits : bits < 2 ^ 64 := hdecode ▸ decode_lt hw
    obtain ⟨magnitude, hmagnitude⟩ : ∃ m, m = (UInt64.ofNat bits &&& magnitudeMask).toInt64 :=
      ⟨_, rfl⟩
    have hvalue : magnitude.toInt = (bits % 2 ^ 63 : Nat) := by
      rw [hmagnitude, toInt_toInt64 (by rw [toNat_magnitude hbits]; omega), toNat_magnitude hbits]
    have hweight : SignMagnitude.signWeight = 2 ^ 63 := rfl
    have hfits : Fits (SignMagnitude.ofBits bits) := by
      have hlt := natAbs_ofBits hbits
      constructor <;> omega
    have hsign := sign_iff hw
    show (if w.get! 7 &&& 0x80 ≠ 0
        then negSigned (UInt64.ofNat (LittleEndian.decode w) &&& magnitudeMask).toInt64
        else pure (UInt64.ofNat (LittleEndian.decode w) &&& magnitudeMask).toInt64) =
      (pure (Int64.ofInt (SignMagnitude.ofBits (LittleEndian.decode w))) : Run Int64)
    rw [← hdecode] at hsign ⊢
    rw [← hmagnitude]
    by_cases hnegative : 2 ^ 63 ≤ bits
    · have hneg : Fits (-magnitude.toInt) := by
        rw [hvalue]
        constructor <;> omega
      have hsame : -magnitude = Int64.ofInt (SignMagnitude.ofBits bits) := by
        rw [← Int64.toInt_inj, toInt_neg hneg, toInt_ofInt hfits, hvalue, SignMagnitude.ofBits,
          if_neg (by omega)]
        omega
      rw [if_pos (hsign.mpr hnegative), negSigned_eq hneg, hsame]
    · have hsame : magnitude = Int64.ofInt (SignMagnitude.ofBits bits) := by
        rw [← Int64.toInt_inj, toInt_ofInt hfits, hvalue, SignMagnitude.ofBits, if_pos (by omega)]
        omega
      rw [if_neg (mt hsign.mp hnegative), hsame]

/-! ## Runs and outputs -/

/-- A run does what an output does: it hands over the same pieces, and ends in a value that stands
for the output's, or in its error. -/
def Follows (R : α → β → Prop) (x : Run α) (y : Emit β) : Prop :=
  ∀ before, ∃ after,
    (∃ a b, R a b ∧ outcome x before = (.ok a, after) ∧ outcome y before = (.ok b, after)) ∨
    ∃ e, outcome x before = (.error (.patch e), after) ∧ outcome y before = (.error e, after)

namespace Follows

variable {R : α → β → Prop} {S : γ → δ → Prop}

theorem pure {a : α} {b : β} (h : R a b) : Follows R (Pure.pure a) (Pure.pure b) :=
  fun before => ⟨before, .inl ⟨a, b, h, rfl, rfl⟩⟩

theorem fail (e : PatchError) : Follows R (fail e) (throw e) :=
  fun before => ⟨before, .inr ⟨e, rfl, rfl⟩⟩

theorem put (piece : Bytes) : Follows (fun _ _ => True) (put piece) (emit piece) :=
  fun before => ⟨before.push piece, .inl ⟨(), (), trivial, rfl, rfl⟩⟩

theorem bind {x : Run α} {y : Emit β} {f : α → Run γ} {g : β → Emit δ} (hx : Follows R x y)
    (hf : ∀ a b, R a b → Follows S (f a) (g b)) : Follows S (x >>= f) (y >>= g) := by
  intro before
  obtain ⟨after, ⟨a, b, hab, hrun, hout⟩ | ⟨e, hrun, hout⟩⟩ := hx before
  · rw [outcome_bind_of_ok hrun, outcome_bind_of_ok hout]
    exact hf a b hab after
  · exact ⟨after, .inr ⟨e, outcome_bind_of_error hrun f, outcome_bind_of_error hout g⟩⟩

end Follows

end BlockUpdate.Words
