import BlockUpdate.Patch.Match

/-!
# The order of suffixes

Suffixes of byte strings are compared byte by byte, where an end comes before everything. Searching
for a match rests on one fact about this order: on either side of a target, the closer a suffix is
to it, the longer is the part that they share.

- `Bytes.suffix`: the bytes from a position on.
- `Bytes.take_add_lt_iff`: comparing by more bytes is comparing by the first of them, and then by
  those behind them.
- `Bytes.commonLength`: how many leading bytes two lists share; for suffixes it is `matchLength`.
- `Bytes.precedes`: a list is less than another at the first byte in which they differ.
- **`Bytes.commonLength_le_of_between`**: what two lists share, every list between them shares too.
-/

namespace BlockUpdate

namespace Bytes

/-! ## Suffixes -/

/-- The bytes from a position on. -/
def suffix (b : Bytes) (i : Nat) : List UInt8 := b.data.toList.drop i

variable {b : Bytes} {i j k : Nat}

@[simp] theorem length_suffix (b : Bytes) (i : Nat) : (b.suffix i).length = b.size - i := by
  rw [suffix, List.length_drop, Array.length_toList]
  rfl

theorem suffix_of_lt (h : i < b.size) : b.suffix i = b.get! i :: b.suffix (i + 1) := by
  have hlength : i < b.data.toList.length := by
    rw [Array.length_toList]
    exact h
  have hget : b.get! i = b.data.toList[i] := getElem!_pos b.data i h
  rw [suffix, suffix, hget, List.getElem_cons_drop]

theorem suffix_of_le (h : b.size ≤ i) : b.suffix i = [] := by
  rw [← List.length_eq_zero_iff, length_suffix]
  omega

theorem drop_suffix (b : Bytes) (i k : Nat) : (b.suffix i).drop k = b.suffix (i + k) :=
  List.drop_drop

theorem eq_of_suffix_eq (hi : i < b.size) (hj : j < b.size) (h : b.suffix i = b.suffix j) :
    i = j := by
  have hlength := congrArg List.length h
  rw [length_suffix, length_suffix] at hlength
  omega

/-! ## Comparing by leading bytes -/

theorem take_add_lt_iff (s t : List UInt8) (m n : Nat) :
    s.take (m + n) < t.take (m + n) ↔
      s.take m < t.take m ∨ s.take m = t.take m ∧ (s.drop m).take n < (t.drop m).take n := by
  induction m generalizing s t with
  | zero => simp
  | succ m ih =>
    -- only where both lists have a byte is there something to compare
    have hadd : m + 1 + n = m + n + 1 := by omega
    rw [hadd]
    cases s with
    | nil => cases t <;> simp
    | cons x s =>
      cases t with
      | nil => simp
      | cons y t =>
        simp only [List.take_succ_cons, List.drop_succ_cons, List.cons_lt_cons_iff, ih,
          List.cons.injEq, and_or_left, and_assoc, or_assoc]

/-- Lists whose leading bytes are in order are in order. -/
theorem lt_of_take_lt {s t : List UInt8} {m : Nat} (h : s.take m < t.take m) : s < t := by
  have hlength := (take_add_lt_iff s t m (s.length + t.length)).mpr (.inl h)
  rwa [List.take_of_length_le (by omega), List.take_of_length_le (by omega)] at hlength

/-! ## Common leading bytes -/

/-- The number of leading bytes that two lists have in common. -/
def commonLength : List UInt8 → List UInt8 → Nat
  | x :: s, y :: t => if x = y then commonLength s t + 1 else 0
  | _, _ => 0

@[simp] theorem commonLength_nil_right (s : List UInt8) : commonLength s [] = 0 := by
  cases s <;> rfl

theorem matchLength_eq (a : Bytes) (i : Nat) (b : Bytes) (j : Nat) :
    matchLength a i b j = commonLength (a.suffix i) (b.suffix j) := by
  fun_induction matchLength a i b j with
  | case1 i j hin heq ih =>
    rw [suffix_of_lt hin.1, suffix_of_lt hin.2, commonLength, if_pos heq, ih]
  | case2 i j hin hne =>
    rw [suffix_of_lt hin.1, suffix_of_lt hin.2, commonLength, if_neg hne]
  | case3 i j hout =>
    by_cases hi : i < a.size
    · rw [suffix_of_le (b := b) (by omega), commonLength_nil_right]
    · rw [suffix_of_le (b := a) (by omega), commonLength]
      intro x s y t hnil
      cases hnil

theorem commonLength_comm (s t : List UInt8) : commonLength s t = commonLength t s := by
  induction s generalizing t with
  | nil => exact (commonLength_nil_right t).symm
  | cons x s ih =>
    cases t with
    | nil => rfl
    | cons y t =>
      rw [commonLength, commonLength, ih]
      by_cases heq : x = y
      · rw [if_pos heq, if_pos heq.symm]
      · rw [if_neg heq, if_neg (Ne.symm heq)]

/-- **What two lists have in common, every list between them has too.** -/
theorem commonLength_le_of_between {s m t : List UInt8} (hs : s ≤ m) (ht : m ≤ t) :
    commonLength s t ≤ commonLength s m ∧ commonLength s t ≤ commonLength m t := by
  induction s generalizing m t with
  | nil => exact ⟨Nat.zero_le _, Nat.zero_le _⟩
  | cons x s ih =>
    cases m with
    | nil => exact absurd (List.nil_lt_cons x s) hs
    | cons y m =>
      cases t with
      | nil => exact absurd (List.nil_lt_cons y m) ht
      | cons z t =>
        rw [List.cons_le_cons_iff] at hs ht
        by_cases hxz : x = z
        · -- the byte between two equal ones is the same
          subst hxz
          obtain ⟨rfl, hsm⟩ : x = y ∧ s ≤ m := by
            rcases hs with hlt | heq
            · rcases ht with hlt' | ⟨rfl, -⟩
              · exact absurd (UInt8.lt_trans hlt hlt') (UInt8.lt_irrefl x)
              · exact absurd hlt (UInt8.lt_irrefl y)
            · exact heq
          have hmt : m ≤ t := ht.elim (fun hlt => absurd hlt (UInt8.lt_irrefl x)) (·.2)
          obtain ⟨hlow, hhigh⟩ := ih hsm hmt
          rw [commonLength, commonLength, commonLength, if_pos rfl, if_pos rfl, if_pos rfl]
          exact ⟨Nat.succ_le_succ hlow, Nat.succ_le_succ hhigh⟩
        · rw [commonLength, if_neg hxz]
          exact ⟨Nat.zero_le _, Nat.zero_le _⟩

/-! ## The first difference -/

/-- Whether two lists differ before either ends, and the first has the lesser byte there. -/
def precedes : List UInt8 → List UInt8 → Bool
  | x :: s, y :: t => if x = y then precedes s t else decide (x < y)
  | _, _ => false

@[simp] theorem precedes_nil_right (s : List UInt8) : precedes s [] = false := by
  cases s <;> rfl

theorem lt_of_precedes {s t : List UInt8} (h : precedes s t = true) :
    s < t ∧ commonLength s t < s.length := by
  fun_induction precedes s t with
  | case1 s x t ih =>
    obtain ⟨hlt, hshort⟩ := ih h
    rw [List.cons_lt_cons_iff, commonLength, if_pos rfl, List.length_cons]
    exact ⟨.inr ⟨rfl, hlt⟩, Nat.succ_lt_succ hshort⟩
  | case2 x s y t hne =>
    rw [List.cons_lt_cons_iff, commonLength, if_neg hne, List.length_cons]
    exact ⟨.inl (of_decide_eq_true h), Nat.succ_pos _⟩
  | case3 s t hnil => cases h

/-- A list that does not precede a target is not less, unless the target begins with all of it. -/
theorem le_of_not_precedes {s t : List UInt8} (h : precedes s t = false)
    (hshort : commonLength s t < s.length) : t ≤ s := by
  induction s generalizing t with
  | nil => exact absurd hshort (Nat.not_lt_zero _)
  | cons x s ih =>
    cases t with
    | nil => exact List.nil_le _
    | cons y t =>
      rw [precedes] at h
      rw [commonLength, List.length_cons] at hshort
      rw [List.cons_le_cons_iff]
      by_cases heq : x = y
      · subst heq
        rw [if_pos rfl] at h hshort
        exact .inr ⟨rfl, ih h (Nat.lt_of_succ_lt_succ hshort)⟩
      · rw [if_neg heq, decide_eq_false_iff_not, UInt8.not_lt] at h
        exact .inl (UInt8.lt_of_le_of_ne h (Ne.symm heq))

/-- A list that a target begins with is not greater. -/
theorem le_of_whole {s t : List UInt8} (h : s.length ≤ commonLength s t) : s ≤ t := by
  induction s generalizing t with
  | nil => exact List.nil_le t
  | cons x s ih =>
    cases t with
    | nil => exact absurd h (Nat.not_succ_le_zero _)
    | cons y t =>
      rw [commonLength, List.length_cons] at h
      by_cases heq : x = y
      · rw [if_pos heq] at h
        rw [List.cons_le_cons_iff]
        exact .inr ⟨heq, ih (Nat.le_of_succ_le_succ h)⟩
      · rw [if_neg heq] at h
        exact absurd h (Nat.not_succ_le_zero _)

end Bytes

end BlockUpdate
