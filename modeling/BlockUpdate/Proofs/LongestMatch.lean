import BlockUpdate.Proofs.SuffixSorting

/-!
# How long the match is that a search finds

The search halves the suffix array by comparing suffixes with the target, each cut to the length of
the other. A suffix that differs from the target says on which side of it the longest match is. One
that the target goes on behind does not differ, and the search goes on below it, although longer
matches are above it.

- `Match.probes`: the positions whose suffixes a search compares.
- `Match.narrow_eq`: what a search gives is one of its candidates, with its own length.
- **`Match.narrow_longest_iff`**: it is the longest of the candidates unless the target begins with
  all of a probe's suffix and another candidate is longer.
- **`Match.search_longest_iff`**: the same for all positions of the old data.
-/

namespace BlockUpdate

namespace Match

variable {suffixes : Array Nat} {old new : Bytes} {start low high : Nat}

/-- The positions whose suffixes are compared between two candidates, in order. -/
def probes (suffixes : Array Nat) (old new : Bytes) (start : Nat) (low high : Nat) : List Nat :=
  if high - low < 2 then []
  else
    let middle := low + (high - low) / 2
    if comesBefore old suffixes[middle]! new start then
      suffixes[middle]! :: probes suffixes old new start middle high
    else suffixes[middle]! :: probes suffixes old new start low middle
termination_by high - low

/-- Whether the target begins with the whole suffix at a position. -/
def Whole (old : Bytes) (p : Nat) (new : Bytes) (start : Nat) : Prop :=
  old.size ≤ p + Bytes.matchLength old p new start

instance (old : Bytes) (p : Nat) (new : Bytes) (start : Nat) : Decidable (Whole old p new start) :=
  inferInstanceAs (Decidable (_ ≤ _))

/-! ## One comparison -/

/-- A suffix comes before the target if it is less at the first byte in which they differ. -/
theorem comesBefore_eq (old : Bytes) (p : Nat) (new : Bytes) (start : Nat) :
    comesBefore old p new start = Bytes.precedes (old.suffix p) (new.suffix start) := by
  rw [comesBefore, Bytes.matchLengthFrom_eq, Nat.add_zero]
  fun_induction Bytes.matchLength old p new start with
  | case1 p start hin heq ih =>
    rw [Bytes.suffix_of_lt hin.1, Bytes.suffix_of_lt hin.2, Bytes.precedes, if_pos heq, ← ih]
    simp only [Nat.add_assoc, Nat.add_comm 1]
  | case2 p start hin hne =>
    rw [Bytes.suffix_of_lt hin.1, Bytes.suffix_of_lt hin.2, Bytes.precedes, if_neg hne,
      Nat.add_zero, Nat.add_zero, if_pos hin]
  | case3 p start hout =>
    rw [Nat.add_zero, Nat.add_zero, if_neg hout]
    by_cases hp : p < old.size
    · rw [Bytes.suffix_of_le (show new.size ≤ start by omega), Bytes.precedes_nil_right]
    · rw [Bytes.suffix_of_le (show old.size ≤ p by omega), Bytes.precedes]
      intro x s y t hnil
      cases hnil

/-- Suffixes of an array in their order. -/
def Sorted (suffixes : Array Nat) (old : Bytes) : Prop :=
  ∀ i j, i ≤ j → j < suffixes.size → old.suffix suffixes[i]! ≤ old.suffix suffixes[j]!

/-- The length of the match that a candidate gives. -/
def lengthAt (suffixes : Array Nat) (old new : Bytes) (start i : Nat) : Nat :=
  Bytes.matchLength old suffixes[i]! new start

/-- Below a suffix that comes before the target, matches are no longer. -/
theorem lengthAt_le_of_comesBefore (hsorted : Sorted suffixes old) {i middle : Nat}
    (hle : i ≤ middle) (hmiddle : middle < suffixes.size)
    (h : comesBefore old suffixes[middle]! new start = true) :
    lengthAt suffixes old new start i ≤ lengthAt suffixes old new start middle := by
  rw [comesBefore_eq] at h
  rw [lengthAt, lengthAt, Bytes.matchLength_eq, Bytes.matchLength_eq]
  exact (Bytes.commonLength_le_of_between (hsorted i middle hle hmiddle)
    (List.le_of_lt (Bytes.lt_of_precedes h).1)).2

/-- Above a suffix that differs from the target and does not come before it, matches are no
longer. -/
theorem lengthAt_le_of_not_comesBefore (hsorted : Sorted suffixes old) {i middle : Nat}
    (hle : middle ≤ i) (hi : i < suffixes.size)
    (h : comesBefore old suffixes[middle]! new start = false)
    (hpart : ¬ Whole old suffixes[middle]! new start) :
    lengthAt suffixes old new start i ≤ lengthAt suffixes old new start middle := by
  rw [Whole, Bytes.matchLength_eq] at hpart
  rw [comesBefore_eq] at h
  have hmiddle := Bytes.le_of_not_precedes h (by rw [Bytes.length_suffix]; omega)
  have hmore := (Bytes.commonLength_le_of_between hmiddle (hsorted middle i hle hi)).1
  rw [Bytes.commonLength_comm, Bytes.commonLength_comm (new.suffix start)] at hmore
  rwa [lengthAt, lengthAt, Bytes.matchLength_eq, Bytes.matchLength_eq]

/-- Below a suffix that the target begins with, matches are no longer. -/
theorem lengthAt_le_of_whole (hsorted : Sorted suffixes old) {i middle : Nat} (hle : i ≤ middle)
    (hmiddle : middle < suffixes.size) (h : Whole old suffixes[middle]! new start) :
    lengthAt suffixes old new start i ≤ lengthAt suffixes old new start middle := by
  rw [Whole, Bytes.matchLength_eq] at h
  rw [lengthAt, lengthAt, Bytes.matchLength_eq, Bytes.matchLength_eq]
  exact (Bytes.commonLength_le_of_between (hsorted i middle hle hmiddle)
    (Bytes.le_of_whole (by rw [Bytes.length_suffix]; omega))).2

/-- A suffix that comes before the target is not the beginning of it. -/
theorem not_whole_of_comesBefore {p : Nat} (h : comesBefore old p new start = true) :
    ¬ Whole old p new start := by
  rw [comesBefore_eq] at h
  have hshort := (Bytes.lt_of_precedes h).2
  rw [Bytes.length_suffix] at hshort
  rw [Whole, Bytes.matchLength_eq]
  omega

/-! ## All comparisons -/

/-- No candidate from `low` to `high` gives a match longer than `n`. -/
def Longest (suffixes : Array Nat) (old new : Bytes) (start low high n : Nat) : Prop :=
  ∀ i, low ≤ i → i ≤ high → lengthAt suffixes old new start i ≤ n

theorem Longest.mono {m n : Nat} (h : Longest suffixes old new start low high m) (hle : m ≤ n) :
    Longest suffixes old new start low high n :=
  fun i hlow hhigh => Nat.le_trans (h i hlow hhigh) hle

theorem Longest.below {middle n : Nat} (h : Longest suffixes old new start low high n)
    (hle : middle ≤ high) : Longest suffixes old new start low middle n :=
  fun i hlow hhigh => h i hlow (Nat.le_trans hhigh hle)

/-- Candidates can be left out that give no longer match than one that is kept. -/
theorem longest_congr {low' high' middle n : Nat} (hlow : low ≤ low') (hhigh : high' ≤ high)
    (hmiddle : low' ≤ middle ∧ middle ≤ high')
    (h : ∀ i, low ≤ i → i ≤ high → ¬ (low' ≤ i ∧ i ≤ high') →
      lengthAt suffixes old new start i ≤ lengthAt suffixes old new start middle) :
    Longest suffixes old new start low high n ↔ Longest suffixes old new start low' high' n := by
  constructor
  · exact fun hall i hi hi' => hall i (Nat.le_trans hlow hi) (Nat.le_trans hi' hhigh)
  · intro hkept i hi hi'
    by_cases hin : low' ≤ i ∧ i ≤ high'
    · exact hkept i hin.1 hin.2
    · exact Nat.le_trans (h i hi hi' hin) (hkept middle hmiddle.1 hmiddle.2)

/-- **A search gives one of its candidates**, with the length of the match there. -/
theorem narrow_eq (suffixes : Array Nat) (old new : Bytes) (start : Nat) (hle : low ≤ high) :
    ∃ i, low ≤ i ∧ i ≤ high ∧
      narrow suffixes old new start low high =
        (lengthAt suffixes old new start i, suffixes[i]!) := by
  fun_induction narrow suffixes old new start low high with
  | case1 low high hnear a b x y hlonger =>
    refine ⟨low, Nat.le_refl _, hle, ?_⟩
    rw [lengthAt, ← Nat.add_zero (Bytes.matchLength _ _ _ _), ← Bytes.matchLengthFrom_eq]
  | case2 low high hnear a b x y hlonger =>
    refine ⟨high, hle, Nat.le_refl _, ?_⟩
    rw [lengthAt, ← Nat.add_zero (Bytes.matchLength _ _ _ _), ← Bytes.matchLengthFrom_eq]
  | case3 low high hfar middle hbefore ih =>
    obtain ⟨i, hlow, hhigh, hnarrow⟩ := ih (by omega)
    exact ⟨i, by omega, hhigh, hnarrow⟩
  | case4 low high hfar middle hbefore ih =>
    obtain ⟨i, hlow, hhigh, hnarrow⟩ := ih (by omega)
    exact ⟨i, hlow, by omega, hnarrow⟩

/-- Of two candidates next to each other the one with the longer match is taken. -/
theorem narrow_near (suffixes : Array Nat) (old new : Bytes) (start : Nat)
    (hnear : high - low < 2) :
    Longest suffixes old new start low high (narrow suffixes old new start low high).1 := by
  intro i hlow hhigh
  rw [narrow, if_pos hnear]
  dsimp only
  rw [Bytes.matchLengthFrom_eq, Bytes.matchLengthFrom_eq, Nat.add_zero, Nat.add_zero]
  obtain rfl | rfl : i = low ∨ i = high := by omega
  · rw [lengthAt]
    split <;> dsimp only <;> omega
  · rw [lengthAt]
    split <;> dsimp only <;> omega

/-- **When a search finds the longest of its candidates**: unless the target begins with all of a
probe's suffix, and a longer match was among the candidates. -/
theorem narrow_longest_iff (hsorted : Sorted suffixes old) (new : Bytes) (start : Nat)
    (hle : low ≤ high) (hhigh : high < suffixes.size) :
    Longest suffixes old new start low high (narrow suffixes old new start low high).1 ↔
      ∀ p ∈ probes suffixes old new start low high, Whole old p new start →
        Longest suffixes old new start low high (Bytes.matchLength old p new start) := by
  fun_induction probes suffixes old new start low high with
  | case1 low high hnear =>
    exact iff_of_true (narrow_near suffixes old new start hnear)
      fun p hp => absurd hp List.not_mem_nil
  | case2 low high hfar middle hbefore ih =>
    have hmiddle : low ≤ middle ∧ middle ≤ high := by omega
    -- what is below the probe is no longer, and the probe is among what is kept
    have hkeep : ∀ n, Longest suffixes old new start low high n ↔
        Longest suffixes old new start middle high n := fun n =>
      longest_congr hmiddle.1 (Nat.le_refl _) ⟨Nat.le_refl _, hmiddle.2⟩ fun i hi hi' hout =>
        lengthAt_le_of_comesBefore hsorted (by omega) (by omega) hbefore
    rw [narrow, if_neg hfar, List.forall_mem_cons]
    dsimp only
    rw [if_pos hbefore]
    simp only [hkeep]
    exact (ih hmiddle.2 hhigh).trans
      (and_iff_right fun hwhole => absurd hwhole (not_whole_of_comesBefore hbefore)).symm
  | case3 low high hfar middle hbefore ih =>
    have hmiddle : low ≤ middle ∧ middle ≤ high := by omega
    have hbefore := Bool.eq_false_iff.mpr hbefore
    rw [narrow, if_neg hfar, List.forall_mem_cons]
    dsimp only
    rw [hbefore, if_neg Bool.false_ne_true]
    by_cases hwhole : Whole old suffixes[middle]! new start
    · -- what is kept is no longer than the probe, whatever is above it
      obtain ⟨j, hj, hj', hnarrow⟩ := narrow_eq suffixes old new start hmiddle.1
      have hbelow := lengthAt_le_of_whole hsorted hj' (Nat.lt_of_le_of_lt hmiddle.2 hhigh) hwhole
      have ih := ih hmiddle.1 (Nat.lt_of_le_of_lt hmiddle.2 hhigh)
      rw [hnarrow] at ih ⊢
      dsimp only at ih ⊢
      constructor
      · intro hall
        refine ⟨fun _ => hall.mono hbelow, fun p hp hp' => ?_⟩
        exact hall.mono (ih.mp (hall.below hmiddle.2) p hp hp' j hj hj')
      · rintro ⟨hprobe, hprobes⟩
        have hkept := ih.mpr fun p hp hp' => (hprobes p hp hp').below hmiddle.2
        exact (hprobe hwhole).mono (hkept middle hmiddle.1 (Nat.le_refl _))
    · have hkeep : ∀ n, Longest suffixes old new start low high n ↔
          Longest suffixes old new start low middle n := fun n =>
        longest_congr (Nat.le_refl _) hmiddle.2 ⟨hmiddle.1, Nat.le_refl _⟩ fun i hi hi' hout =>
          lengthAt_le_of_not_comesBefore hsorted (by omega) (by omega) hbefore hwhole
      simp only [hkeep]
      exact (ih hmiddle.1 (by omega)).trans (and_iff_right fun h => absurd h hwhole).symm

/-! ## Searches -/

theorem sorted_build (old : Bytes) : Sorted (SuffixArray.build old) old := by
  have hsorted := (SuffixArray.sorted_of_ends (SuffixArray.ends_build old)).2
  intro i j hij hj
  rcases Nat.eq_or_lt_of_le hij with rfl | hlt
  · exact List.le_refl _
  · have hi : i < (SuffixArray.build old).size := Nat.lt_trans hlt hj
    rw [getElem!_pos _ i hi, getElem!_pos _ j hj]
    exact List.le_of_lt (List.pairwise_iff_getElem.mp hsorted i j (by rwa [Array.length_toList])
      (by rwa [Array.length_toList]) hlt)

theorem matchLength_of_le {p : Nat} (h : old.size ≤ p) :
    Bytes.matchLength old p new start = 0 := by
  rw [Bytes.matchLength, if_neg (by omega)]

/-- The longest match of all candidates is the longest of all positions. -/
theorem longest_build_iff {n : Nat} (hold : 0 < old.size) :
    Longest (SuffixArray.build old) old new start 0 ((SuffixArray.build old).size - 1) n ↔
      ∀ p, Bytes.matchLength old p new start ≤ n := by
  rw [SuffixArray.size_build]
  constructor
  · intro hall p
    by_cases hp : p < old.size
    · obtain ⟨i, hi, rfl⟩ := SuffixArray.exists_getElem!_build hp
      exact hall i (Nat.zero_le i) (by omega)
    · rw [matchLength_of_le (by omega)]
      exact Nat.zero_le n
  · exact fun hall i _ _ => hall _

theorem isEmpty_build_iff : (SuffixArray.build old).isEmpty = true ↔ old.size = 0 := by
  rw [Array.isEmpty_iff_size_eq_zero, SuffixArray.size_build]

theorem search_of_empty (h : old.size = 0) :
    search (SuffixArray.build old) old new start = (0, 0) :=
  if_pos (isEmpty_build_iff.mpr h)

theorem search_of_pos (h : 0 < old.size) :
    search (SuffixArray.build old) old new start =
      narrow (SuffixArray.build old) old new start 0 ((SuffixArray.build old).size - 1) :=
  if_neg fun hempty => absurd (isEmpty_build_iff.mp hempty) (Nat.ne_of_gt h)

/-- **What a search finds.** In the suffix array of old data it gives a position of that data, and
exactly the number of bytes that the target and the data there begin with in common. It is the
longest match unless one of the suffixes that the search compared is the beginning of the target as
a whole, and some position has more in common with the target: then it is not. -/
theorem search_longest_iff (old new : Bytes) (start : Nat) :
    let suffixes := SuffixArray.build old
    let found := search suffixes old new start
    found.1 = Bytes.matchLength old found.2 new start ∧
      (found.2 < old.size ∨ old.size = 0 ∧ found = (0, 0)) ∧
      ((∀ p, Bytes.matchLength old p new start ≤ found.1) ↔
        ∀ p ∈ probes suffixes old new start 0 (suffixes.size - 1), Whole old p new start →
          ∀ q, Bytes.matchLength old q new start ≤ Bytes.matchLength old p new start) := by
  intro suffixes found
  have hsize : suffixes.size = old.size := SuffixArray.size_build old
  rcases Nat.eq_zero_or_pos old.size with hold | hold
  · -- without old data there is nothing to compare
    have hfound : found = (0, 0) := search_of_empty hold
    have hprobes : probes suffixes old new start 0 (suffixes.size - 1) = [] := by
      rw [probes, if_pos (by omega)]
    have hnone : ∀ p, Bytes.matchLength old p new start = 0 := fun p =>
      matchLength_of_le (by omega)
    rw [hfound, hprobes]
    exact ⟨(hnone 0).symm, .inr ⟨hold, rfl⟩,
      iff_of_true (fun p => Nat.le_of_eq (hnone p)) fun p hp => absurd hp List.not_mem_nil⟩
  · have hfound : found = narrow suffixes old new start 0 (suffixes.size - 1) :=
      search_of_pos hold
    obtain ⟨i, -, hi, hnarrow⟩ := narrow_eq suffixes old new start (Nat.zero_le (suffixes.size - 1))
    have hlongest := narrow_longest_iff (sorted_build old) new start
      (Nat.zero_le (suffixes.size - 1)) (show suffixes.size - 1 < suffixes.size by omega)
    simp only [longest_build_iff hold, suffixes] at hlongest
    refine ⟨?_, .inl ?_, ?_⟩
    · rw [hfound, hnarrow]
      rfl
    · rw [hfound, hnarrow]
      exact SuffixArray.getElem!_build_lt (show i < old.size by omega)
    · rw [hfound]
      exact hlongest

/-- The target is in the old data, but not behind the suffix that is all of one byte. -/
example :
    let old := Bytes.ofText "ab!a"
    let new := Bytes.ofText "ab"
    search (SuffixArray.build old) old new 0 = (1, 3) ∧ Bytes.matchLength old 0 new 0 = 2 := by
  cbv

end Match

end BlockUpdate
