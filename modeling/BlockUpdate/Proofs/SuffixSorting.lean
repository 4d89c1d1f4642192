import BlockUpdate.Proofs.SuffixOrder

/-!
# Suffix arrays are sorted

The doubling loop keeps one invariant: its ranks order the positions as the first `k` bytes of their
suffixes do. A pass sorts by pairs of ranks `k` apart, so its ranks do the same for `2 * k` bytes.
Suffixes are distinct, and once `k` bytes are all that they have, so are the ranks: the loop ends.

- `SuffixArray.key_lt_iff`: a key compares by rank, and then by the rank behind.
- `SuffixArray.RanksBy`, **`SuffixArray.assignRanks_ranksBy`**: the ranks of positions in the order
  of their keys, and when they all differ.
- `SuffixArray.Pass`, `SuffixArray.Runs`: the loop as passes. Positions with one key may be sorted
  in any order, as by a sort that is not stable.
- `SuffixArray.Ranked`, **`SuffixArray.Ranked.pass`**: the invariant, and what a pass makes of it.
- **`SuffixArray.build_sorted`**: the array is the one permutation of the positions that has their
  suffixes in order. The loop ends, however its sorts treat equal keys, and always with this array.
-/

namespace BlockUpdate

namespace SuffixArray

variable {data : Bytes} {ks : Array Nat}

/-! ## Keys -/

theorem mul_add_lt_iff {a b c d w : Nat} (hb : b < w) (hd : d < w) :
    a * w + b < c * w + d ↔ a < c ∨ a = c ∧ b < d := by
  rcases Nat.lt_trichotomy a c with h | rfl | h
  · have hmul := Nat.mul_le_mul_right w h
    rw [Nat.succ_mul] at hmul
    omega
  · omega
  · have hmul := Nat.mul_le_mul_right w h
    rw [Nat.succ_mul] at hmul
    omega

/-- The second part of a key: the rank of a position, where the end comes before everything. -/
def rankBehind (rank : Array Nat) (i : Nat) : Nat := if i < rank.size then rank[i]! + 1 else 0

/-- A key compares by rank, and then by the rank `k` positions later. -/
theorem key_lt_iff {rank : Array Nat} {k width i j : Nat}
    (hwidth : ∀ p < rank.size, rank[p]! + 1 < width) (hpos : 0 < width) :
    key rank k width i < key rank k width j ↔
      rank[i]! < rank[j]! ∨
        rank[i]! = rank[j]! ∧ rankBehind rank (i + k) < rankBehind rank (j + k) := by
  have hbehind : ∀ p, rankBehind rank p < width := by
    intro p
    rw [rankBehind]
    split
    · exact hwidth p ‹_›
    · exact hpos
  exact mul_add_lt_iff (hbehind (i + k)) (hbehind (j + k))

theorem getElem!_keys {rank : Array Nat} {i : Nat} (k width : Nat) (h : i < rank.size) :
    (keys rank k width)[i]! = key rank k width i := by
  have hsize : i < (keys rank k width).size := by
    rwa [keys, Array.size_map, Array.size_range]
  rw [getElem!_pos _ i hsize]
  simp only [keys, Array.getElem_map, Array.getElem_range]

/-! ## Ranks -/

theorem getElem!_setIfInBounds_self {ranks : Array Nat} {i : Nat} (r : Nat) (h : i < ranks.size) :
    (ranks.setIfInBounds i r)[i]! = r := by
  rw [getElem!_pos _ i (by rwa [Array.size_setIfInBounds]), Array.getElem_setIfInBounds_self]

theorem getElem!_setIfInBounds_other {ranks : Array Nat} {i j : Nat} (r : Nat) (h : i ≠ j) :
    (ranks.setIfInBounds i r)[j]! = ranks[j]! := by
  rw [getElem!_def, getElem!_def, Array.getElem?_setIfInBounds_ne h]

@[simp] theorem size_assignRanks (ks : Array Nat) (previous r : Nat) (rest : List Nat)
    (ranks : Array Nat) : (assignRanks ks previous r rest ranks).1.size = ranks.size := by
  induction rest generalizing previous r ranks with
  | nil => rfl
  | cons i rest ih => rw [assignRanks, ih, Array.size_setIfInBounds]

theorem getElem!_assignRanks_of_notMem {previous r : Nat} {rest : List Nat} {ranks : Array Nat}
    {i : Nat} (h : i ∉ rest) : (assignRanks ks previous r rest ranks).1[i]! = ranks[i]! := by
  induction rest generalizing previous r ranks with
  | nil => rfl
  | cons p rest ih =>
    rw [assignRanks, ih (List.not_mem_of_not_mem_cons h),
      getElem!_setIfInBounds_other _ (Ne.symm (List.ne_of_not_mem_cons h))]

/-- Ranks of positions from `low` to `last` that grow exactly where the keys do. -/
structure RanksBy (ks : Array Nat) (order : List Nat) (low : Nat) (ranks : Array Nat)
    (last : Nat) : Prop where
  within : ∀ i ∈ order, low ≤ ranks[i]! ∧ ranks[i]! ≤ last
  lt_iff : ∀ i ∈ order, ∀ j ∈ order, ranks[i]! < ranks[j]! ↔ ks[i]! < ks[j]!
  last_lt : last < low + order.length
  /-- All ranks differ if all keys do. -/
  last_eq_iff : last + 1 = low + order.length ↔ order.Pairwise fun i j => ks[i]! < ks[j]!

theorem RanksBy.singleton {i r : Nat} {ranks : Array Nat} (h : ranks[i]! = r) :
    RanksBy ks [i] r ranks r := by
  have hself : ∀ j ∈ [i], ranks[j]! = r := by
    intro j hj
    rw [List.mem_singleton.mp hj, h]
  refine ⟨fun j hj => ?_, fun j hj l hl => ?_, Nat.lt_succ_self r, ?_⟩
  · exact ⟨Nat.le_of_eq (hself j hj).symm, Nat.le_of_eq (hself j hj)⟩
  · rw [List.mem_singleton.mp hj, List.mem_singleton.mp hl]
    omega
  · exact iff_of_true rfl (List.pairwise_singleton _ _)

/-- One more position in front, whose rank is that of the next one, or one less if its key is. -/
theorem RanksBy.cons {i p r next last : Nat} {rest : List Nat} {ranks : Array Nat}
    (h : RanksBy ks (p :: rest) next ranks last) (hi : ranks[i]! = r) (hp : ranks[p]! = next)
    (hnext : next = if ks[i]! < ks[p]! then r + 1 else r)
    (hsorted : (i :: p :: rest).Pairwise fun i j => ks[i]! ≤ ks[j]!) :
    RanksBy ks (i :: p :: rest) r ranks last := by
  obtain ⟨hwithin, hlt, hlast, hdiffer⟩ := h
  obtain ⟨hfirst, hsorted⟩ := List.pairwise_cons.mp hsorted
  have hsteps : r ≤ next ∧ next ≤ r + 1 := by split at hnext <;> omega
  -- the new position is less than another if the next one is, or if it is less than the next one
  have hi_lt : ∀ j ∈ p :: rest, r < ranks[j]! ↔ ks[i]! < ks[j]! := by
    intro j hj
    have hj' := hlt p List.mem_cons_self j hj
    have hbounds := hwithin j hj
    have hle : ks[p]! ≤ ks[j]! := by
      rcases List.mem_cons.mp hj with rfl | hrest
      · exact Nat.le_refl _
      · exact (List.pairwise_cons.mp hsorted).1 j hrest
    have hip := hfirst p List.mem_cons_self
    rw [hp] at hj'
    split at hnext <;> omega
  refine ⟨fun j hj => ?_, fun j hj l hl => ?_, ?_, ?_⟩
  · rcases List.mem_cons.mp hj with rfl | hj
    · have := hwithin p List.mem_cons_self
      omega
    · have := hwithin j hj
      omega
  · rcases List.mem_cons.mp hj with rfl | hj'
    · rcases List.mem_cons.mp hl with rfl | hl
      · omega
      · rw [hi]
        exact hi_lt l hl
    · rcases List.mem_cons.mp hl with rfl | hl
      · have hbounds := hwithin j hj'
        have hle := hfirst j hj'
        omega
      · exact hlt j hj' l hl
  · simp only [List.length_cons] at hlast ⊢
    omega
  · simp only [List.length_cons] at hlast hdiffer ⊢
    rw [List.pairwise_cons, ← hdiffer]
    constructor
    · intro hall
      refine ⟨fun j hj => (hi_lt j hj).mp ?_, by omega⟩
      have := hwithin j hj
      omega
    · rintro ⟨hall, hlastEq⟩
      rw [if_pos (hall p List.mem_cons_self)] at hnext
      omega

/-- **Positions in the order of their keys are ranked by them.** -/
theorem assignRanks_ranksBy {previous r : Nat} {rest : List Nat} {ranks : Array Nat}
    (hsorted : (previous :: rest).Pairwise fun i j => ks[i]! ≤ ks[j]!)
    (hnodup : (previous :: rest).Nodup) (hinside : ∀ i ∈ rest, i < ranks.size)
    (hprevious : ranks[previous]! = r) :
    RanksBy ks (previous :: rest) r (assignRanks ks previous r rest ranks).1
      (assignRanks ks previous r rest ranks).2 := by
  induction rest generalizing previous r ranks with
  | nil => exact .singleton hprevious
  | cons p rest ih =>
    obtain ⟨hnew, hnodup⟩ := List.nodup_cons.mp hnodup
    have hp := hinside p List.mem_cons_self
    obtain ⟨next, hnext⟩ : ∃ n, n = if ks[previous]! < ks[p]! then r + 1 else r := ⟨_, rfl⟩
    rw [assignRanks, ← hnext]
    refine .cons (ih (List.pairwise_cons.mp hsorted).2 hnodup (fun i hi => ?_) ?_) ?_ ?_ hnext
      hsorted
    · rw [Array.size_setIfInBounds]
      exact hinside i (List.mem_cons_of_mem p hi)
    · exact getElem!_setIfInBounds_self next hp
    · rw [getElem!_assignRanks_of_notMem (List.not_mem_of_not_mem_cons hnew),
        getElem!_setIfInBounds_other _ (Ne.symm (List.ne_of_not_mem_cons hnew)), hprevious]
    · rw [getElem!_assignRanks_of_notMem (List.nodup_cons.mp hnodup).1,
        getElem!_setIfInBounds_self _ hp]

/-! ## Passes -/

/-- Where the doubling loop stands: how many bytes the ranks compare, the ranks, and the order of
the positions. -/
structure State where
  k : Nat
  rank : Array Nat
  order : List Nat

namespace State

/-- The keys that the next pass sorts by. -/
def sortKeys (s : State) : Array Nat := keys s.rank s.k (max 256 s.rank.size + 1)

/-- The state behind a pass that sorted the positions, and the rank of the last one. -/
def ranked (s : State) (first : Nat) (rest : List Nat) : State × Nat :=
  let r := assignRanks s.sortKeys first 0 rest (s.rank.setIfInBounds first 0)
  (⟨2 * s.k, r.1, first :: rest⟩, r.2)

end State

/-- One pass of the loop. Positions with one key may come in any order. -/
inductive Pass (s : State) : State → Nat → Prop
  | sort {first : Nat} {rest : List Nat} (perm : (first :: rest).Perm s.order)
      (sorted : (first :: rest).Pairwise fun i j => s.sortKeys[i]! ≤ s.sortKeys[j]!) :
      Pass s (s.ranked first rest).1 (s.ranked first rest).2

/-- A pass behind which two ranks are still equal. -/
def GoesOn (s t : State) : Prop := ∃ last, Pass s t last ∧ last + 1 ≠ s.rank.size

/-- A pass behind which all ranks differ, and the order that it leaves. -/
def EndsWith (s : State) (order : List Nat) : Prop :=
  ∃ t last, Pass s t last ∧ last + 1 = s.rank.size ∧ t.order = order

/-- What the loop may end with. -/
inductive Runs : State → List Nat → Prop
  | ends {s : State} {order : List Nat} (h : EndsWith s order) : Runs s order
  | goesOn {s t : State} {order : List Nat} (h : GoesOn s t) (rest : Runs t order) : Runs s order

/-! ## The invariant -/

/-- **Ranks by the first `k` bytes** of the suffixes, for all positions. -/
structure Ranked (data : Bytes) (s : State) : Prop where
  k_pos : 0 < s.k
  size_eq : s.rank.size = data.size
  perm : s.order.Perm (List.range data.size)
  below : ∀ i < data.size, s.rank[i]! < max 256 data.size
  lt_iff : ∀ i < data.size, ∀ j < data.size,
    s.rank[i]! < s.rank[j]! ↔ (data.suffix i).take s.k < (data.suffix j).take s.k

/-- Two orders that agree leave the same things equal. -/
theorem eq_iff_of_lt_iff {a b : Nat} {s t : List UInt8} (h : a < b ↔ s < t) (h' : b < a ↔ t < s) :
    a = b ↔ s = t := by
  constructor
  · intro heq
    exact List.le_antisymm (fun hlt => absurd (h'.mpr hlt) (by omega))
      (fun hlt => absurd (h.mpr hlt) (by omega))
  · rintro rfl
    have hle := mt h.mp (List.lt_irrefl s)
    have hge := mt h'.mp (List.lt_irrefl s)
    omega

/-- The keys of a pass order the positions by twice as many bytes. -/
theorem Ranked.sortKeys_lt_iff {s : State} (h : Ranked data s) {i j : Nat} (hi : i < data.size)
    (hj : j < data.size) :
    s.sortKeys[i]! < s.sortKeys[j]! ↔
      (data.suffix i).take (2 * s.k) < (data.suffix j).take (2 * s.k) := by
  have hk := h.k_pos
  have hsize := h.size_eq
  have hbehind : ∀ i j, rankBehind s.rank i < rankBehind s.rank j ↔
      (data.suffix i).take s.k < (data.suffix j).take s.k := by
    intro i j
    rw [rankBehind, rankBehind, hsize]
    by_cases hj : j < data.size
    · rw [if_pos hj]
      by_cases hi : i < data.size
      · rw [if_pos hi, Nat.add_lt_add_iff_right]
        exact h.lt_iff i hi j hj
      · -- the end comes before everything
        obtain ⟨k, hk⟩ : ∃ k, s.k = k + 1 := ⟨s.k - 1, by omega⟩
        rw [if_neg hi, Bytes.suffix_of_le (by omega), Bytes.suffix_of_lt hj, hk, List.take_nil,
          List.take_succ_cons]
        exact iff_of_true (Nat.succ_pos _) (List.nil_lt_cons _ _)
    · rw [if_neg hj, Bytes.suffix_of_le (i := j) (by omega), List.take_nil]
      exact iff_of_false (Nat.not_lt_zero _) (List.not_lt_nil _)
  have hwidth : ∀ p < s.rank.size, s.rank[p]! + 1 < max 256 s.rank.size + 1 := by
    intro p hp
    have := h.below p (by omega)
    omega
  rw [State.sortKeys, getElem!_keys _ _ (by omega), getElem!_keys _ _ (by omega),
    key_lt_iff hwidth (Nat.succ_pos _), Nat.two_mul, Bytes.take_add_lt_iff, Bytes.drop_suffix,
    Bytes.drop_suffix, hbehind, h.lt_iff i hi j hj,
    eq_iff_of_lt_iff (h.lt_iff i hi j hj) (h.lt_iff j hj i hi)]

/-- **What a pass does**: its ranks compare twice as many bytes, and they all differ exactly if that
many bytes of all suffixes do. -/
theorem Ranked.pass {s t : State} {last : Nat} (h : Ranked data s) (hpass : Pass s t last) :
    Ranked data t ∧ t.k = 2 * s.k ∧
      (t.order.Pairwise fun i j => (data.suffix i).take t.k ≤ (data.suffix j).take t.k) ∧
      (last + 1 = data.size ↔
        t.order.Pairwise fun i j => (data.suffix i).take t.k < (data.suffix j).take t.k) := by
  obtain @⟨first, rest, hperm, hsorted⟩ := hpass
  have hsize := h.size_eq
  have hall : (first :: rest).Perm (List.range data.size) := hperm.trans h.perm
  have hmem : ∀ i, i ∈ first :: rest ↔ i < data.size := fun i => hall.mem_iff.trans List.mem_range
  have hfirst := (hmem first).mp List.mem_cons_self
  have hinside : ∀ i ∈ rest, i < (s.rank.setIfInBounds first 0).size := by
    intro i hi
    rw [Array.size_setIfInBounds, hsize]
    exact (hmem i).mp (List.mem_cons_of_mem first hi)
  have hranks := assignRanks_ranksBy hsorted (hall.nodup_iff.mpr List.nodup_range) hinside
    (getElem!_setIfInBounds_self 0 (by omega))
  have hlength : (first :: rest).length = data.size := by
    rw [hall.length_eq, List.length_range]
  have hkeys : ∀ i ∈ first :: rest, ∀ j ∈ first :: rest,
      s.sortKeys[i]! < s.sortKeys[j]! ↔
        (data.suffix i).take (2 * s.k) < (data.suffix j).take (2 * s.k) :=
    fun i hi j hj => h.sortKeys_lt_iff ((hmem i).mp hi) ((hmem j).mp hj)
  refine ⟨⟨?_, ?_, hall, fun i hi => ?_, fun i hi j hj => ?_⟩, rfl, ?_, ?_⟩
  · exact Nat.mul_pos (by decide) h.k_pos
  · rw [State.ranked, size_assignRanks, Array.size_setIfInBounds, hsize]
  · have hwithin := hranks.within i ((hmem i).mpr hi)
    have hlast := hranks.last_lt
    dsimp only [State.ranked]
    omega
  · rw [State.ranked]
    exact (hranks.lt_iff i ((hmem i).mpr hi) j ((hmem j).mpr hj)).trans
      (hkeys i ((hmem i).mpr hi) j ((hmem j).mpr hj))
  · refine hsorted.imp_of_mem fun hi hj hle hlt => ?_
    exact absurd ((hkeys _ hj _ hi).mpr hlt) (Nat.not_lt.mpr hle)
  · have hdiffer := hranks.last_eq_iff
    rw [Nat.zero_add, hlength] at hdiffer
    exact hdiffer.trans (List.Pairwise.iff_of_mem fun hi hj => hkeys _ hi _ hj)

/-- A pass that the loop goes on behind compared fewer bytes than the longest suffix has. -/
theorem Ranked.goesOn {s t : State} (h : Ranked data s) (hgoes : GoesOn s t) :
    Ranked data t ∧ s.k < t.k ∧ t.k < data.size := by
  obtain ⟨last, hpass, hmore⟩ := hgoes
  obtain ⟨ht, hk, hsorted, hdiffer⟩ := h.pass hpass
  have hpos := h.k_pos
  refine ⟨ht, by omega, Nat.lt_of_not_le fun hlong => ?_⟩
  -- that many bytes are all of each suffix, and suffixes are distinct
  rw [h.size_eq] at hmore
  have hnodup := ht.perm.nodup_iff.mpr List.nodup_range
  refine hmore (hdiffer.mpr ((hsorted.and hnodup).imp_of_mem fun hi hj hle => ?_))
  have hi := List.mem_range.mp (ht.perm.mem_iff.mp hi)
  have hj := List.mem_range.mp (ht.perm.mem_iff.mp hj)
  obtain ⟨hle, hne⟩ := hle
  rw [List.take_of_length_le (by rw [Bytes.length_suffix]; omega),
    List.take_of_length_le (by rw [Bytes.length_suffix]; omega)] at hle ⊢
  exact Decidable.byContradiction fun hnot =>
    hne (Bytes.eq_of_suffix_eq hi hj (List.le_antisymm hle hnot))

/-! ## The whole loop -/

/-- **The loop ends**: no sequence of passes goes on for ever. -/
theorem Ranked.acc {s : State} (h : Ranked data s) : Acc (fun t s => GoesOn s t) s := by
  induction hn : data.size - s.k using Nat.strongRecOn generalizing s with
  | ind n ih =>
    constructor
    intro t hgoes
    obtain ⟨ht, hgrows, hlt⟩ := h.goesOn hgoes
    exact ih _ (by omega) ht rfl

/-- **What the loop ends with** is all positions in the order of their suffixes. -/
theorem Ranked.sorted_of_runs {s : State} {order : List Nat} (h : Ranked data s)
    (hruns : Runs s order) :
    order.Perm (List.range data.size) ∧
      order.Pairwise fun i j => data.suffix i < data.suffix j := by
  induction hruns with
  | ends hends =>
    obtain ⟨t, last, hpass, hlast, rfl⟩ := hends
    obtain ⟨ht, -, -, hdiffer⟩ := h.pass hpass
    rw [h.size_eq] at hlast
    exact ⟨ht.perm, (hdiffer.mp hlast).imp Bytes.lt_of_take_lt⟩
  | goesOn hgoes hrest ih => exact ih (h.goesOn hgoes).1

theorem sorted_sortByKey (ks : Array Nat) (order : List Nat) :
    (sortByKey ks order).Pairwise fun i j => ks[i]! ≤ ks[j]! := by
  refine (List.pairwise_mergeSort ?_ ?_ order).imp of_decide_eq_true
  · intro i j l hij hjl
    exact decide_eq_true (Nat.le_trans (of_decide_eq_true hij) (of_decide_eq_true hjl))
  · intro i j
    rw [Bool.or_eq_true, decide_eq_true_iff, decide_eq_true_iff]
    exact Nat.le_total _ _

theorem refine_succ (fuel : Nat) {s : State} {first : Nat} {rest : List Nat}
    (h : sortByKey s.sortKeys s.order = first :: rest) :
    refine (fuel + 1) s.k s.rank s.order =
      if (s.ranked first rest).2 + 1 = s.rank.size then first :: rest
      else refine fuel (2 * s.k) (s.ranked first rest).1.rank (first :: rest) := by
  rw [refine, ← State.sortKeys, h]
  dsimp only [State.ranked]
  rw [size_assignRanks, Array.size_setIfInBounds]
  rfl

/-- With a round for each byte that is not compared yet, `refine` comes to the end of the loop. -/
theorem runs_refine {fuel : Nat} {s : State} (h : Ranked data s) (hdata : 0 < data.size)
    (hfuel : data.size - s.k < fuel) : Runs s (refine fuel s.k s.rank s.order) := by
  induction fuel generalizing s with
  | zero => exact absurd hfuel (Nat.not_lt_zero _)
  | succ fuel ih =>
    have hperm : (sortByKey s.sortKeys s.order).Perm s.order := List.mergeSort_perm _ _
    have hsorted := sorted_sortByKey s.sortKeys s.order
    cases horder : sortByKey s.sortKeys s.order with
    | nil =>
      have hlength := (hperm.trans h.perm).length_eq
      rw [horder, List.length_range] at hlength
      exact absurd hlength (Nat.ne_of_lt hdata)
    | cons first rest =>
      rw [horder] at hperm hsorted
      have hpass : Pass s _ _ := .sort hperm hsorted
      rw [refine_succ fuel horder]
      by_cases hlast : (s.ranked first rest).2 + 1 = s.rank.size
      · rw [if_pos hlast]
        exact .ends ⟨_, _, hpass, hlast, rfl⟩
      · have hgoes : GoesOn s (s.ranked first rest).1 := ⟨_, hpass, hlast⟩
        obtain ⟨ht, hgrows, hlt⟩ := h.goesOn hgoes
        rw [if_neg hlast]
        exact .goesOn hgoes (ih ht (by omega))

/-- The loop starts with bytes as ranks. -/
def start (data : Bytes) : State := ⟨1, data.data.map UInt8.toNat, List.range data.size⟩

theorem ranked_start (data : Bytes) : Ranked data (start data) := by
  have hrank : ∀ i < data.size, (start data).rank[i]! = (data.get! i).toNat := by
    intro i hi
    have hsize : i < (data.data.map UInt8.toNat).size := by rwa [Array.size_map]
    have hget : data.get! i = data.data[i] := getElem!_pos data.data i hi
    rw [start, getElem!_pos _ i hsize, Array.getElem_map, hget]
  refine ⟨Nat.one_pos, Array.size_map, .refl _, fun i hi => ?_, fun i hi j hj => ?_⟩
  · have := (data.get! i).toNat_lt
    rw [hrank i hi]
    omega
  · rw [hrank i hi, hrank j hj, Bytes.suffix_of_lt hi, Bytes.suffix_of_lt hj,
      ← UInt8.lt_iff_toNat_lt]
    simp [start, List.cons_lt_cons_iff]

/-- What may come out: strings of at most one byte are left as they are, others go through the
loop. -/
def Ends (data : Bytes) (order : List Nat) : Prop :=
  if data.size < 2 then order = List.range data.size else Runs (start data) order

theorem ends_build (data : Bytes) : Ends data (build data).toList := by
  rw [Ends, build]
  split
  · rfl
  · exact runs_refine (ranked_start data) (by omega) (by dsimp only [start]; omega)

theorem sorted_of_ends {order : List Nat} (h : Ends data order) :
    order.Perm (List.range data.size) ∧
      order.Pairwise fun i j => data.suffix i < data.suffix j := by
  rw [Ends] at h
  split at h
  · subst h
    refine ⟨.refl _, List.pairwise_iff_getElem.mpr fun i j hi hj hij => ?_⟩
    rw [List.length_range] at hi hj
    omega
  · exact (ranked_start data).sorted_of_runs h

/-! ## The array -/

theorem perm_build (data : Bytes) : (build data).toList.Perm (List.range data.size) :=
  (sorted_of_ends (ends_build data)).1

theorem size_build (data : Bytes) : (build data).size = data.size := by
  rw [← Array.length_toList, (perm_build data).length_eq, List.length_range]

theorem mem_build_iff {p : Nat} : p ∈ build data ↔ p < data.size := by
  rw [← Array.mem_toList_iff, (perm_build data).mem_iff, List.mem_range]

theorem getElem!_build_lt {i : Nat} (h : i < data.size) : (build data)[i]! < data.size := by
  rw [getElem!_pos _ i (by rwa [size_build])]
  exact mem_build_iff.mp (Array.getElem_mem _)

/-- Every position of the data is in the array. -/
theorem exists_getElem!_build {p : Nat} (h : p < data.size) :
    ∃ i < data.size, (build data)[i]! = p := by
  obtain ⟨i, hi, hp⟩ := Array.getElem_of_mem (mem_build_iff.mpr h)
  exact ⟨i, by rwa [size_build] at hi, by rwa [getElem!_pos _ i hi]⟩

/-- **The suffix array.** For every string, it is a permutation of the positions that has their
suffixes in strictly increasing order. The loop that builds it cannot go on for ever, and whatever
its sorts do with positions of equal keys, it ends with this array and no other. -/
theorem build_sorted (data : Bytes) :
    (build data).toList.Perm (List.range data.size) ∧
      ((build data).toList.Pairwise fun i j => data.suffix i < data.suffix j) ∧
      Acc (fun t s => GoesOn s t) (start data) ∧
      ∀ order, Ends data order ↔ order = (build data).toList := by
  obtain ⟨hperm, hsorted⟩ := sorted_of_ends (ends_build data)
  refine ⟨hperm, hsorted, (ranked_start data).acc, fun order => ⟨fun hends => ?_, ?_⟩⟩
  · obtain ⟨hperm', hsorted'⟩ := sorted_of_ends hends
    exact List.Perm.eq_of_pairwise (fun _ _ _ _ hlt hlt' => absurd hlt' (List.lt_asymm hlt))
      hsorted' hsorted (hperm'.trans hperm.symm)
  · rintro rfl
    exact ends_build data

end SuffixArray

end BlockUpdate
