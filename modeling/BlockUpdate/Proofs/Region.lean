import BlockUpdate.Proofs.Outcome

/-!
# The blocks of a set

- `BlockSet.HasBlock`, `BlockSet.HasByte`: the blocks of a set, and the positions of their bytes.
- `BlockSet.Sound`: the total is the number of blocks, and no range is empty.
- `BlockSet.outcome_extend_eq_ok`: what it takes to add a descriptor, and what is added.
- **`sound_of_parse`**, `byteLength_pos_of_parse`: every set that a descriptor denotes is sound, and
  none is empty.
- **`overlaps_of_hasBlock`**: sets with a common block overlap.
-/

namespace BlockUpdate

theorem blockSize_pos : 0 < blockSize := by decide

theorem BlockRange.byteLength_pos {r : BlockRange} (h : 0 < r.count) : 0 < r.byteLength := by
  rw [byteLength]
  exact Nat.mul_pos h blockSize_pos

/-- Whether a byte position lies in some range. -/
def InRanges (ranges : List BlockRange) (i : Nat) : Prop :=
  ∃ r ∈ ranges, r.byteStart ≤ i ∧ i < r.byteStart + r.byteLength

/-- The number of bytes of some ranges. -/
def rangesLength (ranges : List BlockRange) : Nat := (ranges.map (·.byteLength)).sum

section InRanges

variable (r : BlockRange) (rs rs' : List BlockRange) (i : Nat)

@[simp] theorem not_inRanges_nil : ¬ InRanges [] i := by simp [InRanges]

@[simp] theorem inRanges_cons :
    InRanges (r :: rs) i ↔ (r.byteStart ≤ i ∧ i < r.byteStart + r.byteLength) ∨ InRanges rs i := by
  simp [InRanges]

@[simp] theorem rangesLength_nil : rangesLength [] = 0 := rfl

@[simp] theorem rangesLength_cons :
    rangesLength (r :: rs) = r.byteLength + rangesLength rs := rfl

end InRanges

namespace BlockSet

/-- Whether a block belongs to a set. -/
def HasBlock (set : BlockSet) (block : Nat) : Prop :=
  ∃ r ∈ set.ranges, r.start ≤ block ∧ block < r.stop

/-- Whether a byte position belongs to a set. -/
def HasByte (set : BlockSet) (i : Nat) : Prop := InRanges set.ranges i

/-- The total counts the blocks of all ranges, and every range has some. -/
structure Sound (set : BlockSet) : Prop where
  byteLength_eq : set.byteLength = rangesLength set.ranges
  nonempty : ∀ r ∈ set.ranges, 0 < r.count

theorem Sound.total_eq {set : BlockSet} (h : set.Sound) :
    set.total = (set.ranges.map (·.count)).sum := by
  have hlength : ∀ ranges : List BlockRange,
      rangesLength ranges = (ranges.map (·.count)).sum * blockSize := by
    intro ranges
    induction ranges with
    | nil => simp
    | cons r rest ih =>
      rw [rangesLength_cons, ih, List.map_cons, List.sum_cons, Nat.add_mul]
      rfl
  have hbytes := h.byteLength_eq
  rw [hlength] at hbytes
  exact Nat.eq_of_mul_eq_mul_right blockSize_pos hbytes

/-- A byte belongs to a set with its block. -/
theorem hasByte_iff_hasBlock (set : BlockSet) (i : Nat) :
    set.HasByte i ↔ set.HasBlock (i / blockSize) := by
  have key : ∀ r : BlockRange, (r.byteStart ≤ i ∧ i < r.byteStart + r.byteLength) ↔
      r.start ≤ i / blockSize ∧ i / blockSize < r.stop := by
    intro r
    rw [BlockRange.byteStart, BlockRange.byteLength, BlockRange.stop,
      Nat.le_div_iff_mul_le blockSize_pos, Nat.div_lt_iff_lt_mul blockSize_pos, Nat.add_mul]
  simp only [HasByte, InRanges, HasBlock, key]

/-- **Sets with a common block overlap.** -/
theorem overlaps_of_hasBlock {a b : BlockSet} {block : Nat} (ha : a.HasBlock block)
    (hb : b.HasBlock block) : a.overlaps b = true := by
  obtain ⟨r, hr, hr₁, hr₂⟩ := ha
  obtain ⟨s, hs, hs₁, hs₂⟩ := hb
  refine List.any_eq_true.mpr ⟨r, hr, List.any_eq_true.mpr ⟨s, hs, ?_⟩⟩
  simp only [BlockRange.overlaps, Bool.and_eq_true, decide_eq_true_eq]
  omega

/-- Sets that do not overlap have no common byte. -/
theorem not_hasByte_of_overlaps_eq_false {a b : BlockSet} (h : a.overlaps b = false) {i : Nat}
    (ha : a.HasByte i) : ¬ b.HasByte i := by
  intro hb
  rw [hasByte_iff_hasBlock] at ha hb
  rw [overlaps_of_hasBlock ha hb] at h
  cases h

/-! ## What descriptors denote -/

theorem count_pos_of_pairs {read : Nat → Nat → Except DescriptorFault BlockRange}
    (hread : ∀ a b r, read a b = .ok r → 0 < r.count) (values : List Nat)
    {ranges : List BlockRange} (h : pairs read values = .ok ranges) :
    ∀ r ∈ ranges, 0 < r.count := by
  fun_induction pairs read values generalizing ranges with
  | case1 a b rest ih =>
    obtain ⟨range, hr, h⟩ := except_bind_eq_ok.mp h
    obtain ⟨ranges', hrest, h⟩ := except_bind_eq_ok.mp h
    cases h
    intro r hmem
    rcases List.mem_cons.mp hmem with rfl | hmem
    · exact hread a b _ hr
    · exact ih hrest r hmem
  | case2 values hne =>
    cases h
    simp

theorem count_pos_of_rangesOf {declared : Nat} {values : List Nat} {ranges : List BlockRange}
    (h : rangesOf declared values = .ok ranges) : ∀ r ∈ ranges, 0 < r.count := by
  have hbounds : ∀ a b r, rangeOfBounds a b = .ok r → 0 < r.count := by
    intro a b r hr
    rw [rangeOfBounds] at hr
    split at hr
    · cases hr
    · cases hr
      show 0 < b - a
      omega
  have hcount : ∀ a b r, rangeOfCount a b = .ok r → 0 < r.count := by
    intro a b r hr
    rw [rangeOfCount] at hr
    split at hr
    · cases hr
    · cases hr
      show 0 < a
      omega
  rw [rangesOf] at h
  split at h
  · cases h
  · split at h
    · split at h
      · cases h
      · exact count_pos_of_pairs hbounds values h
    · split at h
      · exact count_pos_of_pairs hcount values h
      · cases h

theorem addTotals_eq {total total' : Nat} {ranges : List BlockRange}
    (h : addTotals total ranges = .ok total') :
    total' * blockSize = total * blockSize + rangesLength ranges := by
  induction ranges generalizing total with
  | nil =>
    cases h
    simp
  | cons r rest ih =>
    rw [addTotals] at h
    split at h
    · cases h
    · split at h
      · cases h
      · rw [ih h, rangesLength_cons, BlockRange.byteLength, Nat.add_mul]
        omega

theorem ne_nil_of_pairs {read : Nat → Nat → Except DescriptorFault BlockRange} {values : List Nat}
    (hvalues : 2 ≤ values.length) {ranges : List BlockRange} (h : pairs read values = .ok ranges) :
    ranges ≠ [] := by
  match values, hvalues with
  | a :: b :: rest, _ =>
    obtain ⟨range, -, h⟩ := except_bind_eq_ok.mp h
    obtain ⟨ranges', -, h⟩ := except_bind_eq_ok.mp h
    cases h
    exact List.cons_ne_nil range ranges'

theorem ne_nil_of_rangesOf {declared : Nat} {values : List Nat} {ranges : List BlockRange}
    (h : rangesOf declared values = .ok ranges) : ranges ≠ [] := by
  rw [rangesOf] at h
  split at h
  · cases h
  · split at h
    · split at h
      · cases h
      · exact ne_nil_of_pairs (by omega) h
    · split at h
      · exact ne_nil_of_pairs (by omega) h
      · cases h

/-! ## Adding descriptors -/

theorem outcome_report {α : Type} (text : String) (x : Except DescriptorFault α)
    (set : BlockSet) : outcome (report text x) set = (x.mapError (.descriptor · text), set) := by
  cases x <;> rfl

@[simp] theorem outcome_report_ok {α : Type} (text : String) (a : α) (set : BlockSet) :
    outcome (report text (.ok a)) set = (.ok a, set) := rfl

@[simp] theorem outcome_report_error (α : Type) (text : String) (fault : DescriptorFault)
    (set : BlockSet) : outcome (report text (.error fault) : SetM α) set =
      (.error (.descriptor fault text), set) := rfl

/-- What it takes to add a descriptor, and what is added. -/
theorem outcome_extend_eq_ok {set set' : BlockSet} {text : String} :
    outcome (extend text) set = (.ok (), set') ↔ ∃ ranges total, rangesIn text = .ok ranges ∧
      addTotals set.total ranges = .ok total ∧ set' = ⟨set.ranges ++ ranges, total⟩ := by
  simp only [extend, outcome_bind_eq_ok, outcome_report, outcome_get, outcome_modify,
    Prod.mk.injEq, mapError_eq_ok]
  constructor
  · rintro ⟨ranges, _, ⟨hranges, rfl⟩, _, _, ⟨⟨⟩, rfl⟩, total, _, ⟨htotal, rfl⟩, -, _, ⟨-, rfl⟩,
      -, rfl⟩
    exact ⟨ranges, total, hranges, htotal, rfl⟩
  · rintro ⟨ranges, total, hranges, htotal, rfl⟩
    exact ⟨ranges, set, ⟨hranges, rfl⟩, set, set, ⟨rfl, rfl⟩, total, set, ⟨htotal, rfl⟩, (), _,
      ⟨trivial, rfl⟩, trivial, rfl⟩

/-- **A descriptor that is refused changes nothing.** -/
theorem outcome_extend_eq_error {set set' : BlockSet} {text : String} {e : BlockError} :
    outcome (extend text) set = (.error e, set') ↔ set' = set ∧ ∃ fault, e = .descriptor fault text ∧
      (rangesIn text = .error fault ∨
        ∃ ranges, rangesIn text = .ok ranges ∧ addTotals set.total ranges = .error fault) := by
  rw [extend, outcome_bind]
  rcases hranges : rangesIn text with fault | ranges
  · simp [eq_comm, and_comm]
  · simp only [outcome_report_ok, outcome_get_bind]
    rw [outcome_bind]
    rcases htotal : addTotals set.total ranges with fault | total
    · simp [htotal, eq_comm, and_comm]
    · simp [outcome_bind, htotal]

theorem insert_eq_ok {set set' : BlockSet} {text : String} :
    set.insert text = .ok set' ↔ outcome (extend text) set = (.ok (), set') := by
  have hrun : outcome (extend text) set = (extend text).run set := rfl
  rw [insert, hrun]
  split
  · next found h => simp [h]
  · next e _ h => simp [h]

/-- The ranges of a descriptor are those of its values. -/
theorem exists_rangesOf {text : String} {ranges : List BlockRange}
    (h : rangesIn text = .ok ranges) : ∃ declared values, rangesOf declared values = .ok ranges := by
  rw [rangesIn] at h
  obtain ⟨values, -, h⟩ := except_bind_eq_ok.mp h
  cases values with
  | nil => cases h
  | cons declared values => exact ⟨declared, values, h⟩

/-- A set that a descriptor denotes has the ranges of its values, and their total. -/
theorem rangesOf_of_parse {text : String} {set : BlockSet} (h : parse text = .ok set) :
    ∃ declared values, rangesOf declared values = .ok set.ranges ∧
      addTotals 0 set.ranges = .ok set.total := by
  obtain ⟨ranges, total, hranges, htotal, rfl⟩ := outcome_extend_eq_ok.mp (insert_eq_ok.mp h)
  obtain ⟨declared, values, hranges⟩ := exists_rangesOf hranges
  exact ⟨declared, values, hranges, htotal⟩

/-- **Every set that a descriptor denotes is sound.** -/
theorem sound_of_parse {text : String} {set : BlockSet} (h : parse text = .ok set) :
    set.Sound := by
  obtain ⟨declared, values, hranges, htotal⟩ := rangesOf_of_parse h
  refine ⟨?_, count_pos_of_rangesOf hranges⟩
  show set.total * blockSize = rangesLength set.ranges
  rw [addTotals_eq htotal, Nat.zero_mul, Nat.zero_add]

/-- No descriptor denotes the empty set. -/
theorem byteLength_pos_of_parse {text : String} {set : BlockSet} (h : parse text = .ok set) :
    0 < set.byteLength := by
  have hset := sound_of_parse h
  obtain ⟨declared, values, hranges, -⟩ := rangesOf_of_parse h
  obtain ⟨r, rest, hcons⟩ := List.exists_cons_of_ne_nil (ne_nil_of_rangesOf hranges)
  have hr := BlockRange.byteLength_pos (hset.nonempty r (hcons ▸ List.mem_cons_self))
  rw [hset.byteLength_eq, hcons, rangesLength_cons]
  omega

end BlockSet

end BlockUpdate
