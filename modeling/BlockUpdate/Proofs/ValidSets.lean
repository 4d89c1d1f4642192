import BlockUpdate.Proofs.Region

/-!
# Sets that descriptors build

A set is filled by descriptors, one after the other, some of which are refused. Each range is checked
by itself, and the running total with it; only after the last check is anything changed. So a refused
descriptor leaves no trace, and whatever the descriptors were, the ranges can be addressed and the
total counts them.

- `BlockSet.Valid`: what holds of all sets that can be built.
- **`BlockSet.addTotals_eq_ok`**: the checks pass exactly when each range can be addressed and all of
  them can be counted.
- **`BlockSet.outcome_extend_cases`**: what one descriptor does with a valid set.
- `BlockSet.extended`, **`BlockSet.extended_spec`**: so does each of any number of descriptors, from the
  empty set on.
-/

namespace BlockUpdate

open Decimal (limit64)

/-- The number of blocks of some ranges. -/
def blocksOf (ranges : List BlockRange) : Nat := (ranges.map (·.count)).sum

@[simp] theorem blocksOf_nil : blocksOf [] = 0 := rfl

@[simp] theorem blocksOf_cons (r : BlockRange) (ranges : List BlockRange) :
    blocksOf (r :: ranges) = r.count + blocksOf ranges := List.sum_cons

@[simp] theorem blocksOf_append (ranges more : List BlockRange) :
    blocksOf (ranges ++ more) = blocksOf ranges + blocksOf more := by
  rw [blocksOf, List.map_append, List.sum_append]
  rfl

theorem rangesLength_eq_blocksOf (ranges : List BlockRange) :
    rangesLength ranges = blocksOf ranges * blockSize := by
  induction ranges with
  | nil => rfl
  | cons r rest ih => rw [rangesLength_cons, blocksOf_cons, ih, BlockRange.byteLength, Nat.add_mul]

/-- A range has blocks, and the offset behind its last byte can be written in sixty-four bits. -/
structure BlockRange.Valid (r : BlockRange) : Prop where
  count_pos : 0 < r.count
  stop_lt : (r.start + r.count) * blockSize < 2 ^ 64

namespace BlockSet

/-- The ranges are valid, and the total is the number of their blocks, in sixty-four bits. -/
structure Valid (set : BlockSet) : Prop where
  ranges : ∀ r ∈ set.ranges, r.Valid
  total_eq : set.total = blocksOf set.ranges
  total_lt : set.total < 2 ^ 64

variable {set set' : BlockSet} {text : String} {ranges : List BlockRange} {total total' : Nat}

theorem Valid.sound (h : set.Valid) : set.Sound where
  byteLength_eq := by rw [byteLength, h.total_eq, rangesLength_eq_blocksOf]
  nonempty r hr := (h.ranges r hr).count_pos

/-! ## One descriptor -/

/-- **The checks of a list of ranges** pass exactly when each range can be addressed and all blocks
can be counted. The running total needs no condition of its own: it only grows. -/
theorem addTotals_eq_ok (htotal : total < 2 ^ 64) : addTotals total ranges = .ok total' ↔
    (∀ r ∈ ranges, (r.start + r.count) * blockSize < 2 ^ 64) ∧ total + blocksOf ranges < 2 ^ 64 ∧
      total' = total + blocksOf ranges := by
  have hlimit : limit64 = 2 ^ 64 := rfl
  induction ranges generalizing total with
  | nil => simp [addTotals, htotal, eq_comm]
  | cons r ranges ih =>
    rw [addTotals, BlockRange.stop, List.forall_mem_cons, blocksOf_cons]
    split
    · simp
      omega
    · split
      · simp
        omega
      · have hnext : total + r.count < 2 ^ 64 := by omega
        refine (ih hnext).trans ?_
        constructor
        · rintro ⟨hranges, hlt, rfl⟩
          exact ⟨⟨by omega, hranges⟩, by omega, by omega⟩
        · rintro ⟨⟨-, hranges⟩, hlt, rfl⟩
          exact ⟨hranges, by omega, by omega⟩

theorem count_pos_of_rangesIn (h : rangesIn text = .ok ranges) : ∀ r ∈ ranges, 0 < r.count := by
  obtain ⟨declared, values, h⟩ := exists_rangesOf h
  exact count_pos_of_rangesOf h

theorem ne_nil_of_rangesIn (h : rangesIn text = .ok ranges) : ranges ≠ [] := by
  obtain ⟨declared, values, h⟩ := exists_rangesOf h
  exact ne_nil_of_rangesOf h

/-- The set with more ranges behind its own. -/
def append (set : BlockSet) (more : List BlockRange) : BlockSet :=
  ⟨set.ranges ++ more, set.total + blocksOf more⟩

/-- Behind a valid set, the checks look for a set that is not valid. -/
theorem addTotals_eq_ok_iff_valid (hset : set.Valid) (hcount : ∀ r ∈ ranges, 0 < r.count) :
    addTotals set.total ranges = .ok total ↔
      (set.append ranges).Valid ∧ total = set.total + blocksOf ranges := by
  rw [addTotals_eq_ok hset.total_lt]
  constructor
  · rintro ⟨hstop, hlt, rfl⟩
    refine ⟨⟨fun r hr => ?_, ?_, hlt⟩, rfl⟩
    · rcases List.mem_append.mp hr with hr | hr
      · exact hset.ranges r hr
      · exact ⟨hcount r hr, hstop r hr⟩
    · rw [append, hset.total_eq, blocksOf_append]
  · rintro ⟨hvalid, rfl⟩
    exact ⟨fun r hr => (hvalid.ranges r (List.mem_append_right _ hr)).stop_lt, hvalid.total_lt, rfl⟩

/-- **One descriptor** is refused and changes nothing, or its ranges are put at the end. It is
refused just when it denotes no ranges, or the set with them would not be valid. -/
theorem outcome_extend_cases (hset : set.Valid) (text : String) :
    (∃ fault, outcome (extend text) set = (.error (.descriptor fault text), set) ∧
      ∀ added, rangesIn text = .ok added → ¬ (set.append added).Valid) ∨
    ∃ added, added ≠ [] ∧ rangesIn text = .ok added ∧ (set.append added).Valid ∧
      outcome (extend text) set = (.ok (), set.append added) := by
  rcases hranges : rangesIn text with fault | ranges
  · refine .inl ⟨fault, ?_, fun added h => by cases h⟩
    exact outcome_extend_eq_error.mpr ⟨rfl, fault, rfl, .inl hranges⟩
  · have hcount := count_pos_of_rangesIn hranges
    rcases htotal : addTotals set.total ranges with fault | total
    · refine .inl ⟨fault, ?_, ?_⟩
      · exact outcome_extend_eq_error.mpr ⟨rfl, fault, rfl, .inr ⟨ranges, hranges, htotal⟩⟩
      · rintro added ⟨⟩ hvalid
        cases htotal.symm.trans ((addTotals_eq_ok_iff_valid hset hcount).mpr ⟨hvalid, rfl⟩)
    · obtain ⟨hvalid, rfl⟩ := (addTotals_eq_ok_iff_valid hset hcount).mp htotal
      exact .inr ⟨ranges, ne_nil_of_rangesIn hranges, rfl, hvalid,
        outcome_extend_eq_ok.mpr ⟨ranges, _, hranges, htotal, rfl⟩⟩

/-- **A valid set stays valid**, whatever the descriptor. -/
theorem Valid.extend (hset : set.Valid) (text : String) : (outcome (extend text) set).2.Valid := by
  rcases outcome_extend_cases hset text with ⟨_, h, -⟩ | ⟨_, -, -, hvalid, h⟩ <;> rw [h]
  · exact hset
  · exact hvalid

theorem valid_empty : Valid {} := ⟨by simp, rfl, by decide⟩

/-! ## Any number of descriptors -/

/-- The set that descriptors make of the empty one, each added whether the others were accepted or
not. -/
def extended (texts : List String) : BlockSet :=
  texts.foldl (fun set text => (outcome (extend text) set).2) {}

theorem valid_extended (texts : List String) : (extended texts).Valid := by
  rw [extended]
  refine List.foldlRecOn texts _ valid_empty ?_
  intro set hset text _
  exact hset.extend text

/-- **Every call, after any others**: it is refused with the text of its descriptor and leaves the set
as it was, just when the descriptor denotes no ranges or the longer set would not be valid, or it puts
the ranges that the descriptor denotes at the end. The set is valid all the time. -/
theorem extended_spec (texts : List String) : (extended texts).Valid ∧ ∀ text,
    (∃ fault, outcome (extend text) (extended texts) =
        (.error (.descriptor fault text), extended texts) ∧
      ∀ added, rangesIn text = .ok added → ¬ ((extended texts).append added).Valid) ∨
    ∃ added, added ≠ [] ∧ rangesIn text = .ok added ∧ ((extended texts).append added).Valid ∧
      outcome (extend text) (extended texts) = (.ok (), (extended texts).append added) :=
  ⟨valid_extended texts, outcome_extend_cases (valid_extended texts)⟩

end BlockSet

end BlockUpdate
