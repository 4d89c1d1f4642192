import BlockUpdate.Proofs.JsonText
import BlockUpdate.Proofs.ValidSets
import Mathlib

/-!
# Written descriptors read back

A descriptor is a list of numbers with commas between them. Its two forms are told apart by how many
numbers follow the first: as many as it says, or twice as many. For ranges that are written in full
these never agree, so neither form is taken for the other.

- `Descriptor.joined`: numbers with commas between them; **`BlockSet.numbers_joined`**: they read back.
- `Descriptor.countForm`, `Descriptor.rangeForm`: the two ways to write ranges.
- **`BlockSet.parse_countForm`**, **`BlockSet.parse_rangeForm`**: both denote the ranges that were
  written, in their order.
- `BlockSet.Built`, **`BlockSet.parse_text`**: a set that was built of descriptors is denoted by its
  text.
-/

namespace BlockUpdate

open Decimal (limit64)

/-! ## Fields without blanks -/

namespace Blank

variable {text : String}

/-- Fields are the parts of a list between its separators. -/
theorem fieldsList_eq_splitOn (separator : Char) (cs : List Char) :
    fieldsList separator cs = cs.splitOn separator := by
  rw [List.splitOn]
  induction cs with
  | nil => rfl
  | cons c cs ih =>
    rw [fieldsList, ih, List.splitOnP_cons_eq_if_modifyHead]
    obtain ⟨first, others, hcs⟩ :=
      List.exists_cons_of_ne_nil (List.splitOnP_ne_nil (· == separator) cs)
    rw [hcs]
    simp only [beq_iff_eq, List.modifyHead_cons]

/-- Parts without the separator are the fields of what they are joined to. -/
theorem fields_intercalate {separator : Char} {parts : List String} (hne : parts ≠ [])
    (hparts : ∀ part ∈ parts, separator ∉ part.toList) :
    fields separator ((String.singleton separator).intercalate parts) = parts := by
  rw [fields, fieldsList_eq_splitOn, String.toList_intercalate, String.toList_singleton,
    List.splitOn_intercalate _ (by simpa using hparts) (by simpa using hne), List.map_map]
  exact (List.map_congr_left fun part _ => String.ofList_toList).trans (List.map_id parts)

theorem dropWhile_isBlank {cs : List Char} (h : ∀ c ∈ cs, isBlank c = false) :
    trimStartList cs = cs :=
  List.dropWhile_eq_self_iff.mpr fun hl => by simp [h _ (List.getElem_mem hl)]

/-- A text without blanks is trimmed already. -/
theorem trim_of_forall (h : ∀ c ∈ text.toList, isBlank c = false) : trim text = text := by
  have hreverse : ∀ c ∈ text.toList.reverse, isBlank c = false :=
    fun c hc => h c (List.mem_reverse.mp hc)
  rw [trim, trimList, dropWhile_isBlank h, dropWhile_isBlank hreverse, List.reverse_reverse,
    String.ofList_toList]

theorem isBlank_of_isDigit {c : Char} (h : c.isDigit = true) : isBlank c = false := by
  obtain ⟨hlow, hhigh⟩ : 48 ≤ c.toNat ∧ c.toNat ≤ 57 := by
    simpa [Char.isDigit, UInt32.le_iff_toNat_le] using h
  simp only [isBlank, Bool.or_eq_false_iff, Bool.and_eq_false_iff, decide_eq_false_iff_not,
    beq_eq_false_iff_ne]
  omega

end Blank

/-! ## Numbers with commas -/

theorem toList_toString (n : Nat) : (toString n).toList = Nat.toDigits 10 n := by
  rw [Nat.toString_eq_ofList_toDigits, String.toList_ofList]

theorem isDigit_of_mem_toString {n : Nat} {c : Char} (h : c ∈ (toString n).toList) :
    c.isDigit = true := by
  rw [toList_toString] at h
  exact Nat.isDigit_of_mem_toDigits (by decide) (by decide) h

theorem Decimal.parseList_of_isDigit {limit : Nat} {c : Char} {cs : List Char}
    (h : c.isDigit = true) : parseList limit (c :: cs) = parseDigits limit (c :: cs) 0 := by
  have hplus : c ≠ '+' := by
    rintro rfl
    cases h
  rw [parseList]
  · rintro ⟨⟩
  · intro heq
    exact hplus (List.head_eq_of_cons_eq heq)
  · intro digits heq
    exact hplus (List.head_eq_of_cons_eq heq)

/-- **A number below the limit reads back.** -/
theorem Decimal.parse64_toString {n : Nat} (h : n < limit64) : parse64 (toString n) = .ok n := by
  obtain ⟨c, cs, hcs⟩ := List.exists_cons_of_ne_nil (Nat.toDigits_ne_nil (b := 10) (n := n))
  have hdigit : c.isDigit = true := isDigit_of_mem_toString (toList_toString n ▸ hcs ▸ List.mem_cons_self)
  rw [parse64, parse, toList_toString, hcs, parseList_of_isDigit hdigit, ← hcs,
    JsonValue.parseDigits_toDigits n h]

namespace Descriptor

/-- Numbers with commas between them. -/
def joined (numbers : List Nat) : String := ",".intercalate (numbers.map toString)

/-- The number of the ranges, then a block count and a start for each. -/
def countForm (ranges : List BlockRange) : String :=
  joined (ranges.length :: ranges.flatMap fun r => [r.count, r.start])

/-- The number of the bounds, then the bounds of each range. -/
def rangeForm (ranges : List BlockRange) : String :=
  joined (2 * ranges.length :: ranges.flatMap fun r => [r.start, r.stop])

variable {ns : List Nat} {n : Nat} {c : Char}

theorem joined_cons_cons (m n : Nat) (ns : List Nat) :
    joined (m :: n :: ns) = toString m ++ "," ++ joined (n :: ns) := by
  rw [joined, List.map_cons, List.map_cons, String.intercalate_cons_cons]
  rfl

theorem mem_joined (h : c ∈ (joined ns).toList) : c = ',' ∨ c.isDigit = true := by
  induction ns with
  | nil => simp [joined] at h
  | cons m ns ih =>
    cases ns with
    | nil => exact .inr (isDigit_of_mem_toString (by simpa [joined] using h))
    | cons n ns =>
      rw [joined_cons_cons, String.toList_append, String.toList_append] at h
      rcases List.mem_append.mp h with h | h
      · rcases List.mem_append.mp h with h | h
        · exact .inr (isDigit_of_mem_toString h)
        · exact .inl (List.mem_singleton.mp h)
      · exact ih h

theorem joined_ne_empty (n : Nat) (ns : List Nat) : joined (n :: ns) ≠ "" := by
  intro h
  have hdigits : (toString n).toList = [] := by
    cases ns with
    | nil => simpa [joined] using congrArg String.toList h
    | cons m ns =>
      have hlist := congrArg String.toList h
      rw [joined_cons_cons, String.toList_append, String.toList_append] at hlist
      simp at hlist
  rw [toList_toString] at hdigits
  exact Nat.toDigits_ne_nil hdigits

theorem trim_joined (ns : List Nat) : Blank.trim (joined ns) = joined ns := by
  refine Blank.trim_of_forall fun c hc => ?_
  rcases mem_joined hc with rfl | hc
  · decide
  · exact Blank.isBlank_of_isDigit hc

theorem fields_joined (n : Nat) (ns : List Nat) :
    Blank.fields ',' (joined (n :: ns)) = (n :: ns).map toString := by
  refine Blank.fields_intercalate (by simp) fun part hpart hcomma => ?_
  obtain ⟨m, -, rfl⟩ := List.mem_map.mp hpart
  cases isDigit_of_mem_toString hcomma

end Descriptor

namespace BlockSet

open Descriptor

variable {ranges : List BlockRange} {set : BlockSet} {text : String} {declared : Nat}
  {values : List Nat}

theorem token_toString {n : Nat} (h : n < limit64) : token (toString n) = .ok n := by
  have htrim : Blank.trim (toString n) = toString n :=
    Blank.trim_of_forall fun c hc => Blank.isBlank_of_isDigit (isDigit_of_mem_toString hc)
  rw [token, htrim, Decimal.parse64_toString h]

theorem mapM_token {ns : List Nat} (h : ∀ n ∈ ns, n < limit64) :
    (ns.map toString).mapM token = .ok ns := by
  induction ns with
  | nil => exact List.mapM_nil
  | cons n ns ih =>
    rw [List.forall_mem_cons] at h
    rw [List.map_cons, List.mapM_cons, token_toString h.1]
    exact except_bind_eq_ok.mpr ⟨n, rfl, except_bind_eq_ok.mpr ⟨ns, ih h.2, rfl⟩⟩

/-- **Numbers with commas between them read back.** -/
theorem numbers_joined {n : Nat} {ns : List Nat} (h : ∀ m ∈ n :: ns, m < limit64) :
    numbers (joined (n :: ns)) = .ok (n :: ns) := by
  have hempty : (joined (n :: ns)).isEmpty = false := by
    rw [Bool.eq_false_iff]
    exact fun h => joined_ne_empty n ns (String.isEmpty_iff.mp h)
  rw [numbers, trim_joined, hempty, fields_joined]
  exact mapM_token h

theorem rangesIn_joined (h : ∀ m ∈ declared :: values, m < limit64) :
    rangesIn (joined (declared :: values)) = rangesOf declared values := by
  rw [rangesIn, numbers_joined h]
  rfl

/-! ## The two forms -/

/-- Pairs that are read as ranges are read as the list of them. -/
theorem pairs_flatMap {read : Nat → Nat → Except DescriptorFault BlockRange}
    {first second : BlockRange → Nat} (h : ∀ r ∈ ranges, read (first r) (second r) = .ok r) :
    pairs read (ranges.flatMap fun r => [first r, second r]) = .ok ranges := by
  induction ranges with
  | nil => rfl
  | cons r ranges ih =>
    rw [List.forall_mem_cons] at h
    rw [List.flatMap_cons]
    exact except_bind_eq_ok.mpr ⟨r, h.1, except_bind_eq_ok.mpr ⟨ranges, ih h.2, rfl⟩⟩

theorem length_flatMap_pair (first second : BlockRange → Nat) (ranges : List BlockRange) :
    (ranges.flatMap fun r => [first r, second r]).length = 2 * ranges.length := by
  induction ranges with
  | nil => rfl
  | cons r ranges ih =>
    rw [List.flatMap_cons, List.length_append, ih, List.length_cons]
    simp
    omega

theorem parse_of_rangesIn (hranges : rangesIn text = .ok ranges)
    (hvalid : (⟨ranges, blocksOf ranges⟩ : BlockSet).Valid) :
    parse text = .ok ⟨ranges, blocksOf ranges⟩ := by
  have happend : append {} ranges = ⟨ranges, blocksOf ranges⟩ := by
    rw [append, Nat.zero_add]
    rfl
  have htotal := (addTotals_eq_ok_iff_valid valid_empty (count_pos_of_rangesIn hranges)).mpr
    ⟨happend ▸ hvalid, rfl⟩
  rw [parse, insert_eq_ok, outcome_extend_eq_ok]
  exact ⟨ranges, _, hranges, htotal, happend.symm⟩

theorem length_le_blocksOf (h : ∀ r ∈ ranges, r.Valid) : ranges.length ≤ blocksOf ranges := by
  induction ranges with
  | nil => rfl
  | cons r ranges ih =>
    rw [List.forall_mem_cons] at h
    have hcount := h.1.count_pos
    have hrest := ih h.2
    rw [List.length_cons, blocksOf_cons]
    omega

/-- The numbers of valid ranges can be written in sixty-four bits. -/
theorem lt_limit_of_valid {r : BlockRange} (h : r.Valid) : r.stop < limit64 := by
  have hstop := h.stop_lt
  have hsize : blockSize = 4096 := rfl
  rw [hsize] at hstop
  have hlimit : limit64 = 2 ^ 64 := rfl
  rw [BlockRange.stop]
  omega

/-- Twice as many numbers follow the first as it says, and never as many, for there are some. -/
theorem rangesIn_countForm (hne : ranges ≠ []) (hranges : ∀ r ∈ ranges, r.Valid)
    (htotal : blocksOf ranges < 2 ^ 64) : rangesIn (countForm ranges) = .ok ranges := by
  have hlength : ranges.length ≠ 0 := fun h => hne (List.length_eq_zero_iff.mp h)
  have hnumbers : ∀ m ∈ ranges.length :: ranges.flatMap fun r => [r.count, r.start],
      m < limit64 := by
    rw [List.forall_mem_cons]
    refine ⟨Nat.lt_of_le_of_lt (length_le_blocksOf hranges) htotal, fun m hm => ?_⟩
    obtain ⟨r, hr, hm⟩ := List.mem_flatMap.mp hm
    have hstop := lt_limit_of_valid (hranges r hr)
    rw [BlockRange.stop] at hstop
    simp only [List.mem_cons, List.not_mem_nil, or_false] at hm
    omega
  have hread : ∀ r ∈ ranges, rangeOfCount r.count r.start = .ok r :=
    fun r hr => if_neg (Nat.pos_iff_ne_zero.mp (hranges r hr).count_pos)
  rw [countForm, rangesIn_joined hnumbers, rangesOf, if_neg hlength, length_flatMap_pair,
    if_neg (by omega), if_pos rfl, pairs_flatMap hread]

/-- **The count form denotes its ranges.** -/
theorem parse_countForm (hne : ranges ≠ []) (hranges : ∀ r ∈ ranges, r.Valid)
    (htotal : blocksOf ranges < 2 ^ 64) :
    parse (countForm ranges) = .ok ⟨ranges, blocksOf ranges⟩ :=
  parse_of_rangesIn (rangesIn_countForm hne hranges htotal) ⟨hranges, rfl, htotal⟩

/-- As many numbers follow the first as it says. -/
theorem rangesIn_rangeForm (hne : ranges ≠ []) (hranges : ∀ r ∈ ranges, r.Valid)
    (hcount : ranges.length < 2 ^ 63) : rangesIn (rangeForm ranges) = .ok ranges := by
  have hlength : ranges.length ≠ 0 := fun h => hne (List.length_eq_zero_iff.mp h)
  have hnumbers : ∀ m ∈ 2 * ranges.length :: ranges.flatMap fun r => [r.start, r.stop],
      m < limit64 := by
    have hlimit : limit64 = 2 ^ 64 := rfl
    rw [List.forall_mem_cons]
    refine ⟨by omega, fun m hm => ?_⟩
    obtain ⟨r, hr, hm⟩ := List.mem_flatMap.mp hm
    have hstop := lt_limit_of_valid (hranges r hr)
    have hstart : r.start ≤ r.stop := Nat.le_add_right ..
    simp only [List.mem_cons, List.not_mem_nil, or_false] at hm
    omega
  have hread : ∀ r ∈ ranges, rangeOfBounds r.start r.stop = .ok r := by
    intro r hr
    have hpos := (hranges r hr).count_pos
    rw [rangeOfBounds, BlockRange.stop, if_neg (by omega), Nat.add_sub_cancel_left]
  rw [rangeForm, rangesIn_joined hnumbers, rangesOf, if_neg (by omega), length_flatMap_pair,
    if_pos rfl, if_neg (by omega), pairs_flatMap hread]

/-- **The range form denotes its ranges**, if its first number can be written in sixty-four bits. -/
theorem parse_rangeForm (hne : ranges ≠ []) (hranges : ∀ r ∈ ranges, r.Valid)
    (htotal : blocksOf ranges < 2 ^ 64) (hcount : ranges.length < 2 ^ 63) :
    parse (rangeForm ranges) = .ok ⟨ranges, blocksOf ranges⟩ :=
  parse_of_rangesIn (rangesIn_rangeForm hne hranges hcount) ⟨hranges, rfl, htotal⟩

/-! ## The text of a set -/

/-- The sets that descriptors can build. -/
inductive Built : BlockSet → Prop
  | empty : Built {}
  | parse {text : String} {set : BlockSet} (h : parse text = .ok set) : Built set
  | extend {set : BlockSet} (h : Built set) (text : String) :
    Built (outcome (extend text) set).2

theorem Built.valid (h : Built set) : set.Valid := by
  induction h with
  | empty => exact valid_empty
  | @parse text set h =>
    have hvalid := valid_empty.extend text
    rwa [insert_eq_ok.mp h] at hvalid
  | extend h text ih => exact ih.extend text

theorem Built.sound (h : Built set) : set.Sound := h.valid.sound

/-- The text of a set is the range form of its ranges. -/
theorem text_eq_rangeForm (set : BlockSet) : set.text = rangeForm set.ranges := by
  have key : ∀ (ranges : List BlockRange) (out : String),
      ranges.foldl (fun out r => out ++ "," ++ toString r.start ++ "," ++ toString r.stop) out =
        ",".intercalate (out :: (ranges.flatMap fun r => [r.start, r.stop]).map toString) := by
    intro ranges
    induction ranges with
    | nil => exact fun out => String.intercalate_singleton.symm
    | cons r ranges ih =>
      intro out
      rw [List.foldl_cons, ih, String.intercalate_cons_append, List.flatMap_cons,
        List.map_append]
      simp only [List.map_cons, List.map_nil, List.cons_append, List.nil_append,
        String.intercalate_cons_cons, String.append_assoc]
  rw [text, key, rangeForm, joined, List.map_cons]

/-- **The text of a valid set denotes the set.** -/
theorem parse_text (hset : set.Valid) (hempty : set.isEmpty = false)
    (hcount : set.ranges.length < 2 ^ 63) : parse set.text = .ok set := by
  have hne : set.ranges ≠ [] := by
    intro h
    rw [isEmpty, hset.total_eq, h] at hempty
    cases hempty
  have htotal := hset.total_lt
  rw [hset.total_eq] at htotal
  rw [text_eq_rangeForm, parse_rangeForm hne hset.ranges htotal hcount, ← hset.total_eq]

/-- **Ranges that are written read back.** Both forms of a list of valid ranges denote just these
ranges and the number of their blocks, and so does the text of every set that descriptors build. The
range form counts two numbers for each range in sixty-four bits, which a list in memory, with less than
`2 ^ 63` elements, never exceeds. -/
theorem parse_forms :
    (∀ ranges : List BlockRange, ranges ≠ [] → (∀ r ∈ ranges, r.Valid) → blocksOf ranges < 2 ^ 64 →
      parse (countForm ranges) = .ok ⟨ranges, blocksOf ranges⟩ ∧
      (ranges.length < 2 ^ 63 → parse (rangeForm ranges) = .ok ⟨ranges, blocksOf ranges⟩)) ∧
    ∀ set : BlockSet, Built set → set.isEmpty = false → set.ranges.length < 2 ^ 63 →
      parse set.text = .ok set := by
  refine ⟨fun ranges hne hranges htotal => ?_, fun set hset hempty hcount => ?_⟩
  · exact ⟨parse_countForm hne hranges htotal, parse_rangeForm hne hranges htotal⟩
  · exact parse_text hset.valid hempty hcount

/-- Three ranges, not in the order of their blocks. -/
def sampleRanges : List BlockRange := [⟨100, 4⟩, ⟨7, 1⟩, ⟨0, 2⟩]

/-- The set of these ranges with the range of a second descriptor behind them. -/
def sampleSet : BlockSet := ⟨sampleRanges ++ [⟨10, 3⟩], 10⟩

theorem valid_sampleRanges : ∀ r ∈ sampleRanges, r.Valid := by
  simp only [sampleRanges, List.forall_mem_cons, List.not_mem_nil, false_implies, implies_true,
    and_true]
  exact ⟨⟨by decide, by decide⟩, ⟨by decide, by decide⟩, by decide, by decide⟩

theorem built_sampleSet : Built sampleSet := by
  have hsecond : ∀ r ∈ [(⟨10, 3⟩ : BlockRange)], r.Valid :=
    List.forall_mem_singleton.mpr ⟨by decide, by decide⟩
  have hextend : outcome (extend (rangeForm [⟨10, 3⟩])) ⟨sampleRanges, 7⟩ = (.ok (), sampleSet) :=
    outcome_extend_eq_ok.mpr
      ⟨_, 10, rangesIn_rangeForm (by decide) hsecond (by decide), rfl, rfl⟩
  have hparse : parse (countForm sampleRanges) = .ok ⟨sampleRanges, 7⟩ :=
    parse_countForm (by decide) valid_sampleRanges (by decide)
  have hbuilt := (Built.parse hparse).extend (rangeForm [⟨10, 3⟩])
  rwa [hextend] at hbuilt

theorem parse_forms_sample :
    (sampleRanges ≠ [] ∧ (∀ r ∈ sampleRanges, r.Valid) ∧ blocksOf sampleRanges < 2 ^ 64 ∧
      sampleRanges.length < 2 ^ 63 ∧
      parse (countForm sampleRanges) = .ok ⟨sampleRanges, 7⟩ ∧
      parse (rangeForm sampleRanges) = .ok ⟨sampleRanges, 7⟩) ∧
    Built sampleSet ∧ sampleSet.isEmpty = false ∧ sampleSet.ranges.length < 2 ^ 63 ∧
      parse sampleSet.text = .ok sampleSet := by
  have hcount : sampleSet.ranges.length < 2 ^ 63 := by decide
  have hforms := parse_forms.1 sampleRanges (by decide) valid_sampleRanges (by decide)
  exact ⟨⟨by decide, valid_sampleRanges, by decide, by decide, hforms.1, hforms.2 (by decide)⟩,
    built_sampleSet, rfl, hcount, parse_forms.2 sampleSet built_sampleSet rfl hcount⟩

end BlockSet

end BlockUpdate
