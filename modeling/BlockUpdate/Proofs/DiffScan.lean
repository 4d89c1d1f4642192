import BlockUpdate.Patch.Generate
import BlockUpdate.Proofs.Overwrite
import BlockUpdate.Proofs.SuffixSorting

/-!
# What the scan for matches emits

The scan looks for long matches, extends them both ways and cuts overlaps. How good its matches are
makes no difference to what the triples rebuild; that needs only that every match, extension and cut
stays within both strings, and that the scan comes to the end of the new data.

The loops of the scan are read as relations: a derivation is a run of the loop that its own tests
ended. The definitions give each loop a number of rounds, and are shown to be such runs.

- `SuffixArray.getElem!_build_le`, `Match.search_le`: a match lies within both strings.
- `BlockPatch.Counts`, `BlockPatch.Advances`, `BlockPatch.Scans`: the loops that count agreeing
  bytes, look for the next match, and go through the new data.
- `BlockPatch.Advances.within`: where the scan stops; it never stays in place without a match.
- **`BlockPatch.scanFrom_scans`**: the scan comes to the end of the new data.
- `BlockPatch.Rebuilds`: the triples emitted so far account for the new data up to a position and
  leave the old position at another. Each triple goes on where the one before it ended.
- **`BlockPatch.emitRun_rebuilds`**: one triple preserves `Rebuilds`.
- **`BlockPatch.controls_rebuilds`**: all triples account for all of the new data.
-/

namespace BlockUpdate

/-! ## Positions of old data -/

namespace SuffixArray

/-- Every position of the array lies within the data. -/
theorem getElem!_build_le (data : Bytes) (i : Nat) : (build data)[i]! ≤ data.size := by
  by_cases h : i < data.size
  · exact Nat.le_of_lt (getElem!_build_lt h)
  · rw [getElem!_neg (build data) i (by rwa [size_build])]
    exact Nat.zero_le _

end SuffixArray

theorem Bytes.matchLength_le (a : Bytes) (i : Nat) (b : Bytes) (j : Nat) :
    matchLength a i b j ≤ b.size - j := by
  fun_induction matchLength a i b j with
  | case1 i j hin heq ih => omega
  | case2 i j hin hne => omega
  | case3 i j hout => omega

namespace Match

variable {suffixes : Array Nat} {old : Bytes}

/-- A match does not run past the new data and begins within the old data. -/
theorem narrow_le (hsuffixes : ∀ i : Nat, suffixes[i]! ≤ old.size) (new : Bytes) (start : Nat)
    (low high : Nat) :
    (narrow suffixes old new start low high).1 ≤ new.size - start ∧
      (narrow suffixes old new start low high).2 ≤ old.size := by
  have hlength : ∀ p, Bytes.matchLengthFrom old p new start 0 ≤ new.size - start := by
    intro p
    rw [Bytes.matchLengthFrom_eq]
    exact Bytes.matchLength_le old p new start
  fun_induction narrow suffixes old new start low high with
  | case1 low high hnear a b x y hlonger => exact ⟨hlength a, hsuffixes low⟩
  | case2 low high hnear a b x y hlonger => exact ⟨hlength b, hsuffixes high⟩
  | case3 low high hfar middle hbefore ih => exact ih
  | case4 low high hfar middle hbefore ih => exact ih

theorem search_le (hsuffixes : ∀ i : Nat, suffixes[i]! ≤ old.size) (new : Bytes) (start : Nat) :
    (search suffixes old new start).1 ≤ new.size - start ∧
      (search suffixes old new start).2 ≤ old.size := by
  rw [search]
  split
  · exact ⟨Nat.zero_le _, Nat.zero_le _⟩
  · exact narrow_le hsuffixes new start _ _

end Match

namespace BlockPatch

variable {suffixes : Array Nat} {old new : Bytes}

/-! ## Scanning -/

/-- The loop that counts the bytes that agree under an alignment, up to `stop`. -/
inductive Counts (old new : Bytes) (offset stop : Int) : Int → Int → Int → Prop
  | ends {counted score : Int} (h : ¬ counted < stop) :
      Counts old new offset stop counted score score
  | next {counted score result : Int} (h : counted < stop)
      (rest : Counts old new offset stop (counted + 1)
        (if sameAt old (counted + offset) new counted then score + 1 else score) result) :
      Counts old new offset stop counted score result

theorem countAgreeing_counts (old new : Bytes) (offset stop : Int) {fuel : Nat} {counted : Int}
    (score : Int) (hfuel : (stop - counted).toNat ≤ fuel) :
    Counts old new offset stop counted score
      (countAgreeing old new offset stop fuel counted score) := by
  induction fuel generalizing counted score with
  | zero => exact .ends (by omega)
  | succ fuel ih =>
    rw [countAgreeing]
    by_cases hmore : counted < stop
    · rw [if_pos hmore]
      exact .next hmore (ih _ (by omega))
    · rw [if_neg hmore]
      exact .ends hmore

theorem Counts.le {offset stop counted score result : Int}
    (h : Counts old new offset stop counted score result) : score ≤ result := by
  induction h with
  | ends => exact Int.le_refl _
  | next _ _ ih =>
    refine Int.le_trans ?_ ih
    split <;> omega

/-- What a round of the scan finds at its position. -/
inductive Looks (suffixes : Array Nat) (old new : Bytes) (offset : Int) (s : Scan) : Scan → Prop
  | found {length source : Nat} {score : Int}
      (search : Match.search suffixes old new s.position.toNat = (length, source))
      (counts : Counts old new offset (s.position + length) s.counted s.score score) :
      Looks suffixes old new offset s
        ⟨s.position, length, source, score, max s.counted (s.position + length)⟩

/-- A match that the current alignment explains as a whole, or leaves unexplained by a margin. -/
def Scan.StandsOut (s : Scan) : Prop :=
  (s.length = s.score ∧ s.length ≠ 0) ∨ s.score + matchMargin < s.length

/-- The scan behind a position without a match that stands out. -/
def Scan.passed (old new : Bytes) (offset : Int) (s : Scan) : Scan :=
  { s with
    position := s.position + 1
    score := if sameAt old (s.position + offset) new s.position then s.score - 1 else s.score }

/-- The loop that looks for the next match. -/
inductive Advances (suffixes : Array Nat) (old new : Bytes) (offset : Int) : Scan → Scan → Prop
  | ends {s : Scan} (h : ¬ s.position < new.size) : Advances suffixes old new offset s s
  | stops {s t : Scan} (h : s.position < new.size) (looks : Looks suffixes old new offset s t)
      (stands : t.StandsOut) : Advances suffixes old new offset s t
  | next {s t r : Scan} (h : s.position < new.size) (looks : Looks suffixes old new offset s t)
      (stands : ¬ t.StandsOut)
      (rest : Advances suffixes old new offset (t.passed old new offset) r) :
      Advances suffixes old new offset s r

theorem advance_succ (suffixes : Array Nat) (old : Bytes) (offset : Int) (rounds : Nat) {s : Scan}
    (h : s.position < new.size) :
    ∃ t, Looks suffixes old new offset s t ∧
      (t.StandsOut ∧ advance suffixes old new offset (rounds + 1) s = t ∨
        ¬ t.StandsOut ∧ advance suffixes old new offset (rounds + 1) s =
          advance suffixes old new offset rounds (t.passed old new offset)) := by
  rcases hfound : Match.search suffixes old new s.position.toNat with ⟨length, source⟩
  refine ⟨_, .found hfound (countAgreeing_counts old new offset _ _ (Nat.le_refl _)), ?_⟩
  rw [advance, if_pos h, hfound]
  dsimp only
  split
  · exact .inl ⟨‹_›, rfl⟩
  · exact .inr ⟨‹_›, rfl⟩

/-- With rounds left for all positions, the search for the next match ends by itself. -/
theorem advance_advances (suffixes : Array Nat) (old : Bytes) (offset : Int) {rounds : Nat}
    {s : Scan} (hrounds : new.size ≤ s.position + rounds) :
    Advances suffixes old new offset s (advance suffixes old new offset rounds s) := by
  induction rounds generalizing s with
  | zero => exact .ends (by omega)
  | succ rounds ih =>
    by_cases hmore : s.position < new.size
    · obtain ⟨t, hlooks, ⟨hstands, hadvance⟩ | ⟨hstands, hadvance⟩⟩ :=
        advance_succ suffixes old offset rounds hmore
      · rw [hadvance]
        exact .stops hmore hlooks hstands
      · rw [hadvance]
        refine .next hmore hlooks hstands (ih ?_)
        obtain @⟨length, source, score, hsearch, hcounts⟩ := hlooks
        dsimp only [Scan.passed]
        omega
    · rw [advance, if_neg hmore]
      exact .ends hmore

/-- A scan stands within the new data, and its match begins within the old data. -/
structure Scan.Within (old new : Bytes) (s : Scan) : Prop where
  position_nonneg : 0 ≤ s.position
  position_le : s.position ≤ new.size
  length_nonneg : 0 ≤ s.length
  source_nonneg : 0 ≤ s.source
  source_le : s.source ≤ old.size

theorem Scan.Within.passed {s : Scan} (h : s.Within old new) (hmore : s.position < new.size)
    (offset : Int) : (s.passed old new offset).Within old new := by
  obtain ⟨hposition, -, hlength, hsource, hsource'⟩ := h
  refine ⟨?_, ?_, hlength, hsource, hsource'⟩
  · exact Int.le_trans hposition (Int.le_add_of_nonneg_right (by decide))
  · exact hmore

/-- Where the round behind a scan begins. -/
theorem Scan.Within.next {s : Scan} (h : s.Within old new) :
    Scan.Within old new ⟨s.position, s.length, s.source, 0, s.position⟩ := by
  obtain ⟨hposition, hposition', hlength, hsource, hsource'⟩ := h
  exact ⟨hposition, hposition', hlength, hsource, hsource'⟩

/-- The round goes on behind the match found last. -/
theorem Scan.Within.start {position length source : Int}
    (hs : Scan.Within old new ⟨position, length, source, 0, position⟩)
    (hlength : position < new.size → position + length ≤ new.size) (hmore : position < new.size) :
    Scan.Within old new ⟨position + length, length, source, 0, position + length⟩ := by
  obtain ⟨hposition, -, hlong, hsource, hsource'⟩ := hs
  exact ⟨Int.add_nonneg hposition hlong, hlength hmore, hlong, hsource, hsource'⟩

/-- One round stays in place and within both strings. With nothing agreeing so far, an empty match
does not stand out. -/
theorem Looks.within (hsuffixes : ∀ i : Nat, suffixes[i]! ≤ old.size) {offset : Int} {s t : Scan}
    (hs : s.Within old new) (h : Looks suffixes old new offset s t) :
    t.Within old new ∧ t.position = s.position ∧ t.position + t.length ≤ new.size ∧
      (0 ≤ s.score → t.StandsOut → 0 < t.length) := by
  obtain @⟨length, source, score, hsearch, hcounts⟩ := h
  have hposition := hs.position_nonneg
  have hposition' := hs.position_le
  have hle := hcounts.le
  have hbounds := Match.search_le hsuffixes new s.position.toNat
  have hmargin : matchMargin = 8 := rfl
  rw [hsearch] at hbounds
  dsimp only at hbounds
  refine ⟨?_, rfl, by dsimp only; omega, fun hscore hstands => ?_⟩
  · constructor <;> dsimp only <;> omega
  · dsimp only [Scan.StandsOut] at hstands ⊢
    omega

/-- **Where the scan stops**: at a match that stands out and lies within the new data, or behind the
new data, where the match is one from before. -/
theorem Advances.within (hsuffixes : ∀ i : Nat, suffixes[i]! ≤ old.size) {offset : Int}
    {s r : Scan} (h : Advances suffixes old new offset s r) (hs : s.Within old new) :
    r.Within old new ∧ s.position ≤ r.position ∧
      (r.position < new.size → r.position + r.length ≤ new.size ∧
        (0 ≤ s.score → r.position = s.position → 0 < r.length)) := by
  induction h with
  | ends hdone => exact ⟨hs, Int.le_refl _, fun hmore => absurd hmore hdone⟩
  | stops hmore hlooks hstands =>
    obtain ⟨hwithin, hplace, hmatch, hlong⟩ := hlooks.within hsuffixes hs
    refine ⟨hwithin, Int.le_of_eq hplace.symm, fun _ => ⟨hmatch, fun hscore _ => ?_⟩⟩
    exact hlong hscore hstands
  | @next s t r hmore hlooks hstands _ ih =>
    obtain ⟨hwithin, hplace, hmatch, -⟩ := hlooks.within hsuffixes hs
    -- the scan never comes back to this position
    obtain ⟨hr, hle, hrest⟩ := ih (hwithin.passed (hplace.symm ▸ hmore) offset)
    dsimp only [Scan.passed] at hle
    exact ⟨hr, by omega, fun hmore => ⟨(hrest hmore).1, fun _ _ => by omega⟩⟩

/-- The loop that goes through the new data, from a position where the last match found had the
given length and source. -/
inductive Scans (suffixes : Array Nat) (old new : Bytes) :
    Int → Int → Int → Anchor → Output → Output → Prop
  | ends {position length source : Int} {a : Anchor} {out : Output} (h : ¬ position < new.size) :
      Scans suffixes old new position length source a out out
  | goesOn {position length source : Int} {a : Anchor} {out result : Output} {s : Scan}
      (h : position < new.size)
      (advances : Advances suffixes old new a.offset
        ⟨position + length, length, source, 0, position + length⟩ s)
      (explained : s.length = s.score ∧ s.position ≠ new.size)
      (rest : Scans suffixes old new s.position s.length s.source a out result) :
      Scans suffixes old new position length source a out result
  | emits {position length source : Int} {a : Anchor} {out result : Output} {s : Scan}
      (h : position < new.size)
      (advances : Advances suffixes old new a.offset
        ⟨position + length, length, source, 0, position + length⟩ s)
      (explained : ¬ (s.length = s.score ∧ s.position ≠ new.size))
      (rest : Scans suffixes old new s.position s.length s.source (emitRun old new a s out).1
        (emitRun old new a s out).2 result) :
      Scans suffixes old new position length source a out result

/-- **The scan comes to the end of the new data**: every round leaves its position, or finds a match
there that the next round leaves behind. -/
theorem scanFrom_scans (hsuffixes : ∀ i : Nat, suffixes[i]! ≤ old.size) {fuel : Nat}
    {position length source : Int} {a : Anchor} {out : Output}
    (hs : Scan.Within old new ⟨position, length, source, 0, position⟩)
    (hlength : position < new.size → position + length ≤ new.size)
    (hfuel : 2 * (new.size - position) ≤ fuel + if 0 < length then 1 else 0) :
    Scans suffixes old new position length source a out
      (scanFrom suffixes old new fuel position length source a out) := by
  induction fuel generalizing position length source a out with
  | zero => exact .ends (by split at hfuel <;> omega)
  | succ fuel ih =>
    rw [scanFrom]
    by_cases hmore : position < new.size
    · have hstart := hs.start hlength hmore
      have hfirst := hstart.position_nonneg
      have hrounds : new.size ≤ position + length + ↑(new.size - (position + length).toNat) := by
        dsimp only at hfirst
        omega
      have hadvances : Advances suffixes old new a.offset
          ⟨position + length, length, source, 0, position + length⟩ _ :=
        advance_advances suffixes old a.offset hrounds
      rw [if_pos hmore]
      dsimp only at hfirst ⊢
      generalize advance suffixes old new a.offset _ _ = r at hadvances ⊢
      obtain ⟨hwithin, hfrom, hmatch⟩ := hadvances.within hsuffixes hstart
      dsimp only at hfrom hmatch
      have hlong := hs.length_nonneg
      dsimp only at hlong
      -- the round after this one has less to do
      have hless : 2 * (new.size - r.position) ≤ fuel + if 0 < r.length then 1 else 0 := by
        by_cases hdone : r.position < new.size
        · have hgain := (hmatch hdone).2 (Int.le_refl 0)
          split_ifs at hfuel ⊢ <;> omega
        · split <;> omega
      split
      · rename_i hexplained
        exact .goesOn hmore hadvances hexplained
          (ih hwithin.next (fun h => (hmatch h).1) hless)
      · rename_i hexplained
        exact .emits hmore hadvances hexplained
          (ih hwithin.next (fun h => (hmatch h).1) hless)
    · rw [if_neg hmore]
      exact .ends hmore

/-! ## Extending matches -/

/-- The best length of an extension is one that was looked at. -/
def Extension.Within (e : Extension) (i : Int) : Prop := 0 ≤ e.bestLength ∧ e.bestLength ≤ i

theorem Extension.bestLength_take (e : Extension) (same : Bool) (i : Int) :
    (e.take same i).bestLength = i ∨ (e.take same i).bestLength = e.bestLength := by
  unfold Extension.take
  dsimp only
  generalize (if same = true then e.agree + 1 else e.agree) = agree
  split
  · exact .inl rfl
  · exact .inr rfl

theorem Extension.Within.take {e : Extension} {i : Int} (h : e.Within i) (same : Bool) :
    (e.take same (i + 1)).Within (i + 1) := by
  obtain ⟨hlow, hhigh⟩ := h
  unfold Extension.Within
  rcases e.bestLength_take same (i + 1) with htake | htake <;> omega

theorem extendForward_le (old new : Bytes) (source position : Int) (room : Nat) {i : Int}
    {e : Extension} (h : e.Within i) :
    0 ≤ extendForward old new source position room i e ∧
      extendForward old new source position room i e ≤ i + room := by
  induction room generalizing i e with
  | zero =>
    rw [extendForward]
    exact ⟨h.1, by have := h.2; omega⟩
  | succ room ih =>
    have := ih (h.take (sameAt old (source + i) new (position + i)))
    rw [extendForward]
    omega

theorem extendBackward_le (old new : Bytes) (source position : Int) (room : Nat) {i : Int}
    {e : Extension} (h : e.Within i) :
    0 ≤ extendBackward old new source position room i e ∧
      extendBackward old new source position room i e ≤ i + room := by
  induction room generalizing i e with
  | zero =>
    rw [extendBackward]
    exact ⟨h.1, by have := h.2; omega⟩
  | succ room ih =>
    have := ih (h.take (sameAt old (source - (i + 1)) new (position - (i + 1))))
    rw [extendBackward]
    omega

theorem splitOverlap_le (old new : Bytes) (front back position : Int) (n : Nat)
    (i balance best split : Int) (h : 0 ≤ split ∧ split ≤ i) :
    0 ≤ splitOverlap old new front back position n i balance best split ∧
      splitOverlap old new front back position n i balance best split ≤ i + n := by
  induction n generalizing i balance best split with
  | zero =>
    rw [splitOverlap]
    omega
  | succ n ih =>
    have hnext : ∀ {balance best split : Int}, 0 ≤ split ∧ split ≤ i + 1 →
        0 ≤ splitOverlap old new front back position n (i + 1) balance best split ∧
          splitOverlap old new front back position n (i + 1) balance best split ≤ i + ↑(n + 1) := by
      intro balance best split hsplit
      have := ih (i + 1) balance best split hsplit
      omega
    rw [splitOverlap]
    split_ifs <;> exact hnext (by omega)

/-! ## Triples -/

/-- **What the triples emitted so far rebuild**: the new data up to a position. They leave the old
position within the old data. -/
inductive Rebuilds (old new : Bytes) : Output → (position source : Nat) → Prop
  | start : Rebuilds old new ⟨[], ByteArray.empty, ByteArray.empty⟩ 0 0
  /-- One more triple: `add` bytes aligned with old ones, `copy` bytes beside them. -/
  | run {out : Output} {position source : Nat} (add copy next : Nat)
      (before : Rebuilds old new out position source)
      (within_new : position + add + copy ≤ new.size) (within_old : source + add ≤ old.size)
      (next_le : next ≤ old.size) :
      Rebuilds old new
        { controls := ⟨add, copy, next - (source + add)⟩ :: out.controls
          diff := diffBytes old new source position add 0 out.diff
          extra := out.extra ++ new.extract (position + add) (position + add + copy) }
        (position + add + copy) next

theorem Rebuilds.source_le {out : Output} {p q : Nat} (h : Rebuilds old new out p q) :
    q ≤ old.size := by
  cases h with
  | start => exact Nat.zero_le _
  | run _ _ _ _ _ _ hnext => exact hnext

/-- The triple between the previous run and a match: it adds `front` bytes behind the one, copies
what lies between, and leaves `back` bytes before the other to the next triple. -/
theorem emitRun_cases (a : Anchor) (s : Scan) (out : Output) (ha : a.position ≤ s.position)
    (hsource : a.source ≤ old.size) (hs : s.Within old new) :
    ∃ front back : Nat, front + back ≤ s.position - a.position ∧ front ≤ old.size - a.source ∧
      back ≤ s.source ∧ (s.position = new.size → back = 0) ∧
      emitRun old new a s out =
        (⟨s.position - back, s.source - back, s.source - s.position⟩,
          { controls := ⟨front, (s.position - back) - (a.position + front),
              (s.source - back) - (a.source + front)⟩ :: out.controls
            diff := diffBytes old new a.source a.position front 0 out.diff
            extra := out.extra ++
              new.extract (a.position + front).toNat (s.position - back).toNat }) := by
  have hposition := hs.position_le
  have hnonneg := hs.source_nonneg
  have hnone : Extension.Within ⟨0, 0, 0⟩ 0 := ⟨Int.le_refl _, Int.le_refl _⟩
  unfold emitRun
  dsimp only
  -- the bytes that agree behind the previous run
  have hfront := extendForward_le old new a.source a.position
    (min (s.position - a.position) (old.size - a.source)).toNat hnone
  generalize extendForward old new a.source a.position _ 0 ⟨0, 0, 0⟩ = front at hfront ⊢
  -- the bytes that agree before the match, of which there is none behind the last position
  generalize hchoice : (if s.position < new.size then
    extendBackward old new s.source s.position _ 0 ⟨0, 0, 0⟩ else 0) = back
  have hback : 0 ≤ back ∧ back ≤ min (s.position - a.position) s.source ∧
      (s.position = new.size → back = 0) := by
    have := extendBackward_le old new s.source s.position
      (min (s.position - a.position) s.source).toNat hnone
    split at hchoice <;> omega
  by_cases hoverlap : 0 < a.position + front - (s.position - back)
  · -- where they overlap, every byte goes to one of them
    have hsplit := splitOverlap_le old new
      (a.source + front - (a.position + front - (s.position - back))) (s.source - back)
      (s.position - back) (a.position + front - (s.position - back)).toNat 0 0 0 0
      ⟨Int.le_refl _, Int.le_refl _⟩
    simp only [if_pos hoverlap]
    generalize splitOverlap old new _ _ _ _ 0 0 0 0 = split at hsplit ⊢
    obtain ⟨f, hf⟩ := Int.eq_ofNat_of_zero_le
      (a := front + split - (a.position + front - (s.position - back))) (by omega)
    obtain ⟨b, hb⟩ := Int.eq_ofNat_of_zero_le (a := back - split) (by omega)
    rw [hf, hb, Int.toNat_natCast]
    exact ⟨f, b, by omega, by omega, by omega, by omega, rfl⟩
  · simp only [if_neg hoverlap]
    obtain ⟨f, rfl⟩ := Int.eq_ofNat_of_zero_le hfront.1
    obtain ⟨b, rfl⟩ := Int.eq_ofNat_of_zero_le hback.1
    rw [Int.toNat_natCast]
    exact ⟨f, b, by omega, by omega, by omega, by omega, rfl⟩

/-- **One triple**: what it adds and copies goes on where the triples before it ended, and ends
where the next triple goes on. The last one ends with the new data. -/
theorem emitRun_rebuilds {a : Anchor} {s : Scan} {out out' : Output} {p q : Nat}
    (h : Rebuilds old new out p q) (hposition : a.position = p) (hsource : a.source = q)
    (hs : s.Within old new) (hle : p ≤ s.position) {a' : Anchor}
    (hrun : emitRun old new a s out = (a', out')) :
    ∃ p' q' : Nat, Rebuilds old new out' p' q' ∧ a'.position = p' ∧ a'.source = q' ∧
      p' ≤ s.position ∧ (s.position = new.size → p' = new.size) := by
  have hq := h.source_le
  obtain ⟨front, back, hmiddle, hold, hback, hend, hcase⟩ :=
    emitRun_cases a s out (by omega) (by omega) hs
  have hsource_le := hs.source_le
  have hposition_le := hs.position_le
  obtain ⟨rfl, rfl⟩ := Prod.mk.inj (hrun.symm.trans hcase)
  obtain ⟨copy, hcopy⟩ := Int.eq_ofNat_of_zero_le
    (a := (s.position - back) - (a.position + front)) (by omega)
  obtain ⟨next, hnext⟩ := Int.eq_ofNat_of_zero_le (a := s.source - back) (by omega)
  have hstart : (a.position + front).toNat = p + front := by omega
  have hstop : (s.position - back).toNat = p + front + copy := by omega
  refine ⟨p + front + copy, next, ?_, by dsimp only; omega, hnext, by omega, by omega⟩
  rw [hcopy, hstart, hstop, hnext, hsource, hposition]
  exact h.run front copy next (by omega) (by omega) (by omega)

/-! ## The whole scan -/

/-- **A scan that comes to the end** has emitted triples that account for all of the new data. -/
theorem Scans.rebuilds (hsuffixes : ∀ i : Nat, suffixes[i]! ≤ old.size)
    {position length source : Int} {a : Anchor} {out result : Output}
    (h : Scans suffixes old new position length source a out result) {p q : Nat}
    (hrebuilds : Rebuilds old new out p q) (hposition : a.position = p) (hsource : a.source = q)
    (hle : p ≤ position) (hs : Scan.Within old new ⟨position, length, source, 0, position⟩)
    (hlength : position < new.size → position + length ≤ new.size)
    (hend : position = new.size → p = new.size) : ∃ q', Rebuilds old new result new.size q' := by
  induction h generalizing p q with
  | @ends position length source a out hdone =>
    have hposition_le := hs.position_le
    dsimp only at hposition_le
    exact ⟨q, hend (by omega) ▸ hrebuilds⟩
  | goesOn hmore hadvances hexplained _ ih =>
    obtain ⟨hwithin, hfrom, hmatch⟩ := hadvances.within hsuffixes (hs.start hlength hmore)
    have hlong := hs.length_nonneg
    dsimp only at hfrom hlong
    exact ih hrebuilds hposition hsource (by omega) hwithin.next
      (fun hdone => (hmatch hdone).1) (fun hdone => absurd hdone hexplained.2)
  | emits hmore hadvances _ _ ih =>
    obtain ⟨hwithin, hfrom, hmatch⟩ := hadvances.within hsuffixes (hs.start hlength hmore)
    have hlong := hs.length_nonneg
    dsimp only at hfrom hlong
    obtain ⟨p', q', hrebuilds', hposition', hsource', hle', hend'⟩ :=
      emitRun_rebuilds hrebuilds hposition hsource hwithin (by omega) rfl
    exact ih hrebuilds' hposition' hsource' hle' hwithin.next
      (fun hdone => (hmatch hdone).1) hend'

theorem within_start (old new : Bytes) : Scan.Within old new ⟨0, 0, 0, 0, 0⟩ := by
  constructor <;> dsimp only <;> omega

/-- The triples of a pair of strings are those of a scan that comes to the end. -/
theorem controls_scans (old new : Bytes) :
    ∃ out, Scans (SuffixArray.build old) old new 0 0 0 ⟨0, 0, 0⟩
        ⟨[], ByteArray.empty, ByteArray.empty⟩ out ∧
      controls old new = { out with controls := out.controls.reverse } := by
  have hfuel : 2 * ((new.size : Int) - 0) ≤
      ↑(2 * new.size + 2) + if (0 : Int) < 0 then 1 else 0 := by
    split <;> omega
  exact ⟨_, scanFrom_scans (SuffixArray.getElem!_build_le old) (within_start old new)
    (fun h => by omega) hfuel, rfl⟩

/-- **All triples of a pair of strings account for all of the new one.** -/
theorem controls_rebuilds (old new : Bytes) :
    ∃ out q, Rebuilds old new out new.size q ∧
      controls old new = { out with controls := out.controls.reverse } := by
  obtain ⟨out, hscans, hcontrols⟩ := controls_scans old new
  obtain ⟨q, h⟩ := hscans.rebuilds (SuffixArray.getElem!_build_le old) .start rfl rfl
    (Int.le_refl 0) (within_start old new) (by omega) (by omega)
  exact ⟨out, q, h, hcontrols⟩

end BlockPatch

end BlockUpdate
