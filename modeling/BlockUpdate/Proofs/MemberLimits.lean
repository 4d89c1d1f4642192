import BlockUpdate.Patch.Member
import BlockUpdate.Proofs.ByteStrings
import BlockUpdate.Proofs.Outcome
import BlockUpdate.Standard

/-!
# Members and their sizes

Whoever makes a patch expands a member as far as it goes and notes the size of what came out.
Whoever applies the patch knows that size and stops early: one byte past it in a stream, behind the
block that crosses it in the legacy framing. The checks at the end of a member, and errors late in
it, are then reached by one of the two and not by the other.

- **`Member.bounded_eq_gather`**: a stream read up to a limit, by the single reads. However the
  stream comes in pieces, the result is the same.
- `Member.legacyRecords_more`: the fuel of the legacy framing covers every record.
- `Member.Limited`: an expansion that a limit only cuts off. **`Member.Limited.exactly_eq_ok`** and
  **`Member.Limited.exactly_mismatch`** compare it with the expansion to a given size.
- `Member.limited_bounded`, `Member.limited_legacyRecords`: the two ways of expanding are limited.
- `Member.Container.expandExact_of_expand`: what expands without a limit expands to its size.
- **`Member.Container.expandExact_iff`**: with any container, a member expands to a given size
  exactly when it expands without a limit and has that size; a member of another size is told by
  its size.
-/

namespace BlockUpdate

namespace Member

variable {P : Primitives}

/-! ## Reading a stream -/

/-- Takes the pieces of a stream as they arrive, `left` bytes at most if a number is given. Once
nothing is left to take, the stream is not asked any more, so that an error behind that is not
met. -/
def gather (failed : Bool) : Option Nat → List Bytes → Bytes → Except Unit Bytes
  | none, [], out => if failed then .error () else .ok out
  | none, piece :: rest, out => gather failed none rest (out ++ piece)
  | some 0, _, out => .ok out
  | some (_ + 1), [], out => if failed then .error () else .ok out
  | some (left + 1), piece :: rest, out =>
    gather failed (some (left + 1 - piece.size)) rest (out ++ piece.takeFirst (left + 1))

/-- Requires that a limit was kept. -/
def withinLimit (limit : Option Nat) (data : Bytes) : Except PatchError Bytes :=
  match limit with
  | some n => if n < data.size then .error (.sizeMismatch n data.size) else .ok data
  | none => .ok data

theorem eq_of_withinLimit {limit : Option Nat} {data data' : Bytes}
    (h : withinLimit limit data = .ok data') : data' = data := by
  cases limit with
  | none =>
    cases h
    rfl
  | some n =>
    rw [withinLimit] at h
    split at h <;> cases h
    rfl

theorem gather_unlimited (failed : Bool) (pieces : List Bytes) (out : Bytes) :
    gather failed none pieces out =
      if failed then .error () else .ok (out ++ Bytes.join pieces) := by
  induction pieces generalizing out with
  | nil => rw [gather, Bytes.join_nil, ByteArray.append_empty]
  | cons piece rest ih => rw [gather, ih, Bytes.join_cons, ByteArray.append_assoc]

/-- A stream that is long enough gives what is asked for, whether or not an error follows. -/
theorem gather_full (failed : Bool) {left : Nat} {pieces : List Bytes}
    (h : left ≤ (Bytes.join pieces).size) (out : Bytes) :
    gather failed (some left) pieces out = .ok (out ++ (Bytes.join pieces).takeFirst left) := by
  induction pieces generalizing left out with
  | nil =>
    obtain rfl : left = 0 := Nat.le_zero.mp h
    rw [gather, Bytes.takeFirst_zero, ByteArray.append_empty]
  | cons piece rest ih =>
    cases left with
    | zero => rw [gather, Bytes.takeFirst_zero, ByteArray.append_empty]
    | succ left =>
      rw [Bytes.join_cons] at h ⊢
      rw [ByteArray.size_append] at h
      rw [gather, ih (by omega), ByteArray.append_assoc]
      congr 2
      rcases Nat.le_total piece.size (left + 1) with hle | hle
      · rw [Bytes.takeFirst_of_size_le hle, Bytes.takeFirst_append_of_le hle]
      · rw [Nat.sub_eq_zero_of_le hle, Bytes.takeFirst_zero, ByteArray.append_empty,
          Bytes.takeFirst_append_of_ge hle]

/-- A stream that is too short is read to its end. -/
theorem gather_short (failed : Bool) {left : Nat} {pieces : List Bytes}
    (h : (Bytes.join pieces).size < left) (out : Bytes) :
    gather failed (some left) pieces out = gather failed none pieces out := by
  induction pieces generalizing left out with
  | nil =>
    cases left with
    | zero => exact absurd h (Nat.not_lt_zero _)
    | succ left => rw [gather, gather]
  | cons piece rest ih =>
    cases left with
    | zero => exact absurd h (Nat.not_lt_zero _)
    | succ left =>
      rw [Bytes.join_cons, ByteArray.size_append] at h
      rw [gather, gather, ih (by omega), Bytes.takeFirst_of_size_le (by omega)]

/-- **A stream read up to a limit**: one byte more is asked for than the limit allows, and however
the stream comes in pieces, the result is the same. -/
theorem bounded_eq_gather (stage : CodecStage) (limit : Option Nat) (pieces : List Bytes)
    (failed : Bool) :
    bounded stage limit ⟨Bytes.join pieces, failed⟩ =
      ((gather failed (limit.map (· + 1)) pieces ByteArray.empty).mapError
        (fun _ => .codec stage) >>= withinLimit limit) := by
  cases limit with
  | none =>
    rw [Option.map_none, gather_unlimited, ByteArray.empty_append]
    cases failed <;> rfl
  | some n =>
    rw [Option.map_some]
    by_cases hlong : n < (Bytes.join pieces).size
    · have hsize : ((Bytes.join pieces).takeFirst (n + 1)).size = n + 1 := by
        rw [Bytes.size_takeFirst]
        omega
      rw [bounded, if_pos hlong, gather_full failed hlong, ByteArray.empty_append]
      change _ = withinLimit (some n) _
      rw [withinLimit, hsize, if_pos (Nat.lt_succ_self n)]
    · rw [bounded, if_neg hlong, gather_short failed (by omega), gather_unlimited,
        ByteArray.empty_append]
      cases failed with
      | true => rfl
      | false => exact (if_neg hlong).symm

/-! ## The records of the legacy framing -/

/-- The contents of the next record, and the cursor behind it. -/
def nextPiece (P : Primitives) (c : Cursor) : Except PatchError (Bytes × Cursor) := do
  let (size, c) ← c.unsigned 4
  let (block, c) ← c.bytes size
  let some piece := P.unlz4Block legacyBlock block
    | throw (.codec .lz4LegacyBlock)
  return (piece, c)

/-- One record: it is read, and the limit is looked at behind it. -/
theorem legacyRecords_succ (limit : Option Nat) (fuel : Nat) (c : Cursor) (out : Bytes) :
    legacyRecords P limit (fuel + 1) c out =
      if c.atEnd then .ok out
      else nextPiece P c >>= fun next =>
        withinLimit limit (out ++ next.1) >>= legacyRecords P limit fuel next.2 := by
  rw [legacyRecords]
  by_cases hend : c.atEnd = true
  · rw [if_pos hend, if_pos hend]
    rfl
  · rw [if_neg hend, if_neg hend, nextPiece]
    cases hsize : c.unsigned 4 with
    | error e => rfl
    | ok sized =>
      cases hblock : sized.2.bytes sized.1 with
      | error e => simp only [hblock, bind, Except.bind]
      | ok block =>
        cases hpiece : P.unlz4Block legacyBlock block.1 with
        | none =>
          simp only [hblock, hpiece, bind, Except.bind, throw, throwThe, MonadExceptOf.throw]
        | some piece =>
          simp only [hblock, hpiece, bind, Except.bind, pure, Except.pure, withinLimit]
          cases limit with
          | none => rfl
          | some n =>
            dsimp only
            split <;> rfl

/-- Every record holds at least its size. -/
theorem position_nextPiece {c c' : Cursor} {piece : Bytes} (h : nextPiece P c = .ok (piece, c')) :
    c'.data = c.data ∧ c.position + 4 ≤ c'.position := by
  obtain ⟨⟨size, c₁⟩, hsize, h⟩ := except_bind_eq_ok.mp h
  obtain ⟨⟨block, c₂⟩, hblock, h⟩ := except_bind_eq_ok.mp h
  obtain ⟨⟨w, c₁'⟩, hw, hc₁⟩ := except_bind_eq_ok.mp hsize
  obtain ⟨w', -, hc₁'⟩ := except_bind_eq_ok.mp hw
  obtain ⟨w₂, -, hc₂⟩ := except_bind_eq_ok.mp hblock
  cases hc₁'
  cases hc₁
  cases hc₂
  dsimp only at h
  split at h
  · cases h
    exact ⟨rfl, Nat.le_add_right _ _⟩
  · cases h

/-- So fuel for each byte that is left covers every record. -/
theorem legacyRecords_more {limit : Option Nat} {fuel : Nat} {c : Cursor}
    (h : c.data.size < c.position + fuel) (more : Nat) (out : Bytes) :
    legacyRecords P limit (fuel + more) c out = legacyRecords P limit fuel c out := by
  induction fuel generalizing c out with
  | zero =>
    cases more with
    | zero => rfl
    | succ more =>
      have hend : c.atEnd = true := decide_eq_true (by omega)
      rw [Nat.zero_add, legacyRecords_succ, if_pos hend, legacyRecords]
  | succ fuel ih =>
    rw [Nat.add_right_comm, legacyRecords_succ, legacyRecords_succ]
    by_cases hend : c.atEnd = true
    · rw [if_pos hend, if_pos hend]
    · rw [if_neg hend, if_neg hend]
      cases hnext : nextPiece P c with
      | error e => rfl
      | ok next =>
        obtain ⟨hdata, hposition⟩ := position_nextPiece hnext
        change withinLimit limit (out ++ next.1) >>= _ = withinLimit limit (out ++ next.1) >>= _
        refine bind_congr fun out' => ih ?_ out'
        rw [hdata]
        omega

/-- The records only add to what was there. -/
theorem size_le_legacyRecords {limit : Option Nat} {fuel : Nat} {c : Cursor} {out data : Bytes}
    (h : legacyRecords P limit fuel c out = .ok data) : out.size ≤ data.size := by
  induction fuel generalizing c out with
  | zero =>
    cases h
    exact Nat.le_refl _
  | succ fuel ih =>
    rw [legacyRecords_succ] at h
    split at h
    · cases h
      exact Nat.le_refl _
    · obtain ⟨next, -, h⟩ := except_bind_eq_ok.mp h
      obtain ⟨out', hout', h⟩ := except_bind_eq_ok.mp h
      obtain rfl := eq_of_withinLimit hout'
      have hgrown := ih h
      rw [ByteArray.size_append] at hgrown
      omega

/-! ## Limited expansions -/

/-- What an expansion up to `n` bytes gives, next to the one without a limit: the same, or a
mismatch once more than `n` bytes are there. -/
inductive Limited (n : Nat) (whole : Except PatchError Bytes) : Except PatchError Bytes → Prop
  | whole (h : ∀ data, whole = .ok data → data.size ≤ n) : Limited n whole whole
  | cut (actual : Nat) (hlong : n < actual) (h : ∀ data, whole = .ok data → actual ≤ data.size) :
    Limited n whole (.error (.sizeMismatch n actual))

namespace Limited

variable {n : Nat} {whole limited : Except PatchError Bytes}

theorem error (e : PatchError) : Limited n (.error e) (.error e) :=
  .whole fun _ h => nomatch h

/-- What is read in front of both of them changes nothing. -/
theorem bind {α : Type} (x : Except PatchError α) {f g : α → Except PatchError Bytes}
    (h : ∀ a, x = .ok a → Limited n (f a) (g a)) : Limited n (x >>= f) (x >>= g) := by
  cases x with
  | error e => exact .error e
  | ok a => exact h a rfl

/-- **The expansion to a given size** succeeds exactly when the whole has that size. -/
theorem exactly_eq_ok (h : Limited n whole limited) {data : Bytes} :
    limited >>= exactly n = .ok data ↔ whole = .ok data ∧ data.size = n := by
  have hexact : ∀ {x : Except PatchError Bytes}, x >>= exactly n = .ok data ↔
      x = .ok data ∧ data.size = n := by
    intro x
    rw [except_bind_eq_ok]
    constructor
    · rintro ⟨data', rfl, h⟩
      rw [exactly] at h
      split at h
      · cases h
        exact ⟨rfl, ‹_›⟩
      · cases h
    · rintro ⟨rfl, hsize⟩
      exact ⟨data, rfl, if_pos hsize⟩
  cases h with
  | whole => exact hexact
  | cut actual hlong hwhole =>
    constructor
    · intro h
      cases h
    · rintro ⟨hdata, hsize⟩
      have := hwhole data hdata
      omega

/-- **A whole of another size** is told by its size, or by that of the part that is too long. -/
theorem exactly_mismatch (h : Limited n whole limited) {data : Bytes} (hdata : whole = .ok data)
    (hsize : data.size ≠ n) :
    ∃ actual, actual ≠ n ∧ actual ≤ data.size ∧
      limited >>= exactly n = .error (.sizeMismatch n actual) := by
  cases h with
  | whole =>
    refine ⟨data.size, hsize, Nat.le_refl _, ?_⟩
    rw [hdata]
    exact if_neg hsize
  | cut actual hlong hwhole => exact ⟨actual, by omega, hwhole data hdata, rfl⟩

end Limited

theorem limited_bounded (stage : CodecStage) (n : Nat) (d : Decoded) :
    Limited n (bounded stage none d) (bounded stage (some n) d) := by
  by_cases hlong : n < d.bytes.size
  · have hcut : bounded stage (some n) d = .error (.sizeMismatch n (n + 1)) := if_pos hlong
    rw [hcut]
    refine .cut _ (Nat.lt_succ_self n) fun data hdata => ?_
    rw [bounded] at hdata
    split at hdata <;> cases hdata
    exact hlong
  · have hwhole : bounded stage (some n) d = bounded stage none d := if_neg hlong
    rw [hwhole]
    refine .whole fun data hdata => ?_
    rw [bounded] at hdata
    split at hdata <;> cases hdata
    exact Nat.le_of_not_lt hlong

/-- The induction is on the records; while the limit holds, both expansions have put out the
same. -/
theorem limited_legacyRecords {n : Nat} (fuel : Nat) (c : Cursor) {out : Bytes}
    (hout : out.size ≤ n) :
    Limited n (legacyRecords P none fuel c out) (legacyRecords P (some n) fuel c out) := by
  induction fuel generalizing c out with
  | zero =>
    refine .whole fun data hdata => ?_
    cases hdata
    exact hout
  | succ fuel ih =>
    rw [legacyRecords_succ, legacyRecords_succ]
    by_cases hend : c.atEnd = true
    · rw [if_pos hend, if_pos hend]
      refine .whole fun data hdata => ?_
      cases hdata
      exact hout
    · rw [if_neg hend, if_neg hend]
      refine .bind _ fun next _ => ?_
      by_cases hlong : n < (out ++ next.1).size
      · have hcut : withinLimit (some n) (out ++ next.1) =
            .error (.sizeMismatch n (out ++ next.1).size) := if_pos hlong
        rw [hcut]
        exact .cut _ hlong fun data hdata => size_le_legacyRecords hdata
      · have hkept : withinLimit (some n) (out ++ next.1) = .ok (out ++ next.1) := if_neg hlong
        rw [hkept]
        exact ih next.2 (Nat.le_of_not_lt hlong)

theorem limited_unlz4Legacy (n : Nat) (data : Bytes) :
    Limited n (unlz4Legacy P data none) (unlz4Legacy P data (some n)) := by
  refine .bind _ fun magic _ => ?_
  dsimp only
  split
  · exact .error _
  · exact limited_legacyRecords _ _ (Nat.zero_le n)

/-! ## Members -/

/-- What holds the compressed data of a member. The parameters of an lz4 member select its
framing. -/
inductive Container
  | deflate (container : DeflateContainer)
  | lz4 (params : Lz4Params)

namespace Container

/-- The contents of a member, up to a limit if one is given. -/
def expand (P : Primitives) : Container → Bytes → Option Nat → Except PatchError Bytes
  | deflate container, data, limit => inflate P container data limit
  | lz4 params, data, limit => unlz4 P params data limit

/-- The contents of a member of known size. -/
def expandExact (P : Primitives) : Container → Bytes → Nat → Except PatchError Bytes
  | deflate container, data, size => inflateExact P container data size
  | lz4 params, data, size => unlz4Exact P params data size

theorem expandExact_eq (container : Container) (data : Bytes) (size : Nat) :
    container.expandExact P data size = container.expand P data (some size) >>= exactly size := by
  cases container <;> rfl

theorem limited_expand (container : Container) (data : Bytes) (n : Nat) :
    Limited n (container.expand P data none) (container.expand P data (some n)) := by
  cases container with
  | deflate container => exact limited_bounded _ n _
  | lz4 params =>
    rw [expand, expand, unlz4, unlz4]
    split
    · exact limited_unlz4Legacy n data
    · exact limited_bounded _ n _

/-- A member that expands without a limit expands to the size that it has. -/
theorem expandExact_of_expand (container : Container) {member data : Bytes}
    (h : container.expand P member none = .ok data) :
    container.expandExact P member data.size = .ok data := by
  rw [expandExact_eq]
  exact (limited_expand container member data.size).exactly_eq_ok.mpr ⟨h, rfl⟩

/-- **With any container**, a member expands to a given size exactly when it expands without a
limit and has that size; if it expands and has another size, the error says so. -/
theorem expandExact_iff (P : Primitives) (container : Container) (member : Bytes) (size : Nat) :
    (∀ data, container.expandExact P member size = .ok data ↔
      container.expand P member none = .ok data ∧ data.size = size) ∧
    (∀ data, container.expand P member none = .ok data → data.size ≠ size →
      ∃ actual, actual ≠ size ∧ actual ≤ data.size ∧
        container.expandExact P member size = .error (.sizeMismatch size actual)) := by
  have hlimited := limited_expand (P := P) container member size
  rw [expandExact_eq]
  exact ⟨fun data => hlimited.exactly_eq_ok, fun data => hlimited.exactly_mismatch⟩

/-- Two records of three bytes each. -/
def twoRecords : Bytes :=
  Bytes.ofList [0x02, 0x21, 0x4c, 0x18, 4, 0, 0, 0, 0x30, 97, 98, 99, 4, 0, 0, 0, 0x30, 97, 98, 99]

/-- They hold six bytes, and do not expand to two. -/
theorem expandExact_iff_twoRecords :
    (lz4 .legacy).expand .standard twoRecords none = .ok (Bytes.ofText "abcabc") ∧
      (Bytes.ofText "abcabc").size ≠ 2 ∧
      ∃ actual, actual ≠ 2 ∧ actual ≤ (Bytes.ofText "abcabc").size ∧
        (lz4 .legacy).expandExact .standard twoRecords 2 = .error (.sizeMismatch 2 actual) :=
  ⟨rfl, by decide, (expandExact_iff .standard (lz4 .legacy) twoRecords 2).2 _ rfl (by decide)⟩

end Container

end Member

end BlockUpdate
