import BlockUpdate.Patch.Emission
import BlockUpdate.Proofs.ByteStrings

/-!
# How outputs end

- **`Emit.Emits`**: a computation ends in a value and hands over exactly the given bytes, in
  whatever pieces. The pieces of a sequence are those of its parts, so that what a loop hands over
  is found by one rule for each of its steps.
- **`Emit.FailsWithin`**: a computation ends in an error after at most the given number of bytes.
- **`Emits.outcome`**, **`Emits.bytes`**, **`FailsWithin.emission`**: the same of a whole emission.
-/

namespace BlockUpdate

namespace Emit

variable {α β : Type} {x : Emit α} {f : α → Emit β} {a : α} {b : β} {data more : Bytes}

/-- A computation ends in `a`, and hands over `data` behind whatever was handed over before. -/
def Emits (x : Emit α) (a : α) (data : Bytes) : Prop :=
  ∀ before, ∃ pieces : List Bytes,
    BlockUpdate.outcome x before = (.ok a, before ++ pieces.toArray) ∧ Bytes.join pieces = data

namespace Emits

theorem pure (a : α) : Emits (Pure.pure a) a ByteArray.empty :=
  fun before => ⟨[], by simp, rfl⟩

theorem emit (piece : Bytes) : Emits (emit piece) () piece := by
  intro before
  refine ⟨[piece], ?_, ?_⟩
  · rw [BlockUpdate.emit, outcome_modify]
    simp
  · rw [Bytes.join_cons, Bytes.join_nil, ByteArray.append_empty]

theorem ofExcept {step : Except PatchError α} (h : step = .ok a) :
    Emits (ofExcept step) a ByteArray.empty := by
  subst h
  exact pure a

/-- The parts of a sequence hand over one behind the other. -/
theorem bind (hx : Emits x a data) (hf : Emits (f a) b more) :
    Emits (x >>= f) b (data ++ more) := by
  intro before
  obtain ⟨pieces, hrun, hdata⟩ := hx before
  obtain ⟨pieces', hrun', hmore⟩ := hf (before ++ pieces.toArray)
  refine ⟨pieces ++ pieces', ?_, ?_⟩
  · rw [outcome_bind_of_ok hrun, hrun']
    simp
  · rw [Bytes.join_append, hdata, hmore]

/-- A first part that hands over nothing. -/
theorem bind_quiet (hx : Emits x a ByteArray.empty) (hf : Emits (f a) b data) :
    Emits (x >>= f) b data := by
  have := bind hx hf
  rwa [ByteArray.empty_append] at this

/-- A last part that hands over nothing. -/
theorem bind_pure (hx : Emits x a data) (hf : Emits (f a) b ByteArray.empty) :
    Emits (x >>= f) b data := by
  have := bind hx hf
  rwa [ByteArray.append_empty] at this

theorem ofExcept_bind {step : Except PatchError α} (hstep : step = .ok a)
    (hf : Emits (f a) b data) : Emits (Emit.ofExcept step >>= f) b data :=
  (ofExcept hstep).bind_quiet hf

/-! ## Whole emissions -/

theorem outcome (h : Emits x a data) : x.emission.outcome = .ok a := by
  obtain ⟨pieces, hrun, -⟩ := h #[]
  exact congrArg Prod.fst hrun

theorem bytes (h : Emits x a data) : x.emission.bytes = data := by
  obtain ⟨pieces, hrun, hdata⟩ := h #[]
  have hpieces : x.emission.pieces = pieces := by
    have : x.emission.pieces = (BlockUpdate.outcome x #[]).2.toList := rfl
    rw [this, hrun]
    simp
  rw [Emission.bytes, hpieces, hdata]

end Emits

/-- A computation ends in an error, after it handed over at most `n` bytes. -/
def FailsWithin (x : Emit α) (n : Nat) : Prop :=
  ∀ before, ∃ e, ∃ pieces : List Bytes,
    BlockUpdate.outcome x before = (.error e, before ++ pieces.toArray) ∧
      (Bytes.join pieces).size ≤ n

namespace FailsWithin

variable {m n : Nat}

theorem throw (e : PatchError) (n : Nat) : FailsWithin (throw e : Emit α) n :=
  fun before => ⟨e, [], by simp, Nat.zero_le n⟩

theorem mono (hx : FailsWithin x m) (h : m ≤ n) : FailsWithin x n := by
  intro before
  obtain ⟨e, pieces, hrun, hsize⟩ := hx before
  exact ⟨e, pieces, hrun, Nat.le_trans hsize h⟩

/-- The first part of a sequence fails. -/
theorem bind (hx : FailsWithin x n) : FailsWithin (x >>= f) n := by
  intro before
  obtain ⟨e, pieces, hrun, hsize⟩ := hx before
  exact ⟨e, pieces, outcome_bind_of_error hrun f, hsize⟩

/-- The second part of a sequence fails. -/
theorem emits_bind (hx : Emits x a data) (hf : FailsWithin (f a) m) (h : data.size + m ≤ n) :
    FailsWithin (x >>= f) n := by
  intro before
  obtain ⟨pieces, hrun, rfl⟩ := hx before
  obtain ⟨e, pieces', hrun', hsize⟩ := hf (before ++ pieces.toArray)
  refine ⟨e, pieces ++ pieces', ?_, ?_⟩
  · rw [outcome_bind_of_ok hrun, hrun']
    simp
  · rw [Bytes.join_append, ByteArray.size_append]
    omega

theorem emission (h : FailsWithin x n) :
    (∃ e, x.emission.outcome = .error e) ∧ x.emission.bytes.size ≤ n := by
  obtain ⟨e, pieces, hrun, hsize⟩ := h #[]
  have hpieces : x.emission.pieces = pieces := by
    have : x.emission.pieces = (BlockUpdate.outcome x #[]).2.toList := rfl
    rw [this, hrun]
    simp
  rw [Emission.bytes, hpieces]
  exact ⟨⟨e, congrArg Prod.fst hrun⟩, hsize⟩

end FailsWithin

end Emit

end BlockUpdate
