import BlockUpdate.Proofs.PatchSemantics

/-!
# Generated triples are well formed

What a scan emits is read by an application, which runs triples in order from position zero of the
old data and takes their bytes off the front of two streams. This file says of generated triples
what an application expects: no run has a negative length, all of them together are as long as the
new data and as the streams, and no run that adds old bytes leaves the old data.

- `Output.WellFormed`: triples and streams for a number of new bytes.
- **`Output.WellFormed.snoc`**: one more triple that goes on where the ones before it ended.
- **`Rebuilds.wellFormed`**: whatever was emitted is well formed.
- **`controls_wellFormed`**: the triples of two strings, and the loops that they come from.
-/

namespace BlockUpdate

namespace BlockPatch

variable {old new : Bytes}

/-- Where an application stands behind some triples. -/
def cursorsAfter (ts : List Control) : Cursors := ts.foldl Cursors.after ⟨0, 0, 0⟩

theorem cursorsAfter_snoc (ts : List Control) (t : Control) :
    cursorsAfter (ts ++ [t]) = (cursorsAfter ts).after t := by
  rw [cursorsAfter, List.foldl_append]
  rfl

/-- **Triples and streams that make `size` bytes**, as an application reads them. -/
structure Output.WellFormed (out : Output) (old : Bytes) (size : Nat) : Prop where
  nonneg : ∀ t ∈ out.controls, 0 ≤ t.add ∧ 0 ≤ t.copy
  total : (out.controls.map fun t => t.add + t.copy).sum = size
  diff_size : (out.diff.size : Int) = (out.controls.map Control.add).sum
  extra_size : (out.extra.size : Int) = (out.controls.map Control.copy).sum
  /-- Each triple adds bytes of the old data, at the position where the ones before it lead. -/
  reads : ∀ k t, out.controls[k]? = some t →
    0 ≤ (cursorsAfter (out.controls.take k)).old ∧
      (cursorsAfter (out.controls.take k)).old + t.add ≤ old.size

/-- **One more triple** whose runs go on where the ones before it ended. -/
theorem Output.WellFormed.snoc {ts : List Control} {diff extra diff' extra' : Bytes}
    {size source add copy : Nat} (h : Output.WellFormed ⟨ts, diff, extra⟩ old size) (seek : Int)
    (hplace : (cursorsAfter ts).old = source) (hold : source + add ≤ old.size)
    (hdiff : diff'.size = diff.size + add) (hextra : extra'.size = extra.size + copy) :
    Output.WellFormed ⟨ts ++ [⟨add, copy, seek⟩], diff', extra'⟩ old (size + add + copy) := by
  obtain ⟨hnonneg, htotal, hdiffSize, hextraSize, hreads⟩ := h
  dsimp only at hnonneg htotal hdiffSize hextraSize hreads
  constructor <;> dsimp only
  · intro t ht
    rcases List.mem_append.mp ht with ht | ht
    · exact hnonneg t ht
    · rw [List.mem_singleton.mp ht]
      exact ⟨Int.natCast_nonneg add, Int.natCast_nonneg copy⟩
  · rw [List.map_append, List.sum_append, htotal, List.map_singleton, List.sum_singleton,
      Int.natCast_add, Int.natCast_add, Int.add_assoc]
  · rw [List.map_append, List.sum_append, ← hdiffSize, List.map_singleton, List.sum_singleton,
      hdiff, Int.natCast_add]
  · rw [List.map_append, List.sum_append, ← hextraSize, List.map_singleton, List.sum_singleton,
      hextra, Int.natCast_add]
  · intro k t hk
    rcases Nat.lt_or_ge k ts.length with hlt | hge
    · rw [List.getElem?_append_left hlt] at hk
      rw [List.take_append_of_le_length (Nat.le_of_lt hlt)]
      exact hreads k t hk
    · -- the only triple behind the others
      rw [List.getElem?_append_right hge, List.getElem?_singleton] at hk
      obtain ⟨hlast, hk⟩ := Option.ite_none_right_eq_some.mp hk
      obtain rfl := Option.some.inj hk
      rw [List.take_append_of_le_length (by omega), List.take_of_length_le hge, hplace]
      dsimp only
      omega

theorem size_diffBytes (old new : Bytes) (source position n : Nat) (out : Bytes) :
    (diffBytes old new source position n 0 out).size = out.size + n := by
  rw [diffBytes_eq_append, ByteArray.size_append, size_differences]

/-- Behind the triples emitted so far, an application stands where the scan does. -/
theorem Rebuilds.cursorsAfter_eq {out : Output} {position source : Nat}
    (h : Rebuilds old new out position source) :
    cursorsAfter out.controls.reverse = ⟨out.diff.size, out.extra.size, source⟩ := by
  induction h with
  | start => rfl
  | run add copy next before hnew hold hnext ih =>
    rw [List.reverse_cons, cursorsAfter_snoc, ih, Cursors.after, size_diffBytes,
      ByteArray.size_append, ByteArray.size_extract]
    simp only [Int.toNat_natCast, Cursors.mk.injEq]
    exact ⟨trivial, by omega, by omega⟩

/-- **Whatever a scan emitted is well formed.** -/
theorem Rebuilds.wellFormed {out : Output} {position source : Nat}
    (h : Rebuilds old new out position source) :
    Output.WellFormed { out with controls := out.controls.reverse } old position := by
  induction h with
  | start =>
    exact ⟨fun t ht => absurd ht List.not_mem_nil, rfl, rfl, rfl, fun k t hk => by cases hk⟩
  | run add copy next before hnew hold hnext ih =>
    dsimp only
    rw [List.reverse_cons]
    refine ih.snoc _ ?_ hold (size_diffBytes ..) ?_
    · rw [before.cursorsAfter_eq]
    · rw [ByteArray.size_append, ByteArray.size_extract]
      omega

/-- **The triples of two strings are well formed.** The loops that compute them end by their own
tests, the one that sorts the suffixes of the old data and those that scan the new data. The triples
then make all of the new data out of runs that are not negative, take what the two streams hold and
no more, and add no byte from outside the old data. -/
theorem controls_wellFormed (old new : Bytes) :
    SuffixArray.Ends old (SuffixArray.build old).toList ∧
      (∃ out, Scans (SuffixArray.build old) old new 0 0 0 ⟨0, 0, 0⟩
          ⟨[], ByteArray.empty, ByteArray.empty⟩ out ∧
        controls old new = { out with controls := out.controls.reverse }) ∧
      (controls old new).WellFormed old new.size := by
  obtain ⟨out, source, hrebuilds, hcontrols⟩ := controls_rebuilds old new
  refine ⟨SuffixArray.ends_build old, controls_scans old new, ?_⟩
  rw [hcontrols]
  exact hrebuilds.wellFormed

/-- Two bytes are added at position zero, and one is copied behind them. -/
example : (controls (Bytes.ofText "ab") (Bytes.ofText "abc")).controls = [⟨2, 1, -1⟩] := by cbv

end BlockPatch

end BlockUpdate
