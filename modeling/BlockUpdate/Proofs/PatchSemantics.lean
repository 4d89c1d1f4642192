import BlockUpdate.Proofs.BlockPatchRoundTrip

/-!
# What a block patch makes

An application reads its runs in pieces and checks each piece on its own. Whole runs say the same
more directly: a triple takes its part of the two streams, or it does not fit. This file gives that
meaning of a patch and shows that an application ends as it says, for any triples.

- `Control.Fits`: whether a triple can be run where the ones before it ended.
- `whole`: the output of some triples, run by run.
- **`step_emits_whole`**, **`step_fails`**: a triple hands over its whole runs, or fails.
- `getElem?_controlsOf`: the triples of a control stream.
- **`loop_ends`**: all triples hand over the output of the whole runs, or fail.
- **`deliver_keeping`**: what reaches a receiver.
- **`apply_meaning`**: an application succeeds exactly if the whole runs do, with their output.
-/

namespace BlockUpdate

namespace BlockPatch

variable {s : Streams} {old : Bytes}

/-! ## Whole runs -/

/-- Positions have sixty-four bits, with a sign. -/
def ValidPosition (position : Int) : Prop := -positionLimit ≤ position ∧ position < positionLimit

instance (position : Int) : Decidable (ValidPosition position) :=
  inferInstanceAs (Decidable (_ ∧ _))

/-- A triple can be run: its runs are within the output and the streams, and positions stay
valid. -/
def Control.Fits (t : Control) (newSize made : Nat) (diff extra : Bytes) (position : Int) : Prop :=
  (0 ≤ t.add ∧ 0 ≤ t.copy) ∧ made + t.add.toNat + t.copy.toNat ≤ newSize ∧
    (t.add.toNat ≤ diff.size ∧ t.copy.toNat ≤ extra.size) ∧
    ValidPosition (position + t.add) ∧ ValidPosition (position + t.add + t.seek)

instance (t : Control) (newSize made : Nat) (diff extra : Bytes) (position : Int) :
    Decidable (t.Fits newSize made diff extra position) :=
  inferInstanceAs (Decidable ((_ ∧ _) ∧ _ ∧ (_ ∧ _) ∧ _ ∧ _))

/-- The output of whole runs, from `made` bytes on until it is complete. -/
def whole (old : Bytes) (newSize : Nat) :
    List Control → Bytes → Bytes → Int → Nat → Option Bytes
  | [], _, _, _, made => if newSize ≤ made then some ByteArray.empty else none
  | t :: rest, diff, extra, position, made =>
    if newSize ≤ made then some ByteArray.empty
    else if t.Fits newSize made diff extra position then
      (whole old newSize rest (diff.dropFirst t.add.toNat) (extra.dropFirst t.copy.toNat)
        (position + t.add + t.seek) (made + t.add.toNat + t.copy.toNat)).map
          (sums old position (diff.takeFirst t.add.toNat) ++ extra.takeFirst t.copy.toNat ++ ·)
    else none

/-! ## Triples -/

/-- How far the streams were read at valid positions. -/
structure Cursors.Valid (c : Cursors) (s : Streams) : Prop where
  diff_le : c.diff ≤ s.diff.size
  extra_le : c.extra ≤ s.extra.size
  old_valid : ValidPosition c.old

variable {t : Control} {newSize made : Nat} {c : Cursors}

/-- The streams and the position after a triple. -/
def Cursors.after (c : Cursors) (t : Control) : Cursors :=
  ⟨c.diff + t.add.toNat, c.extra + t.copy.toNat, c.old + t.add + t.seek⟩

theorem Cursors.Valid.after (hc : c.Valid s)
    (hfits : t.Fits newSize made (s.diff.dropFirst c.diff) (s.extra.dropFirst c.extra) c.old) :
    (c.after t).Valid s := by
  obtain ⟨-, -, ⟨hdiff, hextra⟩, -, hnext⟩ := hfits
  have hdiffLe := hc.diff_le
  have hextraLe := hc.extra_le
  rw [Bytes.size_dropFirst] at hdiff hextra
  refine ⟨?_, ?_, hnext⟩ <;> dsimp only [Cursors.after] <;> omega

/-- **A triple that can be run** hands over its whole runs. -/
theorem step_emits_whole (hc : c.Valid s)
    (hfits : t.Fits newSize made (s.diff.dropFirst c.diff) (s.extra.dropFirst c.extra) c.old) :
    (step s old newSize t made c).Emits (made + t.add.toNat + t.copy.toNat, c.after t)
      (sums old c.old ((s.diff.dropFirst c.diff).takeFirst t.add.toNat) ++
        (s.extra.dropFirst c.extra).takeFirst t.copy.toNat) := by
  obtain ⟨⟨hadd, hcopy⟩, hroom, ⟨hdiff, hextra⟩, ⟨-, hposition⟩, hnext⟩ := hfits
  have hdiffLe := hc.diff_le
  have hextraLe := hc.extra_le
  rw [Bytes.size_dropFirst] at hdiff hextra
  have haddNat : (t.add.toNat : Int) = t.add := Int.toNat_of_nonneg hadd
  have hdiffRun : (diffRun s old t.add.toNat c).Emits _ _ :=
    diffRun_emits_sums (by omega) (by omega)
  have hextraRun := extraRun_emits_extract (s := s) (n := t.copy.toNat)
    (c := { c with diff := c.diff + t.add.toNat, old := c.old + t.add.toNat })
    (by dsimp only; omega)
  rw [Bytes.takeFirst_dropFirst, Bytes.takeFirst_dropFirst, step, if_neg (by omega)]
  dsimp only
  rw [if_neg (by omega)]
  refine .bind hdiffRun ?_
  rw [if_neg (by omega)]
  refine .bind_pure hextraRun ?_
  dsimp only
  rw [haddNat, if_neg (by rw [ValidPosition] at hnext; omega)]
  exact .pure _

/-- **A triple that cannot be run fails**, and hands over no more than there is room for. -/
theorem step_fails (hc : c.Valid s) (hmade : made ≤ newSize)
    (hbad : ¬ t.Fits newSize made (s.diff.dropFirst c.diff) (s.extra.dropFirst c.extra) c.old) :
    (step s old newSize t made c).FailsWithin (newSize - made) := by
  have hdiffLe := hc.diff_le
  have hextraLe := hc.extra_le
  obtain ⟨holdLe, holdLt⟩ := hc.old_valid
  rw [step]
  by_cases hnegative : t.add < 0 ∨ t.copy < 0
  · rw [if_pos hnegative]
    exact .throw _ _
  rw [if_neg hnegative]
  have haddNat : (t.add.toNat : Int) = t.add := Int.toNat_of_nonneg (by omega)
  dsimp only
  by_cases hdiffRoom : newSize < made + t.add.toNat
  · rw [if_pos hdiffRoom]
    exact .throw _ _
  rw [if_neg hdiffRoom]
  by_cases hdiff : positionLimit ≤ c.old + t.add.toNat ∨ s.diff.size < c.diff + t.add.toNat
  · exact .bind (.mono (diffRun_fails holdLt hdiffLe hdiff) (by omega))
  -- the diff run is handed over, whatever comes of the rest
  have hdiffRun : (diffRun s old t.add.toNat c).Emits _ _ :=
    diffRun_emits_sums (by omega) (by omega)
  have hdiffSize : (s.diff.extract c.diff (c.diff + t.add.toNat)).size = t.add.toNat := by
    rw [ByteArray.size_extract]
    omega
  refine .emits_bind hdiffRun (m := newSize - (made + t.add.toNat)) ?_
    (by rw [size_sums, hdiffSize]; omega)
  by_cases hextraRoom : newSize < made + t.add.toNat + t.copy.toNat
  · rw [if_pos hextraRoom]
    exact .throw _ _
  rw [if_neg hextraRoom]
  by_cases hextra : s.extra.size < c.extra + t.copy.toNat
  · exact .bind (.mono (extraRun_fails hextraLe hextra) (by omega))
  have hextraRun := extraRun_emits_extract (s := s) (n := t.copy.toNat)
    (c := { c with diff := c.diff + t.add.toNat, old := c.old + t.add.toNat })
    (by dsimp only; omega)
  have hextraSize : (s.extra.extract c.extra (c.extra + t.copy.toNat)).size = t.copy.toNat := by
    rw [ByteArray.size_extract]
    omega
  refine .emits_bind hextraRun (m := 0) ?_ (by dsimp only; rw [hextraSize]; omega)
  -- only the position is left to fail
  dsimp only
  rw [haddNat, if_pos]
  · exact .throw _ _
  · refine Decidable.byContradiction fun hnext => hbad ⟨by omega, by omega, ⟨?_, ?_⟩, ?_, ?_⟩
    · rw [Bytes.size_dropFirst]
      omega
    · rw [Bytes.size_dropFirst]
      omega
    · rw [ValidPosition]
      omega
    · rw [ValidPosition]
      omega

/-! ## All triples -/

theorem valid_start : Cursors.Valid ⟨0, 0, 0⟩ s := ⟨Nat.zero_le _, Nat.zero_le _, by decide⟩

theorem read_eq_ok {b : Bytes} (offset : Nat) (h : offset + 8 ≤ b.size) :
    ∃ n, SignMagnitude.read b offset = .ok n := by
  have hslice : b.slice? offset 8 = some (b.extract offset (offset + 8)) := if_pos h
  rw [SignMagnitude.read, Field.read, Field.window, hslice]
  exact ⟨_, rfl⟩

/-- The control stream holds a triple wherever it is long enough. -/
theorem controlAt_eq_ok (control : Bytes) (offset : Nat)
    (h : offset + controlBytes ≤ control.size) : ∃ t, controlAt control offset = .ok t := by
  have hslice : control.slice? offset controlBytes = some _ := if_pos h
  have hsize := Bytes.size_of_slice? hslice
  have hbytes : controlBytes = 24 := rfl
  obtain ⟨add, hadd⟩ := read_eq_ok 0 (hsize ▸ (by decide : 0 + 8 ≤ controlBytes))
  obtain ⟨copy, hcopy⟩ := read_eq_ok 8 (hsize ▸ (by decide : 8 + 8 ≤ controlBytes))
  obtain ⟨seek, hseek⟩ := read_eq_ok 16 (hsize ▸ (by decide : 16 + 8 ≤ controlBytes))
  rw [controlAt, hslice]
  dsimp only
  rw [hadd, hcopy, hseek]
  exact ⟨_, rfl⟩

/-- The triples of a control stream are those at its offsets. -/
theorem getElem?_controlsOf (control : Bytes) (k : Nat) :
    (controlsOf control)[k]? = (controlAt control (controlBytes * k)).toOption := by
  have hbytes : controlBytes = 24 := rfl
  let at? (i : Nat) : Option Control := (controlAt control (controlBytes * i)).toOption
  -- none of the offsets is left out
  have hall : ∀ i ∈ List.range (control.size / controlBytes),
      at? i = (some ∘ fun i => (at? i).getD ⟨0, 0, 0⟩) i := by
    intro i hi
    have hlt := List.mem_range.mp hi
    obtain ⟨t, ht⟩ := controlAt_eq_ok control (controlBytes * i)
      (by rw [hbytes] at hlt ⊢; omega)
    have hsome : at? i = some t := by
      show (controlAt control (controlBytes * i)).toOption = _
      rw [ht]
      rfl
    rw [Function.comp_apply, hsome]
    rfl
  show ((List.range (control.size / controlBytes)).filterMap at?)[k]? = at? k
  rw [List.filterMap_congr hall, List.filterMap_eq_map, List.getElem?_map]
  by_cases hk : k < control.size / controlBytes
  · rw [List.getElem?_range hk]
    exact (hall k (List.mem_range.mpr hk)).symm
  · rw [List.getElem?_eq_none (by rw [List.length_range]; omega)]
    rcases hcontrol : controlAt control (controlBytes * k) with e | t
    · show none = (controlAt control (controlBytes * k)).toOption
      rw [hcontrol]
      rfl
    · have hle := offset_le_of_controlAt hcontrol
      rw [hbytes] at hk hle
      omega

theorem controlAt_of_drop {control : Bytes} {k : Nat} {rest : List Control}
    (h : (controlsOf control).drop k = t :: rest) :
    controlAt control (controlBytes * k) = .ok t ∧ (controlsOf control).drop (k + 1) = rest := by
  have hhead := getElem?_controlsOf control k
  rw [← List.head?_drop, h] at hhead
  refine ⟨?_, by rw [← List.drop_drop, h]; rfl⟩
  rcases hcontrol : controlAt control (controlBytes * k) with e | t'
  · rw [hcontrol] at hhead
    cases hhead
  · rw [hcontrol] at hhead
    rw [Option.some.inj hhead]

theorem controlAt_of_drop_nil {control : Bytes} {k : Nat} (h : (controlsOf control).drop k = []) :
    ∃ e, controlAt control (controlBytes * k) = .error e := by
  have hhead := getElem?_controlsOf control k
  rw [← List.head?_drop, h] at hhead
  rcases hcontrol : controlAt control (controlBytes * k) with e | t
  · exact ⟨e, rfl⟩
  · rw [hcontrol] at hhead
    cases hhead

section Loop

variable {offset : Nat}

theorem loop_of_done (h : newSize ≤ made) : loop s old newSize offset made c = pure () := by
  rw [loop, if_pos h]

theorem loop_of_error {e : PatchError} (h : ¬ newSize ≤ made)
    (hcontrol : controlAt s.control offset = .error e) :
    loop s old newSize offset made c = throw e := by
  rw [loop, if_neg h]
  split
  · rename_i e' herror
    rw [Except.error.inj (hcontrol.symm.trans herror)]
  · rename_i t hok
    cases hcontrol.symm.trans hok

theorem loop_of_ok (h : ¬ newSize ≤ made) (hcontrol : controlAt s.control offset = .ok t) :
    loop s old newSize offset made c =
      step s old newSize t made c >>= fun next =>
        loop s old newSize (offset + controlBytes) next.1 next.2 := by
  rw [loop, if_neg h]
  split
  · rename_i e herror
    cases hcontrol.symm.trans herror
  · rename_i t' hok
    rw [Except.ok.inj (hcontrol.symm.trans hok)]

end Loop

/-- The loop ends as the whole runs do: it completes the output, or fails before. -/
def LoopEnds (s : Streams) (old : Bytes) (newSize : Nat) (ts : List Control) (offset made : Nat)
    (c : Cursors) : Prop :=
  match whole old newSize ts (s.diff.dropFirst c.diff) (s.extra.dropFirst c.extra) c.old made with
  | some data => (loop s old newSize offset made c).Emits () data ∧ made + data.size = newSize
  | none => (loop s old newSize offset made c).FailsWithin (newSize - made)

theorem loopEnds_of_done {ts : List Control} {offset : Nat} (h : made = newSize) :
    LoopEnds s old newSize ts offset made c := by
  have hdone : newSize ≤ made := Nat.le_of_eq h.symm
  have hwhole : whole old newSize ts (s.diff.dropFirst c.diff) (s.extra.dropFirst c.extra) c.old
      made = some ByteArray.empty := by
    cases ts <;> exact if_pos hdone
  rw [LoopEnds, hwhole, loop_of_done hdone]
  exact ⟨.pure (), h⟩

/-- **All triples**: an application hands over what the whole runs do, or fails as they do. -/
theorem loop_ends {ts : List Control} {k : Nat} (hts : (controlsOf s.control).drop k = ts)
    (hc : c.Valid s) (hmade : made ≤ newSize) :
    LoopEnds s old newSize ts (controlBytes * k) made c := by
  induction ts generalizing k made c with
  | nil =>
    by_cases hdone : made = newSize
    · exact loopEnds_of_done hdone
    have hmore : ¬ newSize ≤ made := by omega
    obtain ⟨e, hcontrol⟩ := controlAt_of_drop_nil hts
    rw [LoopEnds, whole, if_neg hmore, loop_of_error hmore hcontrol]
    exact .throw e _
  | cons t rest ih =>
    by_cases hdone : made = newSize
    · exact loopEnds_of_done hdone
    have hmore : ¬ newSize ≤ made := by omega
    obtain ⟨hcontrol, hdrop⟩ := controlAt_of_drop hts
    rw [LoopEnds, loop_of_ok hmore hcontrol, whole, if_neg hmore]
    by_cases hfits : t.Fits newSize made (s.diff.dropFirst c.diff) (s.extra.dropFirst c.extra) c.old
    · have hstep : (step s old newSize t made c).Emits _ _ := step_emits_whole hc hfits
      have hrest := ih hdrop (hc.after hfits) hfits.2.1
      rw [LoopEnds, Cursors.after, ← Bytes.dropFirst_dropFirst, ← Bytes.dropFirst_dropFirst,
        Nat.mul_succ] at hrest
      rw [if_pos hfits]
      obtain ⟨-, hroom, ⟨hdiff, hextra⟩, -⟩ := hfits
      cases hwhole : whole old newSize rest ((s.diff.dropFirst c.diff).dropFirst t.add.toNat)
          ((s.extra.dropFirst c.extra).dropFirst t.copy.toNat) (c.old + t.add + t.seek)
          (made + t.add.toNat + t.copy.toNat) with
      | none =>
        rw [hwhole] at hrest
        refine .emits_bind hstep hrest ?_
        rw [ByteArray.size_append, size_sums, Bytes.size_takeFirst, Bytes.size_takeFirst]
        omega
      | some data =>
        rw [hwhole] at hrest
        obtain ⟨hemits, hsize⟩ := hrest
        refine ⟨hstep.bind hemits, ?_⟩
        rw [ByteArray.size_append, ByteArray.size_append, size_sums, Bytes.size_takeFirst,
          Bytes.size_takeFirst]
        omega
    · rw [if_neg hfits]
      exact .bind (step_fails hc hmade hfits)

/-! ## Whole patches -/

/-- The output of a patch, run by run. -/
def meaning (P : Primitives) (patch old : Bytes) (h : Header) : Option Bytes :=
  let s := streams P patch h
  whole old h.newSize (controlsOf s.control) s.diff s.extra 0 0

variable {P : Primitives} {patch data : Bytes} {h : Header}

theorem loopEnds_start (P : Primitives) (patch old : Bytes) (h : Header) :
    match meaning P patch old h with
    | some data => (loop (streams P patch h) old h.newSize 0 0 ⟨0, 0, 0⟩).Emits () data ∧
        data.size = h.newSize
    | none => (loop (streams P patch h) old h.newSize 0 0 ⟨0, 0, 0⟩).FailsWithin h.newSize := by
  have hends : LoopEnds (streams P patch h) old h.newSize (controlsOf (streams P patch h).control)
      (controlBytes * 0) 0 ⟨0, 0, 0⟩ := loop_ends rfl valid_start (Nat.zero_le h.newSize)
  simp only [LoopEnds, Bytes.dropFirst_zero, Nat.mul_zero, Nat.zero_add, Nat.sub_zero] at hends
  exact hends

/-- **A patch whose whole runs have an output** makes it. -/
theorem apply_emits_meaning (hparse : Header.parse patch = .ok h)
    (hmeaning : meaning P patch old h = some data) :
    (apply P patch old).Emits h.newSize data ∧ data.size = h.newSize := by
  have hends := loopEnds_start P patch old h
  rw [hmeaning] at hends
  exact ⟨.ofExcept_bind hparse (.bind_pure hends.1 (.pure _)), hends.2⟩

/-- **A patch whose whole runs have none** fails. -/
theorem apply_fails (hparse : Header.parse patch = .ok h)
    (hmeaning : meaning P patch old h = none) : (apply P patch old).FailsWithin h.newSize := by
  have hends := loopEnds_start P patch old h
  rw [hmeaning] at hends
  exact .emits_bind (.ofExcept hparse) (.bind hends) (by simp)

end BlockPatch

/-! ## What reaches a receiver -/

namespace Emission

variable {σ α : Type} {put : σ → Bytes → Except PatchError Unit × σ}

/-- A receiver that keeps what it is handed, whether it refuses it or not. -/
def keeping (put : σ → Bytes → Except PatchError Unit × σ) (s : σ × Bytes) (piece : Bytes) :
    Except PatchError Unit × (σ × Bytes) :=
  ((put s.1 piece).1, (put s.1 piece).2, s.2 ++ piece)

variable (put) in
/-- A receiver is handed the pieces in order, and all of them if it refuses none. -/
theorem deliverPieces_keeping (pieces : List Bytes) (s : σ) (kept : Bytes) :
    ∃ front back, pieces = front ++ back ∧
      (deliverPieces (keeping put) pieces (s, kept)).2.2 = kept ++ Bytes.join front ∧
      ((deliverPieces (keeping put) pieces (s, kept)).1 = .ok () → back = []) ∧
      ((∀ s piece, (put s piece).1 = .ok ()) →
        (deliverPieces (keeping put) pieces (s, kept)).1 = .ok ()) := by
  induction pieces generalizing s kept with
  | nil =>
    refine ⟨[], [], rfl, ?_, fun _ => rfl, fun _ => rfl⟩
    rw [Bytes.join_nil, ByteArray.append_empty]
    rfl
  | cons piece rest ih =>
    rcases hput : put s piece with ⟨e | ⟨⟩, t⟩
    · have hrun : deliverPieces (keeping put) (piece :: rest) (s, kept) =
          (.error e, t, kept ++ piece) := by
        rw [deliverPieces, keeping, hput]
      refine ⟨[piece], rest, rfl, ?_, fun h => ?_, fun h => ?_⟩
      · rw [hrun, Bytes.join_cons, Bytes.join_nil, ByteArray.append_empty]
      · rw [hrun] at h
        cases h
      · have := h s piece
        rw [hput] at this
        cases this
    · have hrun : deliverPieces (keeping put) (piece :: rest) (s, kept) =
          deliverPieces (keeping put) rest (t, kept ++ piece) := by
        rw [deliverPieces, keeping, hput]
      obtain ⟨front, back, rfl, hkept, hall, htotal⟩ := ih t (kept ++ piece)
      refine ⟨piece :: front, back, rfl, ?_, ?_, ?_⟩
      · rw [hrun, hkept, Bytes.join_cons, ByteArray.append_assoc]
      · rwa [hrun]
      · rwa [hrun]

variable (put) in
/-- **What reaches a receiver** is the front of an emission; without a refusal it is all of it, and
the outcome is that of the emission. -/
theorem deliver_keeping (e : Emission α) (s : σ) :
    (e.deliver (keeping put) (s, ByteArray.empty)).2.2.size ≤ e.bytes.size ∧
      (∀ a, (e.deliver (keeping put) (s, ByteArray.empty)).1 = .ok a →
        e.outcome = .ok a ∧ (e.deliver (keeping put) (s, ByteArray.empty)).2.2 = e.bytes) ∧
      ((∀ s piece, (put s piece).1 = .ok ()) →
        (e.deliver (keeping put) (s, ByteArray.empty)).1 = e.outcome) := by
  obtain ⟨front, back, hpieces, hkept, hall, htotal⟩ :=
    deliverPieces_keeping put e.pieces s ByteArray.empty
  rw [ByteArray.empty_append] at hkept
  rw [deliver, bytes]
  rcases hrun : deliverPieces (keeping put) e.pieces (s, ByteArray.empty) with ⟨err | ⟨⟩, t⟩
  · rw [hrun] at hkept htotal
    refine ⟨?_, fun a ha => ?_, fun h => ?_⟩
    · dsimp only at hkept ⊢
      rw [hkept, hpieces, Bytes.join_append, ByteArray.size_append]
      exact Nat.le_add_right _ _
    · cases ha
    · cases htotal h
  · rw [hrun] at hkept hall
    rw [hall rfl, List.append_nil] at hpieces
    dsimp only at hkept ⊢
    rw [hkept, hpieces]
    exact ⟨Nat.le_refl _, fun a ha => ⟨ha, rfl⟩, fun _ => rfl⟩

end Emission

namespace BlockPatch

variable {P : Primitives} {patch old : Bytes} {h : Header}

/-- **What a block patch makes.** Where no piece is refused, an application succeeds exactly if the
whole runs have an output, which then is what it hands over. A success makes as many bytes as the
header says; a failure, of the patch or of the receiver, comes after at most as many. -/
theorem apply_meaning (hparse : Header.parse patch = .ok h) {σ : Type}
    (put : σ → Bytes → Except PatchError Unit × σ) (s : σ) :
    let run := (apply P patch old).emission.deliver (Emission.keeping put) (s, ByteArray.empty)
    ((∀ s piece, (put s piece).1 = .ok ()) → ∀ n out,
      run.1 = .ok n ∧ run.2.2 = out ↔ n = h.newSize ∧ meaning P patch old h = some out) ∧
    (∀ n, run.1 = .ok n →
      n = h.newSize ∧ run.2.2.size = h.newSize ∧ meaning P patch old h = some run.2.2) ∧
    run.2.2.size ≤ h.newSize := by
  intro run
  obtain ⟨hsize, hok, htotal⟩ :=
    (apply P patch old).emission.deliver_keeping put s
  cases hmeaning : meaning P patch old h with
  | some data =>
    obtain ⟨hemits, hdata⟩ := apply_emits_meaning hparse hmeaning
    rw [hemits.bytes] at hsize hok
    rw [hemits.outcome] at hok htotal
    have hsuccess : ∀ n, run.1 = .ok n → n = h.newSize ∧ run.2.2 = data := fun n hn => by
      obtain ⟨hout, hkept⟩ := hok n hn
      exact ⟨(Except.ok.inj hout).symm, hkept⟩
    refine ⟨fun hput n out => ⟨?_, ?_⟩, fun n hn => ?_, hdata ▸ hsize⟩
    · rintro ⟨hn, rfl⟩
      obtain ⟨hsame, hkept⟩ := hsuccess n hn
      exact ⟨hsame, congrArg some hkept.symm⟩
    · rintro ⟨rfl, hout⟩
      have hrun : run.1 = .ok h.newSize := htotal hput
      exact ⟨hrun, (hsuccess _ hrun).2.trans (Option.some.inj hout)⟩
    · obtain ⟨hsame, hkept⟩ := hsuccess n hn
      exact ⟨hsame, by rw [hkept, hdata], congrArg some hkept.symm⟩
  | none =>
    obtain ⟨⟨e, houtcome⟩, hbytes⟩ := (apply_fails hparse hmeaning).emission
    have hfailure : ∀ n, run.1 ≠ .ok n := fun n hn => by
      have hout := (hok n hn).1
      rw [houtcome] at hout
      cases hout
    refine ⟨fun _ n out => ⟨fun hn => absurd hn.1 (hfailure n), fun hout => ?_⟩,
      fun n hn => absurd hn (hfailure n), Nat.le_trans hsize hbytes⟩
    cases hout.2

/-- A patch that appends a byte, and whose last seek is not followed by a triple. -/
theorem apply_meaning_append :
    let P := withSamples appendSamples
    let patch := layout 3 (Bytes.ofList (appendSamples[0].stream))
      (Bytes.ofList (appendSamples[1].stream)) (Bytes.ofList (appendSamples[2].stream))
    let old := Bytes.ofText "ab"
    ∃ h, Header.parse patch = .ok h ∧ meaning P patch old h = some (Bytes.ofText "abc") ∧
      ∃ t, (apply P patch old).emission.deliver
        (Emission.keeping fun (n : Nat) piece => (.ok (), n + piece.size)) (0, ByteArray.empty) =
          (.ok 3, t, Bytes.ofText "abc") := by
  intro P patch old
  let h : Header := ⟨(Bytes.ofList (appendSamples[0].stream)).size,
    (Bytes.ofList (appendSamples[1].stream)).size, 3⟩
  have hparse : Header.parse patch = .ok h := parse_layout (by decide) (by decide) (by decide)
  have hmeaning : meaning P patch old h = some (Bytes.ofText "abc") := by
    rw [meaning, streams_layout]
    cbv
  obtain ⟨hiff, -⟩ := @apply_meaning P patch old h hparse Nat
    (fun n piece => (.ok (), n + piece.size)) 0
  have hrun := (hiff (fun _ _ => rfl) 3 _).mpr ⟨rfl, hmeaning⟩
  refine ⟨h, hparse, hmeaning, ?_⟩
  generalize (apply P patch old).emission.deliver _ _ = run at hrun
  obtain ⟨result, t, kept⟩ := run
  obtain ⟨hok, hout⟩ : result = .ok 3 ∧ kept = Bytes.ofText "abc" := hrun
  rw [hok, hout]
  exact ⟨t, rfl⟩

end BlockPatch

end BlockUpdate
