import BlockUpdate.Proofs.Outcome
import BlockUpdate.Proofs.Overwrite
import BlockUpdate.Proofs.Region

/-!
# What a computation writes

Nothing that writes to a device looks at what the device holds; only how a device answers discards
makes a difference. Results and writes are therefore known beforehand, and a device without faults
follows them to the letter; on a device that fails, an error is the only other possibility.

- `Device.after`: a device that took some writes.
- `Planned D mk x k Q`: from the control state `k`, on whatever device that answers discards by `D`,
  `x` has one result, one final control state and one list of writes, of which `Q` holds.
- `Planned.bind`, `Planned.cases`: the rules by which plans are put together.
- `BlockSet.planned_write`, `BlockSet.planned_zero`: the writes of a buffer and of zeros stay
  within the set, and **a buffer that is written in full covers it**.
-/

namespace BlockUpdate

namespace Device

/-- A device that took some writes. -/
def after (d : Device) (ws : List Write) : Device :=
  { d with image := d.image.overwrite ws, writes := d.writes + ws.length }

/-- A device on which nothing fails, and which ends. -/
def Healthy (d : Device) : Prop := d.faults = Faults.none ∧ d.endless = false

variable (d : Device) (ws ws' : List Write)

@[simp] theorem after_nil : d.after [] = d := rfl

theorem after_append : d.after (ws ++ ws') = (d.after ws).after ws' := by
  simp [after, Bytes.overwrite_append, Nat.add_assoc]

@[simp] theorem after_image : (d.after ws).image = d.image.overwrite ws := rfl

@[simp] theorem after_faults : (d.after ws).faults = d.faults := rfl

@[simp] theorem after_endless : (d.after ws).endless = d.endless := rfl

@[simp] theorem after_discards : (d.after ws).discards = d.discards := rfl

@[simp] theorem after_healthy : (d.after ws).Healthy ↔ d.Healthy := Iff.rfl

end Device

/-! ## Plans -/

section Plans

variable {ε ε' σ κ κ' α β : Type} {D : Option Discards} {mk : κ → Device → σ}

/-- Whatever a device holds that answers discards by `D`, a computation has one result, one final
control state and one list of writes, of which `Q` holds. A device with faults may make it fail
instead. -/
def Planned (D : Option Discards) (mk : κ → Device → σ) (x : ExceptT ε (StateM σ) α) (k : κ)
    (Q : Except ε α → κ → List Write → Prop) : Prop :=
  ∃ r k' ws, Q r k' ws ∧ ∀ d, d.discards = D →
    outcome x (mk k d) = (r, mk k' (d.after ws)) ∨
      d.faults ≠ Faults.none ∧ ∃ e s, outcome x (mk k d) = (.error e, s)

namespace Planned

variable {x : ExceptT ε (StateM σ) α} {f : α → ExceptT ε (StateM σ) β} {k : κ}
  {Q Q' : Except ε α → κ → List Write → Prop} {R : Except ε β → κ → List Write → Prop}

theorem imp (h : Planned D mk x k Q) (hQ : ∀ r k' ws, Q r k' ws → Q' r k' ws) :
    Planned D mk x k Q' := by
  obtain ⟨r, k', ws, hq, hd⟩ := h
  exact ⟨r, k', ws, hQ _ _ _ hq, hd⟩

/-- Where nothing fails, a computation does as planned. -/
theorem of_healthy {d : Device} (h : Planned d.discards mk x k Q) (hd : d.Healthy) :
    ∃ r k' ws, Q r k' ws ∧ outcome x (mk k d) = (r, mk k' (d.after ws)) := by
  obtain ⟨r, k', ws, hq, hrun⟩ := h
  exact ⟨r, k', ws, hq, (hrun d rfl).resolve_right fun hfaults => hfaults.1 hd.1⟩

/-- A computation that writes nothing. -/
theorem quiet {r : Except ε α} {l : κ} (h : ∀ d, outcome x (mk k d) = (r, mk l d))
    (hQ : Q r l []) : Planned D mk x k Q :=
  ⟨r, l, [], hQ, fun d _ => .inl (h d)⟩

theorem pure {a : α} (hQ : Q (.ok a) k []) : Planned D mk (Pure.pure a) k Q := quiet (fun _ => rfl) hQ

theorem throw {e : ε} (hQ : Q (.error e) k []) : Planned D mk (MonadExcept.throw e) k Q :=
  quiet (fun _ => rfl) hQ

/-- A computation that runs another one does as that one does. -/
theorem of_outcome {y : ExceptT ε (StateM σ) α} (h : Planned D mk y k Q)
    (hy : ∀ d, d.discards = D → outcome x (mk k d) = outcome y (mk k d)) : Planned D mk x k Q := by
  obtain ⟨r, k', ws, hq, hd⟩ := h
  exact ⟨r, k', ws, hq, fun d hfile => by rw [hy d hfile]; exact hd d hfile⟩

/-- **One after the other**: an error of the first part is the result, and the writes of both parts
add up. -/
theorem bind (h : Planned D mk x k Q)
    (herror : ∀ e k' ws, Q (.error e) k' ws → R (.error e) k' ws)
    (hok : ∀ a k' ws, Q (.ok a) k' ws → Planned D mk (f a) k' fun r k'' ws' => R r k'' (ws ++ ws')) :
    Planned D mk (x >>= f) k R := by
  obtain ⟨r, k', ws, hq, hd⟩ := h
  cases r with
  | error e =>
    refine ⟨.error e, k', ws, herror e k' ws hq, fun d hfile => ?_⟩
    rcases hd d hfile with h | ⟨hfaults, e', s, h⟩
    · exact .inl (outcome_bind_of_error h f)
    · exact .inr ⟨hfaults, e', s, outcome_bind_of_error h f⟩
  | ok a =>
    obtain ⟨r', k'', ws', hr, hd'⟩ := hok a k' ws hq
    refine ⟨r', k'', ws ++ ws', hr, fun d hfile => ?_⟩
    rcases hd d hfile with h | ⟨hfaults, e', s, h⟩
    · rw [outcome_bind_of_ok h f, Device.after_append]
      exact hd' (d.after ws) hfile
    · exact .inr ⟨hfaults, e', s, outcome_bind_of_error h f⟩

/-- The state is read, and what follows looks at the control state only. -/
theorem get_bind {f : σ → ExceptT ε (StateM σ) β} {y : ExceptT ε (StateM σ) β}
    (h : Planned D mk y k R) (hy : ∀ d, d.discards = D → f (mk k d) = y) :
    Planned D mk (get >>= f) k R :=
  h.of_outcome fun d hfile => by rw [outcome_get_bind, hy d hfile]

/-- The control state is changed. -/
theorem modify_bind {g : σ → σ} {f : PUnit → ExceptT ε (StateM σ) β} {l : κ}
    (h : Planned D mk (f ⟨⟩) l R) (hg : ∀ d, g (mk k d) = mk l d) :
    Planned D mk (modify g >>= f) k R := by
  refine bind (Q := fun r k'' ws => r = .ok ⟨⟩ ∧ k'' = l ∧ ws = []) ?_ ?_ ?_
  · exact quiet (fun d => by rw [outcome_modify, hg]) ⟨rfl, rfl, rfl⟩
  · rintro e k'' ws ⟨h, -⟩
    cases h
  · rintro a k'' ws ⟨-, rfl, rfl⟩
    exact h

/-- A computation that passes on what another one does on a part of its state: `u` puts the part
back, and `φ` names its result anew. -/
theorem lift {σ' : Type} {n : κ' → Device → σ'} {y : ExceptT ε' (StateM σ') α} {l : κ'}
    {g : κ → κ'} {φ : Except ε α → Except ε' α} {u : σ → σ'}
    {R : Except ε' α → κ' → List Write → Prop} (h : Planned D mk x k Q)
    (hy : ∀ d, outcome y (n l d) = (φ (outcome x (mk k d)).1, u (outcome x (mk k d)).2))
    (hφ : ∀ e, ∃ e', φ (.error e) = .error e')
    (hu : ∀ k₁ d, u (mk k₁ d) = n (g k₁) d)
    (hR : ∀ r k₁ ws, Q r k₁ ws → R (φ r) (g k₁) ws) : Planned D n y l R := by
  obtain ⟨r, k₁, ws, hq, hd⟩ := h
  refine ⟨φ r, g k₁, ws, hR _ _ _ hq, fun d hfile => ?_⟩
  rcases hd d hfile with h | ⟨hfaults, e, s, h⟩
  · exact .inl (by rw [hy, h, hu])
  · obtain ⟨e', he'⟩ := hφ e
    exact .inr ⟨hfaults, e', u s, by rw [hy, h, he']⟩

end Planned

end Plans

/-! ## Single operations -/

section Operations

variable {ε α : Type} {D : Option Discards}

/-- A plan of a computation that has no state besides the device. -/
def PlannedWrites (D : Option Discards) (x : DeviceM ε α) (Q : Except ε α → List Write → Prop) :
    Prop :=
  Planned D (fun (_ : Unit) d => d) x () fun r _ ws => Q r ws

theorem PlannedWrites.imp {x : DeviceM ε α} {Q Q' : Except ε α → List Write → Prop}
    (h : PlannedWrites D x Q) (hQ : ∀ r ws, Q r ws → Q' r ws) : PlannedWrites D x Q' :=
  Planned.imp h fun r _ ws => hQ r ws

/-- Renamed errors leave the writes as they are. -/
theorem PlannedWrites.mapError {ε' : Type} {f : ε → ε'} {x : DeviceM ε α}
    {Q : Except ε α → List Write → Prop} {Q' : Except ε' α → List Write → Prop}
    (h : PlannedWrites D x Q) (hQ : ∀ r ws, Q r ws → Q' (r.mapError f) ws) :
    PlannedWrites D (DeviceM.mapError f x) Q' :=
  Planned.lift h (g := id) (u := id) (fun d => outcome_deviceMapError f x d)
    (fun e => ⟨f e, rfl⟩) (fun _ _ => rfl) fun r _ ws => hQ r ws

/-- **One write** sets its window, or fails without setting anything. -/
theorem DeviceM.planned_write (start : Nat) (data : Bytes) :
    PlannedWrites D (DeviceM.write start data) fun r ws =>
      (∀ i, Write.Covered ws i → start ≤ i ∧ i < start + data.size) ∧
      (r = .ok () → ∀ i, start ≤ i ∧ i < start + data.size → Write.Covered ws i) := by
  by_cases hempty : data.size = 0
  · refine Planned.quiet (r := .ok ()) (l := ()) (fun d => ?_) ⟨fun i h => ?_, fun _ i h => ?_⟩
    · show d.write start data = _
      rw [Device.write, if_pos hempty]
    · exact absurd h (Write.not_covered_nil i)
    · omega
  · by_cases hstart : Device.offsetLimit ≤ start
    · refine Planned.quiet (r := .error (.errno Errno.invalid)) (l := ()) (fun d => ?_)
        ⟨fun i h => ?_, fun h => ?_⟩
      · show d.write start data = _
        rw [Device.write, if_neg hempty, if_pos hstart]
      · exact absurd h (Write.not_covered_nil i)
      · cases h
    · refine ⟨.ok (), (), [⟨start, data⟩], ⟨fun i h => ?_, fun _ i h => ?_⟩, fun d _ => ?_⟩
      · simpa [Write.Covers] using h
      · simpa [Write.Covers] using h
      · show d.write start data = _ ∨ _ ∧ ∃ e s, d.write start data = _
        rw [Device.write, if_neg hempty, if_neg hstart]
        cases hfault : d.faults.write d.writes with
        | none =>
          refine .inl ?_
          simp only [Device.after, Bytes.overwrite, Bytes.after, if_neg hempty, List.length_singleton]
        | some fault =>
          refine .inr ⟨fun h => ?_, _, _, rfl⟩
          rw [h] at hfault
          cases hfault

/-- A sync writes nothing. -/
theorem DeviceM.planned_sync : PlannedWrites D DeviceM.sync fun r ws => r = .ok () ∧ ws = [] := by
  refine ⟨.ok (), (), [], ⟨rfl, rfl⟩, fun d _ => ?_⟩
  show (d.sync, d) = _ ∨ _ ∧ ∃ e s, (d.sync, d) = _
  rw [Device.sync]
  cases hfault : d.faults.sync d.writes with
  | none => exact .inl rfl
  | some e =>
    refine .inr ⟨fun h => ?_, _, _, rfl⟩
    rw [h] at hfault
    cases hfault

/-- **A discard** sets its window if the device takes it. -/
theorem DeviceM.planned_discard (start len : Nat) :
    PlannedWrites D (DeviceM.discard start len : DeviceM ε Bool) fun r ws =>
      (∀ i, Write.Covered ws i → start ≤ i ∧ i < start + len) ∧
      (r = .ok true → ∀ i, start ≤ i ∧ i < start + len → Write.Covered ws i) := by
  have hnot (d : Device) (h : d.discard start len = (false, d)) :
      outcome (DeviceM.discard start len : DeviceM ε Bool) d = (.ok false, d) := by
    show (Except.ok (d.discard start len).1, (d.discard start len).2) = _
    rw [h]
  rcases hD : D with _ | how
  · refine ⟨.ok false, (), [], ⟨fun i h => absurd h (Write.not_covered_nil i), nofun⟩,
      fun d hd => .inl (hnot d ?_)⟩
    rw [Device.discard, hd]
  by_cases htakes : how.takes start len = true
  · have hsize := how.size_left start len
    refine ⟨.ok true, (), [⟨start, how.left start len⟩], ⟨fun i h => ?_, fun _ i h => ?_⟩,
      fun d hd => .inl ?_⟩
    · simpa [Write.Covers, hsize] using h
    · simpa [Write.Covers, hsize] using h
    · have hdiscard : d.discard start len = (true, d.after [⟨start, how.left start len⟩]) := by
        unfold Device.discard
        split
        next hnone => cases hd.symm.trans hnone
        next how' hsome =>
          cases hd.symm.trans hsome
          exact if_pos htakes
      show (Except.ok (d.discard start len).1, (d.discard start len).2) = _
      rw [hdiscard]
  · refine ⟨.ok false, (), [], ⟨fun i h => absurd h (Write.not_covered_nil i), nofun⟩,
      fun d hd => .inl (hnot d ?_)⟩
    rw [Device.discard, hd]
    exact if_neg htakes

end Operations

/-! ## Buffers and zeros -/

namespace BlockSet

/-- A buffer goes into its ranges, and covers them if it is long enough. -/
theorem planned_writeRanges {D : Option Discards} (data : Bytes) (ranges : List BlockRange) (position : Nat) :
    PlannedWrites D (writeRanges data ranges position) fun r ws =>
      (∀ i, Write.Covered ws i → InRanges ranges i) ∧
      ((∃ n, r = .ok n) → position + rangesLength ranges ≤ data.size →
        ∀ i, InRanges ranges i → Write.Covered ws i) := by
  induction ranges generalizing position with
  | nil => exact Planned.pure ⟨fun i h => absurd h (Write.not_covered_nil i), by simp⟩
  | cons range rest ih =>
    have hsize : (data.extract position (position + range.byteLength)).size =
        min (position + range.byteLength) data.size - position := ByteArray.size_extract
    have hinside : ∀ {ws : List Write},
        (∀ i, Write.Covered ws i → range.byteStart ≤ i ∧
          i < range.byteStart + (data.extract position (position + range.byteLength)).size) →
        ∀ i, Write.Covered ws i → range.byteStart ≤ i ∧ i < range.byteStart + range.byteLength := by
      intro ws hin i h
      have := hin i h
      omega
    refine Planned.bind (DeviceM.planned_write _ _) ?_ ?_
    · rintro e - ws ⟨hin, -⟩
      exact ⟨fun i h => (inRanges_cons ..).mpr (.inl (hinside hin i h)), fun ⟨_, h⟩ => by cases h⟩
    · rintro ⟨⟩ - ws ⟨hin, hcover⟩
      refine (ih _).imp fun r ws' ⟨hin', hcover'⟩ => ⟨fun i h => ?_, fun hr hlong i h => ?_⟩
      · rcases (Write.covered_append ws ws' i).mp h with h | h
        · exact (inRanges_cons ..).mpr (.inl (hinside hin i h))
        · exact (inRanges_cons ..).mpr (.inr (hin' i h))
      · rw [rangesLength_cons] at hlong
        rw [Write.covered_append]
        rcases (inRanges_cons ..).mp h with h | h
        · exact .inl (hcover rfl i (by omega))
        · exact .inr (hcover' hr (by omega) i h)

/-- **A buffer that is written in full covers the set**, and nothing outside it is written. -/
theorem planned_write {D : Option Discards} {set : BlockSet} (hset : set.Sound) (data : Bytes) :
    PlannedWrites D (set.write data) fun r ws =>
      (∀ i, Write.Covered ws i → set.HasByte i) ∧
      ((∃ n, r = .ok n) → ∀ i, set.HasByte i → Write.Covered ws i) := by
  by_cases hshort : data.size < set.byteLength
  · have hwrite : set.write data = throw (.shortBuffer set.byteLength data.size) := by
      simp only [write, checkBuffer, if_pos hshort]
      rfl
    rw [hwrite]
    exact Planned.throw ⟨fun i h => absurd h (Write.not_covered_nil i), fun ⟨_, h⟩ => by cases h⟩
  · have hwrite : set.write data = (writeRanges data set.ranges 0).mapError .os := by
      simp only [write, checkBuffer, if_neg hshort]
    rw [hwrite]
    rw [hset.byteLength_eq] at hshort
    refine (planned_writeRanges data set.ranges 0).mapError fun r ws ⟨hin, hcover⟩ => ⟨hin, ?_⟩
    rintro ⟨n, hn⟩
    exact hcover ⟨n, mapError_eq_ok.mp hn⟩ (by omega)

variable {D : Option Discards} {run : Nat} {hrun : 0 < run}

/-- Zeros fill what is left of their window. -/
theorem planned_zeroFrom (start length done : Nat) :
    PlannedWrites D (zeroFrom run hrun start length done) fun r ws =>
      (∀ i, Write.Covered ws i → start + done ≤ i ∧ i < start + length) ∧
      (r = .ok () → ∀ i, start + done ≤ i ∧ i < start + length → Write.Covered ws i) := by
  fun_induction zeroFrom run hrun start length done with
  | case1 done h n ih =>
    have hn : n ≤ length - done := Nat.min_le_left ..
    have hsize : (Bytes.zeros n).size = n := Bytes.size_zeros n
    refine Planned.bind (DeviceM.planned_write _ _) ?_ ?_
    · rintro e - ws ⟨hin, -⟩
      refine ⟨fun i h => ?_, nofun⟩
      have := hin i h
      omega
    · rintro ⟨⟩ - ws ⟨hin, hcover⟩
      refine ih.imp fun r ws' ⟨hin', hcover'⟩ => ⟨fun i h => ?_, fun hr i h => ?_⟩
      · rcases (Write.covered_append ws ws' i).mp h with h | h
        · have := hin i h
          omega
        · have := hin' i h
          omega
      · rw [Write.covered_append]
        by_cases hi : i < start + done + n
        · exact .inl (hcover rfl i (by omega))
        · exact .inr (hcover' hr i (by omega))
  | case2 done h =>
    exact Planned.pure ⟨fun i h => absurd h (Write.not_covered_nil i), fun _ i hi => by omega⟩

/-- Where nothing is discarded, zeros are written to one range after the other. -/
theorem clearRanges_cons (r : BlockRange) (rest : List BlockRange) :
    clearRanges run hrun false (r :: rest) =
      zeroFrom run hrun r.byteStart r.byteLength 0 >>= fun _ => clearRanges run hrun false rest := by
  rw [clearRanges]
  rfl

/-- **Cleared ranges**: whether a range is discarded or zeros are written to it, all of it is set. -/
theorem planned_clearRanges (discarding : Bool) (ranges : List BlockRange) :
    PlannedWrites D (clearRanges run hrun discarding ranges) fun r ws =>
      (∀ i, Write.Covered ws i → InRanges ranges i) ∧
      (r = .ok () → ∀ i, InRanges ranges i → Write.Covered ws i) := by
  induction ranges with
  | nil =>
    exact Planned.pure ⟨fun i h => absurd h (Write.not_covered_nil i),
      fun _ i h => absurd h (not_inRanges_nil i)⟩
  | cons range rest ih =>
    let window (i : Nat) : Prop := range.byteStart ≤ i ∧ i < range.byteStart + range.byteLength
    -- the other ranges, after writes `ws` that set this one
    have hrest (ws : List Write) (hin : ∀ i, Write.Covered ws i → window i)
        (hcover : ∀ i, window i → Write.Covered ws i) :
        PlannedWrites D (clearRanges run hrun discarding rest) fun r ws' =>
          (∀ i, Write.Covered (ws ++ ws') i → InRanges (range :: rest) i) ∧
          (r = .ok () → ∀ i, InRanges (range :: rest) i → Write.Covered (ws ++ ws') i) := by
      refine ih.imp fun r ws' ⟨hin', hcover'⟩ => ⟨fun i h => ?_, fun hr i h => ?_⟩
      · rw [Write.covered_append] at h
        exact (inRanges_cons ..).mpr (h.imp (hin i) (hin' i))
      · rw [Write.covered_append]
        exact ((inRanges_cons ..).mp h).imp (hcover i) (hcover' hr i)
    -- zeros, after writes that stay within the range
    have hzeros (ws : List Write) (hin : ∀ i, Write.Covered ws i → window i) :
        PlannedWrites D (zeroFrom run hrun range.byteStart range.byteLength 0 >>= fun _ =>
          clearRanges run hrun discarding rest) fun r ws' =>
          (∀ i, Write.Covered (ws ++ ws') i → InRanges (range :: rest) i) ∧
          (r = .ok () → ∀ i, InRanges (range :: rest) i → Write.Covered (ws ++ ws') i) := by
      have hboth {ws' : List Write} (hin' : ∀ i, Write.Covered ws' i → window i) (i : Nat)
          (h : Write.Covered (ws ++ ws') i) : window i :=
        ((Write.covered_append ws ws' i).mp h).elim (hin i) (hin' i)
      have hfirst := @planned_zeroFrom D run hrun range.byteStart range.byteLength 0
      rw [Nat.add_zero] at hfirst
      refine Planned.bind hfirst ?_ ?_
      · exact fun e _ ws' h => ⟨fun i hi => (inRanges_cons ..).mpr (.inl (hboth h.1 i hi)), nofun⟩
      · rintro ⟨⟩ - ws' ⟨hin', hcover'⟩
        refine (hrest (ws ++ ws') (hboth hin') fun i hi => ?_).imp fun r ws'' h => ?_
        · exact (Write.covered_append ws ws' i).mpr (.inr (hcover' rfl i hi))
        · rwa [List.append_assoc] at h
    rw [clearRanges]
    cases discarding with
    | false => exact hzeros [] fun i h => absurd h (Write.not_covered_nil i)
    | true =>
      refine Planned.bind (DeviceM.planned_discard range.byteStart range.byteLength) ?_ ?_
      · exact fun e _ ws h => ⟨fun i hi => (inRanges_cons ..).mpr (.inl (h.1 i hi)), nofun⟩
      · rintro discarded - ws ⟨hin, hcover⟩
        cases discarded with
        | false => exact hzeros ws hin
        | true => exact hrest ws hin (hcover rfl)

/-- What a set is cleared with. -/
def cleared (set : BlockSet) (discarding : Bool) : DeviceM BlockError Unit :=
  if hrun : 0 < min zeroRun set.byteLength then
    (clearRanges (min zeroRun set.byteLength) hrun discarding set.ranges).mapError .os
  else pure ()

/-- An erase discards where the device can, and where it cannot, an erase must be allowed. -/
theorem outcome_zero (set : BlockSet) (isErase allowFileErase : Bool) (d : Device) :
    outcome (set.zero isErase allowFileErase) d =
      outcome (if (isErase && !d.isBlockDevice && !allowFileErase) = true then
        throw .notBlockDevice else set.cleared (isErase && d.isBlockDevice)) d := by
  rw [zero, outcome_get_bind]
  dsimp only
  split <;> rfl

/-- A set that is not empty has runs to fill it with. -/
theorem zeroRun_pos {set : BlockSet} (hset : set.Sound) (h : set.ranges ≠ []) :
    0 < min zeroRun set.byteLength := by
  obtain ⟨r, rest, hranges⟩ := List.exists_cons_of_ne_nil h
  have hr := BlockRange.byteLength_pos (hset.nonempty r (hranges ▸ List.mem_cons_self))
  have hrun : 0 < zeroRun := by decide
  rw [hset.byteLength_eq, hranges, rangesLength_cons]
  omega

/-- **A set that is cleared** is set as a whole, and nothing outside it is. -/
theorem planned_zero {set : BlockSet} (hset : set.Sound) (isErase allowFileErase : Bool) :
    PlannedWrites D (set.zero isErase allowFileErase) fun r ws =>
      (∀ i, Write.Covered ws i → set.HasByte i) ∧
      (r = .ok () → ∀ i, set.HasByte i → Write.Covered ws i) := by
  have hcleared (discarding : Bool) : PlannedWrites D (set.cleared discarding) fun r ws =>
      (∀ i, Write.Covered ws i → set.HasByte i) ∧
      (r = .ok () → ∀ i, set.HasByte i → Write.Covered ws i) := by
    rw [cleared]
    split
    next hrun =>
      refine (planned_clearRanges discarding set.ranges).mapError fun r ws h => ⟨h.1, fun hr => ?_⟩
      exact h.2 (mapError_eq_ok.mp hr)
    next hrun =>
      refine Planned.pure ⟨fun i h => absurd h (Write.not_covered_nil i), fun _ i h => ?_⟩
      have hranges : set.ranges = [] := Decidable.not_not.mp fun h => hrun (zeroRun_pos hset h)
      rw [HasByte, hranges] at h
      exact absurd h (not_inRanges_nil i)
  refine Planned.of_outcome (y := if (isErase && !D.isSome && !allowFileErase) = true then
    throw .notBlockDevice else set.cleared (isErase && D.isSome)) ?_ fun d hd => ?_
  · split
    · exact Planned.throw ⟨fun i h => absurd h (Write.not_covered_nil i), fun h => by cases h⟩
    · exact hcleared _
  · rw [outcome_zero, Device.isBlockDevice, hd]

end BlockSet

end BlockUpdate
