import BlockUpdate.Proofs.DiffScan
import BlockUpdate.Proofs.PatchRuns
import BlockUpdate.Proofs.SampleCodecs
import BlockUpdate.Standard
import Mathlib

/-!
# Block patches rebuild their target

A generated patch, applied to the data that it was generated from, makes the data that it was
generated for. The scan says what its triples account for (`Rebuilds`); this file follows an
application through the same triples. It is one rule for each level of the loop, each of which says
which new bytes are handed over: a piece of a run, a run, a triple, all triples.

- `differences`, `sums_differences`: the diff bytes, and the new bytes that come back from them.
- `diffRun_emits`, `extraRun_emits`, `step_emits`: one triple.
- **`Rebuilds.loop_emits`**: the triples emitted so far, and whatever comes after them.
- `layout`, `parse_layout`, `streams_layout`: the header and the streams of a patch read back.
- **`apply_emits`**: a generated patch rebuilds its target, also with more behind it, as in an image
  patch. **`apply_generate`** says it of the patch alone.
-/

namespace BlockUpdate

namespace BlockPatch

variable {s : Streams} {old new : Bytes}

/-! ## Differences -/

/-- The differences of `n` new bytes to the old bytes that they are aligned with. -/
def differences (old new : Bytes) (source position n : Nat) : Bytes :=
  Bytes.pushAll (fun j => new.byte (position + j) - old.byte (source + j)) n 0 ByteArray.empty

variable (old new) in
@[simp] theorem size_differences (source position n : Nat) :
    (differences old new source position n).size = n := by
  rw [differences, Bytes.size_pushAll, ByteArray.size_empty, Nat.zero_add]

theorem byte_differences (source position n j : Nat) :
    (differences old new source position n).byte j =
      if j < n then new.byte (position + j) - old.byte (source + j) else 0 := by
  rw [differences, Bytes.byte_pushAll, ByteArray.size_empty, if_neg (Nat.not_lt_zero j)]
  simp only [Nat.zero_add, Nat.sub_zero]

theorem diffBytes_eq (source position n : Nat) (i : Nat) (out : Bytes) :
    diffBytes old new source position n i out =
      Bytes.pushAll (fun j => new.byte (position + j) - old.byte (source + j)) n i out := by
  induction n generalizing i out with
  | zero => rfl
  | succ n ih =>
    have hnext : (i : Int) + 1 = ((i + 1 : Nat) : Int) := rfl
    have hnew : (position : Int) + i = ((position + i : Nat) : Int) := rfl
    have hold : (source : Int) + i = ((source + i : Nat) : Int) := rfl
    rw [diffBytes, Bytes.pushAll, hnew, hold, Bytes.getD_at?, Bytes.getD_at?, hnext, ih]

theorem diffBytes_eq_append (source position n : Nat) (out : Bytes) :
    diffBytes old new source position n 0 out = out ++ differences old new source position n := by
  have h := @diffBytes_eq old new source position n 0 out
  rw [Bytes.pushAll_eq_append] at h
  exact h

/-- **Adding the old bytes to the differences gives the new bytes**. -/
theorem sums_differences {source position n : Nat} (h : position + n ≤ new.size) :
    sums old source (differences old new source position n) =
      new.extract position (position + n) := by
  refine Bytes.ext_byte ?_ fun j => ?_
  · rw [size_sums, size_differences, ByteArray.size_extract]
    omega
  · have hold : ((source : Int) + j) = ((source + j : Nat) : Int) := rfl
    rw [byte_sums, byte_differences, size_differences, hold, Bytes.getD_at?, Bytes.byte_extract]
    split_ifs <;> first | omega | rfl | exact UInt8.sub_add_cancel _ _

/-! ## Runs -/

/-- **A diff run** hands over the new bytes whose differences it reads. -/
theorem diffRun_emits (hlimit : old.size < 2 ^ 63) {n source position : Nat}
    (hold : source + n ≤ old.size) (hnew : position + n ≤ new.size) {c : Cursors}
    (hc : c.old = source) {front rest : Bytes} (hfront : front.size = c.diff)
    (hdiff : s.diff = front ++ (differences old new source position n ++ rest)) :
    (diffRun s old n c).Emits { c with diff := c.diff + n, old := (source + n : Nat) }
      (new.extract position (position + n)) := by
  have hlimit' : positionLimit = 2 ^ 63 := rfl
  have hextract := Bytes.extract_append hdiff hfront
  have hsize : c.diff + n ≤ s.diff.size := by
    rw [hdiff, ByteArray.size_append, ByteArray.size_append, size_differences]
    omega
  have hrun : (diffRun s old n c).Emits _ _ := diffRun_emits_sums (by omega) hsize
  rw [size_differences] at hextract
  rw [hextract, hc, sums_differences hnew] at hrun
  exact hrun

/-- **An extra run** hands over the bytes that it reads. -/
theorem extraRun_emits {data : Bytes} {c : Cursors} {front rest : Bytes}
    (hfront : front.size = c.extra) (hextra : s.extra = front ++ (data ++ rest)) :
    (extraRun s data.size c).Emits { c with extra := c.extra + data.size } data := by
  have hsize : c.extra + data.size ≤ s.extra.size := by
    rw [hextra, ByteArray.size_append, ByteArray.size_append]
    omega
  have hrun := extraRun_emits_extract (s := s) hsize
  rwa [Bytes.extract_append hextra hfront] at hrun

/-! ## Triples -/

theorem size_encode (t : Control) : t.encode.size = controlBytes := by
  simp only [Control.encode, ByteArray.size_append, SignMagnitude.size_encode, controlBytes]

/-- **A triple reads back** at its offset. -/
theorem controlAt_encode {t : Control} {control front rest : Bytes} {offset : Nat}
    (hcontrol : control = front ++ (t.encode ++ rest)) (hoffset : front.size = offset)
    (hadd : t.add.natAbs < SignMagnitude.signWeight)
    (hcopy : t.copy.natAbs < SignMagnitude.signWeight)
    (hseek : t.seek.natAbs < SignMagnitude.signWeight) : controlAt control offset = .ok t := by
  have hslice := Bytes.slice?_append hcontrol hoffset
  have hsplit₁ : t.encode = ByteArray.empty ++ (SignMagnitude.encode t.add ++
      (SignMagnitude.encode t.copy ++ SignMagnitude.encode t.seek)) := by
    rw [ByteArray.empty_append, Control.encode, ByteArray.append_assoc]
  have hsplit₂ : t.encode = SignMagnitude.encode t.add ++ (SignMagnitude.encode t.copy ++
      SignMagnitude.encode t.seek) := by
    rw [Control.encode, ByteArray.append_assoc]
  have hsplit₃ : t.encode = SignMagnitude.encode t.add ++ SignMagnitude.encode t.copy ++
      (SignMagnitude.encode t.seek ++ ByteArray.empty) := by
    rw [ByteArray.append_empty, Control.encode]
  have hread₁ : SignMagnitude.read t.encode 0 = .ok t.add :=
    SignMagnitude.read_encode hsplit₁ rfl hadd
  have hread₂ : SignMagnitude.read t.encode 8 = .ok t.copy :=
    SignMagnitude.read_encode hsplit₂ (SignMagnitude.size_encode _) hcopy
  have hread₃ : SignMagnitude.read t.encode 16 = .ok t.seek :=
    SignMagnitude.read_encode hsplit₃
      (by simp only [ByteArray.size_append, SignMagnitude.size_encode]) hseek
  rw [size_encode] at hslice
  rw [controlAt, hslice]
  dsimp only
  rw [hread₁, hread₂, hread₃]
  rfl

theorem size_join_encode (ts : List Control) :
    (Bytes.join (ts.map Control.encode)).size = controlBytes * ts.length := by
  induction ts with
  | nil => rfl
  | cons t ts ih =>
    rw [List.map_cons, Bytes.join_cons, ByteArray.size_append, size_encode, ih, List.length_cons,
      Nat.mul_succ, Nat.add_comm]

/-- **One triple** hands over the new bytes that it accounts for. -/
theorem step_emits (hlimit : old.size < 2 ^ 63) {add copy next source position : Nat}
    (hnew : position + add + copy ≤ new.size) (hold : source + add ≤ old.size)
    (hnext : next ≤ old.size) {c : Cursors} (hc : c.old = source) {diff extra rest rest' : Bytes}
    (hdiffSize : diff.size = c.diff)
    (hdiff : s.diff = diff ++ (differences old new source position add ++ rest))
    (hextraSize : extra.size = c.extra)
    (hextra : s.extra =
      extra ++ (new.extract (position + add) (position + add + copy) ++ rest')) :
    (step s old new.size ⟨add, copy, next - (source + add)⟩ position c).Emits
      (position + add + copy, ⟨c.diff + add, c.extra + copy, next⟩)
      (new.extract position (position + add + copy)) := by
  have hcopySize : (new.extract (position + add) (position + add + copy)).size = copy := by
    rw [ByteArray.size_extract]
    omega
  have hadd := diffRun_emits hlimit hold (by omega) hc hdiffSize hdiff
  have hcopy := extraRun_emits
    (c := { c with diff := c.diff + add, old := (source + add : Nat) }) hextraSize hextra
  rw [hcopySize] at hcopy
  have hlimit' : positionLimit = 2 ^ 63 := rfl
  have hseek : ((source + add : Nat) : Int) + (next - (source + add)) = next := by omega
  rw [step, Nat.add_assoc, extract_add, ← Nat.add_assoc]
  dsimp only
  rw [if_neg (by omega)]
  simp only [Int.toNat_natCast]
  rw [if_neg (by omega)]
  refine .bind hadd ?_
  rw [if_neg (by omega)]
  refine .bind_pure hcopy ?_
  dsimp only
  rw [hseek, if_neg (by omega)]
  exact .pure _

/-- **The triples emitted so far** hand over the new data that they account for, and what comes
after them goes on from there. If they account for all of it, none of the triples behind them is
read. -/
theorem Rebuilds.loop_emits (hold : old.size < 2 ^ 63) (hnew : new.size < 2 ^ 63) {out : Output}
    {position source : Nat} (h : Rebuilds old new out position source) {control diff extra : Bytes}
    (hcontrol : s.control = Bytes.join (out.controls.reverse.map Control.encode) ++ control)
    (hdiff : s.diff = out.diff ++ diff) (hextra : s.extra = out.extra ++ extra) {data : Bytes}
    (hrest : (loop s old new.size (controlBytes * out.controls.length) position
      ⟨out.diff.size, out.extra.size, source⟩).Emits () data) :
    (loop s old new.size 0 0 ⟨0, 0, 0⟩).Emits () (new.extract 0 position ++ data) := by
  induction h generalizing control diff extra data with
  | start =>
    rw [ByteArray.extract_same, ByteArray.empty_append]
    exact hrest
  | @run out position source add copy next before hwithin hold' hnext ih =>
    dsimp only at hcontrol hdiff hextra hrest
    rw [diffBytes_eq_append, ByteArray.append_assoc] at hdiff
    rw [ByteArray.append_assoc] at hextra
    rw [List.reverse_cons, List.map_append, Bytes.join_append, List.map_singleton, Bytes.join_cons,
      Bytes.join_nil, ByteArray.append_empty, ByteArray.append_assoc] at hcontrol
    have hwhole : new.extract 0 (position + add + copy) =
        new.extract 0 position ++ new.extract position (position + add + copy) := by
      rw [ByteArray.extract_append_extract]
      congr 1
      omega
    rw [hwhole, ByteArray.append_assoc]
    refine ih hcontrol hdiff hextra ?_
    have hposition : position ≤ new.size := by omega
    rw [loop]
    by_cases hdone : new.size ≤ position
    · -- nothing is left to rebuild, and neither loop reads its triple
      have hadd : position + add + copy = position := by omega
      rw [hadd, loop, if_pos hdone] at hrest
      rw [if_pos hdone, hadd, ByteArray.extract_same, ByteArray.empty_append]
      exact hrest
    · have hoffset : (Bytes.join (out.controls.reverse.map Control.encode)).size =
          controlBytes * out.controls.length := by
        rw [size_join_encode, List.length_reverse]
      have hread : controlAt s.control (controlBytes * out.controls.length) =
          .ok ⟨add, copy, next - (source + add)⟩ := by
        refine controlAt_encode hcontrol hoffset ?_ ?_ ?_ <;>
          dsimp only [SignMagnitude.signWeight] <;> omega
      have hstep := step_emits (c := ⟨out.diff.size, out.extra.size, source⟩) hold hwithin hold'
        hnext rfl rfl hdiff rfl hextra
      rw [if_neg hdone]
      split
      · rename_i e herror
        cases hread.symm.trans herror
      · rename_i t hok
        obtain rfl := Except.ok.inj (hread.symm.trans hok)
        have hcopy : (new.extract (position + add) (position + add + copy)).size = copy := by
          rw [ByteArray.size_extract]
          omega
        rw [diffBytes_eq_append, List.length_cons, Nat.mul_succ, ByteArray.size_append,
          ByteArray.size_append, size_differences, hcopy] at hrest
        exact hstep.bind hrest

/-! ## Whole patches -/

/-- The bytes of a patch with the given streams, the last of which may go on behind the patch. -/
def layout (newSize : Nat) (control diff extra : Bytes) : Bytes :=
  magic ++ (SignMagnitude.encode control.size ++ (SignMagnitude.encode diff.size ++
    (SignMagnitude.encode newSize ++ (control ++ (diff ++ extra)))))

variable {newSize : Nat} {control diff extra : Bytes}

theorem size_magic : magic.size = 8 := by decide

theorem size_layout (newSize : Nat) (control diff extra : Bytes) :
    (layout newSize control diff extra).size =
      headerSize + control.size + diff.size + extra.size := by
  simp only [layout, ByteArray.size_append, SignMagnitude.size_encode, size_magic, headerSize]
  omega

/-- **The header reads back.** -/
theorem parse_layout (hcontrol : control.size < 2 ^ 63) (hdiff : diff.size < 2 ^ 63)
    (hnew : newSize < 2 ^ 63) :
    Header.parse (layout newSize control diff extra) = .ok ⟨control.size, diff.size, newSize⟩ := by
  have hsize := size_layout newSize control diff extra
  have hmagic : (layout newSize control diff extra).takeFirst 8 = magic := by
    have := Bytes.takeFirst_append magic (SignMagnitude.encode control.size ++
      (SignMagnitude.encode diff.size ++ (SignMagnitude.encode newSize ++
        (control ++ (diff ++ extra)))))
    rwa [size_magic] at this
  have hsplit₂ : layout newSize control diff extra =
      magic ++ SignMagnitude.encode control.size ++ (SignMagnitude.encode diff.size ++
        (SignMagnitude.encode newSize ++ (control ++ (diff ++ extra)))) := by
    rw [layout, ByteArray.append_assoc]
  have hsplit₃ : layout newSize control diff extra =
      magic ++ SignMagnitude.encode control.size ++ SignMagnitude.encode diff.size ++
        (SignMagnitude.encode newSize ++ (control ++ (diff ++ extra))) := by
    rw [layout, ByteArray.append_assoc, ByteArray.append_assoc]
  have hfits : ∀ {n : Nat}, n < 2 ^ 63 → (n : Int).natAbs < SignMagnitude.signWeight := id
  have hread₁ :
      SignMagnitude.read (layout newSize control diff extra) 8 = .ok (control.size : Int) :=
    SignMagnitude.read_encode rfl size_magic (hfits hcontrol)
  have hread₂ :
      SignMagnitude.read (layout newSize control diff extra) 16 = .ok (diff.size : Int) :=
    SignMagnitude.read_encode hsplit₂
      (by simp only [ByteArray.size_append, SignMagnitude.size_encode, size_magic]) (hfits hdiff)
  have hread₃ : SignMagnitude.read (layout newSize control diff extra) 24 = .ok (newSize : Int) :=
    SignMagnitude.read_encode hsplit₃
      (by simp only [ByteArray.size_append, SignMagnitude.size_encode, size_magic]) (hfits hnew)
  rw [Header.parse, if_neg (by omega), hmagic, hread₁, hread₂, hread₃]
  simp only [bind, Except.bind, pure, Except.pure, ne_eq, not_true_eq_false, if_false]
  rw [if_neg (by omega), Int.toNat_natCast, Int.toNat_natCast, if_neg (by omega), Int.toNat_natCast]

/-- **The streams are found** behind the header. -/
theorem streams_layout (P : Primitives) :
    streams P (layout newSize control diff extra) ⟨control.size, diff.size, newSize⟩ =
      ⟨(P.bunzip2 control).bytes, (P.bunzip2 diff).bytes, (P.bunzip2 extra).bytes⟩ := by
  obtain ⟨header, hdef⟩ : ∃ header, header = magic ++ SignMagnitude.encode control.size ++
    SignMagnitude.encode diff.size ++ SignMagnitude.encode newSize := ⟨_, rfl⟩
  have hheader : header.size = headerSize := by
    simp only [hdef, ByteArray.size_append, SignMagnitude.size_encode, size_magic, headerSize]
  have hsplit₁ : layout newSize control diff extra = header ++ (control ++ (diff ++ extra)) := by
    simp only [layout, hdef, ByteArray.append_assoc]
  have hsplit₂ : layout newSize control diff extra = header ++ control ++ (diff ++ extra) := by
    rw [hsplit₁, ByteArray.append_assoc]
  have hsplit₃ : layout newSize control diff extra = header ++ control ++ diff ++ extra := by
    rw [hsplit₂, ByteArray.append_assoc (a := header ++ control)]
  have hcontrol := Bytes.extract_append hsplit₁ hheader
  have hdiff := Bytes.extract_append hsplit₂
    (by rw [ByteArray.size_append, hheader] : _ = headerSize + control.size)
  have hextra := Bytes.dropFirst_of_append hsplit₃
    (by rw [ByteArray.size_append, ByteArray.size_append, hheader] :
      _ = headerSize + control.size + diff.size)
  rw [streams, hcontrol, hdiff, hextra]

variable {P : Primitives}

theorem generate_append (P : Primitives) (old new rest : Bytes) :
    generate P old new ++ rest =
      layout new.size (P.bzip2 (Bytes.join ((controls old new).controls.map Control.encode)))
        (P.bzip2 (controls old new).diff) (P.bzip2 (controls old new).extra ++ rest) := by
  simp only [generate, layout, ByteArray.append_assoc]

/-- **A generated patch rebuilds its target**, whatever stands behind the patch. -/
theorem apply_emits (hbzip2 : ∀ data rest, (P.bunzip2 (P.bzip2 data ++ rest)).bytes = data)
    (hold : old.size < 2 ^ 63) (hnew : new.size < 2 ^ 63)
    (hpatch : (generate P old new).size < 2 ^ 63) (rest : Bytes) :
    (apply P (generate P old new ++ rest) old).Emits new.size new := by
  have hsize := congrArg ByteArray.size (generate_append P old new ByteArray.empty)
  simp only [layout, ByteArray.size_append, ByteArray.size_empty] at hsize
  have hwhole : ∀ data, (P.bunzip2 (P.bzip2 data)).bytes = data := by
    intro data
    have := hbzip2 data ByteArray.empty
    rwa [ByteArray.append_empty] at this
  obtain ⟨out, source, hrebuilds, hcontrols⟩ := controls_rebuilds old new
  rw [generate_append, apply]
  refine .ofExcept_bind (parse_layout (by omega) (by omega) hnew) ?_
  rw [streams_layout, hwhole, hwhole, hbzip2, hcontrols]
  have hend : (loop ⟨Bytes.join (out.controls.reverse.map Control.encode), out.diff, out.extra⟩ old
      new.size (controlBytes * out.controls.length) new.size
      ⟨out.diff.size, out.extra.size, source⟩).Emits () ByteArray.empty := by
    rw [loop, if_pos (Nat.le_refl _)]
    exact .pure ()
  have hloop := hrebuilds.loop_emits hold hnew (ByteArray.append_empty).symm
    (ByteArray.append_empty).symm (ByteArray.append_empty).symm hend
  rw [ByteArray.append_empty, ByteArray.extract_zero_size] at hloop
  exact hloop.bind_pure (.pure _)

/-- **Block patches round trip**: applied to the data that it was generated from, a patch ends well,
says how many bytes it made, and made the target. Of the codec it takes only that decoding inverts
encoding, also when further bytes follow. Byte strings in memory are shorter than `2 ^ 63`. -/
theorem apply_generate (hbzip2 : ∀ data rest, (P.bunzip2 (P.bzip2 data ++ rest)).bytes = data)
    (hold : old.size < 2 ^ 63) (hnew : new.size < 2 ^ 63)
    (hpatch : (generate P old new).size < 2 ^ 63) :
    (apply P (generate P old new) old).emission.outcome = .ok new.size ∧
      (apply P (generate P old new) old).emission.bytes = new := by
  have h := apply_emits hbzip2 hold hnew hpatch ByteArray.empty
  rw [ByteArray.append_empty] at h
  exact ⟨h.outcome, h.bytes⟩

/-! ## An example -/

/-- The three streams of a patch that appends a byte to two, and what they are compressed to. -/
def appendSamples : List Sample :=
  [⟨[2, 0, 0, 0, 0, 0, 0, 0, 1, 0, 0, 0, 0, 0, 0, 0, 1, 0, 0, 0, 0, 0, 0, 128],
    [66, 90, 104, 57, 49, 65, 89, 38, 83, 89, 180, 22, 59, 191, 0, 0, 7, 64, 64, 120, 0, 64, 0, 32,
      0, 33, 36, 244, 152, 102, 131, 133, 129, 79, 101, 194, 238, 72, 167, 10, 18, 22, 130, 199,
      119, 224]⟩,
    ⟨[0, 0],
    [66, 90, 104, 57, 49, 65, 89, 38, 83, 89, 255, 72, 155, 130, 0, 0, 0, 192, 0, 64, 0, 32, 0, 33,
      24, 70, 194, 238, 72, 167, 10, 18, 31, 233, 19, 112, 64]⟩,
    ⟨[99],
    [66, 90, 104, 57, 49, 65, 89, 38, 83, 89, 16, 17, 160, 5, 0, 0, 0, 1, 0, 8, 0, 32, 0, 33, 24,
      70, 130, 238, 72, 167, 10, 18, 2, 2, 52, 0, 160]⟩]

/-- Primitives that compress the streams of a patch as samples say. -/
def withSamples (samples : List Sample) : Primitives :=
  { Primitives.standard with
    bunzip2 := Sample.decode samples
    bzip2 := Sample.encode samples }

theorem generate_sample :
    generate (withSamples appendSamples) (Bytes.ofText "ab") (Bytes.ofText "abc") =
      layout 3 (Bytes.ofList (appendSamples[0].stream)) (Bytes.ofList (appendSamples[1].stream))
        (Bytes.ofList (appendSamples[2].stream)) := by
  have hcontrols : controls (Bytes.ofText "ab") (Bytes.ofText "abc") =
      ⟨[⟨2, 1, -1⟩], Bytes.zeros 2, Bytes.ofText "c"⟩ := by cbv
  rw [← ByteArray.append_empty (b := generate _ _ _), generate_append, hcontrols]
  rfl

theorem apply_generate_sample :
    (apply (withSamples appendSamples)
        (generate (withSamples appendSamples) (Bytes.ofText "ab") (Bytes.ofText "abc"))
        (Bytes.ofText "ab")).emission.outcome = .ok 3 ∧
      (apply (withSamples appendSamples)
        (generate (withSamples appendSamples) (Bytes.ofText "ab") (Bytes.ofText "abc"))
        (Bytes.ofText "ab")).emission.bytes = Bytes.ofText "abc" := by
  have hapart : Sample.Apart appendSamples := by decide
  refine apply_generate (fun data rest => ?_) (by decide) (by decide) ?_
  · exact congrArg Decoded.bytes (Sample.decode_encode hapart data rest)
  · rw [generate_sample, size_layout]
    decide

end BlockPatch

end BlockUpdate
