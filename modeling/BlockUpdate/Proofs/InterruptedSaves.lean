import BlockUpdate.Proofs.JsonPrefixes
import BlockUpdate.Proofs.MarkerProgress
import BlockUpdate.Proofs.SavedMarker

/-!
# A marker whose save is cut short

A marker is written over the one before, so an interruption leaves the first bytes of the new one.
An empty file is taken for no marker, and the session that goes on from it begins anew. Of any other
part no marker can be read, and no later session gets to its commands or removes the file.

- `RetryMarker.decode_takeFirst`: a part of a marker is no marker.
- **`Session.runScript_of_malformed`**, `Session.resumedRuns_of_malformed`: a session that is to go
  on from a file that holds no marker fails, and so do all later ones.
- **`RetryMarker.interrupted_save`**: what an interruption leaves, and when that does no harm.
-/

namespace BlockUpdate

open FileTree

namespace RetryMarker

variable {t u : FileTree} {p : Path} {place : Place} {m : RetryMarker} {n : Nat}

/-! ## Parts of a marker -/

/-- **A part of a marker** is no marker. -/
theorem decode_takeFirst (hpos : 0 < n) (hcut : n < m.encode.size) :
    decode (m.encode.takeFirst n) = none := by
  have htake : (m.encode.takeFirst n).data.toList = m.encode.data.toList.take n := by
    rw [Bytes.takeFirst, ByteArray.data_extract, Array.toList_extract]
    rfl
  have hopen : (m.encode.takeFirst n).data.toList =
      0x7b :: (m.encode.data.toList.take n).drop 1 := by
    obtain ⟨k, rfl⟩ := Nat.exists_eq_succ_of_ne_zero (Nat.ne_of_gt hpos)
    rw [htake, toList_encode, compact_eq, List.take_succ_cons]
    rfl
  have hleft : m.encode.data.toList.drop n ≠ [] := by
    refine fun hnil => absurd (List.drop_eq_nil_iff.mp hnil) (Nat.not_le.mpr ?_)
    exact hcut
  have hparse : JsonValue.parse (m.encode.takeFirst n) = none := by
    have hwhole : ∀ fuel, 4 ≤ fuel → JsonValue.value? fuel
        ((m.encode.takeFirst n).data.toList ++ m.encode.data.toList.drop n) =
          some (m.document, []) := by
      intro fuel hfuel
      rw [htake, List.take_append_drop]
      exact m.value?_encode hfuel
    exact JsonValue.parse_eq_none_of_cut hopen hwhole hleft
  rw [decode, hparse]
  rfl

/-- What is loaded from the first bytes of a marker. -/
theorem load_of_takeFirst (hp : u.locate p = .ok place) (hm : m.index < Decimal.limit64)
    (hfile : u.get? place = some (.file (m.encode.takeFirst n))) :
    load u p =
      if n = 0 then .ok none
      else if n < m.encode.size then .error .malformed
      else .ok (some m) := by
  have hsize := Bytes.size_takeFirst m.encode n
  have hpos := m.size_encode_pos
  rw [load_of_locate hp hfile]
  by_cases hzero : n = 0
  · rw [if_pos hzero, if_pos (by omega)]
  · rw [if_neg hzero, if_neg (by omega)]
    by_cases hcut : n < m.encode.size
    · rw [if_pos hcut, decode_takeFirst (by omega) hcut]
    · rw [if_neg hcut, Bytes.takeFirst_of_size_le (by omega), decode_encode hm]

/-! ## Files without a marker -/

/-- **No marker can be read** from a file that is not empty and holds something else. -/
theorem load_eq_malformed :
    load t p = .error .malformed ↔ ∃ place data, t.locate p = .ok place ∧
      t.get? place = some (.file data) ∧ data.size ≠ 0 ∧ decode data = none := by
  constructor
  · intro h
    rw [load] at h
    split at h
    · rename_i data hread
      obtain ⟨node, hnode, hdata⟩ := except_bind_eq_ok.mp hread
      obtain ⟨place, hplace, hfound⟩ := except_bind_eq_ok.mp hnode
      split at hfound
      · rename_i found hget
        obtain rfl := Except.ok.inj hfound
        split at hdata
        · obtain rfl := Except.ok.inj hdata
          split_ifs at h with hsize
          split at h
          · cases h
          · rename_i hdecode
            exact ⟨place, _, hplace, hget, hsize, hdecode⟩
        · cases hdata
      · cases hfound
    · split_ifs at h
      cases h
    · cases h
  · rintro ⟨place, data, hplace, hfile, hsize, hdecode⟩
    rw [load_of_locate hplace hfile, if_neg hsize, hdecode]

/-- New directories do not change that. -/
theorem malformed_of_grown (hgrown : Grown t u) (h : load t p = .error .malformed) :
    load u p = .error .malformed := by
  obtain ⟨place, data, hplace, hfile, hsize, hdecode⟩ := load_eq_malformed.mp h
  refine load_eq_malformed.mpr ⟨place, data, locate_mono (fun q => hgrown.directory) hplace, ?_,
    hsize, hdecode⟩
  rcases hgrown.get? place with hsame | ⟨hnone, -⟩
  · rw [hsame, hfile]
  · rw [hfile] at hnone
    cases hnone

end RetryMarker

namespace Session

variable {P : Primitives} {o : SessionOptions} {lines : List String} {inputs : ScriptInputs}
  {w : World} {t : FileTree}

/-! ## Sessions that find such a file -/

/-- A session that is to go on from a marker fails before it comes to its commands, if no marker can
be read. Directories may have been made. -/
theorem prepare_of_malformed (hwrite : o.canWrite = true) (hretry : o.retry = true)
    (hload : RetryMarker.load w.files o.markerPath = .error .malformed) (lines : List String)
    (inputs : ScriptInputs) :
    ∃ e t, outcome (prepare o lines inputs) w = (.error e, { w with files := t }) ∧
      Grown w.files t := by
  have hopens : openStash o = Stash.open_ o.stashDir false := by
    rw [openStash_eq o hwrite, hretry]
    rfl
  have hskips : ∀ commands t, Grown w.files t →
      outcome (findSkip o commands) t = (.error .malformed, t) := by
    intro commands t hgrown
    rw [findSkip_resumed hretry, RetryMarker.malformed_of_grown hgrown hload]
    rfl
  have hmade : ∀ {t₁ t₂ : FileTree} {s : Stash}, Grown w.files t₁ →
      outcome (openStash o) t₁ = (.ok s, t₂) → Grown w.files t₂ := by
    intro t₁ t₂ s hgrown hopen
    rw [hopens] at hopen
    exact hgrown.trans (FileM.makeDirectories_eq_ok (open_kept_eq_ok.mp hopen).1).1
  rcases hrun : outcome (prepare o lines inputs) w with ⟨e | prepared, w'⟩
  · obtain ⟨t, hfails, rfl⟩ := prepare_eq_error.mp hrun
    refine ⟨e, t, rfl, ?_⟩
    cases hfails with
    | header => exact Grown.refl _
    | workDir _ hmake => exact (FileM.makeDirectories_again hmake).1
    | stash _ hmake hopen =>
      rw [hopens] at hopen
      obtain ⟨_, hopen, -⟩ := (open_kept_eq_error (Bool.and_false _)).mp hopen
      exact (FileM.makeDirectories_eq_ok hmake).1.trans (FileM.makeDirectories_again hopen).1
    | skip _ hmake hopen hskip =>
      have hgrown := hmade (FileM.makeDirectories_eq_ok hmake).1 hopen
      rw [hskips _ _ hgrown] at hskip
      obtain rfl : _ = t := congrArg Prod.snd hskip
      exact hgrown
    | machine _ hmake hopen hskip =>
      rw [hskips _ _ (hmade (FileM.makeDirectories_eq_ok hmake).1 hopen)] at hskip
      cases congrArg Prod.fst hskip
  · obtain ⟨_, _, _, _, _, _, _, _, -, hmake, hopen, hskip, -⟩ := prepare_eq_ok.mp hrun
    rw [hskips _ _ (hmade (FileM.makeDirectories_eq_ok hmake).1 hopen)] at hskip
    cases congrArg Prod.fst hskip

/-- **A session that finds a part of a marker** fails and changes neither the target nor a file. -/
theorem runScript_of_malformed (hwrite : o.canWrite = true) (hretry : o.retry = true)
    (hload : RetryMarker.load w.files o.markerPath = .error .malformed) (P : Primitives)
    (lines : List String) (inputs : ScriptInputs) :
    ∃ e t, outcome (runScript P o lines inputs) w = (.error e, { w with files := t }) ∧
      Grown w.files t := by
  obtain ⟨e, t, hprepare, hgrown⟩ := prepare_of_malformed hwrite hretry hload lines inputs
  exact ⟨e, t, outcome_bind_of_error hprepare _, hgrown⟩

/-- Sessions that go on from a marker, one after the other. -/
def resumedRuns (P : Primitives) (o : SessionOptions) :
    List (List String × ScriptInputs) → World → List (Except TransferError Summary) × World
  | [], w => ([], w)
  | (lines, inputs) :: rest, w =>
    let (result, w) := outcome (runScript P { o with retry := true } lines inputs) w
    let (results, w) := resumedRuns P o rest w
    (result :: results, w)

/-- **All sessions that find a part of a marker** fail, whatever they are to run. -/
theorem resumedRuns_of_malformed (hwrite : o.canWrite = true)
    (hload : RetryMarker.load w.files o.markerPath = .error .malformed) (P : Primitives)
    (runs : List (List String × ScriptInputs)) :
    (∀ result ∈ (resumedRuns P o runs w).1, ∃ e, result = .error e) ∧
      (resumedRuns P o runs w).2.device = w.device ∧
      Grown w.files (resumedRuns P o runs w).2.files := by
  induction runs generalizing w with
  | nil => exact ⟨fun _ h => absurd h List.not_mem_nil, rfl, Grown.refl _⟩
  | cons run rest ih =>
    obtain ⟨lines, inputs⟩ := run
    obtain ⟨e, t, hrun, hgrown⟩ := runScript_of_malformed (o := { o with retry := true }) hwrite rfl
      hload P lines inputs
    -- the part is still there for the next session
    obtain ⟨hfail, hdevice, hrest⟩ := ih (w := { w with files := t })
      (RetryMarker.malformed_of_grown hgrown hload)
    simp only [resumedRuns, hrun]
    refine ⟨?_, hdevice, hgrown.trans hrest⟩
    rintro result hresult
    rcases List.mem_cons.mp hresult with rfl | hresult
    · exact ⟨e, rfl⟩
    · exact hfail result hresult

end Session

namespace RetryMarker

variable {t u : FileTree} {p : Path} {place : Place} {m : RetryMarker} {n : Nat}

/-! ## Interrupted saves -/

/-- What an interruption leaves: the marker file as it was, or the first bytes of the new one. -/
theorem interrupted_save_iff (hp : t.locate p = .ok place)
    (hplain : t.get? place ≠ some .directory) :
    Interrupted (FileM.overwriteSteps p m.encode) t u ↔
      u = t ∨ u = t.put place (.file ByteArray.empty) ∨
        ∃ n, u = t.written place (m.encode.takeFirst n) := by
  rw [FileM.overwriteSteps, interrupted_fill hp hplain, interrupted_nil]
  refine or_congr_right (or_congr_right ⟨?_, Or.inl⟩)
  rintro (hpart | rfl)
  · exact hpart
  · exact ⟨m.encode.size, by rw [Bytes.takeFirst_of_size_le (Nat.le_refl _)]⟩

/-- **An interrupted save** leaves the marker file as it was or with the first `n` bytes of the new
marker, for any `n`. It has done no harm if these are all of them, or none where there was no marker
before. With no bytes the old marker is lost. With some but not all, every later session that is to
go on from the marker fails, and the file stays as it is. -/
theorem interrupted_save {t : FileTree} {p : Path} {place : Place} {m : RetryMarker}
    {prev : Option RetryMarker} (hp : t.locate p = .ok place)
    (hplain : t.get? place ≠ some .directory) (hm : m.index < Decimal.limit64)
    (hprev : load t p = .ok prev) :
    (∀ u, Interrupted (FileM.overwriteSteps p m.encode) t u →
      u = t ∨ ∃ n ≤ m.encode.size, t.Replaced place (m.encode.takeFirst n) u) ∧
    (∀ n ≤ m.encode.size, ∃ u, Interrupted (FileM.overwriteSteps p m.encode) t u ∧
      t.Replaced place (m.encode.takeFirst n) u) ∧
    ∀ n ≤ m.encode.size, ∀ u, t.Replaced place (m.encode.takeFirst n) u →
      ((load u p = .ok prev ∨ load u p = .ok (some m)) ↔
        n = m.encode.size ∨ n = 0 ∧ prev = none) ∧
      (n = 0 → load u p = .ok none) ∧
      (0 < n → n < m.encode.size → load u p = .error .malformed ∧
        ∀ (P : Primitives) (o : SessionOptions) (w : World)
          (runs : List (List String × ScriptInputs)), o.markerPath = p → o.canWrite = true →
            w.files = u →
              (∀ result ∈ (Session.resumedRuns P o runs w).1, ∃ e, result = .error e) ∧
              (Session.resumedRuns P o runs w).2.device = w.device ∧
              Grown u (Session.resumedRuns P o runs w).2.files) := by
  refine ⟨fun u hu => ?_, fun n hn => ?_, fun n hn u hu => ?_⟩
  · rcases (interrupted_save_iff hp hplain).mp hu with rfl | rfl | ⟨n, rfl⟩
    · exact .inl rfl
    · refine .inr ⟨0, Nat.zero_le _, ?_⟩
      rw [Bytes.takeFirst_zero]
      exact replaced_put hplain _
    · refine .inr ⟨min m.encode.size n, Nat.min_le_left _ _, ?_⟩
      rw [Bytes.takeFirst_min]
      exact replaced_written hplain _
  · exact ⟨_, (interrupted_save_iff hp hplain).mpr (.inr (.inr ⟨n, rfl⟩)),
      replaced_written hplain _⟩
  · have hload := load_of_takeFirst (hu.locate hplain hp) hm hu.get?_self
    have hpos := m.size_encode_pos
    refine ⟨?_, fun hzero => by rw [hload, if_pos hzero], fun hsome hcut => ?_⟩
    · by_cases hzero : n = 0
      · rw [hload, if_pos hzero]
        simp [hzero, Nat.ne_of_lt hpos, eq_comm]
      · by_cases hcut : n < m.encode.size
        · rw [hload, if_neg hzero, if_pos hcut]
          simp [hzero, Nat.ne_of_lt hcut]
        · rw [hload, if_neg hzero, if_neg hcut]
          simp [Nat.le_antisymm hn (Nat.not_lt.mp hcut)]
    · rw [if_neg (Nat.ne_of_gt hsome), if_pos hcut] at hload
      refine ⟨hload, ?_⟩
      rintro P o w runs rfl hwrite rfl
      exact Session.resumedRuns_of_malformed hwrite hload P runs

/-- The power fails when the first byte of the second command's marker is in the file: no later
session gets anywhere. -/
theorem interrupted_save_markerTree :
    let t := markerTree (encode ⟨0, "zero 2,0,1"⟩)
    let p := Session.blockOptions.markerPath
    load t p = .ok (some ⟨0, "zero 2,0,1"⟩) ∧
      ∃ u, Interrupted (FileM.overwriteSteps p (encode ⟨1, "zero 2,1,2"⟩)) t u ∧
        load u p = .error .malformed ∧
        ∀ (P : Primitives) (w : World) (runs : List (List String × ScriptInputs)), w.files = u →
          ∀ result ∈ (Session.resumedRuns P Session.blockOptions runs w).1,
            ∃ e, result = .error e := by
  intro t p
  have hp : t.locate p = .ok ["w", "p.retry.json"] := by
    have hpath : p = ⟨["w", "p.retry.json"]⟩ := by decide
    rw [hpath]
    exact locate_markerTree _
  have hfile := get?_markerTree (encode ⟨0, "zero 2,0,1"⟩)
  have hprev := load_of_encode hp (by decide) hfile
  have hsize : 1 < (encode ⟨1, "zero 2,1,2"⟩).size := by
    show 1 < (encode ⟨1, "zero 2,1,2"⟩).data.toList.length
    rw [toList_encode, compact_eq]
    exact Nat.succ_lt_succ (Nat.succ_pos _)
  obtain ⟨-, hleft, hharm⟩ := interrupted_save hp (m := ⟨1, "zero 2,1,2"⟩)
    (by rw [hfile]; simp) (by decide) hprev
  obtain ⟨u, hu, hpart⟩ := hleft 1 (Nat.le_of_lt hsize)
  obtain ⟨hload, hruns⟩ := (hharm 1 (Nat.le_of_lt hsize) u hpart).2.2 Nat.one_pos hsize
  exact ⟨hprev, u, hu, hload, fun P w runs hw => (hruns P _ w runs rfl rfl hw).1⟩

end RetryMarker

end BlockUpdate
