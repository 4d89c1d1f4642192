import BlockUpdate.Package.Verify
import BlockUpdate.Proofs.Outcome
import BlockUpdate.Proofs.UniformBlocks
import Mathlib

/-!
# Partitions checked side by side

The partitions of a manifest are checked all at once, each by a loop that reads its file in pieces.
A step of one check changes nothing for the others, so no order of the steps, and no way in which
the system cuts the reads, is seen in the verdict.

- `PartitionHash.Intact`, `PartitionHash.Fails`: what a partition should be, and what else it can
  be; **`Manifest.verifyPartition_eq_ok`**, **`Manifest.verifyPartition_eq_error`**: a check by
  itself.
- `DigestLoop`: an open file under way. `CheckStage.Step`: a step of one check, and
  `PartitionCheck.Step` one of some check among all.
- `PartitionCheck.Sound`: what is known of a check at each stage. **`PartitionCheck.Step.sound`**:
  every step keeps it.
- **`PartitionCheck.wellFounded_step`**: all orders of steps end.
- **`Manifest.verdict_exact`**: and whichever it was, the verdict is that of the first partition in
  the order of the manifest that fails.
-/

namespace BlockUpdate

/-- What can be read of an open file; of a directory nothing. -/
def Node.contents : Node → Bytes
  | .file data => data
  | .directory => ByteArray.empty

/-! ## One partition -/

namespace PartitionHash

/-- A partition is what its entry says: its file opens and holds at least so many bytes, and the
digest of these is the one of the entry, up to the case of letters. -/
def Intact (P : Primitives) (t : FileTree) (path : Path) (p : PartitionHash) : Prop :=
  ∃ file, t.node path = .ok file ∧ p.length ≤ file.contents.size ∧
    Hex.sameDigest (Checksum.text P (file.contents.takeFirst p.length)) p.sha256 = true

/-- The ways in which a partition fails its check, with the error of each. -/
inductive Fails (P : Primitives) (t : FileTree) (path : Path) (p : PartitionHash) :
    PackageError → Prop
  | unopened {e : OsError} (node : t.node path = .error e) : Fails P t path p (.os e)
  | unreadable (node : t.node path = .ok .directory) (wanted : 0 < p.length) :
    Fails P t path p (.os (.errno Errno.isDirectory))
  | short {data : Bytes} (node : t.node path = .ok (.file data)) (short : data.size < p.length) :
    Fails P t path p (.os (.endedEarly (path.text ++ " holds " ++ toString data.size ++ " of " ++
      toString p.length ++ " bytes")))
  | differs {file : Node} (node : t.node path = .ok file) (holds : p.length ≤ file.contents.size)
    (differs :
      Hex.sameDigest (Checksum.text P (file.contents.takeFirst p.length)) p.sha256 = false) :
    Fails P t path p (.hashMismatch p.name p.sha256
      (Checksum.text P (file.contents.takeFirst p.length)))

end PartitionHash

namespace Manifest

variable {P : Primitives} {t : FileTree} {path : Path} {p : PartitionHash} {e : PackageError}

/-- Compares the digest of what was read with that of the entry. -/
def compare (P : Primitives) (p : PartitionHash) (data : Bytes) : Except PackageError Unit := do
  let actual := Checksum.text P data
  if !Hex.sameDigest actual p.sha256 then
    throw (.hashMismatch p.name p.sha256 actual)

theorem verifyPartition_of_error {e : OsError} (h : t.node path = .error e) :
    verifyPartition P t p path = .error (.os e) := by
  rw [verifyPartition, fileDigest, h]
  rfl

theorem verifyPartition_of_directory (h : t.node path = .ok .directory) (hwanted : 0 < p.length) :
    verifyPartition P t p path = .error (.os (.errno Errno.isDirectory)) := by
  obtain ⟨n, hn⟩ : ∃ n, p.length = n + 1 := ⟨p.length - 1, by omega⟩
  rw [verifyPartition, fileDigest, h, hn]
  rfl

theorem verifyPartition_of_short {data : Bytes} (h : t.node path = .ok (.file data))
    (hshort : data.size < p.length) :
    verifyPartition P t p path = .error (.os (.endedEarly (path.text ++ " holds " ++
      toString data.size ++ " of " ++ toString p.length ++ " bytes"))) := by
  rw [verifyPartition, fileDigest, h]
  show (if data.size < p.length then _ else _ : Except PackageError String) >>= _ = _
  rw [if_pos hshort]
  rfl

/-- Of what holds enough, the digest is compared. -/
theorem verifyPartition_of_holds {file : Node} (h : t.node path = .ok file)
    (hholds : p.length ≤ file.contents.size) :
    verifyPartition P t p path = compare P p (file.contents.takeFirst p.length) := by
  rw [verifyPartition, fileDigest, h]
  cases file with
  | file data =>
    have hlong : ¬data.size < p.length := Nat.not_lt.mpr hholds
    show (if data.size < p.length then _ else _ : Except PackageError String) >>= _ = _
    rw [if_neg hlong]
    rfl
  | directory =>
    have hlength : p.length = 0 := Nat.le_zero.mp hholds
    rw [hlength]
    rfl

theorem compare_eq_ok {data : Bytes} : compare P p data = .ok () ↔
    Hex.sameDigest (Checksum.text P data) p.sha256 = true := by
  rw [compare]
  cases Hex.sameDigest (Checksum.text P data) p.sha256 with
  | true => exact ⟨fun _ => rfl, fun _ => rfl⟩
  | false => exact ⟨(fun h => by cases h), fun h => by cases h⟩

theorem compare_eq_error {data : Bytes} : compare P p data = .error e ↔
    Hex.sameDigest (Checksum.text P data) p.sha256 = false ∧
      e = .hashMismatch p.name p.sha256 (Checksum.text P data) := by
  rw [compare]
  cases Hex.sameDigest (Checksum.text P data) p.sha256 with
  | true => exact ⟨(fun h => by cases h), fun ⟨h, _⟩ => by cases h⟩
  | false => exact ⟨fun h => ⟨rfl, (Except.error.inj h).symm⟩, fun ⟨_, h⟩ => h ▸ rfl⟩

theorem verifyPartition_of_fails (h : p.Fails P t path e) :
    verifyPartition P t p path = .error e := by
  cases h with
  | unopened node => exact verifyPartition_of_error node
  | unreadable node wanted => exact verifyPartition_of_directory node wanted
  | short node short => exact verifyPartition_of_short node short
  | differs node holds differs =>
    rw [verifyPartition_of_holds node holds]
    exact compare_eq_error.mpr ⟨differs, rfl⟩

theorem verifyPartition_of_intact (h : p.Intact P t path) :
    verifyPartition P t p path = .ok () := by
  obtain ⟨file, hnode, hholds, hdigest⟩ := h
  rw [verifyPartition_of_holds hnode hholds]
  exact compare_eq_ok.mpr hdigest

/-- A partition is as it should be, or it fails in one of the ways. -/
theorem intact_or_fails (P : Primitives) (t : FileTree) (path : Path) (p : PartitionHash) :
    p.Intact P t path ∨ ∃ e, p.Fails P t path e := by
  rcases hnode : t.node path with e | file
  · exact .inr ⟨_, .unopened hnode⟩
  by_cases hholds : p.length ≤ file.contents.size
  · cases hdigest :
        Hex.sameDigest (Checksum.text P (file.contents.takeFirst p.length)) p.sha256 with
    | true => exact .inl ⟨file, hnode, hholds, hdigest⟩
    | false => exact .inr ⟨_, .differs hnode hholds hdigest⟩
  · cases file with
    | file data => exact .inr ⟨_, .short hnode (Nat.not_le.mp hholds)⟩
    | directory => exact .inr ⟨_, .unreadable hnode (Nat.not_le.mp hholds)⟩

/-- **A check succeeds** exactly when the partition is what its entry says. -/
theorem verifyPartition_eq_ok : verifyPartition P t p path = .ok () ↔ p.Intact P t path := by
  refine ⟨fun h => ?_, verifyPartition_of_intact⟩
  obtain hintact | ⟨e, hfails⟩ := intact_or_fails P t path p
  · exact hintact
  · rw [verifyPartition_of_fails hfails] at h
    cases h

/-- **A check fails** with the error of the way in which the partition does. -/
theorem verifyPartition_eq_error : verifyPartition P t p path = .error e ↔ p.Fails P t path e := by
  refine ⟨fun h => ?_, verifyPartition_of_fails⟩
  obtain hintact | ⟨e', hfails⟩ := intact_or_fails P t path p
  · rw [verifyPartition_of_intact hintact] at h
    cases h
  · rw [verifyPartition_of_fails hfails] at h
    cases h
    exact hfails

/-! ## All partitions, one after the other -/

variable {α : Type} {f : α → Except PackageError Unit} {xs : List α}

theorem forM_map_id : (xs.map f).forM id = xs.forM f := by
  induction xs with
  | nil => rfl
  | cons x xs ih => exact congrArg (f x >>= ·) (funext fun _ => ih)

theorem forM_eq_ok : xs.forM f = .ok () ↔ ∀ x ∈ xs, f x = .ok () := by
  induction xs with
  | nil => exact ⟨fun _ _ h => absurd h List.not_mem_nil, fun _ => rfl⟩
  | cons x xs ih =>
    rw [List.forall_mem_cons, ← ih]
    show f x >>= _ = _ ↔ _
    rw [except_bind_eq_ok]
    exact ⟨fun ⟨_, hx, hxs⟩ => ⟨hx, hxs⟩, fun ⟨hx, hxs⟩ => ⟨(), hx, hxs⟩⟩

theorem forM_eq_error : xs.forM f = .error e ↔
    ∃ front x back, xs = front ++ x :: back ∧ (∀ y ∈ front, f y = .ok ()) ∧ f x = .error e := by
  induction xs with
  | nil => exact ⟨(fun h => by cases h), fun ⟨front, x, back, h, _⟩ => by simp at h⟩
  | cons x xs ih =>
    show f x >>= (fun _ => xs.forM f) = _ ↔ _
    rcases hx : f x with e' | ⟨⟩
    · -- The first element fails, and nothing stands before it.
      refine ⟨fun h => ⟨[], x, xs, rfl, by simp, hx.trans h⟩,
        fun ⟨front, y, back, h, hok, hy⟩ => ?_⟩
      cases front with
      | nil =>
        obtain ⟨rfl, -⟩ := List.cons.inj h
        exact hx.symm.trans hy
      | cons z front =>
        obtain ⟨rfl, -⟩ := List.cons.inj h
        cases hx.symm.trans (hok x (by simp))
    · show xs.forM f = _ ↔ _
      rw [ih]
      constructor
      · rintro ⟨front, y, back, rfl, hok, hy⟩
        exact ⟨x :: front, y, back, rfl, List.forall_mem_cons.mpr ⟨hx, hok⟩, hy⟩
      · rintro ⟨front, y, back, h, hok, hy⟩
        cases front with
        | nil =>
          obtain ⟨rfl, -⟩ := List.cons.inj h
          cases hx.symm.trans hy
        | cons z front =>
          obtain ⟨rfl, hxs⟩ := List.cons.inj h
          exact ⟨front, y, back, hxs, (List.forall_mem_cons.mp hok).2, hy⟩

end Manifest

/-! ## The loop of one check -/

/-- The most bytes that are asked for at once. -/
def readChunk : Nat := 50 * 1024

/-- An open file, of which a limited number of bytes is digested. -/
structure DigestLoop where
  file : Node
  /-- Where the next read begins. -/
  offset : Nat := 0
  /-- How many bytes may still be read. -/
  limit : Nat
  /-- What the digest was fed. -/
  digested : Bytes := ByteArray.empty
  /-- How many bytes were read. -/
  total : Nat := 0

namespace DigestLoop

/-- The most bytes that the next read can give. -/
def available (l : DigestLoop) : Nat :=
  min (min readChunk l.limit) (l.file.contents.size - l.offset)

/-- The loop after a read that gave `n` bytes. -/
def absorb (l : DigestLoop) (n : Nat) : DigestLoop where
  file := l.file
  offset := l.offset + n
  limit := l.limit - n
  digested := l.digested ++ l.file.contents.extract l.offset (l.offset + n)
  total := l.total + n

/-- What a loop that ended says about the partition. -/
def judge (P : Primitives) (path : Path) (p : PartitionHash) (l : DigestLoop) :
    Except PackageError Unit := do
  if l.total < p.length then
    throw (.os (.endedEarly (path.text ++ " holds " ++ toString l.total ++ " of " ++
      toString p.length ++ " bytes")))
  Manifest.compare P p l.digested

/-- What is known of a loop under way: the bytes that were read are the first ones of the file, and
they are what was digested. -/
structure Sound (t : FileTree) (path : Path) (p : PartitionHash) (l : DigestLoop) : Prop where
  node : t.node path = .ok l.file
  offset : l.offset = l.total
  limit : l.total + l.limit = p.length
  within : l.total ≤ l.file.contents.size
  digested : l.digested = l.file.contents.takeFirst l.total

variable {P : Primitives} {t : FileTree} {path : Path} {p : PartitionHash} {l : DigestLoop}
  {n : Nat}

theorem available_le_limit (l : DigestLoop) : l.available ≤ l.limit :=
  (Nat.min_le_left _ _).trans (Nat.min_le_right _ _)

theorem Sound.opened {file : Node} (h : t.node path = .ok file) :
    Sound t path p { file, limit := p.length } where
  node := h
  offset := rfl
  limit := Nat.zero_add _
  within := Nat.zero_le _
  digested := (Bytes.takeFirst_zero _).symm

/-- Whatever part of the available bytes a read gives, the bytes that were digested are the first
ones of the file. -/
theorem Sound.absorb (h : l.Sound t path p) (hn : n ≤ l.available) :
    (l.absorb n).Sound t path p where
  node := h.node
  offset := congrArg (· + n) h.offset
  limit := by
    have hlimit := h.limit
    have hle : n ≤ l.limit := hn.trans l.available_le_limit
    show l.total + n + (l.limit - n) = p.length
    omega
  within := by
    have hwithin := h.within
    have hle : n ≤ l.file.contents.size - l.total :=
      hn.trans (h.offset ▸ Nat.min_le_right _ _)
    show l.total + n ≤ l.file.contents.size
    omega
  digested := by
    show l.digested ++ l.file.contents.extract l.offset (l.offset + n) =
      l.file.contents.takeFirst (l.total + n)
    rw [h.digested, h.offset, Bytes.takeFirst_add, Bytes.takeFirst_dropFirst]

/-- **A loop that ended** judges the partition as the check by itself does, however it read. -/
theorem Sound.judge (h : l.Sound t path p)
    (hended : l.limit = 0 ∨ l.file ≠ .directory ∧ l.available = 0) :
    l.judge P path p = Manifest.verifyPartition P t p path := by
  have hlimit := h.limit
  have hwithin := h.within
  by_cases hshort : l.total < p.length
  · -- The limit is not reached, so the file ended: all of it was read, and it is too short.
    obtain ⟨hfile, havailable⟩ := hended.resolve_left (by omega)
    have hsize : l.total = l.file.contents.size := by
      have hzero : min (min readChunk l.limit) (l.file.contents.size - l.total) = 0 :=
        h.offset ▸ havailable
      have hchunk : 0 < readChunk := by decide
      omega
    rw [DigestLoop.judge, if_pos hshort]
    rcases hnode : l.file with data | _
    · rw [hnode] at hsize
      rw [Manifest.verifyPartition_of_short (hnode ▸ h.node) (hsize ▸ hshort), hsize]
      rfl
    · exact absurd hnode hfile
  · have htotal : l.total = p.length := by omega
    rw [DigestLoop.judge, if_neg hshort,
      Manifest.verifyPartition_of_holds h.node (htotal ▸ hwithin), ← htotal, ← h.digested]

end DigestLoop

/-- How far a check is. -/
inductive CheckStage
  | waiting
  | reading (l : DigestLoop)
  | done (result : Except PackageError Unit)

/-- A step of one check. A read gives some of the bytes that are available, and none only when there
are none; behind the limit nothing is asked of the file. -/
inductive CheckStage.Step (P : Primitives) (t : FileTree) (path : Path) (p : PartitionHash) :
    CheckStage → CheckStage → Prop
  | unopened {e : OsError} (node : t.node path = .error e) :
    Step P t path p .waiting (.done (.error (.os e)))
  | opened {file : Node} (node : t.node path = .ok file) :
    Step P t path p .waiting (.reading { file, limit := p.length })
  | unreadable {l : DigestLoop} (file : l.file = .directory) (wanted : 0 < l.limit) :
    Step P t path p (.reading l) (.done (.error (.os (.errno Errno.isDirectory))))
  | read {l : DigestLoop} {n : Nat} (pos : 0 < n) (within : n ≤ l.available) :
    Step P t path p (.reading l) (.reading (l.absorb n))
  | ended {l : DigestLoop} (ended : l.limit = 0 ∨ l.file ≠ .directory ∧ l.available = 0) :
    Step P t path p (.reading l) (.done (l.judge P path p))

namespace CheckStage

variable {P : Primitives} {t : FileTree} {path : Path} {p : PartitionHash} {stage next : CheckStage}

/-- What is known of a check at each stage. -/
def Sound (P : Primitives) (t : FileTree) (path : Path) (p : PartitionHash) : CheckStage → Prop
  | .waiting => True
  | .reading l => l.Sound t path p
  | .done result => result = Manifest.verifyPartition P t p path

theorem Step.sound (h : stage.Step P t path p next) (hs : stage.Sound P t path p) :
    next.Sound P t path p := by
  cases h with
  | unopened node => exact (Manifest.verifyPartition_of_error node).symm
  | opened node => exact DigestLoop.Sound.opened node
  | unreadable file wanted =>
    have hlimit := DigestLoop.Sound.limit hs
    exact (Manifest.verifyPartition_of_directory (file ▸ hs.node) (by omega)).symm
  | read pos within => exact DigestLoop.Sound.absorb hs within
  | ended ended => exact DigestLoop.Sound.judge hs ended

/-- Bounds the steps that are left. -/
def remaining (p : PartitionHash) : CheckStage → Nat
  | .waiting => p.length + 2
  | .reading l => l.limit + 1
  | .done _ => 0

theorem Step.remaining_lt (h : stage.Step P t path p next) :
    next.remaining p < stage.remaining p := by
  cases h with
  | unopened _ => exact Nat.succ_pos _
  | opened _ => exact Nat.lt_succ_self _
  | unreadable _ _ => exact Nat.succ_pos _
  | @read l n pos within =>
    have hle : n ≤ l.limit := within.trans l.available_le_limit
    show l.limit - n + 1 < l.limit + 1
    omega
  | ended _ => exact Nat.succ_pos _

/-- A check that is not done has a next step. -/
theorem exists_step (hstage : ∀ result, stage ≠ .done result) :
    ∃ next, stage.Step P t path p next := by
  match stage with
  | .waiting =>
    rcases hnode : t.node path with e | file
    · exact ⟨_, .unopened hnode⟩
    · exact ⟨_, .opened hnode⟩
  | .reading l =>
    rcases Nat.eq_zero_or_pos l.limit with hlimit | hlimit
    · exact ⟨_, .ended (.inl hlimit)⟩
    by_cases hfile : l.file = .directory
    · exact ⟨_, .unreadable hfile hlimit⟩
    rcases Nat.eq_zero_or_pos l.available with havailable | havailable
    · exact ⟨_, .ended (.inr ⟨hfile, havailable⟩)⟩
    · exact ⟨_, .read havailable (Nat.le_refl _)⟩
  | .done result => exact absurd rfl (hstage result)

end CheckStage

/-! ## All checks -/

/-- The check of a partition in a file. -/
structure PartitionCheck where
  partition : PartitionHash
  path : Path
  stage : CheckStage := .waiting

namespace PartitionCheck

/-- A step of one of the checks; the others stay as they are. -/
inductive Step (P : Primitives) (t : FileTree) : List PartitionCheck → List PartitionCheck → Prop
  | one (front back : List PartitionCheck) {c : PartitionCheck} {stage : CheckStage}
    (step : c.stage.Step P t c.path c.partition stage) :
    Step P t (front ++ c :: back) (front ++ { c with stage } :: back)

/-- The result of a check that is done. -/
def result? (c : PartitionCheck) : Option (Except PackageError Unit) :=
  match c.stage with
  | .done result => some result
  | _ => none

/-- Keeps the first error. -/
def note (first : Option PackageError) (result : Except PackageError Unit) : Option PackageError :=
  match result with
  | .ok () => first
  | .error e => some (first.getD e)

/-- What the results of all checks amount to. -/
def collect (results : List (Except PackageError Unit)) : Except PackageError Unit :=
  match results.foldl note none with
  | some e => .error e
  | none => .ok ()

/-- The verdict on all partitions, once all checks are done. -/
def verdict? (checks : List PartitionCheck) : Option (Except PackageError Unit) :=
  (checks.mapM result?).map collect

end PartitionCheck

/-- The checks of all partitions, before any has begun. -/
def Manifest.checks (m : Manifest) (resolve : String → Path) : List PartitionCheck :=
  m.partitions.map fun p => { partition := p, path := resolve p.name }

namespace PartitionCheck

variable {P : Primitives} {t : FileTree} {resolve : String → Path} {m : Manifest}
  {checks next : List PartitionCheck} {results : List (Except PackageError Unit)}

theorem foldl_note_some (e : PackageError) : results.foldl note (some e) = some e := by
  induction results with
  | nil => rfl
  | cons result results ih => cases result <;> exact ih

/-- The first error of the results is the one at which a sequence of the checks would stop. -/
theorem collect_eq_forM (results : List (Except PackageError Unit)) :
    collect results = results.forM id := by
  induction results with
  | nil => rfl
  | cons result results ih =>
    cases result with
    | ok _ => exact ih
    | error e =>
      have hnote : results.foldl note (note none (.error e)) = some e := foldl_note_some e
      rw [collect, List.foldl_cons, hnote]
      rfl

/-- What is known of all checks: each stage is as it should be, and their partitions, files and
order are those of the manifest. -/
structure Sound (P : Primitives) (t : FileTree) (resolve : String → Path) (m : Manifest)
    (checks : List PartitionCheck) : Prop where
  stages : ∀ c ∈ checks, c.stage.Sound P t c.path c.partition
  entries : checks.map (fun c => (c.partition, c.path)) =
    m.partitions.map fun p => (p, resolve p.name)

theorem Sound.initial : Sound P t resolve m (m.checks resolve) where
  stages := by
    rintro c hc
    obtain ⟨p, -, rfl⟩ := List.mem_map.mp hc
    exact trivial
  entries := List.map_map

/-- **A step of one check keeps what is known of all.** -/
theorem Step.sound (h : Step P t checks next) (hs : Sound P t resolve m checks) :
    Sound P t resolve m next := by
  obtain ⟨front, back, step⟩ := h
  refine ⟨fun d hd => ?_, ?_⟩
  -- only the one in the middle has a new stage, and no partition changes its place
  · rcases List.mem_append.mp hd with hd | hd
    · exact hs.stages d (List.mem_append_left _ hd)
    rcases List.mem_cons.mp hd with rfl | hd
    · exact step.sound (hs.stages _ (List.mem_append_right _ List.mem_cons_self))
    · exact hs.stages d (List.mem_append_right _ (List.mem_cons_of_mem _ hd))
  · rw [← hs.entries]
    simp only [List.map_append, List.map_cons]

theorem Sound.run (hs : Sound P t resolve m checks)
    (h : Relation.ReflTransGen (Step P t) checks next) : Sound P t resolve m next := by
  induction h with
  | refl => exact hs
  | tail _ step ih => exact step.sound ih

/-- Bounds the steps that are left of all checks. -/
def remaining (checks : List PartitionCheck) : Nat :=
  (checks.map fun c => c.stage.remaining c.partition).sum

theorem Step.remaining_lt (h : Step P t checks next) : remaining next < remaining checks := by
  obtain ⟨front, back, step⟩ := h
  simp only [remaining, List.map_append, List.map_cons, List.sum_append, List.sum_cons]
  have hlt := step.remaining_lt
  omega

/-- **All orders of steps end.** -/
theorem wellFounded_step (P : Primitives) (t : FileTree) :
    WellFounded fun next checks => Step P t checks next :=
  Subrelation.wf Step.remaining_lt (measure remaining).wf

theorem Step.cons (c : PartitionCheck) (h : Step P t checks next) :
    Step P t (c :: checks) (c :: next) := by
  obtain ⟨front, back, step⟩ := h
  exact .one (c :: front) back step

/-- As long as there is no verdict, some check has a next step. -/
theorem step_or_verdict (P : Primitives) (t : FileTree) (checks : List PartitionCheck) :
    (∃ next, Step P t checks next) ∨ ∃ verdict, verdict? checks = some verdict := by
  suffices (∃ next, Step P t checks next) ∨ ∃ results, checks.mapM result? = some results from
    this.imp_right fun ⟨results, h⟩ => ⟨collect results, by rw [verdict?, h]; rfl⟩
  -- the first check in the list that is not done has a step
  induction checks with
  | nil => exact .inr ⟨[], rfl⟩
  | cons c checks ih =>
    by_cases hdone : ∃ result, c.stage = .done result
    · obtain ⟨result, hdone⟩ := hdone
      refine ih.imp (fun ⟨next, h⟩ => ⟨_, h.cons c⟩) fun ⟨results, h⟩ => ⟨result :: results, ?_⟩
      rw [List.mapM_cons, h, result?, hdone]
      rfl
    · obtain ⟨stage, hstep⟩ :=
        CheckStage.exists_step fun result h => hdone ⟨result, h⟩
      exact .inl ⟨_, .one [] checks hstep⟩

/-- A check that is done has the result of the check by itself. -/
theorem results_of_sound (hs : ∀ c ∈ checks, c.stage.Sound P t c.path c.partition)
    (h : checks.mapM result? = some results) :
    results = checks.map fun c => Manifest.verifyPartition P t c.partition c.path := by
  induction checks generalizing results with
  | nil => exact (Option.some.inj h).symm
  | cons c checks ih =>
    obtain ⟨hc, hchecks⟩ := List.forall_mem_cons.mp hs
    simp only [List.mapM_cons, Option.bind_eq_bind, Option.bind_eq_some_iff] at h
    obtain ⟨result, hresult, rest, hrest, hresults⟩ := h
    rw [← Option.some.inj hresults, List.map_cons, ih hchecks hrest]
    congr 1
    match c, hc, hresult with
    | { stage := .done _, .. }, hc, hresult => exact (Option.some.inj hresult).symm.trans hc

/-- **Whatever the order of the steps was**, the verdict is that of the checks one after the
other. -/
theorem Sound.verdict_eq (hs : Sound P t resolve m checks) {verdict : Except PackageError Unit}
    (h : verdict? checks = some verdict) : verdict = m.verify P t resolve := by
  obtain ⟨results, hresults, rfl⟩ := Option.map_eq_some_iff.mp h
  have hentries : results =
      m.partitions.map fun p => Manifest.verifyPartition P t p (resolve p.name) := by
    have hmap := congrArg (List.map fun e : PartitionHash × Path =>
      Manifest.verifyPartition P t e.1 e.2) hs.entries
    rw [List.map_map, List.map_map] at hmap
    exact (results_of_sound hs.stages hresults).trans hmap
  rw [collect_eq_forM, hentries, Manifest.forM_map_id, Manifest.verify]

end PartitionCheck

namespace Manifest

/-- **The verdict on all partitions**, for every order in which their checks take their steps and
every way in which the reads are cut. Every order comes to an end, and it ends in a verdict: that
all is as it should be exactly when each partition is what its entry says, and otherwise the error
of the first one in the order of the manifest that fails. -/
theorem verdict_exact (P : Primitives) (t : FileTree) (resolve : String → Path) (m : Manifest) :
    (WellFounded fun next checks => PartitionCheck.Step P t checks next) ∧
    ∀ checks, Relation.ReflTransGen (PartitionCheck.Step P t) (m.checks resolve) checks →
      ((∃ next, PartitionCheck.Step P t checks next) ∨
        ∃ verdict, PartitionCheck.verdict? checks = some verdict) ∧
      ∀ verdict, PartitionCheck.verdict? checks = some verdict →
        verdict = m.verify P t resolve ∧
        (verdict = .ok () ↔ ∀ p ∈ m.partitions, p.Intact P t (resolve p.name)) ∧
        ∀ e, verdict = .error e ↔ ∃ front p back, m.partitions = front ++ p :: back ∧
          (∀ q ∈ front, q.Intact P t (resolve q.name)) ∧ p.Fails P t (resolve p.name) e := by
  refine ⟨PartitionCheck.wellFounded_step P t, fun checks hrun =>
    ⟨PartitionCheck.step_or_verdict P t checks, fun verdict hverdict => ?_⟩⟩
  have heq : verdict = m.verify P t resolve :=
    (PartitionCheck.Sound.initial.run hrun).verdict_eq hverdict
  refine ⟨heq, ?_, fun e => ?_⟩
  · rw [heq, verify, forM_eq_ok]
    simp only [verifyPartition_eq_ok]
  · rw [heq, verify, forM_eq_error]
    simp only [verifyPartition_eq_ok, verifyPartition_eq_error]

/-- The files of two partitions. -/
def partitionTree (system vendor : Bytes) : FileTree :=
  ⟨[(["system"], .file system), (["vendor"], .file vendor)]⟩

/-- Of the first partition the digest is spelled with capitals, and the third has no file. -/
def partitionManifest : Manifest where
  partitions := [
    ⟨"system", "FB7363F1F02C2F244C32AA8076EF7EDBC2E621137542836ADC1E312143968D75", 4096⟩,
    ⟨"vendor", "c9ac7b0624824f844f6c7f3d50fab9741a8914e878467e8daaedca143a34d90b", 5000⟩,
    ⟨"odm", "", 0⟩]

theorem node_partitionTree (system vendor : Bytes) :
    (partitionTree system vendor).node ⟨["", "system"]⟩ = .ok (.file system) ∧
    (partitionTree system vendor).node ⟨["", "vendor"]⟩ = .ok (.file vendor) ∧
    (partitionTree system vendor).node ⟨["", "odm"]⟩ = .error (.errno Errno.noEntry) :=
  ⟨by cbv, by cbv, by cbv⟩

theorem sameDigest_system :
    Hex.sameDigest (Checksum.text .tabled ((Bytes.uniform [5, 0]).takeFirst 4096))
      "FB7363F1F02C2F244C32AA8076EF7EDBC2E621137542836ADC1E312143968D75" = true := by
  have hfirst := Bytes.takeFirst_uniform [5, 0] (by decide : 1 ≤ 2)
  simp only [Nat.one_mul, blockSize, List.take_succ_cons, List.take_zero] at hfirst
  have hname : Digest.name [5] =
    "fb7363f1f02c2f244c32aa8076ef7edbc2e621137542836adc1e312143968d75" := rfl
  rw [hfirst, Checksum.text_uniform, hname]
  simp [Hex.sameDigest, Hex.lowerAscii, ← String.toList_inj, String.toList_map]

/-- The third check is done before the others have begun, and these take turns. -/
theorem exists_interleaved_run (P : Primitives) {system vendor : Bytes}
    (hsystem : system.size = 8192) (hvendor : vendor.size = 4096) :
    ∃ checks verdict, Relation.ReflTransGen (PartitionCheck.Step P (partitionTree system vendor))
        (partitionManifest.checks fun name => ⟨["", name]⟩) checks ∧
      PartitionCheck.verdict? checks = some verdict := by
  obtain ⟨node, node', nodeless⟩ := node_partitionTree system vendor
  generalize partitionTree system vendor = t at *
  let l : DigestLoop := { file := .file system, limit := 4096 }
  let l' : DigestLoop := { file := .file vendor, limit := 5000 }
  have hread : 1000 ≤ l.available := by
    simp only [l, DigestLoop.available, Node.contents, hsystem, readChunk]
    omega
  have hmore : 3096 ≤ (l.absorb 1000).available := by
    simp only [l, DigestLoop.available, DigestLoop.absorb, Node.contents, hsystem, readChunk]
    omega
  have hended : ((l.absorb 1000).absorb 3096).limit = 0 := by
    simp only [l, DigestLoop.absorb]
  have hread' : 4096 ≤ l'.available := by
    simp only [l', DigestLoop.available, Node.contents, hvendor, readChunk]
    omega
  have hended' : (l'.absorb 4096).file ≠ .directory ∧ (l'.absorb 4096).available = 0 := by
    refine ⟨(fun hfile => by cases hfile), ?_⟩
    simp only [l', DigestLoop.available, DigestLoop.absorb, Node.contents, hvendor]
    omega
  exact ⟨_, _, Relation.ReflTransGen.refl
    |>.tail (.one [_, _] [] (.unopened nodeless))
    |>.tail (.one [] [_, _] (.opened node))
    |>.tail (.one [_] [_] (.opened node'))
    |>.tail (.one [] [_, _] (.read (by decide) hread))
    |>.tail (.one [_] [_] (.read (by decide) hread'))
    |>.tail (.one [] [_, _] (.read (by decide) hmore))
    |>.tail (.one [] [_, _] (.ended (.inl hended)))
    |>.tail (.one [_] [_] (.ended (.inr hended'))), rfl⟩

/-- The file of the first partition is longer than the partition, that of the second is too short,
and the third has none; the error is that of the second. -/
theorem verdict_exact_interleaved :
    ∃ checks, Relation.ReflTransGen
        (PartitionCheck.Step .tabled (partitionTree (Bytes.uniform [5, 0]) (Bytes.uniform [7])))
        (partitionManifest.checks fun name => ⟨["", name]⟩) checks ∧
      PartitionCheck.verdict? checks =
        some (.error (.os (.endedEarly "/vendor holds 4096 of 5000 bytes"))) ∧
      partitionManifest.verify .tabled
          (partitionTree (Bytes.uniform [5, 0]) (Bytes.uniform [7])) (fun name => ⟨["", name]⟩) =
        .error (.os (.endedEarly "/vendor holds 4096 of 5000 bytes")) := by
  have hdigest := sameDigest_system
  have hsystem : (Bytes.uniform [5, 0]).size = 8192 := Bytes.size_uniform _
  have hvendor : (Bytes.uniform [7]).size = 4096 := Bytes.size_uniform _
  obtain ⟨node, node', -⟩ := node_partitionTree (Bytes.uniform [5, 0]) (Bytes.uniform [7])
  obtain ⟨checks, verdict, hrun, hverdict⟩ := exists_interleaved_run .tabled hsystem hvendor
  -- the bytes of the files are not looked at below
  generalize Bytes.uniform [5, 0] = system, Bytes.uniform [7] = vendor at *
  generalize partitionTree system vendor = t at *
  obtain ⟨heq, -, herror⟩ :=
    ((verdict_exact .tabled t (fun name => ⟨["", name]⟩) partitionManifest).2 _ hrun).2 _ hverdict
  have hintact : PartitionHash.Intact .tabled t ⟨["", "system"]⟩ ⟨"system",
      "FB7363F1F02C2F244C32AA8076EF7EDBC2E621137542836ADC1E312143968D75", 4096⟩ :=
    ⟨.file system, node, by simp [Node.contents, hsystem], hdigest⟩
  have hmessage : (⟨["", "vendor"]⟩ : Path).text ++ " holds " ++ toString 4096 ++ " of " ++
      toString 5000 ++ " bytes" = "/vendor holds 4096 of 5000 bytes" := by decide
  have hfails := (herror (.os (.endedEarly "/vendor holds 4096 of 5000 bytes"))).mpr
    ⟨[_], _, [_], rfl, List.forall_mem_singleton.mpr hintact,
      hmessage ▸ hvendor ▸ .short node' (by rw [hvendor]; decide)⟩
  exact ⟨checks, hrun, hverdict.trans (congrArg some hfails), heq.symm.trans hfails⟩

end Manifest

end BlockUpdate
