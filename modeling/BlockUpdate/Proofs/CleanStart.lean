import BlockUpdate.Proofs.Stopped
import BlockUpdate.Proofs.UniformCommands
import Mathlib

/-!
# Sessions in a clean work directory

What a script does is known once it is known what its commands do: here is how the run of a session
is put together from runs of commands, where nothing in the work directory is in its way.

- `SessionOptions.Clean`: the work directory is there, and holds nothing of the session.
- **`prepare_clean`**, **`prepare_clean_resumed`**: a session that begins there makes its stash
  directory and nothing else.
- **`runLines_take_of_run`**, `runLines_take_of_skips`: what one more line does.
- `keptWorld`: a work directory in which an earlier session has left an entry.
- `runLines_refresh`: what a script of two lines does.
-/

namespace BlockUpdate

open FileTree

namespace SessionOptions

/-- The work directory is at a place, and holds nothing of the session. -/
structure Clean (o : SessionOptions) (t : FileTree) (place : Place) : Prop where
  leads : t.Leads o.workDir.below place
  stashPlain : PlainName o.stashName
  markerPlain : PlainName o.markerName
  stashSize : o.stashName.utf8ByteSize ≤ maxName
  markerSize : o.markerName.utf8ByteSize ≤ maxName
  noStash : t.get? (o.stashAt place) = none
  noMarker : t.get? (o.markerAt place) = none

/-- The stash is not the marker. -/
theorem stashAt_ne_markerAt (o : SessionOptions) (place : Place) :
    o.stashAt place ≠ o.markerAt place := by
  intro heq
  have hname : o.partition ++ "_tmp" = o.partition ++ ".retry.json" :=
    List.singleton_inj.mp (List.append_cancel_left heq)
  have hlength := congrArg (fun name => name.toList.length) hname
  simp only [String.toList_append, List.length_append] at hlength
  exact absurd (Nat.add_left_cancel hlength) (by decide)

namespace Clean

variable {o : SessionOptions} {t : FileTree} {place : Place}

/-- The stash directory that a session makes completes its work directory. -/
theorem workspace (h : o.Clean t place) (hplain : o.PlainPartition) :
    o.Workspace (t.put (o.stashAt place) .directory) place := by
  have hne : o.stashAt place ≠ [] := ne_nil_of_get?_eq_none h.noStash
  have hmore : ∀ p, t.get? p = some .directory →
      (t.put (o.stashAt place) .directory).get? p = some .directory := by
    intro p hp
    rw [get?_put t hne]
    split_ifs
    · rfl
    · exact hp
  have hleads := h.leads.mono hmore
  refine ⟨hleads, ?_, h.stashPlain, h.markerPlain, h.markerSize, ?_⟩
  · rw [hplain.stashDir_parts]
    exact hleads.child h.stashPlain h.stashSize (by rw [stashAt, get?_put t (by simp), if_pos rfl])
  · rw [get?_put t hne, if_neg (stashAt_ne_markerAt o place).symm, h.noMarker]
    exact Option.some_ne_none _ |>.symm

/-- A clean directory is one for sessions that resume. -/
theorem retrying (h : o.Clean t place) :
    ({ o with retry := true } : SessionOptions).Clean t place :=
  ⟨h.leads, h.stashPlain, h.markerPlain, h.stashSize, h.markerSize, h.noStash, h.noMarker⟩

end Clean

end SessionOptions

namespace Session

open SessionOptions

variable {P : Primitives} {o : SessionOptions} {place : Place} {lines : List String}
  {inputs : ScriptInputs} {w : World}

/-- A clean directory gets a stash directory, in whatever kind of session. -/
theorem openStash_clean (hwrite : o.canWrite = true) (hplain : o.PlainPartition) {t : FileTree}
    (hclean : o.Clean t place) :
    outcome (openStash o) t = (.ok ⟨o.stashDir, true⟩, t.put (o.stashAt place) .directory) := by
  have hlocate := hclean.leads.locate_of_le hclean.stashPlain hplain.stashDir_parts hclean.stashSize
  have hmissing : t.isDirectory o.stashDir = false := by
    rw [Bool.eq_false_iff]
    intro hthere
    obtain ⟨p, hp, hdir⟩ := isDirectory_iff.mp hthere
    obtain rfl := Except.ok.inj (hlocate.symm.trans hp)
    cases hclean.noStash.symm.trans hdir
  rw [openStash_eq o hwrite]
  exact open_eq_ok.mpr ⟨t, by rw [hmissing]; rfl,
    FileM.makeDirectories_child hclean.leads hclean.stashPlain hclean.stashSize
      hplain.stashDir_parts hclean.noStash, by rw [hmissing]; rfl⟩

/-- Nothing is in a stash directory that was made in a clean work directory. -/
theorem noEntry_of_clean {t : FileTree} (hwell : t.WellFormed) (hclean : o.Clean t place)
    (name : String) :
    (t.put (o.stashAt place) .directory).get? (o.stashAt place ++ [name]) = none := by
  rw [get?_put t (ne_nil_of_get?_eq_none hclean.noStash), if_neg (by simp)]
  by_contra hthere
  cases hclean.noStash.symm.trans (hwell.parent hthere)

theorem noMarker_of_clean {t : FileTree} (hclean : o.Clean t place) :
    (t.put (o.stashAt place) .directory).get? (o.markerAt place) = none := by
  rw [get?_put t (ne_nil_of_get?_eq_none hclean.noStash),
    if_neg (stashAt_ne_markerAt o place).symm, hclean.noMarker]

/-- A session in a clean directory begins there, whatever it skips and counts. -/
theorem prepare_of_clean (hwrite : o.canWrite = true) (hplain : o.PlainPartition)
    (hclean : o.Clean w.files place) {header : ScriptHeader} {used : Nat}
    (hheader : ScriptHeader.parse lines = .ok (header, used)) {w' : World}
    (hw' : w' = { w with files := w.files.put (o.stashAt place) .directory }) {skip : RetrySkip}
    (hskip : outcome (findSkip o (lines.drop used)) w'.files = (.ok skip, w'.files)) {m : Machine}
    (hstart : startMachine o header ⟨o.stashDir, true⟩ inputs w' = .ok m) :
    outcome (prepare o lines inputs) w = (.ok ⟨lines.drop used, skip, m⟩, w') := by
  subst hw'
  exact prepare_eq_ok.mpr ⟨header, used, w.files, ⟨o.stashDir, true⟩, _, skip, _, m, hheader,
    FileM.makeDirectories_of_leads (leads_below_iff.mp hclean.leads),
    openStash_clean hwrite hplain hclean, hskip, hstart, rfl, rfl⟩

/-- **A fresh session in a clean directory** makes its stash directory. -/
theorem prepare_clean (inputs : ScriptInputs) (hretry : o.retry = false)
    (hwrite : o.canWrite = true) (hplain : o.PlainPartition) (hclean : o.Clean w.files place)
    {header : ScriptHeader} {used : Nat} (hheader : ScriptHeader.parse lines = .ok (header, used)) :
    ∃ w', w' = { w with files := w.files.put (o.stashAt place) .directory } ∧
      outcome (prepare o lines inputs) w =
        (.ok ⟨lines.drop used, RetrySkip.none, blankMachine o header true inputs w'⟩, w') := by
  refine ⟨_, rfl, prepare_of_clean hwrite hplain hclean hheader rfl ?_ ?_⟩
  · have hwork := hclean.workspace hplain
    refine (findSkip_fresh hretry hwrite).mpr ⟨?_, rfl⟩
    refine (FileM.removeIfPresent_eq_ok hwork.leads hwork.markerPlain hplain.markerPath_parts).mpr
      ⟨hwork.markerSize, hwork.marker, ?_⟩
    have hnone := noMarker_of_clean hclean
    rw [markerAt] at hnone
    rw [removed, hnone]
  · rw [startMachine, hretry, hwrite]
    rfl

/-- **A session that resumes in a clean directory** finds nothing to resume. -/
theorem prepare_clean_resumed (inputs : ScriptInputs) (hretry : o.retry = true)
    (hwrite : o.canWrite = true) (hplain : o.PlainPartition) (hwell : w.files.WellFormed)
    (hclean : o.Clean w.files place) {header : ScriptHeader} {used : Nat} (hheader : ScriptHeader.parse lines = .ok (header, used)) :
    ∃ w', w' = { w with files := w.files.put (o.stashAt place) .directory } ∧
      outcome (prepare o lines inputs) w =
        (.ok ⟨lines.drop used, RetrySkip.none, blankMachine o header true inputs w'⟩, w') := by
  have hwork := hclean.workspace hplain
  refine ⟨_, rfl, prepare_of_clean hwrite hplain hclean hheader rfl ?_ ?_⟩
  · have hnone := noMarker_of_clean hclean
    rw [markerAt] at hnone
    rw [findSkip_resumed hretry, RetryMarker.load_of_noEntry]
    · rfl
    · rw [hwork.leads.node hwork.markerPlain hplain.markerPath_parts,
        if_neg (Nat.not_lt.mpr hwork.markerSize), hnone]
  · let start : Machine := blankMachine o header true inputs
      { w with files := w.files.put (o.stashAt place) .directory }
    have hheld : Stash.held start.files (o.stashAt place) = [] := by
      refine List.eq_nil_iff_forall_not_mem.mpr ?_
      rintro ⟨name, data⟩ hmem
      exact get?_ne_none_of_mem (Stash.mem_held.mp hmem).1 (noEntry_of_clean hwell hclean name)
    have hcounted : start.counted (o.stashAt place) = start := by
      rw [Machine.counted, hheld]
      rfl
    have hstart : start.countStash = .ok start := by
      rw [Machine.countStash_eq (hwork.sited hplain (s := start.stash) rfl), hcounted]
    rw [startMachine, hretry, hwrite]
    exact hstart

/-! ## Line by line -/

section Lines

variable {commands : List String} {skip : RetrySkip} {k : Nat} {c : Command} {r₀ r : Run}
  (hc : instruction? commands k = some c)
  (hlines : outcome (runLines P o skip 0 (commands.take k)) r₀ = (.ok (), r))

include hc hlines

/-- **One more line whose command succeeds** leaves the marker of the command. -/
theorem runLines_take_of_run (hskip : skip.skips c = false) (hplain : o.PlainPartition)
    (hwrite : o.canWrite = true) {m : Machine} (hwork : o.Workspace m.files place)
    (hrun : outcome (c.run P) r.machine = (.ok (), m)) :
    ∃ r', outcome (runLines P o skip 0 (commands.take (k + 1))) r₀ = (.ok (), r') ∧
      r'.machine = o.marked place c m := by
  obtain ⟨line, hline, -⟩ := instruction?_eq_some.mp hc
  obtain ⟨r', hcommand, hmachine⟩ := runCommand_executed hrun
    ((saves_iff hplain hwrite hwork).mpr (marked_eq o place c m).symm)
  refine ⟨r', (runLines_take_succ hline).mpr ⟨r, hlines, ?_⟩,
    hmachine.trans (marked_eq o place c m).symm⟩
  rw [runLine_instruction hline hc, if_neg (by rw [hskip]; exact Bool.false_ne_true), hcommand]

/-- One more line whose command is skipped leaves the machine alone. -/
theorem runLines_take_of_skips (hskip : skip.skips c = true) :
    outcome (runLines P o skip 0 (commands.take (k + 1))) r₀ =
      (.ok (), { r with skipped := r.skipped + 1 }) := by
  obtain ⟨line, hline, -⟩ := instruction?_eq_some.mp hc
  refine (runLines_take_succ hline).mpr ⟨r, hlines, ?_⟩
  rw [runLine_instruction hline hc, if_pos hskip]

end Lines

/-! ## Uniform blocks in a clean directory -/

open Bytes (uniform)

/-- A session on the partition `p` that works in the directory `w`. -/
def blockOptions : SessionOptions where
  partition := "p"
  workDir := ⟨["w"]⟩

/-- A target of uniform blocks, and the work directory. -/
def blockWorld (fill : List UInt8) : World where
  device := Device.file (uniform fill)
  files := ⟨[(["w"], .directory)]⟩
  progress := {}

theorem plain_blockOptions : blockOptions.PlainPartition := by
  show '/' ∉ "p".toList
  decide

theorem wellFormed_blockWorld (fill : List UInt8) : (blockWorld fill).files.WellFormed := by
  intro place hne hthere
  by_cases hplace : place = ["w"]
  · rw [hplace]
    rfl
  · refine absurd ?_ hthere
    rw [get?, if_neg hne]
    show List.lookup place [(["w"], Node.directory)] = none
    rw [List.lookup_cons, beq_eq_false_iff_ne.mpr hplace]
    rfl

theorem clean_blockWorld (fill : List UInt8) :
    blockOptions.Clean (blockWorld fill).files ["w"] where
  leads := ⟨by cbv, rfl, rfl⟩
  stashPlain := ⟨by decide, by decide, by decide, by decide, by decide⟩
  markerPlain := ⟨by decide, by decide, by decide, by decide, by decide⟩
  stashSize := by decide
  markerSize := by decide
  noStash := rfl
  noMarker := rfl

/-- The machine at the start of such a session. -/
def blockMachine (fill : List UInt8) (header : ScriptHeader) (inputs : ScriptInputs) : Machine :=
  blankMachine blockOptions header true inputs
    { blockWorld fill with files := (blockWorld fill).files.put ["w", "p_tmp"] .directory }

theorem prepare_blockWorld (fill : List UInt8) (inputs : ScriptInputs) {header : ScriptHeader}
    {used : Nat} (hheader : ScriptHeader.parse lines = .ok (header, used)) :
    ∃ w', outcome (prepare blockOptions lines inputs) (blockWorld fill) =
      (.ok ⟨lines.drop used, RetrySkip.none, blockMachine fill header inputs⟩, w') := by
  obtain ⟨w', rfl, hprepare⟩ :=
    prepare_clean inputs rfl rfl plain_blockOptions (clean_blockWorld fill) hheader
  exact ⟨_, hprepare⟩

/-- The work directory of such a session. -/
theorem work_blockMachine (fill : List UInt8) (header : ScriptHeader) (inputs : ScriptInputs) :
    blockOptions.Workspace (blockMachine fill header inputs).files ["w"] :=
  (clean_blockWorld fill).workspace plain_blockOptions

theorem sited_blockMachine (fill : List UInt8) (header : ScriptHeader) (inputs : ScriptInputs) :
    (blockMachine fill header inputs).stash.Sited (blockMachine fill header inputs).files
      (blockOptions.stashAt ["w"]) :=
  (work_blockMachine fill header inputs).sited plain_blockOptions rfl

theorem noEntry_blockMachine (fill : List UInt8) (header : ScriptHeader) (inputs : ScriptInputs)
    (name : String) :
    (blockMachine fill header inputs).files.get? (blockOptions.stashAt ["w"] ++ [name]) = none :=
  noEntry_of_clean (wellFormed_blockWorld fill) (clean_blockWorld fill) name

/-! ## A stash with one entry -/

/-- A session that goes on in that work directory. -/
def resumingOptions : SessionOptions := { blockOptions with retry := true }

theorem plain_resumingOptions : resumingOptions.PlainPartition := plain_blockOptions

/-- A target of uniform blocks, and a work directory in which an earlier session has stashed a
block. -/
def keptWorld (x : UInt8) (fill : List UInt8) : World where
  device := Device.file (uniform fill)
  files := ⟨[(["w"], .directory), (["w", "p_tmp"], .directory),
    (["w", "p_tmp", Digest.name [x]], .file (uniform [x]))]⟩
  progress := {}

theorem get?_keptWorld (x : UInt8) (fill : List UInt8) (q : Place) :
    (keptWorld x fill).files.get? q =
      if q = [] ∨ q = ["w"] ∨ q = ["w", "p_tmp"] then some .directory
      else if q = ["w", "p_tmp", Digest.name [x]] then some (.file (uniform [x])) else none := by
  rw [get?]
  by_cases hnil : q = []
  · rw [if_pos hnil, if_pos (.inl hnil)]
  rw [if_neg hnil]
  show List.lookup q [(["w"], _), (["w", "p_tmp"], _), (["w", "p_tmp", Digest.name [x]], _)] = _
  by_cases hwork : q = ["w"]
  · rw [hwork]
    rfl
  by_cases hstash : q = ["w", "p_tmp"]
  · rw [hstash]
    rfl
  rw [if_neg (by simp [hnil, hwork, hstash]), List.lookup_cons, beq_eq_false_iff_ne.mpr hwork,
    List.lookup_cons, beq_eq_false_iff_ne.mpr hstash, List.lookup_cons]
  by_cases hentry : q = ["w", "p_tmp", Digest.name [x]]
  · rw [if_pos hentry, hentry, beq_self_eq_true]
  · rw [if_neg hentry, beq_eq_false_iff_ne.mpr hentry]
    rfl

theorem wellFormed_keptWorld (x : UInt8) (fill : List UInt8) :
    (keptWorld x fill).files.WellFormed := by
  intro q hne hthere
  rw [get?_keptWorld] at hthere ⊢
  have hplace : q = ["w"] ∨ q = ["w", "p_tmp"] ∨ q = ["w", "p_tmp", Digest.name [x]] := by
    by_contra hnot
    simp only [not_or] at hnot
    simp [hne, hnot.1, hnot.2.1, hnot.2.2] at hthere
  rcases hplace with rfl | rfl | rfl <;> simp

/-- The entry of that work directory. -/
theorem get?_stash_keptWorld (x : UInt8) (fill : List UInt8) (name : String) :
    (keptWorld x fill).files.get? (resumingOptions.stashAt ["w"] ++ [name]) =
      if name = Digest.name [x] then some (.file (uniform [x])) else none := by
  rw [get?_keptWorld]
  have hparts : resumingOptions.stashAt ["w"] ++ [name] = ["w", "p_tmp", name] := rfl
  rw [hparts]
  simp

theorem work_keptWorld (x : UInt8) (fill : List UInt8) :
    resumingOptions.Workspace (keptWorld x fill).files ["w"] := by
  have hleads : (keptWorld x fill).files.Leads resumingOptions.workDir.below ["w"] :=
    ⟨by cbv, rfl, rfl⟩
  have hclean := clean_blockWorld fill
  refine ⟨hleads, ?_, hclean.stashPlain, hclean.markerPlain, hclean.markerSize, ?_⟩
  · rw [plain_resumingOptions.stashDir_parts]
    exact hleads.child hclean.stashPlain hclean.stashSize rfl
  · have hmarker : resumingOptions.markerAt ["w"] = ["w", "p.retry.json"] := rfl
    rw [hmarker, get?_keptWorld]
    simp

/-- A session that resumes there counts the entry. -/
theorem prepare_keptWorld (x : UInt8) (fill : List UInt8) (inputs : ScriptInputs)
    {header : ScriptHeader} {used : Nat} (hheader : ScriptHeader.parse lines = .ok (header, used)) :
    ∃ p, outcome (prepare resumingOptions lines inputs) (keptWorld x fill) =
        (.ok p, keptWorld x fill) ∧
      p.commands = lines.drop used ∧ p.skip = RetrySkip.none ∧
      p.machine = (blankMachine resumingOptions header false inputs (keptWorld x fill)).counted
        (resumingOptions.stashAt ["w"]) := by
  have hwork := work_keptWorld x fill
  have hmarker : RetryMarker.load (keptWorld x fill).files resumingOptions.markerPath = .ok none := by
    refine RetryMarker.load_of_noEntry ?_
    rw [hwork.leads.node hwork.markerPlain plain_resumingOptions.markerPath_parts,
      if_neg (Nat.not_lt.mpr hwork.markerSize)]
    rfl
  exact ⟨_, prepare_resumed rfl rfl plain_resumingOptions hwork hheader hmarker, rfl, rfl, rfl⟩

/-! ## New data, and a block that is copied over another -/

/-- Copies block 0, if it is filled with `7`, to block 1. -/
def copyLine : String :=
  "move c9ac7b0624824f844f6c7f3d50fab9741a8914e878467e8daaedca143a34d90b 2,1,2 1 2,0,1"

/-- A script that writes new data as the first line says, and then copies block 0 to block 1. -/
def refresh (line : String) : List String := ["4", "2", "0", "0", line, copyLine]

/-- One block of new data. -/
def refreshInputs : ScriptInputs where
  newData := some ⟨[.bytes (uniform [5])], none⟩

def refreshMove : Command :=
  ⟨.move, [Digest.name [7], "2,1,2", "1", "2,0,1"], copyLine, 1⟩

theorem header_refresh (line : String) :
    ScriptHeader.parse (refresh line) = .ok (⟨4, 2, 0, 0⟩, 4) := by
  rw [refresh]
  cbv

theorem parse_refreshMove :
    Command.parse 1 copyLine = .ok (some refreshMove) := by
  decide

/-- The new data goes to block `b`. -/
structure RefreshesAt (line : String) (c : Command) (b : Nat) : Prop where
  parse : Command.parse 0 line = .ok (some c)
  verb : c.verb = .new
  blockSet : c.blockSet 0 = .ok ⟨[⟨b, 1⟩], 1⟩

theorem verify_refresh {fill : List UInt8} (hfill : fill.length = 1) :
    Checksum.verify .tabled (uniform fill) 1 (Digest.name [7]) = decide (fill = [7]) :=
  Checksum.verify_uniform hfill

/-- The commands of the script. -/
theorem instruction?_refresh {line : String} {c : Command} {b : Nat} (h : RefreshesAt line c b)
    {k : Nat} {c' : Command} (hc : instruction? [line, copyLine] k = some c') :
    k = 0 ∧ c' = c ∨ k = 1 ∧ c' = refreshMove := by
  obtain ⟨line', hline, hparse, -⟩ := instruction?_eq_some.mp hc
  rcases k with _ | _ | k
  · obtain rfl := Option.some.inj hline
    exact .inl ⟨rfl, Option.some.inj (Except.ok.inj (hparse.symm.trans h.parse))⟩
  · obtain rfl := Option.some.inj hline
    exact .inr ⟨rfl, Option.some.inj (Except.ok.inj (hparse.symm.trans parse_refreshMove))⟩
  · cases hline

/-- What the script does, line by line. -/
theorem runLines_refresh {line : String} {c : Command} {b : Nat} (h : RefreshesAt line c b)
    (hb : b < 3) {x y : UInt8} (hfill : BlockSet.spread [⟨b, 1⟩] [5] [7, 0, 1] = [7, x, y])
    (hx : x ≠ 7) {r : Run} (hr : r.machine = blockMachine [7, 0, 1] ⟨4, 2, 0, 0⟩ refreshInputs) :
    ∃ r₁ r₂, outcome (runLines .tabled blockOptions RetrySkip.none 0 [line]) r = (.ok (), r₁) ∧
      r₁.machine.device.image = uniform [7, x, y] ∧
      outcome (runLines .tabled blockOptions RetrySkip.none 0 [line, copyLine]) r =
        (.ok (), r₂) ∧
      r₂.machine.device.image = uniform [7, 7, y] ∧
      blockOptions.Workspace r₂.machine.files ["w"] := by
  have hwork := work_blockMachine [7, 0, 1] ⟨4, 2, 0, 0⟩ refreshInputs
  rw [← hr] at hwork
  have himage : r.machine.device.image = uniform [7, 0, 1] := by
    rw [hr]
    rfl
  have hother : ∀ v : Verb, v = .new → v ≠ .other := by
    rintro v rfl
    decide
  have hlimit : ∀ {u v w : UInt8}, ([u, v, w] : List UInt8).length * blockSize < Device.offsetLimit := by
    intro u v w
    show 3 * blockSize < Device.offsetLimit
    decide
  have hfits : ∀ {u v w : UInt8} (k : Nat), k < 3 → ∀ q ∈ ([⟨k, 1⟩] : List BlockRange),
      q.stop ≤ ([u, v, w] : List UInt8).length := by
    intro u v w k hk q hq
    rw [List.mem_singleton.mp hq]
    exact hk
  -- the new data
  obtain ⟨d₁, feed, m₁, hnew, hm₁, hd₁, himage₁⟩ := Command.writeNewData_uniform
    (by rw [hr]; exact ⟨rfl, rfl⟩) himage hlimit
    (by rw [hr]; rfl) h.blockSet Nat.one_pos (rfl : [(5 : UInt8)].length = 1) (hfits b hb)
    (by rw [hr]; rfl)
  have hnewRun : c.run .tabled = c.writeNewData := by rw [Command.run, h.verb]
  rw [← hnewRun] at hnew
  have hwork₁ : blockOptions.Workspace m₁.files ["w"] := by
    rw [hm₁]
    exact hwork
  obtain ⟨r₁, hlines₁, hmachine₁⟩ := runLines_take_of_run
    (instruction?_eq_some.mpr ⟨line, rfl, h.parse, hother _ h.verb⟩ :
      instruction? [line, copyLine] 0 = some c)
    rfl (not_skips_none c) plain_blockOptions rfl hwork₁ hnew
  rw [marked, if_pos h.verb, hm₁] at hmachine₁
  have hdevice₁ : r₁.machine.device = d₁ := by rw [hmachine₁]
  have hfiles₁ : r₁.machine.files = r.machine.files := by rw [hmachine₁]
  have hstash₁ : r₁.machine.stash = ⟨blockOptions.stashDir, true⟩ := by
    rw [hmachine₁, hr]
    rfl
  have himage₁' : r₁.machine.device.image = uniform [7, x, y] := by
    rw [hdevice₁, himage₁]
    exact congrArg uniform hfill
  -- the move
  have hsited₁ : r₁.machine.stash.Sited r₁.machine.files (blockOptions.stashAt ["w"]) := by
    rw [hfiles₁]
    exact hwork.sited plain_blockOptions (by rw [hstash₁])
  have hlive₁ : r₁.machine.canWrite = true := by rw [hmachine₁, hr]; rfl
  have hrecipe : refreshMove.recipe = .ok ⟨Digest.name [7], Digest.name [7], ⟨[⟨1, 1⟩], 1⟩, 2⟩ := rfl
  have hfirst : refreshMove.arg 3 = .ok "2,0,1" := rfl
  obtain ⟨m₂, hmove, -, himage₂⟩ := Command.makeTarget_uniform (hdevice₁ ▸ hd₁) ⟨[⟨0, 1⟩], 1⟩
    himage₁' hlimit hlive₁ hsited₁ rfl hrecipe (hfits 1 (by decide))
    ((verify_refresh rfl).trans (decide_eq_false fun hsame => hx (List.cons.inj hsame).1))
    rfl hfirst (by decide) rfl rfl (hfits 0 (by decide)) ((verify_refresh rfl).trans rfl) rfl
    (Nat.le_refl 1)
    (by rw [hfiles₁, hr]; decide) ((verify_refresh rfl).trans rfl)
  have hrun₂ : outcome (refreshMove.run .tabled) r₁.machine = (.ok (), m₂) := hmove
  have hwithin := Command.run_within hlive₁ hsited₁ hrun₂
  have hwork₂ : blockOptions.Workspace m₂.files ["w"] :=
    (hfiles₁ ▸ hwork : blockOptions.Workspace r₁.machine.files ["w"]).congr hwithin.directories
  obtain ⟨r₂, hlines₂, hmachine₂⟩ := runLines_take_of_run
    (instruction?_eq_some.mpr ⟨_, rfl, parse_refreshMove, by decide⟩ :
      instruction? [line, copyLine] 1 = some refreshMove)
    hlines₁ (not_skips_none refreshMove) plain_blockOptions rfl hwork₂ hrun₂
  refine ⟨r₁, r₂, hlines₁, himage₁', hlines₂, ?_, ?_⟩
  · rw [hmachine₂, marked_eq]
    exact himage₂
  · rw [hmachine₂]
    exact work_marked hwork₂

end Session

end BlockUpdate
