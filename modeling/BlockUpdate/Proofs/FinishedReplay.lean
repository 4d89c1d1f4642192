import BlockUpdate.Proofs.ResumeEquivalence
import BlockUpdate.Proofs.Redoing

/-!
# Replaying a finished script

A session may succeed and yet be started again, because it was not recorded that it did. Then
neither its marker nor its stash is there, and everything is done again on the final image.

On its way the replay has the final image, apart from what it has written already: there it has
what the first session had when it came to the same line. So if it comes to the end, it leaves the
image as it found it.

- `Session.ReplayImage`: the image of a replay on its way.
- `Session.Redoes`: the machine of a replay, beside the history of the first session.
- **`Redoes.step`**, **`Redoes.lines`**: one more line, and the first lines of the script.
- **`Redoes.reach`**: a replay gets as far as its commands find what they must.
- **`replayed_image_eq`**: a replay succeeds exactly if they do, and then the image is the same.
- **`keepAndRefresh_not_replayed`**: a script that succeeds, but not once more.
-/

namespace BlockUpdate

namespace Session

open SessionOptions

variable {P : Primitives} {o : SessionOptions} {place place' : Place} {commands : List String}
  {machine : Nat → Machine} {final image : Bytes} {faults : Faults} {count k : Nat}
  {n n' : Machine}

/-! ## The image on the way -/

/-- The image of a replay before line `k`. -/
structure ReplayImage (commands : List String) (machine : Nat → Machine) (final : Bytes) (k : Nat)
    (image : Bytes) : Prop where
  size : image.size = final.size
  /-- What was not written again is as it was found. -/
  kept : ∀ i, (∀ j < k, ¬ LineTargets commands j i) → image.byte i = final.byte i
  /-- What was written again is as it was in the history. -/
  rewritten : ∀ i, ∀ j < k, LineTargets commands j i →
    image.byte i = (machine k).device.image.byte i

theorem replayImage_zero : ReplayImage commands machine final 0 final where
  size := rfl
  kept _ _ := rfl
  rewritten _ _ h := absurd h (Nat.not_lt_zero _)

/-- **A line that makes the same of its target once more.** -/
theorem ReplayImage.next (h : History P o place commands count machine) (hk : k < count)
    (hi : ReplayImage commands machine final k image) {image' : Bytes}
    (hsize : image'.size = image.size)
    (helse : ∀ i, ¬ LineTargets commands k i → image'.byte i = image.byte i)
    (hline : ∀ i, LineTargets commands k i →
      image'.byte i = (machine (k + 1)).device.image.byte i) :
    ReplayImage commands machine final (k + 1) image' := by
  refine ⟨hsize.trans hi.size, fun i hnone => ?_, fun i j hj htarget => ?_⟩
  · rw [helse i (hnone k (Nat.lt_succ_self k))]
    exact hi.kept i fun j hj => hnone j (by omega)
  · by_cases hlast : LineTargets commands k i
    · exact hline i hlast
    · have hlt : j < k := by
        rcases Nat.lt_succ_iff_lt_or_eq.mp hj with hj | rfl
        · exact hj
        · exact absurd htarget hlast
      rw [helse i hlast, hi.rewritten i j hlt htarget]
      exact ((h.within hk).byte hlast).symm

/-- **At the end** the image is the final one. -/
theorem ReplayImage.eq_final (hi : ReplayImage commands machine final count image)
    (hfinal : (machine count).device.image = final) : image = final := by
  refine Bytes.ext_byte hi.size fun i => ?_
  by_cases htarget : ∃ j < count, LineTargets commands j i
  · obtain ⟨j, hj, htarget⟩ := htarget
    rw [hi.rewritten i j hj htarget, hfinal]
  · exact hi.kept i fun j hj htargets => htarget ⟨j, hj, htargets⟩

/-! ## The lines of a replay -/

/-- The machine of a replay before line `k`, beside that of the history. -/
structure Redoes (o : SessionOptions) (place place' : Place) (commands : List String)
    (machine : Nat → Machine) (final : Bytes) (faults : Faults) (k : Nat) (n : Machine) : Prop where
  beside : (machine k).Beside (o.stashAt place) (o.stashAt place') n
  work : o.Workspace n.files place'
  base : n.stash.base = o.stashDir
  faults : n.device.faults = faults
  image : ReplayImage commands machine final k n.device.image

section Redoes

variable (h : History P o place commands count machine)
  (hfinal : (machine count).device.image = final)

include h hfinal

/-- The history does not shrink its image. -/
theorem size_le_final (hk : k ≤ count) : (machine k).device.image.size ≤ final.size :=
  hfinal ▸ (h.within_of_le hk (Nat.le_refl count)).size_le

/-- **One more line of a replay.** -/
theorem Redoes.step (hr : Redoes o place place' commands machine final faults k n) (hk : k < count)
    (hstep : Stepped P o place' commands k n n')
    (hfree : ∀ c, instruction? commands k = some c →
      CollisionFree P fun data => c.Handles P (machine k) data ∨ c.Handles P n data) :
    Redoes o place place' commands machine final faults (k + 1) n' := by
  have hwithin := within_stepped h.plain hr.beside.live' hr.base hr.work hstep
  have hbeside : n'.newData = (machine (k + 1)).newData →
      (machine (k + 1)).Beside (o.stashAt place) (o.stashAt place') n' :=
    hr.beside.of_within (h.within hk) hwithin
  have helse : ∀ i, ¬ LineTargets commands k i →
      n'.device.image.byte i = n.device.image.byte i := fun i => hwithin.byte
  have hrest : n'.newData = (machine (k + 1)).newData →
      ReplayImage commands machine final (k + 1) n'.device.image →
      Redoes o place place' commands machine final faults (k + 1) n' := fun hnew himage =>
    ⟨hbeside hnew, hr.work.congr hwithin.directories, hwithin.stash ▸ hr.base,
      hwithin.faults.trans hr.faults, himage⟩
  rw [Stepped] at hstep
  rcases hc : instruction? commands k with _ | c <;> rw [hc] at hstep
  · obtain rfl : n' = n := hstep
    refine hrest (by rw [h.step_of_none hk hc, hr.beside.newData]) ?_
    refine hr.image.next h hk rfl (fun _ _ => rfl) ?_
    rintro i ⟨c, hc', -⟩
    cases hc.symm.trans hc'
  · obtain ⟨n₁, hredo, rfl⟩ := hstep
    obtain ⟨m₁, hrun, hmachine⟩ := h.step_of_instruction? hk hc
    have hmarked : ∀ {place : Place} {m : Machine}, (o.marked place c m).device = m.device ∧
        (o.marked place c m).newData = m.newData := fun {place m} => by
      rw [marked_eq]
      exact ⟨rfl, rfl⟩
    have hdevice : (machine (k + 1)).device = m₁.device := by rw [hmachine, hmarked.1]
    have hsize : m₁.device.image.size ≤ n.device.image.size := by
      rw [← hdevice, hr.image.size]
      exact size_le_final h hfinal hk
    -- what both leave in the target has the digest that the command names
    have hcontents : CollisionFree P (c.TargetContents m₁ n₁) := by
      refine (hfree c hc).mono ?_
      rintro data ⟨r, hrecipe, hread | hread⟩
      · exact .inl ⟨r, hrecipe, .inr (by rw [hrun]; exact hread)⟩
      · exact .inr ⟨r, hrecipe, .inr (by rw [hredo]; exact hread)⟩
    obtain ⟨hsame, hbytes⟩ := Command.redone hr.beside.toPaired (fun _ => hr.beside.newData) hrun
      hredo hsize hcontents
    refine hrest ?_ (hr.image.next h hk ?_ helse ?_)
    · rw [hmachine, hmarked.2, hmarked.2]
      exact Command.redone_newData hr.beside hrun hredo
    · rw [hmarked.1, hsame]
    · rintro i ⟨c', hc', hi⟩
      obtain rfl := Option.some.inj (hc.symm.trans hc')
      rw [hmarked.1, hdevice]
      exact hbytes i hi

variable (hwrite : o.canWrite = true) {start : Run}
  (hstart : Redoes o place place' commands machine final faults 0 start.machine)
  (hfree : ∀ k c r, instruction? commands k = some c →
    outcome (runLines P o RetrySkip.none 0 (commands.take k)) start = (.ok (), r) →
    CollisionFree P fun data => c.Handles P (machine k) data ∨ c.Handles P r.machine data)

include hwrite hstart hfree

/-- **The lines that a replay is done with.** -/
theorem Redoes.lines (hk : k ≤ count) {r : Run}
    (hrun : outcome (runLines P o RetrySkip.none 0 (commands.take k)) start = (.ok (), r)) :
    Redoes o place place' commands machine final faults k r.machine := by
  -- the induction is on the lines that are done, and `Redoes` is what each of them keeps
  induction k generalizing r with
  | zero =>
    obtain rfl : start = r := congrArg Prod.snd hrun
    exact hstart
  | succ k ih =>
    rcases hline : commands[k]? with _ | line
    · rw [take_succ_of_none hline] at hrun
      have hnone : instruction? commands k = none := by rw [instruction?, hline]
      refine (ih (Nat.le_of_lt hk) hrun).step h hfinal hk ?_ fun c hc => hfree k c r hc hrun
      rw [Stepped, hnone]
    · obtain ⟨r₁, hlines, hone⟩ := (runLines_take_succ hline).mp hrun
      have hr₁ := ih (Nat.le_of_lt hk) hlines
      exact hr₁.step h hfinal hk
        (stepped_of_runLine h.plain hwrite hline hr₁.beside.live' hr₁.base hr₁.work hone).1
        fun c hc => hfree k c r₁ hc hlines

/-- **A replay gets as far** as its commands find what they must. -/
theorem Redoes.reach (hnone : faults = Faults.none)
    (hrepeat : ∀ k c r, instruction? commands k = some c →
      outcome (runLines P o RetrySkip.none 0 (commands.take k)) start = (.ok (), r) →
      c.Repeatable P (machine k) r.machine)
    (hbrief : ∀ k c r id data, instruction? commands k = some c →
      outcome (runLines P o RetrySkip.none 0 (commands.take k)) start = (.ok (), r) →
      c.Stashes P r.machine id data → (P.sha256 data).size ≤ 32) (hk : k ≤ count) :
    ∃ r, outcome (runLines P o RetrySkip.none 0 (commands.take k)) start = (.ok (), r) := by
  induction k with
  | zero => exact ⟨start, rfl⟩
  | succ k ih =>
    obtain ⟨r, hlines⟩ := ih (Nat.le_of_lt hk)
    have hr := Redoes.lines h hfinal hwrite hstart hfree (Nat.le_of_lt hk) hlines
    rcases hc : instruction? commands k with _ | c
    · refine ⟨r, ?_⟩
      rcases hline : commands[k]? with _ | line
      · rw [take_succ_of_none hline]
        exact hlines
      · exact (runLines_take_succ hline).mpr
          ⟨r, hlines, runLine_idle hline hc fun e => h.readable k hk line e hline⟩
    · obtain ⟨m₁, hrun, hmachine⟩ := h.step_of_instruction? hk hc
      have hsize : m₁.device.image.size ≤ r.machine.device.image.size := by
        have hle := size_le_final h hfinal (Nat.succ_le_of_lt hk)
        rw [hmachine, marked_eq] at hle
        rw [hr.image.size]
        exact hle
      have hhealthy : r.machine.device.Healthy := ⟨hr.faults.trans hnone, hr.beside.endless'⟩
      obtain ⟨n₁, hredo⟩ := Command.run_of_repeatable hr.beside hhealthy hrun hsize
        (hrepeat k c r hc hlines) (fun id data => hbrief k c r id data hc hlines)
        (hfree k c r hc hlines)
      have hwithin := Command.run_within hr.beside.live' hr.beside.sited' hredo
      obtain ⟨r', hlines', -⟩ := runLines_take_of_run hc hlines (not_skips_none c) h.plain hwrite
        (hr.work.congr hwithin.directories) hredo
      exact ⟨r', hlines'⟩

end Redoes

/-! ## The result -/

section Result

variable {lines : List String} {inputs : ScriptInputs} {w w₁ w' : World} {summary : Summary}
  {header : ScriptHeader} {p : Prepared} {c : Command} {m : Machine}

/-- **A script can be replayed**: each command that both sessions come to finds what it must. -/
def Replayable (P : Primitives) (o : SessionOptions) (lines : List String) (inputs : ScriptInputs)
    (w w' : World) : Prop :=
  ∀ k c m n, ExecutesAt P o lines inputs w k c m →
    ExecutesAt P { o with retry := true } lines inputs w' k c n → c.Repeatable P m n

/-- What moves and patches load and make in both sessions. -/
def ReplayData (P : Primitives) (o : SessionOptions) (lines : List String) (inputs : ScriptInputs)
    (w w' : World) (data : Bytes) : Prop :=
  ∃ k c m, (ExecutesAt P o lines inputs w k c m ∨
    ExecutesAt P { o with retry := true } lines inputs w' k c m) ∧ c.Handles P m data

/-- A session executes a command in one machine only. -/
theorem executesAt_iff {w₀ : World} (hprepare : outcome (prepare o lines inputs) w = (.ok p, w₀)) :
    ExecutesAt P o lines inputs w k c m ↔ ∃ r,
      outcome (runLines P o p.skip 0 (p.commands.take k))
        { machine := p.machine, progress := w₀.progress } = (.ok (), r) ∧
      instruction? p.commands k = some c ∧ p.skip.skips c = false ∧ r.machine = m := by
  constructor
  · rintro ⟨p', r, ⟨w₂, hprepare', hrun⟩, hc, hskip, hm⟩
    rw [hprepare] at hprepare'
    obtain ⟨hp, rfl⟩ := Prod.ext_iff.mp hprepare'
    obtain rfl := Except.ok.inj hp
    exact ⟨r, hrun, hc, hskip, hm⟩
  · rintro ⟨r, hrun, hc, hskip, hm⟩
    exact ⟨p, r, ⟨w₀, hprepare, hrun⟩, hc, hskip, hm⟩

/-- The machines of a history are those in which the session executes its commands. -/
theorem Fresh.executesAt_eq (h : Fresh P o lines inputs w header place p p.commands.length machine)
    (hat : ExecutesAt P o lines inputs w k c m) :
    k < p.commands.length ∧ instruction? p.commands k = some c ∧ m = machine k := by
  obtain ⟨_, ⟨w₀, hprepare, -⟩, -⟩ := h.reach 0 (Nat.zero_le _)
  obtain ⟨r, hrun, hc, -, rfl⟩ := (executesAt_iff hprepare).mp hat
  have hk := lt_length_of_instruction? hc
  obtain ⟨r', ⟨w₂, hprepare', hrun'⟩, hmachine⟩ := h.reach k (Nat.le_of_lt hk)
  rw [hprepare] at hprepare'
  obtain rfl : w₀ = w₂ := congrArg Prod.snd hprepare'
  rw [hrun] at hrun'
  obtain rfl : r = r' := congrArg Prod.snd hrun'
  exact ⟨hk, hc, hmachine⟩

/-- A command on a line that a session is done with has succeeded. -/
theorem run_of_runLines {skip : RetrySkip} {start r r' : Run} {j : Nat} (hjk : j < k)
    (hlines : outcome (runLines P o skip 0 (commands.take k)) start = (.ok (), r'))
    (hrun : outcome (runLines P o skip 0 (commands.take j)) start = (.ok (), r))
    (hc : instruction? commands j = some c) (hskip : skip.skips c = false) :
    ∃ n, outcome (c.run P) r.machine = (.ok (), n) := by
  obtain ⟨r₂, hnext⟩ := reached_of_le (Nat.succ_le_of_lt hjk) hlines
  obtain ⟨line, hline, -⟩ := instruction?_eq_some.mp hc
  obtain ⟨r₁, hfirst, hone⟩ := (runLines_take_succ hline).mp hnext
  rw [hrun] at hfirst
  obtain rfl : r = r₁ := congrArg Prod.snd hfirst
  rw [runLine_instruction hline hc, if_neg (by rw [hskip]; exact Bool.false_ne_true)] at hone
  obtain ⟨n, t, hcommand, -⟩ := runCommand_eq_ok hone
  exact ⟨n, hcommand⟩

/-- **A replay begins** beside the history, with the final image. -/
theorem Fresh.redoes (h : Fresh P o lines inputs w header place p count machine)
    (hclean : o.Clean w'.files place') (hwell : w'.files.WellFormed)
    (hendless : w.device.endless = false) (hendless' : w'.device.endless = false)
    (hdiscards : w'.device.discards = w.device.discards) {w₀ : World}
    (hw₀ : w₀ = { w' with files := w'.files.put (o.stashAt place') .directory }) :
    Redoes { o with retry := true } place place' p.commands machine w'.device.image
      w'.device.faults 0 (blankMachine { o with retry := true } header true inputs w₀) := by
  subst hw₀
  obtain ⟨begun, hbegins⟩ := h.begins
  have hdevice : (machine 0).device = w.device := h.device
  have hwork := hclean.workspace h.history.plain
  refine ⟨⟨⟨h.history.live, rfl, by rw [hbegins]; rfl, by rw [hdevice, hendless], hendless', ?_,
    h.history.sited_at (Nat.zero_le _), hwork.sited h.history.plain rfl⟩, by rw [hbegins]; rfl,
    by rw [hbegins]; rfl, by rw [hbegins]; rfl, rfl, fun name => ?_⟩,
    SessionOptions.Clean.workspace hclean.retrying h.history.plain, rfl, rfl, replayImage_zero⟩
  · rw [hdevice, ← hdiscards]
    rfl
  · have hnone := noEntry_of_clean hwell hclean name
    show (w'.files.put (o.stashAt place') .directory).get? (o.stashAt place' ++ [name]) ≠ _
    rw [hnone]
    exact nofun

/-- **A replay succeeds exactly if its commands find what they must, and then the image is the
same.** Only a device with faults may make it fail although they do. -/
theorem replayed_image_eq (hretry : o.retry = false) (hwrite : o.canWrite = true)
    (hplain : o.PlainPartition) (hwell : w.files.WellFormed) (hendless : w.device.endless = false)
    (hfresh : outcome (runScript P o lines inputs) w = (.ok summary, w₁))
    (hwell' : w'.files.WellFormed) (hclean : o.Clean w'.files place)
    (himage : w'.device.image = w₁.device.image) (hendless' : w'.device.endless = false)
    (hdiscards : w'.device.discards = w.device.discards)
    (hbrief : ∀ k c n id data, ExecutesAt P { o with retry := true } lines inputs w' k c n →
      c.Stashes P n id data → (P.sha256 data).size ≤ 32)
    (hfree : CollisionFree P (ReplayData P o lines inputs w w')) :
    (∀ summary' w₂, outcome (runScript P { o with retry := true } lines inputs) w' =
        (.ok summary', w₂) →
      Replayable P o lines inputs w w' ∧ w₂.device.image = w₁.device.image) ∧
    (w'.device.faults = Faults.none → Replayable P o lines inputs w w' →
      ∃ summary' w₂, outcome (runScript P { o with retry := true } lines inputs) w' =
        (.ok summary', w₂)) := by
  obtain ⟨header, _, p, machine, h, hfinished⟩ :=
    fresh_of_runScript hretry hwrite hplain hwell hfresh
  obtain ⟨used, hheader, hcommands⟩ := h.commands
  obtain ⟨w₀, hw₀, hprepare⟩ := prepare_clean_resumed (o := { o with retry := true }) inputs rfl
    hwrite hplain hwell' hclean.retrying hheader
  have hstart := h.redoes hclean hwell' hendless hendless' hdiscards hw₀
  have hfinal : (machine p.commands.length).device.image = w'.device.image :=
    hfinished.1.symm.trans himage.symm
  rw [← hcommands] at hprepare
  let start : Run :=
    { machine := blankMachine { o with retry := true } header true inputs w₀
      progress := w₀.progress }
  have hexecutes : ∀ {k c r}, instruction? p.commands k = some c →
      outcome (runLines P { o with retry := true } RetrySkip.none 0 (p.commands.take k)) start =
        (.ok (), r) →
      ExecutesAt P { o with retry := true } lines inputs w' k c r.machine := fun hc hrun =>
    (executesAt_iff hprepare).mpr ⟨_, hrun, hc, rfl, rfl⟩
  have hfree' : ∀ k c r, instruction? p.commands k = some c →
      outcome (runLines P { o with retry := true } RetrySkip.none 0 (p.commands.take k)) start =
        (.ok (), r) →
      CollisionFree P fun data => c.Handles P (machine k) data ∨ c.Handles P r.machine data := by
    intro k c r hc hrun
    refine hfree.mono fun data hdata => ?_
    rcases hdata with hdata | hdata
    · exact ⟨k, c, _, .inl (h.executes (lt_length_of_instruction? hc) hc), hdata⟩
    · exact ⟨k, c, _, .inr (hexecutes hc hrun), hdata⟩
  constructor
  · intro summary' w₂ hrun
    obtain ⟨p', w₃, r, hprepare', hlines, hcleanUp, -⟩ := runScript_eq_ok.mp hrun
    rw [hprepare] at hprepare'
    obtain ⟨hp, rfl⟩ := Prod.ext_iff.mp hprepare'
    obtain rfl := Except.ok.inj hp
    have hall : outcome (runLines P { o with retry := true } RetrySkip.none 0
        (p.commands.take p.commands.length)) start = (.ok (), r) := by
      rw [List.take_length]
      exact hlines
    refine ⟨fun k c m n hat hat' => ?_, ?_⟩
    · obtain ⟨hk, hc, rfl⟩ := h.executesAt_eq hat
      obtain ⟨r', hrun', -, hskip, rfl⟩ := (executesAt_iff hprepare).mp hat'
      have hr := Redoes.lines h.history.retrying hfinal hwrite hstart hfree' (Nat.le_of_lt hk) hrun'
      obtain ⟨n', hredo⟩ := run_of_runLines hk hall hrun' hc hskip
      exact Command.repeatable_of_run hr.beside.live' hr.beside.sited' hredo _
    · have hend := Redoes.lines h.history.retrying hfinal hwrite hstart hfree' (Nat.le_refl _) hall
      have hleft := finished_of_cleanUp (o := { o with retry := true }) hwrite hplain
        (show SessionOptions.Workspace _ r.world.files place from hend.work) rfl hcleanUp
      rw [hleft.1, ← himage]
      exact hend.image.eq_final hfinal
  · intro hnone hreplay
    obtain ⟨r, hlines⟩ := Redoes.reach h.history.retrying hfinal hwrite hstart hfree' hnone
      (fun k c r hc hrun => hreplay k c _ _ (h.executes (lt_length_of_instruction? hc) hc)
        (hexecutes hc hrun))
      (fun k c r id data hc hrun => hbrief k c _ id data (hexecutes hc hrun)) (Nat.le_refl _)
    have hend := Redoes.lines h.history.retrying hfinal hwrite hstart hfree' (Nat.le_refl _) hlines
    rw [List.take_length] at hlines
    obtain ⟨summary', w₂, hrun, -⟩ :=
      runScript_of_runLines (o := { o with retry := true }) hwrite hplain hprepare hlines
        hend.work rfl
    exact ⟨summary', w₂, hrun⟩

end Result

/-! ## A script that can be replayed, and one that cannot -/

open Bytes (uniform)

/-- A script that copies block 0 to block 1, if it is filled with `7`, and clears block 1. -/
def copyAndClear : List String := ["4", "2", "0", "0", copyLine, "zero 2,1,2"]

def copyBlock : Command := { refreshMove with index := 0 }

def clearBlock : Command := ⟨.zero, ["2,1,2"], "zero 2,1,2", 1⟩

/-- What the move says. -/
def copyRecipe : Command.Recipe := ⟨Digest.name [7], Digest.name [7], ⟨[⟨1, 1⟩], 1⟩, 2⟩

theorem header_copyAndClear : ScriptHeader.parse copyAndClear = .ok (⟨4, 2, 0, 0⟩, 4) := by
  rw [copyAndClear]
  cbv

theorem instruction?_copyBlock : instruction? (copyAndClear.drop 4) 0 = some copyBlock :=
  instruction?_eq_some.mpr ⟨copyLine, rfl, by decide, by decide⟩

theorem instruction?_clearBlock : instruction? (copyAndClear.drop 4) 1 = some clearBlock :=
  instruction?_eq_some.mpr ⟨"zero 2,1,2", rfl, by decide, by decide⟩

theorem instruction?_copyAndClear (hc : instruction? (copyAndClear.drop 4) k = some c) :
    k = 0 ∧ c = copyBlock ∨ k = 1 ∧ c = clearBlock := by
  rcases k with _ | _ | k
  · exact .inl ⟨rfl, Option.some.inj (hc.symm.trans instruction?_copyBlock)⟩
  · exact .inr ⟨rfl, Option.some.inj (hc.symm.trans instruction?_clearBlock)⟩
  · obtain ⟨line, hline, -⟩ := instruction?_eq_some.mp hc
    cases hline

section Copy

variable {x y : UInt8} {m : Machine} (hhealthy : m.device.Healthy)
  (himage : m.device.image = uniform [x, y])

theorem limit_two : [x, y].length * blockSize < Device.offsetLimit := by
  show 2 * blockSize < Device.offsetLimit
  decide

theorem fits_two {b : Nat} (hb : b < 2) :
    ∀ q ∈ ([⟨b, 1⟩] : List BlockRange), q.stop ≤ [x, y].length := by
  intro q hq
  rw [List.mem_singleton.mp hq]
  exact hb

include hhealthy himage

/-- The target of the move is as it should be if it is filled with `7`. -/
theorem upToDate_copyBlock : Command.UpToDate .tabled copyRecipe m ↔ y = 7 := by
  have hread : copyRecipe.target.read? m.device =
      some (uniform (BlockSet.pick [⟨1, 1⟩] [x, y])) :=
    BlockSet.read?_uniform hhealthy himage limit_two (fits_two (by decide))
  have hpick : BlockSet.pick [⟨1, 1⟩] [x, y] = [y] := rfl
  rw [hpick] at hread
  have hverify : Checksum.verify .tabled (uniform [y]) 1 (Digest.name [7]) = decide (y = 7) :=
    (verify_refresh rfl).trans (by simp)
  constructor
  · rintro ⟨current, hcurrent, hdigest⟩
    obtain rfl := Option.some.inj (hread.symm.trans hcurrent)
    exact of_decide_eq_true (hverify.symm.trans hdigest)
  · exact fun hy => ⟨_, hread, hverify.trans (decide_eq_true hy)⟩

/-- The move finds its source if that is filled with `7`. -/
theorem source_copyBlock (hx : x = 7) : copyBlock.source .tabled copyRecipe m =
    .ok ⟨uniform [x], 1, some ⟨[⟨0, 1⟩], 1⟩⟩ := by
  have hfirst : copyBlock.arg 3 = .ok "2,0,1" := rfl
  have hload := Command.load_uniform (c := copyBlock) hhealthy ⟨[⟨0, 1⟩], 1⟩ himage limit_two
    (rfl : copyBlock.number 2 = .ok 1) hfirst (by decide) rfl rfl (fits_two (by decide))
  have hpick : BlockSet.pick [⟨0, 1⟩] [x, y] = [x] := rfl
  rw [hpick] at hload
  refine Command.source_eq_ok.mpr ⟨_, hload, .inl ⟨?_, rfl⟩⟩
  rw [hx]
  exact (verify_refresh rfl).trans rfl

/-- The move, where its target has to be made. -/
theorem run_copyBlock (hx : x = 7) (hy : y ≠ 7) (hlive : m.canWrite = true)
    (hsited : m.stash.Sited m.files place)
    (hfile : m.files.get? (place ++ [Digest.name [7]]) ≠ some .directory) :
    ∃ m', outcome (copyBlock.run .tabled) m = (.ok (), m') ∧ m'.device.Healthy ∧
      m'.device.image = uniform [x, 7] := by
  subst hx
  have hfirst : copyBlock.arg 3 = .ok "2,0,1" := rfl
  have hrecipe : copyBlock.recipe = .ok copyRecipe := rfl
  obtain ⟨m', hrun, hhealthy', himage'⟩ := Command.makeTarget_uniform (r := copyRecipe) hhealthy
    ⟨[⟨0, 1⟩], 1⟩ himage limit_two hlive hsited rfl hrecipe (fits_two (by decide))
    ((verify_refresh rfl).trans (decide_eq_false fun hsame => hy (List.cons.inj hsame).1)) rfl hfirst
    (by decide) rfl rfl (fits_two (by decide)) ((verify_refresh rfl).trans rfl) rfl (Nat.le_refl 1)
    hfile ((verify_refresh rfl).trans rfl)
  have hspread : BlockSet.spread copyRecipe.target.ranges (BlockSet.pick [⟨0, 1⟩] [7, y]) [7, y] =
      [7, 7] := rfl
  rw [hspread] at himage'
  exact ⟨m', hrun, hhealthy', himage'⟩

/-- The move can be done again where its source is, if it had to be done before. -/
theorem repeatable_copyBlock (hx : x = 7) {z : UInt8} (m' : Machine) (hhealthy' : m'.device.Healthy)
    (himage' : m'.device.image = uniform [x, z]) (hz : z ≠ 7) (hlimits : m.header.Unlimited) :
    copyBlock.Repeatable .tabled m' m := by
  refine ⟨nofun, fun _ recipe hrecipe => .inr ?_⟩
  have hcopy : copyBlock.recipe = .ok copyRecipe := rfl
  obtain rfl := Except.ok.inj (hcopy.symm.trans hrecipe)
  exact ⟨_, source_copyBlock hhealthy himage hx, fun _ => hlimits.hasRoom _,
    fun hdate => absurd ((upToDate_copyBlock hhealthy' himage').mp hdate) hz⟩

/-- Nothing is stashed: the source and the target are apart. -/
theorem not_stashes_copyBlock (hx : x = 7) {id : String} {data : Bytes} :
    ¬ copyBlock.Stashes .tabled m id data := by
  rintro (⟨hverb, -⟩ | ⟨-, hneeds, hsource, set, hset, hoverlap, -⟩)
  · cases hverb
  · have hcopy : copyBlock.recipe = .ok copyRecipe := rfl
    obtain rfl := Except.ok.inj (hcopy.symm.trans hneeds.1)
    rw [source_copyBlock hhealthy himage hx] at hsource
    obtain rfl := Except.ok.inj hsource
    obtain rfl := Option.some.inj hset
    cases hoverlap

/-- Zeros are written whatever is there. -/
theorem run_clearBlock (hfile : m.device.isBlockDevice = false) (hlive : m.canWrite = true) :
    ∃ m', outcome (clearBlock.run .tabled) m = (.ok (), m') ∧
      m'.device.image = uniform [x, 0] := by
  have hset : clearBlock.blockSet 0 = .ok ⟨[⟨1, 1⟩], 1⟩ := rfl
  obtain ⟨m', hrun, himage'⟩ := Command.clear_uniform hhealthy himage limit_two hlive hfile rfl hset
    (fits_two (by decide))
  have hspread : BlockSet.spread [⟨1, 1⟩] (List.replicate 1 0) [x, y] = [x, 0] := rfl
  rw [hspread] at himage'
  exact ⟨m', hrun, himage'⟩

end Copy

/-- The script succeeds where block 0 is filled with `7`, and leaves block 1 cleared. -/
theorem runScript_copyAndClear : ∃ summary w₁,
    outcome (runScript .tabled blockOptions copyAndClear {}) (blockWorld [7, 1]) =
      (.ok summary, w₁) ∧ w₁.device.image = uniform [7, 0] := by
  obtain ⟨w₀, hprepare⟩ := prepare_blockWorld [7, 1] {} header_copyAndClear
  let m := blockMachine [7, 1] ⟨4, 2, 0, 0⟩ {}
  have hsited := sited_blockMachine [7, 1] ⟨4, 2, 0, 0⟩ {}
  obtain ⟨m₁, hcopy, hhealthy₁, himage₁⟩ := run_copyBlock (m := m) (x := 7) (y := 1) ⟨rfl, rfl⟩ rfl
    rfl (by decide) rfl hsited (by rw [noEntry_blockMachine]; exact nofun)
  have hwithin := Command.run_within rfl hsited hcopy
  have hwork₁ := (work_blockMachine [7, 1] ⟨4, 2, 0, 0⟩ {}).congr hwithin.directories
  obtain ⟨r₁, hlines₁, hmachine₁⟩ := runLines_take_of_run instruction?_copyBlock
    (r := { machine := m, progress := w₀.progress }) rfl (not_skips_none copyBlock)
    plain_blockOptions rfl hwork₁ hcopy
  have hwork : blockOptions.Workspace r₁.machine.files ["w"] := by
    rw [hmachine₁]
    exact work_marked hwork₁
  rw [marked_eq] at hmachine₁
  have hfile : r₁.machine.device.isBlockDevice = false := by
    rw [hmachine₁, Device.isBlockDevice, hwithin.discards]
    rfl
  have hlive : r₁.machine.canWrite = true := by
    rw [hmachine₁]
    exact hwithin.canWrite
  obtain ⟨m₂, hclear, himage₂⟩ := run_clearBlock (m := r₁.machine)
    (by rw [hmachine₁]; exact hhealthy₁) (by rw [hmachine₁]; exact himage₁) hfile hlive
  have hsited₁ := hwork.sited (s := r₁.machine.stash) plain_blockOptions
    (by rw [hmachine₁]; exact congrArg Stash.base hwithin.stash)
  have hwork₂ := hwork.congr (Command.run_within hlive hsited₁ hclear).directories
  obtain ⟨r₂, hlines₂, hmachine₂⟩ := runLines_take_of_run instruction?_clearBlock hlines₁
    (not_skips_none clearBlock) plain_blockOptions rfl hwork₂ hclear
  obtain ⟨summary, w₁, hrun, hdevice⟩ := runScript_of_runLines rfl plain_blockOptions hprepare
    hlines₂ (by rw [hmachine₂]; exact work_marked hwork₂) rfl
  refine ⟨summary, w₁, hrun, ?_⟩
  rw [hdevice, hmachine₂, marked_eq]
  exact himage₂

/-- **A move may be done again** although its target was overwritten: its source is still there. -/
theorem replayed_copyAndClear : ∃ summary w₁ summary' w₂,
    outcome (runScript .tabled blockOptions copyAndClear {}) (blockWorld [7, 1]) =
      (.ok summary, w₁) ∧
    w₁.device.image = (blockWorld [7, 0]).device.image ∧
    outcome (runScript .tabled { blockOptions with retry := true } copyAndClear {})
      (blockWorld [7, 0]) = (.ok summary', w₂) ∧
    w₂.device.image = w₁.device.image := by
  obtain ⟨summary, w₁, hrun, himage⟩ := runScript_copyAndClear
  obtain ⟨w₀, hprepare⟩ := prepare_blockWorld [7, 1] {} header_copyAndClear
  obtain ⟨w₀', rfl, hprepare'⟩ := prepare_clean_resumed (o := resumingOptions) {} rfl rfl
    plain_resumingOptions (wellFormed_blockWorld [7, 0]) (clean_blockWorld [7, 0]).retrying
    header_copyAndClear
  have hreplay : Replayable .tabled blockOptions copyAndClear {} (blockWorld [7, 1])
      (blockWorld [7, 0]) := by
    intro k c m n hat hat'
    obtain ⟨r, hlines, hc, -, rfl⟩ := (executesAt_iff hprepare).mp hat
    obtain ⟨r', hlines', -, -, rfl⟩ := (executesAt_iff hprepare').mp hat'
    rcases instruction?_copyAndClear hc with ⟨rfl, rfl⟩ | ⟨rfl, rfl⟩
    · obtain rfl := congrArg Prod.snd hlines
      obtain rfl := congrArg Prod.snd hlines'
      exact repeatable_copyBlock (x := 7) (y := 0) (z := 1) (m := blockMachine [7, 0] _ {})
        ⟨rfl, rfl⟩ rfl rfl (blockMachine [7, 1] _ {}) ⟨rfl, rfl⟩ rfl (by decide) ⟨rfl, rfl⟩
    · refine ⟨nofun, fun hmakes => ?_⟩
      rcases hmakes with hverb | hverb | hverb | hverb <;> cases hverb
  have hbrief : ∀ k c n id data,
      ExecutesAt .tabled resumingOptions copyAndClear {} (blockWorld [7, 0]) k c n →
      c.Stashes .tabled n id data → (Primitives.tabled.sha256 data).size ≤ 32 := by
    intro k c n id data hat hstashes
    obtain ⟨r, hlines, hc, -, rfl⟩ := (executesAt_iff hprepare').mp hat
    rcases instruction?_copyAndClear hc with ⟨rfl, rfl⟩ | ⟨rfl, rfl⟩
    · obtain rfl := congrArg Prod.snd hlines
      exact absurd hstashes (not_stashes_copyBlock (x := 7) (y := 0)
        (m := blockMachine [7, 0] ⟨4, 2, 0, 0⟩ {}) ⟨rfl, rfl⟩ rfl rfl)
    · cases hstashes with
      | blocks hverb => cases hverb
      | source hmakes => rcases hmakes with hverb | hverb | hverb | hverb <;> cases hverb
  have himage' : (blockWorld [7, 0]).device.image = w₁.device.image := himage.symm
  have hdiscards : ∀ fill, (blockWorld fill).device.discards = none := fun _ => rfl
  obtain ⟨hsame, hagain⟩ := replayed_image_eq (o := blockOptions) rfl rfl plain_blockOptions
    (wellFormed_blockWorld [7, 1]) rfl hrun (wellFormed_blockWorld [7, 0])
    (clean_blockWorld [7, 0]) himage' rfl ((hdiscards _).trans (hdiscards _).symm) hbrief
    (collisionFree_tabled _)
  obtain ⟨summary', w₂, hrun'⟩ := hagain rfl hreplay
  exact ⟨summary, w₁, summary', w₂, hrun, himage, hrun', (hsame _ _ hrun').2⟩

/-- Stashes a block, if it is filled with `7`. -/
def keepLine : String :=
  "stash c9ac7b0624824f844f6c7f3d50fab9741a8914e878467e8daaedca143a34d90b 2,0,1"

/-- A script that stashes a block and then writes new data to it. -/
def keepAndRefresh : List String := ["4", "1", "1", "0", keepLine, "new 2,0,1"]

def keepBlock : Command := ⟨.stash, [Digest.name [7], "2,0,1"], keepLine, 0⟩

def newBlock : Command := ⟨.new, ["2,0,1"], "new 2,0,1", 1⟩

theorem header_keepAndRefresh : ScriptHeader.parse keepAndRefresh = .ok (⟨4, 1, 1, 0⟩, 4) := by
  rw [keepAndRefresh]
  cbv

theorem instruction?_keepBlock : instruction? (keepAndRefresh.drop 4) 0 = some keepBlock :=
  instruction?_eq_some.mpr ⟨keepLine, rfl, by decide, by decide⟩

theorem instruction?_newBlock : instruction? (keepAndRefresh.drop 4) 1 = some newBlock :=
  instruction?_eq_some.mpr ⟨"new 2,0,1", rfl, by decide, by decide⟩

theorem limit_block {x : UInt8} : [x].length * blockSize < Device.offsetLimit := by
  show 1 * blockSize < Device.offsetLimit
  decide

/-- What the script can stash of a block that is filled with `x`. -/
theorem run_keepBlock {x : UInt8} {m m' : Machine} (hhealthy : m.device.Healthy)
    (himage : m.device.image = uniform [x]) (hlive : m.canWrite = true)
    (hsited : m.stash.Sited m.files place)
    (hnone : ∀ name, m.files.get? (place ++ [name]) = none) (hroom : m.HasRoom 1) :
    outcome (keepBlock.run .tabled) m = (.ok (), m') ↔
      x = 7 ∧ m' = m.keeping place (Digest.name [7]) 1 (uniform [x]) := by
  have hsteps : keepBlock.run .tabled = keepBlock.stashBlocks .tabled := rfl
  have hset : keepBlock.blockSet 1 = .ok ⟨[⟨0, 1⟩], 1⟩ := rfl
  have hfits : ∀ q ∈ ([⟨0, 1⟩] : List BlockRange), q.stop ≤ [x].length := by
    intro q hq
    rw [List.mem_singleton.mp hq]
    exact Nat.le_refl 1
  have hpick : BlockSet.pick [⟨0, 1⟩] [x] = [x] := rfl
  have hread : (⟨[⟨0, 1⟩], 1⟩ : BlockSet).read? m.device =
      some (uniform (BlockSet.pick [⟨0, 1⟩] [x])) :=
    BlockSet.read?_uniform hhealthy himage limit_block hfits
  rw [hpick] at hread
  have hverify : Checksum.verify .tabled (uniform [x]) 1 (Digest.name [7]) = decide (x = 7) :=
    (Checksum.verify_uniform rfl).trans (by simp)
  have hempty : m.stash.entrySize? m.files (Digest.name [7]) = none :=
    (Stash.entrySize?_eq_none hsited).mpr (.inr (hnone _))
  have hstorable : Stash.Storable m.files place (Digest.name [7]) :=
    ⟨by decide, by decide, by rw [hnone]; exact nofun, by rw [hnone]; exact nofun⟩
  rw [hsteps, Command.stashBlocks_eq_ok hlive hsited]
  constructor
  · rintro ⟨id, set, hid, hset', hfound⟩
    have hname : keepBlock.arg 0 = .ok (Digest.name [7]) := rfl
    obtain rfl := Except.ok.inj (hname.symm.trans hid)
    obtain rfl := Except.ok.inj (hset.symm.trans hset')
    obtain ⟨hthere, -⟩ | ⟨-, data, hdata, hdigest, -, -, rfl⟩ := hfound
    · cases hempty.symm.trans hthere
    · obtain rfl := Option.some.inj (hread.symm.trans hdata)
      exact ⟨of_decide_eq_true (hverify.symm.trans hdigest), rfl⟩
  · rintro ⟨rfl, rfl⟩
    refine ⟨_, _, rfl, hset, .inr ⟨?_, _, hread, hverify, hroom, hstorable, rfl⟩⟩
    rw [hempty]
    exact Option.some_ne_none _ |>.symm

theorem hasRoom_blockMachine (fill : List UInt8) :
    (blockMachine fill ⟨4, 1, 1, 0⟩ refreshInputs).HasRoom 1 := ⟨rfl, rfl⟩

/-- The script succeeds where the block is filled with `7`. -/
theorem runScript_keepAndRefresh : ∃ summary w₁,
    outcome (runScript .tabled blockOptions keepAndRefresh refreshInputs) (blockWorld [7]) =
      (.ok summary, w₁) ∧ w₁.device.image = uniform [5] := by
  obtain ⟨w₀, hprepare⟩ := prepare_blockWorld [7] refreshInputs header_keepAndRefresh
  have hsited := sited_blockMachine [7] ⟨4, 1, 1, 0⟩ refreshInputs
  have hkeep := (run_keepBlock (m := blockMachine [7] ⟨4, 1, 1, 0⟩ refreshInputs) ⟨rfl, rfl⟩ rfl rfl
    hsited (noEntry_blockMachine [7] _ _) (hasRoom_blockMachine [7])).mpr ⟨rfl, rfl⟩
  have hwork := (work_blockMachine [7] ⟨4, 1, 1, 0⟩ refreshInputs).congr
    (Command.run_within rfl hsited hkeep).directories
  obtain ⟨r₁, hlines₁, hmachine₁⟩ := runLines_take_of_run instruction?_keepBlock
    (r := { machine := blockMachine [7] ⟨4, 1, 1, 0⟩ refreshInputs, progress := w₀.progress }) rfl
    (not_skips_none keepBlock) plain_blockOptions rfl hwork hkeep
  have hwork₁ : blockOptions.Workspace r₁.machine.files ["w"] := by
    rw [hmachine₁]
    exact work_marked hwork
  rw [marked_eq] at hmachine₁
  have hdevice₁ : r₁.machine.device = Device.file (uniform [7]) := by
    rw [hmachine₁]
    rfl
  have hlive₁ : r₁.machine.canWrite = true := by
    rw [hmachine₁]
    rfl
  have hfeed₁ : r₁.machine.newData = some (Feed.start ⟨[.bytes (uniform [5])], none⟩) := by
    rw [hmachine₁]
    rfl
  obtain ⟨d, feed, m₂, hnew, hm₂, -, himage⟩ := Command.writeNewData_uniform (c := newBlock)
    (m := r₁.machine) (by rw [hdevice₁]; exact ⟨rfl, rfl⟩)
    (by rw [hdevice₁]; rfl : r₁.machine.device.image = uniform [7]) limit_block hlive₁
    (rfl : newBlock.blockSet 0 = .ok ⟨[⟨0, 1⟩], 1⟩) Nat.one_pos (rfl : [(5 : UInt8)].length = 1)
    (fun q hq => by rw [List.mem_singleton.mp hq]; exact Nat.le_refl 1) hfeed₁
  have hwork₂ : blockOptions.Workspace m₂.files ["w"] := by
    rw [hm₂]
    exact hwork₁
  have hrun₂ : outcome (newBlock.run .tabled) r₁.machine = (.ok (), m₂) := hnew
  obtain ⟨r₂, hlines₂, hmachine₂⟩ := runLines_take_of_run instruction?_newBlock hlines₁
    (not_skips_none newBlock) plain_blockOptions rfl hwork₂ hrun₂
  have hverb : newBlock.verb = .new := rfl
  rw [marked, if_pos hverb] at hmachine₂
  obtain ⟨summary, w₁, hrun, hdevice⟩ :=
    runScript_of_runLines rfl plain_blockOptions hprepare hlines₂ (hmachine₂ ▸ hwork₂) rfl
  refine ⟨summary, w₁, hrun, ?_⟩
  rw [hdevice, hmachine₂, hm₂]
  exact himage

/-- It fails where the block is filled with `5`. -/
theorem not_runScript_keepAndRefresh (summary : Summary) (w' : World) :
    outcome (runScript .tabled resumingOptions keepAndRefresh refreshInputs) (blockWorld [5]) ≠
      (.ok summary, w') := by
  intro hrun
  obtain ⟨w₀, rfl, hprepare⟩ := prepare_clean_resumed (o := resumingOptions)
    refreshInputs rfl rfl plain_resumingOptions (wellFormed_blockWorld [5])
    (clean_blockWorld [5]).retrying header_keepAndRefresh
  obtain ⟨p, w₁, r, hprepare₁, hlines, -⟩ := runScript_eq_ok.mp hrun
  rw [hprepare] at hprepare₁
  obtain ⟨hp, rfl⟩ := Prod.ext_iff.mp hprepare₁
  obtain rfl := Except.ok.inj hp
  -- had the session succeeded, its first command would have, on a block of the wrong digest
  have hboth : outcome (runLines .tabled resumingOptions RetrySkip.none 0
      ((keepAndRefresh.drop 4).take 2))
      { machine := blockMachine [5] ⟨4, 1, 1, 0⟩ refreshInputs, progress := {} } = (.ok (), r) :=
    hlines
  obtain ⟨r₁, hfirst⟩ := reached_of_le (j := 1) (by decide) hboth
  obtain ⟨r₂, hzero, hline⟩ := (runLines_take_succ
    (rfl : (keepAndRefresh.drop 4)[0]? = some keepLine)).mp hfirst
  obtain rfl := congrArg Prod.snd hzero
  rw [runLine_instruction rfl instruction?_keepBlock, if_neg (by
    rw [not_skips_none]; exact Bool.false_ne_true)] at hline
  obtain ⟨m', t, hkept, -⟩ := runCommand_eq_ok hline
  have hiff : outcome (keepBlock.run .tabled) (blockMachine [5] ⟨4, 1, 1, 0⟩ refreshInputs) =
      (.ok (), m') ↔ (5 : UInt8) = 7 ∧ _ := run_keepBlock ⟨rfl, rfl⟩ rfl rfl
    (sited_blockMachine [5] _ _) (noEntry_blockMachine [5] _ _) (hasRoom_blockMachine [5])
  have hfive : (5 : UInt8) = 7 := (hiff.mp hkept).1
  exact absurd hfive (by decide)

/-- **A script that overwrites what it has stashed** succeeds, but not once more: in the image that
it leaves, the blocks to be stashed have another digest. -/
theorem keepAndRefresh_not_replayed : ∃ summary w₁,
    outcome (runScript .tabled blockOptions keepAndRefresh refreshInputs) (blockWorld [7]) =
      (.ok summary, w₁) ∧
    w₁.device.image = (blockWorld [5]).device.image ∧
    blockOptions.Clean (blockWorld [5]).files ["w"] ∧
    ∀ summary' w₂, outcome (runScript .tabled { blockOptions with retry := true } keepAndRefresh
      refreshInputs) (blockWorld [5]) ≠ (.ok summary', w₂) := by
  obtain ⟨summary, w₁, hrun, himage⟩ := runScript_keepAndRefresh
  exact ⟨summary, w₁, hrun, himage, clean_blockWorld [5], not_runScript_keepAndRefresh⟩

end Session

end BlockUpdate
