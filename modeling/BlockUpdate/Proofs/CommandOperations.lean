import BlockUpdate.Proofs.Commands
import BlockUpdate.Proofs.Unfaulted

/-!
# What commands ask of a device

A command that writes asks its device for one list of operations, which follows from what the
command can read. It ends with the first of them that fails.

- `Machine.AsksMachine`: computations that fail as their device does, or for a reason of their own.
- `Command.Runs`: what a computation makes of given operations on a device.
- `Command.Performs`: what executing a command makes of them.
- **`Command.performs_run`**: every command that writes performs one list of operations. It asks for
  another attempt exactly if one of them fails with an input/output error, or its new data does.
-/

namespace BlockUpdate

open Unfaulted (ok error)

/-! ## Commands -/

theorem OsError.isIo_eq_true {e : OsError} : e.isIo = true ↔ e = .errno Errno.io := by
  cases e <;> simp [isIo]

namespace Machine

/-- A machine with another device. -/
def onto (m : Machine) (d : Device) : Machine := { m with device := d }

/-- A computation on a machine that fails as its device does, or for a reason of its own. -/
def AsksMachine {α : Type} (D : Option Discards) (x : MachineM CommandFailure α) : Prop :=
  ∀ m, Asks D onto CommandFailure.isIo x m fun r _ => Unfaulted CommandFailure.isIo r

namespace AsksMachine

variable {α β : Type} {D : Option Discards} {x y : MachineM CommandFailure α}
  {f : α → MachineM CommandFailure β}

theorem pure (a : α) : AsksMachine D (Pure.pure a : MachineM CommandFailure α) :=
  fun _ => Asks.pure (ok a)

theorem bind (hx : AsksMachine D x) (hf : ∀ a, AsksMachine D (f a)) : AsksMachine D (x >>= f) :=
  fun m => Asks.bind (hx m) (fun _ _ h => error (h _ rfl)) fun a m' _ => hf a m'

theorem ite {p : Prop} [Decidable p] (hx : AsksMachine D x) (hy : AsksMachine D y) :
    AsksMachine D (if p then x else y) := by
  split
  · exact hx
  · exact hy

/-- The machine is read, and not its device. -/
theorem get_bind {f : Machine → MachineM CommandFailure β} (h : ∀ m, AsksMachine D (f m))
    (hf : ∀ m d, f (m.onto d) = f m) : AsksMachine D (get >>= f) :=
  fun m => Asks.get_bind (h m m) fun d _ => hf m d

theorem modify {g : Machine → Machine} (hg : ∀ m d, g (m.onto d) = (g m).onto d) :
    AsksMachine D (modify g : MachineM CommandFailure PUnit) :=
  fun m => Asks.quiet (l := g m) (fun d => by rw [outcome_modify, hg]) (ok _)

theorem look {g : Machine → Except CommandFailure α} (hg : ∀ m d, g (m.onto d) = g m)
    (h : ∀ m, Unfaulted CommandFailure.isIo (g m)) : AsksMachine D (Machine.look g) :=
  fun m => Asks.quiet (l := m) (fun d => by rw [outcome_machineLook, hg]) (h m)

theorem ofCommand {r : Except CommandError α} (h : Unfaulted CommandError.isIo r) :
    AsksMachine D (Machine.ofCommand r) :=
  look (fun _ _ => rfl) fun _ => h.mapError CommandFailure.isIo_command

theorem onDevice {z : DeviceM BlockError α} (h : AsksDevice D BlockError.isIo z) :
    AsksMachine D (Machine.onDevice z) :=
  fun m => Asks.lift h (g := fun _ => m) (φ := Except.mapError .block) (u := m.onto)
    (fun d => outcome_machineOnDevice z (m.onto d)) (fun e => ⟨.block e, rfl, rfl⟩)
    (fun _ _ => rfl) fun _ _ h => h.mapError fun _ => rfl

theorem onFiles {z : FileM StashError α} (h : ∀ t, Unfaulted StashError.isIo (outcome z t).1) :
    AsksMachine D (Machine.onFiles z) :=
  fun m => Asks.quiet (l := { m with files := (outcome z m.files).2 })
    (fun d => outcome_machineOnFiles z (m.onto d)) ((h m.files).mapError fun _ => rfl)

end AsksMachine

theorem asks_reserve {D : Option Discards} (blocks : Nat) : AsksMachine D (reserve blocks) := by
  intro m
  -- three outcomes, none of which depends on the device
  by_cases hentries : exceeds (m.stashedEntries + 1) m.header.maxStashEntries = true
  · refine Asks.quiet (r := .error (.tooManyEntries (m.stashedEntries + 1) m.header.maxStashEntries))
      (l := m) (fun d => ?_) (error rfl)
    rw [reserve, outcome_get_bind]
    exact congrArg (outcome · (m.onto d)) (if_pos hentries)
  by_cases hblocks : exceeds (m.stashedBlocks + blocks) m.header.maxStashBlocks = true
  · refine Asks.quiet (r := .error (.tooManyBlocks (m.stashedBlocks + blocks) m.header.maxStashBlocks))
      (l := m) (fun d => ?_) (error rfl)
    rw [reserve, outcome_get_bind]
    exact congrArg (outcome · (m.onto d)) ((if_neg hentries).trans (if_pos hblocks))
  · refine Asks.quiet (r := .ok ()) (l := { m with
      stashedEntries := m.stashedEntries + 1, stashedBlocks := m.stashedBlocks + blocks })
      (fun d => ?_) (ok _)
    exact reserve_eq_ok.mpr ⟨⟨Bool.eq_false_iff.mpr hentries, Bool.eq_false_iff.mpr hblocks⟩, rfl⟩

end Machine

namespace Command

open Machine (AsksMachine onto)

variable {P : Primitives} {D : Option Discards} {c : Command} {m : Machine} {d : Device}
  {ops : List DeviceOp} {r : Recipe} {s : Source}

theorem asks_keepSource (r : Recipe) (s : Source) : AsksMachine D (keepSource r s) := by
  refine .get_bind (fun m => ?_) fun _ _ => rfl
  split
  · refine .ite (.bind (Machine.asks_reserve _) fun _ => .onFiles fun t => ?_) (.pure _)
    exact Stash.unfaulted_store _ t _ _
  · exact .pure _

theorem asks_writeTarget (P : Primitives) (c : Command) (r : Recipe) (data : Bytes) :
    AsksMachine D (writeTarget P c r data) := by
  have hsync : AsksMachine D (Machine.onDevice (DeviceM.sync.mapError .os)) :=
    .onDevice (DeviceM.asks_sync.mapError fun _ => rfl)
  have hpatch : ∀ patch, AsksDevice D BlockError.isIo
      (if (c.verb == .imgdiff) = true then r.target.applyImagePatch P patch data
        else r.target.applyBlockPatch P patch data) := by
    intro patch
    split
    · exact r.target.asks_receive (ImagePatch.ownErrors_apply P patch data).unfaulted
    · exact r.target.asks_receive (BlockPatch.ownErrors_apply P patch data).unfaulted
  refine .ite (.bind (.onDevice (r.target.asks_write data)) fun _ => hsync) ?_
  exact .bind (.look (fun _ _ => rfl) fun m => c.unfaulted_patch m.patchData) fun patch =>
    .bind (.onDevice (hpatch patch)) fun _ => hsync

theorem asks_clear (c : Command) : AsksMachine D c.clear := by
  have hwritten : ∀ set : BlockSet, AsksMachine D (Machine.addWritten set.total) :=
    fun set => .modify fun _ _ => rfl
  refine .bind (.ofCommand (c.unfaulted_blockSet 0)) fun set => .get_bind (fun m => ?_) fun _ _ => rfl
  refine .ite (.get_bind (fun m => ?_) fun _ _ => rfl) (.ite (hwritten set) (.pure _))
  exact .bind (.onDevice (set.asks_zero _ _)) fun _ => .ite (hwritten set) (.pure _)

/-! ## What a command performs -/

/-- Running a computation on a device performs operations on it: it fails with the first of them
that fails, as an input/output error exactly if that one is. Where none fails, it has no
input/output error but those that `own` names. -/
structure Runs (own : CommandFailure → Prop) (x : MachineM CommandFailure Unit) (m : Machine)
    (ops : List DeviceOp) (d : Device) : Prop where
  device : (outcome x (m.onto d)).2.device = (d.performAll ops).2
  fails : ∀ e, (d.performAll ops).1 = .error e →
    ∃ f, (outcome x (m.onto d)).1 = .error f ∧ f.isIo = e.isIo
  succeeds : (d.performAll ops).1 = .ok () → ∀ f, (outcome x (m.onto d)).1 = .error f →
    f.isIo = true → own f

variable {own : CommandFailure → Prop}

/-- Nothing is performed. -/
theorem runs_nil {x : MachineM CommandFailure Unit} {result : Except CommandFailure Unit}
    (hrun : outcome x (m.onto d) = (result, m.onto d)) (h : Unfaulted CommandFailure.isIo result) :
    Runs own x m [] d := by
  refine ⟨by rw [hrun]; rfl, nofun, fun _ f hf hio => ?_⟩
  rw [hrun] at hf
  rw [h f hf] at hio
  cases hio

/-- What comes last neither performs anything nor fails as a device does. -/
theorem Runs.of_answers {α : Type} {x : MachineM CommandFailure α}
    {f : α → MachineM CommandFailure Unit} {result : Except CommandFailure α} {m' : Machine}
    (h : Answers onto CommandFailure.isIo x m ops result m' d)
    (hown : ∀ e, result = .error e → e.isIo = true → own e)
    (hlast : ∀ a n, (outcome (f a) n).2.device = n.device ∧
      Unfaulted CommandFailure.isIo (outcome (f a) n).1) :
    Runs own (x >>= f) m ops d := by
  rw [Answers] at h
  rcases hops : d.performAll ops with ⟨e | ⟨⟩, d'⟩ <;> rw [hops] at h
  · obtain ⟨e', m'', hio, hrun⟩ := h
    have hfailed := outcome_bind_of_error hrun f
    refine ⟨by rw [hfailed, hops]; rfl, fun e₁ he => ⟨e', by rw [hfailed], ?_⟩, fun hok => ?_⟩
    · rw [hops] at he
      rw [hio, Except.error.inj he]
    · rw [hops] at hok
      cases hok
  refine ⟨?_, fun e he => ?_, fun _ e he hio => ?_⟩
  · rw [hops]
    cases result with
    | error e => rw [outcome_bind_of_error h]; rfl
    | ok a => rw [outcome_bind_of_ok h]; exact (hlast a _).1
  · rw [hops] at he
    cases he
  · cases result with
    | error e₁ =>
      rw [outcome_bind_of_error h] at he
      obtain rfl := Except.error.inj he
      exact hown e₁ rfl hio
    | ok a =>
      rw [outcome_bind_of_ok h] at he
      rw [(hlast a _).2 e he] at hio
      cases hio

theorem Runs.of_outcome {x y : MachineM CommandFailure Unit} (h : Runs own y m ops d)
    (hx : outcome x (m.onto d) = outcome y (m.onto d)) : Runs own x m ops d := by
  obtain ⟨hdevice, hfails, hsucceeds⟩ := h
  rw [← hx] at hdevice hfails hsucceeds
  exact ⟨hdevice, hfails, hsucceeds⟩

/-- What a computation asks for is what running it performs. -/
theorem runs_of_asks {x : MachineM CommandFailure Unit}
    (h : Asks D onto CommandFailure.isIo x m fun result _ =>
      ∀ e, result = .error e → e.isIo = true → own e) :
    ∃ ops, ∀ d, d.discards = D → Runs own x m ops d := by
  obtain ⟨result, m', ops, hown, hanswers⟩ := h
  refine ⟨ops, fun d hD => ?_⟩
  have h := Runs.of_answers (f := fun _ => pure ()) (hanswers d hD) hown fun _ _ => ⟨rfl, ok ()⟩
  rwa [bind_pure] at h

/-! ## New data -/

/-- The new data of a machine has an input/output error. -/
def SourceFails (m : Machine) : Prop :=
  ∃ feed e, m.newData = some feed ∧ Feed.Fails feed.source e ∧ e.isIo = true

/-- **New data**, whose source may fail as a device does. -/
theorem asks_fillFromNewData (set : BlockSet) (m : Machine) :
    Asks D onto CommandFailure.isIo (fillFromNewData set) m fun result _ =>
      ∀ e, result = .error e → e.isIo = true → SourceFails m := by
  cases hnew : m.newData with
  | none =>
    refine Asks.quiet (r := .error .noNewData) (l := m) (fun d => ?_) ?_
    · rw [fillFromNewData, outcome_mk]
      simp only [onto, hnew]
    · rintro _ ⟨⟩ hio
      cases hio
  | some feed =>
    refine Asks.lift (n := onto) (Feed.asks_fill feed (BlockWriter.new set (!m.canWrite)))
      (g := fun k => { m with newData := some k.1 })
      (φ := fun result => (result.map fun _ => ()).mapError .feed)
      (u := fun s => { m with device := s.writing.device, newData := some s.feed })
      (fun d => ?_) (fun e => ⟨.feed e, rfl, rfl⟩) (fun _ _ => rfl) fun result _ h e he hio => ?_
    · rw [fillFromNewData, outcome_mk]
      simp only [onto, hnew, outcome, Feed.feeding]
      rcases Feed.fill.run ⟨feed, ⟨BlockWriter.new set (!m.canWrite), d⟩⟩ with ⟨e | n, s⟩ <;> rfl
    · obtain ⟨e₁, hfeed, rfl⟩ := mapError_eq_error.mp he
      cases result with
      | ok n => cases hfeed
      | error e₂ =>
        obtain rfl := Except.error.inj hfeed
        obtain ⟨e', rfl, hfails⟩ := h e₂ rfl hio
        exact ⟨feed, e', hnew, hfails, hio⟩

theorem asks_writeNewData (c : Command) (m : Machine) :
    Asks D onto CommandFailure.isIo c.writeNewData m fun result _ =>
      ∀ e, result = .error e → e.isIo = true → SourceFails m := by
  rcases hset : c.blockSet 0 with e | set
  · refine Asks.quiet (r := .error (.command e)) (l := m) (fun d => ?_) ?_
    · rw [writeNewData, outcome_bind_of_error]
      rw [outcome_ofCommand, hset]
      rfl
    · rintro _ ⟨⟩ hio
      rw [CommandFailure.isIo_command, c.unfaulted_blockSet 0 e hset] at hio
      cases hio
  · refine Asks.of_outcome (y := fillFromNewData set >>= fun _ => Machine.addWritten set.total)
      ?_ fun d _ => ?_
    · refine Asks.bind (asks_fillFromNewData set m) (fun e _ h => ?_) fun _ m' _ => ?_
      · rintro _ ⟨⟩
        exact h e rfl
      · refine Asks.quiet (l := { m' with written := m'.written + set.total }) (fun _ => rfl) ?_
        rintro _ ⟨⟩
    · rw [writeNewData, outcome_bind_of_ok (ofCommand_eq_ok.mpr ⟨hset, rfl⟩)]

/-! ## Moves and patches -/

/-- A computation that leaves the device alone and does not fail as one does. -/
def OffDevice {α : Type} (x : MachineM CommandFailure α) : Prop :=
  ∀ n, (outcome x n).2.device = n.device ∧ Unfaulted CommandFailure.isIo (outcome x n).1

theorem OffDevice.bind {α β : Type} {x : MachineM CommandFailure α}
    {f : α → MachineM CommandFailure β} (hx : OffDevice x) (hf : ∀ a, OffDevice (f a)) :
    OffDevice (x >>= f) := by
  intro n
  obtain ⟨hdevice, hresult⟩ := hx n
  rcases hrun : outcome x n with ⟨e | a, n'⟩ <;> rw [hrun] at hdevice hresult
  · rw [outcome_bind_of_error hrun]
    exact ⟨hdevice, error (hresult e rfl)⟩
  · rw [outcome_bind_of_ok hrun]
    exact ⟨(hf a n').1.trans hdevice, (hf a n').2⟩

theorem offDevice_checkTarget (P : Primitives) (r : Recipe) : OffDevice (checkTarget P r) := by
  intro n
  rw [checkTarget, outcome_get_bind]
  dsimp only
  split
  · exact ⟨rfl, error rfl⟩
  · exact ⟨rfl, ok _⟩

theorem offDevice_dropSource (r : Recipe) : OffDevice (dropSource r) := by
  intro n
  rw [dropSource, outcome_get_bind]
  split
  · refine OffDevice.bind (fun n => ⟨rfl, ok _⟩) (fun _ n' => ?_) n
    rw [outcome_machineOnFiles]
    exact ⟨rfl, (n.stash.unfaulted_free n'.files _).mapError fun _ => rfl⟩
  · exact ⟨rfl, ok _⟩

/-- What follows the writing of a target. -/
def settleTarget (P : Primitives) (r : Recipe) : MachineM CommandFailure Unit := do
  checkTarget P r
  dropSource r
  Machine.addWritten r.target.total

theorem offDevice_settleTarget (P : Primitives) (r : Recipe) : OffDevice (settleTarget P r) :=
  (offDevice_checkTarget P r).bind fun _ => (offDevice_dropSource r).bind fun _ _ => ⟨rfl, ok _⟩

theorem applyRecipe_bind_addWritten (P : Primitives) (c : Command) (r : Recipe) (s : Source) :
    (applyRecipe P c r s >>= fun _ => Machine.addWritten r.target.total) =
      (keepSource r s >>= fun _ => writeTarget P c r s.data) >>= fun _ => settleTarget P r := by
  simp only [applyRecipe, settleTarget, bind_assoc]

/-- **A move or a patch**: the source, the patch and the target may be bad, but none of them is
taken for a device that failed. -/
theorem runs_makeTarget (hwrite : m.canWrite = true) :
    ∃ ops, ∀ d, m.device.ReadsAlike d → Runs own (makeTarget P c) m ops d := by
  -- whether anything is written depends only on what is read, which is the same on all devices
  rcases makeTarget_of_finds P c m with ⟨result, hreason, hrun⟩ | ⟨r, s, hneeds, hs⟩
  · refine ⟨[], fun d hd => runs_nil (hrun (m.onto d) ⟨hd, rfl, rfl⟩) fun e he => ?_⟩
    rcases hreason e he with ⟨e', he', rfl⟩ | ⟨set, rfl⟩ | ⟨r, hr⟩
    · rw [CommandFailure.isIo_command]
      exact c.unfaulted_recipe e' he'
    · rfl
    · exact unfaulted_source P c r m e hr
  · obtain ⟨result, m', ops, hresult, hanswers⟩ :=
      (asks_keepSource (D := m.device.discards) r s).bind
        (fun _ => asks_writeTarget P c r s.data) m
    refine ⟨ops, fun d hd => ?_⟩
    have hfinds : FindsAlike m (m.onto d) := ⟨hd, rfl, rfl⟩
    have hruns : Runs own _ m ops d := Runs.of_answers (f := fun _ => settleTarget P r)
      (hanswers d hd.discards) (fun e he hio => ?_) fun _ => offDevice_settleTarget P r
    · rw [← applyRecipe_bind_addWritten P c r s] at hruns
      refine hruns.of_outcome ?_
      exact makeTarget_of_needs (m := m.onto d) hwrite (hfinds.needs hneeds)
        ((hfinds.source P c r).trans hs)
    · rw [hresult e he] at hio
      cases hio

/-! ## Any command -/

/-- Executing a command on a device performs operations on it. If one of them fails, its error
decides whether the command asks for another attempt; otherwise the command does so only if it
takes new data, and the source of these fails. -/
structure Performs (P : Primitives) (c : Command) (m : Machine) (ops : List DeviceOp)
    (d : Device) : Prop where
  device : ((c.execute P).run (m.onto d)).2.device = (d.performAll ops).2
  fails : ∀ e, (d.performAll ops).1 = .error e →
    ((c.execute P).run (m.onto d)).1 = if e = .errno Errno.io then .needsRetry else .failed
  succeeds : (d.performAll ops).1 = .ok () →
    ((c.execute P).run (m.onto d)).1 = .needsRetry → c.verb = .new ∧ SourceFails m

theorem resultOf_eq_needsRetry {result : Except CommandFailure Unit} :
    resultOf result = .needsRetry ↔ ∃ f, result = .error f ∧ f.isIo = true := by
  rcases result with failure | ⟨⟩
  · rw [resultOf]
    by_cases h : failure.isIo = true <;> simp [h]
  · simp [resultOf]

theorem Runs.performs (h : Runs (fun _ => c.verb = .new ∧ SourceFails m) (c.run P) m ops d) :
    Performs P c m ops d := by
  refine ⟨?_, fun e he => ?_, fun hok hretry => ?_⟩
  · rw [execute_eq]
    exact h.device
  · obtain ⟨f, hf, hio⟩ := h.fails e he
    rw [execute_eq, hf]
    simp only [resultOf, hio, OsError.isIo_eq_true]
  · rw [execute_eq] at hretry
    obtain ⟨f, hf, hio⟩ := resultOf_eq_needsRetry.mp hretry
    exact h.succeeds hok f hf hio

/-- **Every command that writes** performs one list of operations on all devices on which it reads
the same. -/
theorem performs_run (P : Primitives) (c : Command) (hwrite : m.canWrite = true)
    (hverb : c.verb ∈ [.new, .zero, .erase, .move, .copy, .bsdiff, .imgdiff]) :
    ∃ ops, ∀ d, m.device.ReadsAlike d → Performs P c m ops d := by
  have htarget : c.targetPosition? ≠ none := by
    rw [targetPosition?]
    cases hv : c.verb <;> simp_all
  let own : CommandFailure → Prop := fun _ => c.verb = .new ∧ SourceFails m
  rcases run_cases P c with ⟨hnone, -⟩ | ⟨-, ⟨hnew, hrun⟩ | ⟨-, hrun⟩⟩ | ⟨-, -, hrun⟩
  · exact absurd hnone htarget
  · obtain ⟨ops, hops⟩ : ∃ ops, ∀ d, d.discards = m.device.discards →
        Runs own c.writeNewData m ops d := runs_of_asks
      ((asks_writeNewData c m).imp fun _ _ h e he hio => ⟨hnew, h e he hio⟩)
    exact ⟨ops, fun d hd => Runs.performs (hrun ▸ hops d hd.discards)⟩
  · obtain ⟨ops, hops⟩ : ∃ ops, ∀ d, d.discards = m.device.discards →
        Runs own c.clear m ops d := runs_of_asks
      ((asks_clear c m).imp fun _ _ h e he hio => by rw [h e he] at hio; cases hio)
    exact ⟨ops, fun d hd => Runs.performs (hrun ▸ hops d hd.discards)⟩
  · obtain ⟨ops, hops⟩ : ∃ ops, ∀ d, m.device.ReadsAlike d → Runs own (c.makeTarget P) m ops d :=
      runs_makeTarget hwrite
    exact ⟨ops, fun d hd => Runs.performs (hrun ▸ hops d hd)⟩

end Command

end BlockUpdate
