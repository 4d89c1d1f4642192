import BlockUpdate.Proofs.CommandOperations
import BlockUpdate.Proofs.LastMarker
import BlockUpdate.Proofs.Visits

/-!
# When a session asks for another attempt

A session that has to stop because its device failed posts one request for another attempt and says
at which line it stopped. Nothing else posts such a request, and the marker stays where it is, so
that the next session takes the same command up again.

- `Progress.requests`: the requests that were posted.
- **`Session.requests_runScript`**: a session posts one if it ends with one, and else none.
- **`Session.runScript_of_needsRetry`**: what a session makes of a command that asks for another
  attempt.
- **`Session.retry_classified`**: which commands ask for one, and what becomes of it.
-/

namespace BlockUpdate

/-- The number of requests for another attempt among what was posted. -/
def Progress.requests (p : Progress) : Nat := p.messages.countP (·.topic == "retry_update")

theorem Progress.requests_post (p : Progress) (topic payload : String) :
    (p.post topic payload).requests =
      p.requests + if topic = "retry_update" then 1 else 0 := by
  simp [requests, post, Array.countP_push]

theorem Progress.requests_advance (p : Progress) (fraction : Float32) :
    (p.advance fraction).requests = p.requests := by
  rw [advance]
  generalize (if 0 < fraction then fraction else 0) = step
  split
  · exact requests_post _ "set_progress" _
  · rfl

/-- The number of requests that an error stands for. -/
def TransferError.requests : TransferError → Nat
  | .retryRequested .. => 1
  | _ => 0

theorem TransferError.requests_of_not_stops {e : TransferError} (h : ¬ e.Stops) : e.requests = 0 := by
  cases e with
  | retryRequested => exact absurd trivial h
  | _ => rfl

namespace Session

open SessionOptions

variable {P : Primitives} {o : SessionOptions} {place : Place} {commands lines : List String}
  {inputs : ScriptInputs} {skip : RetrySkip} {r r' : Run} {w w' : World} {k : Nat} {c : Command}

/-! ## Requests -/

/-- The number of requests that a result stands for. -/
def requestsOf {α : Type} : Except TransferError α → Nat
  | .error e => e.requests
  | .ok _ => 0

/-- A computation posts one request if it ends with one, and else none. -/
def Requests {σ α : Type} (bar : σ → Progress) (x : ExceptT TransferError (StateM σ) α) (s : σ) :
    Prop :=
  (bar (outcome x s).2).requests = (bar s).requests + requestsOf (outcome x s).1

namespace Requests

variable {σ α β : Type} {bar : σ → Progress} {x : ExceptT TransferError (StateM σ) α}
  {f : α → ExceptT TransferError (StateM σ) β} {s : σ}

theorem bind (hx : Requests bar x s) (hf : ∀ a t, outcome x s = (.ok a, t) → Requests bar (f a) t) :
    Requests bar (x >>= f) s := by
  unfold Requests at *
  rcases hrun : outcome x s with ⟨e | a, t⟩ <;> rw [hrun] at hx
  · rw [outcome_bind_of_error hrun]
    exact hx
  · rw [outcome_bind_of_ok hrun, hf a t hrun]
    exact congrArg (· + _) hx

/-- Nothing is posted. -/
theorem quiet (hbar : (bar (outcome x s).2).requests = (bar s).requests)
    (hresult : requestsOf (outcome x s).1 = 0) : Requests bar x s := by
  rw [Requests, hbar, hresult, Nat.add_zero]

end Requests

theorem requests_saveMarker (o : SessionOptions) (c : Command) (r : Run) :
    Requests Run.progress (saveMarker o c) r := by
  rw [Requests, outcome_saveMarker]
  split_ifs
  · rw [RetryMarker.save, outcome_fileMapError]
    rcases outcome (FileM.overwrite o.markerPath (RetryMarker.ofCommand c).encode) r.machine.files with
      ⟨e | a, t⟩ <;> rfl
  · rfl

theorem requests_report (c : Command) (r : Run) : Requests Run.progress (report c) r := by
  refine .quiet ?_ rfl
  rw [report, outcome_modify]
  dsimp only
  split_ifs
  · exact Progress.requests_advance _ _
  · rfl

theorem requests_runCommand (P : Primitives) (o : SessionOptions) (c : Command) (r : Run) :
    Requests Run.progress (runCommand P o c) r := by
  rw [runCommand]
  refine .bind (.quiet rfl rfl) fun result r₁ _ => ?_
  cases result with
  | success =>
    exact .bind (.quiet rfl rfl) fun _ r₂ _ =>
      .bind (requests_saveMarker o c r₂) fun _ r₃ _ => requests_report c r₃
  | failed => exact .quiet rfl rfl
  | needsRetry => exact Progress.requests_post _ "retry_update" _

theorem requests_runLines (P : Primitives) (o : SessionOptions) (skip : RetrySkip)
    (index : Nat) (lines : List String) (r : Run) :
    Requests Run.progress (runLines P o skip index lines) r := by
  -- a line that ends with a request is the last one, so no two of them add up
  induction lines generalizing index r with
  | nil => exact .quiet rfl rfl
  | cons line rest ih =>
    refine .bind ?_ fun _ r₁ _ => ih (index + 1) r₁
    rw [runLine]
    rcases Command.parse index line with e | _ | c
    · exact .quiet rfl rfl
    · exact .quiet rfl rfl
    · dsimp only
      split_ifs
      · exact .quiet rfl rfl
      · exact requests_runCommand P o c r
      · exact .quiet rfl rfl

theorem requests_prepare (o : SessionOptions) (lines : List String) (inputs : ScriptInputs)
    (w : World) : Requests World.progress (prepare o lines inputs) w := by
  rcases hrun : outcome (prepare o lines inputs) w with ⟨e | p, w'⟩
  · obtain ⟨t, -, rfl⟩ := prepare_eq_error.mp hrun
    rw [Requests, hrun]
    exact (congrArg (w.progress.requests + ·)
      (TransferError.requests_of_not_stops (not_stops_prepare hrun))).symm
  · obtain ⟨_, _, _, _, _, _, _, _, -, -, -, -, -, -, rfl⟩ := prepare_eq_ok.mp hrun
    rw [Requests, hrun]
    rfl

theorem requests_onFiles {ε α : Type} {f : ε → TransferError} {x : FileM ε α}
    (h : ∀ e, (f e).requests = 0) (w : World) : Requests World.progress (onFiles f x) w := by
  refine .quiet rfl ?_
  rw [outcome_sessionOnFiles]
  rcases (outcome x w.files).1 with e | a
  · exact h e
  · rfl

theorem requests_cleanUp (o : SessionOptions) (s : Stash) (w : World) :
    Requests World.progress (cleanUp o s) w := by
  refine .bind (requests_onFiles (fun _ => rfl) w) fun _ w₁ _ => ?_
  split_ifs
  · refine .quiet rfl ?_
    rw [outcome_sessionOnFiles]
    rcases hrun : outcome (RetryMarker.remove o.markerPath) w₁.files with ⟨e | ⟨⟩, t⟩
    · exact TransferError.requests_of_not_stops (not_stops_removeMarker hrun)
    · rfl
  · exact .quiet rfl rfl

/-- **What a session posts.** -/
theorem requests_runScript (P : Primitives) (o : SessionOptions) (lines : List String)
    (inputs : ScriptInputs) (w : World) :
    Requests World.progress (runScript P o lines inputs) w := by
  refine .bind (requests_prepare o lines inputs w) fun p w₁ _ => .bind (.bind ?_ ?_) ?_
  · have hlines := requests_runLines P o p.skip 0 p.commands ⟨p.machine, w₁.progress, 0, 0, 0⟩
    rw [Requests] at hlines ⊢
    rw [outcome_onMachine]
    dsimp only
    rw [hlines]
    rcases outcome (runLines P o p.skip 0 p.commands) ⟨p.machine, w₁.progress, 0, 0, 0⟩ with
      ⟨e | ⟨⟩, r⟩ <;> rfl
  · exact fun _ _ _ => .quiet rfl rfl
  · exact fun _ w₂ _ => .bind (requests_cleanUp o p.machine.stash w₂) fun _ _ _ => .quiet rfl rfl

/-! ## A command that asks for another attempt -/

/-- Lines that fail are not followed by others. -/
theorem runLines_of_take_eq_error {e : TransferError}
    (h : outcome (runLines P o skip 0 (commands.take k)) r = (.error e, r')) :
    outcome (runLines P o skip 0 commands) r = (.error e, r') := by
  rw [← List.take_append_drop k commands, runLines_append, outcome_bind_of_error h]

/-- The marker is not among what a command changes. -/
theorem node_markerPath_ran {m : Machine} (h : o.Lodged place m) (P : Primitives) (c : Command) :
    (outcome (c.run P) m).2.files.node o.markerPath = m.files.node o.markerPath := by
  have htouched := Command.run_touched P c h.sited
  have hsame : (outcome (c.run P) m).2.files.get? (o.markerAt place) =
      m.files.get? (o.markerAt place) := htouched.files.elsewhere _ fun ⟨name, hname⟩ =>
    o.baseAt_append_ne_markerAt place name hname.symm
  rw [markerAt] at hsame
  rw [(h.ran P c).leads.node h.markerPlain h.plain.markerPath_parts,
    h.leads.node h.markerPlain h.plain.markerPath_parts, hsame]

/-- A session ends with a request for another attempt at a line, which is the last of what it
posted, and the only request. The marker is what it was when the session came to the line. -/
structure StopsForRetry (P : Primitives) (o : SessionOptions) (lines : List String)
    (inputs : ScriptInputs) (w : World) (k : Nat) (m : Machine) (w' : World) : Prop where
  result : ∃ header used line, ScriptHeader.parse lines = .ok (header, used) ∧
    (lines.drop used)[k]? = some line ∧
    outcome (runScript P o lines inputs) w = (.error (.retryRequested k (Blank.trim line)), w')
  posted : w'.progress.messages.back? = some ⟨"retry_update", "IO_FAILED_REBOOT"⟩
  once : w'.progress.requests = w.progress.requests + 1
  marker : w'.files.node o.markerPath = m.files.node o.markerPath

/-- **A command that asks for another attempt** ends its session. -/
theorem runScript_of_needsRetry (hplain : o.PlainPartition) (hwell : w.files.WellFormed)
    {m : Machine} (hat : ExecutesAt P o lines inputs w k c m)
    (h : ((c.execute P).run m).1 = .needsRetry) :
    ∃ w', StopsForRetry P o lines inputs w k m w' := by
  obtain ⟨p, r, ⟨w₁, hprepare, hreached⟩, hc, hskip, rfl⟩ := hat
  obtain ⟨hindex, line, hline, htext⟩ := index_of_instruction? hc
  let r' : Run := { r with
    machine := (outcome (c.run P) r.machine).2
    progress := r.progress.post "retry_update" "IO_FAILED_REBOOT" }
  have hcommand : outcome (runCommand P o c) r = (.error (.retryRequested c.index c.line), r') := by
    rw [Command.execute_eq] at h
    rw [runCommand, outcome_bind_of_ok (outcome_executeCommand P c r)]
    simp only at h
    rw [h]
    rfl
  have hlines : outcome (runLines P o p.skip 0 p.commands) ⟨p.machine, w₁.progress, 0, 0, 0⟩ =
      (.error (.retryRequested c.index c.line), r') := by
    refine runLines_of_take_eq_error (k := k + 1) ?_
    rw [runLines_take_succ_bind hline, outcome_bind_of_ok hreached, runLine_instruction hline hc,
      if_neg (by rw [hskip]; exact Bool.false_ne_true), hcommand]
  have hrun : outcome (runScript P o lines inputs) w =
      (.error (.retryRequested c.index c.line), r'.world) := by
    rw [runScript, outcome_bind_of_ok hprepare]
    refine outcome_bind_of_error (outcome_bind_of_error ?_ _) _
    rw [outcome_onMachine]
    exact congrArg (fun x : Except TransferError Unit × Run => (x.1.map fun _ => ((), x.2), x.2.world))
      hlines
  -- nothing is saved after the command, which does not touch the marker itself
  obtain ⟨place, hlodged, -⟩ := prepare_opens hplain hwell hprepare
  have hvisits : Visits P o p.machine (outcome (runLines P o p.skip 0 (p.commands.take k))
      { machine := p.machine, progress := w₁.progress }).2.machine :=
    visits_runLines 0 (p.commands.take k) { machine := p.machine, progress := w₁.progress }
  rw [hreached] at hvisits
  have hmarker := node_markerPath_ran (hvisits.lodged hlodged) P c
  obtain ⟨header, used, _, _, _, _, _, _, hheader, -, -, -, -, rfl, -⟩ := prepare_eq_ok.mp hprepare
  have hrequests := requests_runScript P o lines inputs w
  rw [Requests, hrun] at hrequests
  rw [hindex, htext] at hrun
  exact ⟨r'.world, ⟨header, used, line, hheader, hline, hrun⟩, Array.back?_push, hrequests, hmarker⟩

/-! ## Both -/

/-- A script that zeroes a block. -/
def zeroLines : List String := ["4", "0", "0", "0", "zero 2,0,1"]

/-- Its command. -/
def zeroBlock : Command := ⟨.zero, ["2,0,1"], "zero 2,0,1", 0⟩

/-- A device that fails, and a work directory. -/
def brokenWorld : World := { blockWorld [] with device := Device.broken }

/-- On a device that fails, every write does. -/
theorem write_broken {start : Nat} (hstart : start < Device.offsetLimit) {data : Bytes}
    (h : data.size ≠ 0) :
    (outcome (DeviceM.write start data) Device.broken).1 = .error (.errno Errno.io) := by
  show (Device.write _ _ _).1 = _
  rw [Device.write, if_neg h, if_neg (Nat.not_le.mpr hstart)]
  rfl

/-- So the command asks for another attempt. -/
theorem execute_zeroBlock {m : Machine} (hdevice : m.device = Device.broken)
    (hwrite : m.canWrite = true) : ((zeroBlock.execute .tabled).run m).1 = .needsRetry := by
  have hstop : ∀ {ε σ α β : Type} {x : ExceptT ε (StateM σ) α} {s : σ} {e : ε}
      (f : α → ExceptT ε (StateM σ) β), (outcome x s).1 = .error e →
        (outcome (x >>= f) s).1 = .error e := fun f h => by
    rw [outcome_bind_of_error (Prod.ext h rfl)]
  have hset : zeroBlock.blockSet 0 = .ok ⟨[⟨0, 1⟩], 1⟩ := rfl
  have hrange {run : Nat} (hrun : 0 < run) :
      (outcome (BlockSet.clearRanges run hrun false [⟨0, 1⟩]) Device.broken).1 =
        .error (.errno Errno.io) := by
    have hlength : 0 < (⟨0, 1⟩ : BlockRange).byteLength := by decide
    rw [BlockSet.clearRanges_cons]
    refine hstop _ ?_
    rw [BlockSet.zeroFrom, if_pos hlength]
    exact hstop _ (write_broken (by decide) (by rw [Bytes.size_zeros]; omega))
  have hpos : 0 < min BlockSet.zeroRun (⟨[⟨0, 1⟩], 1⟩ : BlockSet).byteLength := by decide
  have hzero : (outcome (BlockSet.zero ⟨[⟨0, 1⟩], 1⟩ (zeroBlock.verb == .erase) m.allowFileErase)
      m.device).1 = .error (.os (.errno Errno.io)) := by
    have hverb : (zeroBlock.verb == .erase) = false := rfl
    rw [hdevice, BlockSet.outcome_zero, hverb, Bool.false_and, Bool.false_and,
      if_neg Bool.false_ne_true, Bool.false_and, BlockSet.cleared, dif_pos hpos,
      outcome_deviceMapError, hrange]
    rfl
  have hrun : (outcome (zeroBlock.run .tabled) m).1 =
      .error (.block (.os (.errno Errno.io))) := by
    show (outcome zeroBlock.clear m).1 = _
    rw [Command.clear, outcome_bind_of_ok (ofCommand_eq_ok.mpr ⟨hset, rfl⟩), outcome_get_bind,
      if_pos hwrite, outcome_get_bind]
    refine hstop _ ?_
    rw [outcome_machineOnDevice, hzero]
    rfl
  rw [Command.execute_eq, hrun]
  rfl

end Session

end BlockUpdate
