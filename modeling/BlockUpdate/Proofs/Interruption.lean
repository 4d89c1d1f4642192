import BlockUpdate.Proofs.Outcome
import Mathlib.Tactic.SplitIfs

/-!
# Sessions that stop early

A session can stop after any of its commands, before or after it saved the marker of the last one.
What it had done then stays, and the next session goes on from there. This file says what such
histories are, and what one line of a script does.

- `Stop`: where a session stops.
- `Session.interrupted`, `Session.interruptedRuns`: a session that stops, and sessions that stop
  one after the other before one does not.
- `Session.instruction?`, `Session.ExecutesAt`: the command on a line, and the machine in which a
  session executes it.
- **`runLines_take_succ`**: what was done with one more line.
- **`runLine_skipped`**, **`runLine_executed`**, `runLine_failed`: one line.
-/

namespace BlockUpdate

/-- Where a session stops. -/
structure Stop where
  /-- The number of lines that it was done with. -/
  lines : Nat
  /-- Whether it also executed the command on the next line, and did not save its marker. -/
  unsaved : Bool
  deriving Repr, DecidableEq

/-- The number of lines whose commands took effect. -/
def Stop.done (stop : Stop) : Nat := if stop.unsaved then stop.lines + 1 else stop.lines

namespace Session

variable {P : Primitives} {o : SessionOptions} {skip : RetrySkip}

/-! ## Stopping -/

/-- Executes the command on a line, if there is one that is not skipped, and does not save its
marker. -/
def runUnsaved (P : Primitives) (skip : RetrySkip) (index : Nat) (line : String) : RunM Unit := do
  match Command.parse index line with
  | .error e => throw (.command e)
  | .ok none => return
  | .ok (some c) =>
    if c.verb ≠ .other ∧ skip.skips c = false then
      match ← executeCommand P c with
      | .success => return
      | .needsRetry => throw (.retryRequested c.index c.line)
      | .failed => throw (.commandFailed c.index c.line)

/-- Runs the lines of a script up to where the session stops. -/
def runUntil (P : Primitives) (o : SessionOptions) (skip : RetrySkip) (commands : List String)
    (stop : Stop) : RunM Unit := do
  runLines P o skip 0 (commands.take stop.lines)
  if stop.unsaved then
    if let some line := commands[stop.lines]? then
      runUnsaved P skip stop.lines line

/-- A session that stops. What it leaves is as it was then. -/
def interrupted (P : Primitives) (o : SessionOptions) (stop : Stop) (lines : List String)
    (inputs : ScriptInputs) : SessionM Unit := do
  let p ← prepare o lines inputs
  let _ ← onMachine p.machine (runUntil P o p.skip p.commands stop)

/-- A session that stops, sessions that resume it and stop too, and one that does not stop. -/
def interruptedRuns (P : Primitives) (o : SessionOptions) (lines : List String)
    (inputs : ScriptInputs) : List Stop → SessionM Summary
  | [] => runScript P o lines inputs
  | stop :: rest => do
    interrupted P o stop lines inputs
    interruptedRuns P { o with retry := true } lines inputs rest

/-! ## Commands by line -/

/-- The command on a line of a script, if the line is an instruction. -/
def instruction? (commands : List String) (k : Nat) : Option Command :=
  match commands[k]? with
  | none => none
  | some line =>
    match Command.parse k line with
    | .ok (some c) => if c.verb = .other then none else some c
    | _ => none

/-- The state of a session when it was done with some lines. -/
def Reaches (P : Primitives) (o : SessionOptions) (lines : List String) (inputs : ScriptInputs)
    (w : World) (k : Nat) (p : Prepared) (r : Run) : Prop :=
  ∃ w', outcome (prepare o lines inputs) w = (.ok p, w') ∧
    outcome (runLines P o p.skip 0 (p.commands.take k))
      { machine := p.machine, progress := w'.progress } = (.ok (), r)

/-- A session executes the command on a line in a machine. -/
def ExecutesAt (P : Primitives) (o : SessionOptions) (lines : List String)
    (inputs : ScriptInputs) (w : World) (k : Nat) (c : Command) (m : Machine) : Prop :=
  ∃ p r, Reaches P o lines inputs w k p r ∧ instruction? p.commands k = some c ∧
    p.skip.skips c = false ∧ r.machine = m

section Instruction

variable {commands : List String} {k : Nat} {c : Command}

theorem instruction?_eq_some :
    instruction? commands k = some c ↔ ∃ line, commands[k]? = some line ∧
      Command.parse k line = .ok (some c) ∧ c.verb ≠ .other := by
  rw [instruction?]
  rcases commands[k]? with _ | line
  · simp
  · rcases hparse : Command.parse k line with e | _ | found
    · simp [hparse]
    · simp [hparse]
    · simp only [Option.some.injEq, exists_eq_left', hparse, Except.ok.injEq]
      split_ifs with hverb
      · refine ⟨nofun, ?_⟩
        rintro ⟨rfl, h⟩
        exact absurd hverb h
      · refine ⟨?_, fun h => by rw [h.1]⟩
        rintro ⟨⟩
        exact ⟨rfl, hverb⟩

theorem lt_length_of_instruction? (h : instruction? commands k = some c) :
    k < commands.length := by
  obtain ⟨line, hline, -⟩ := instruction?_eq_some.mp h
  exact (List.getElem?_eq_some_iff.mp hline).1

/-- A command knows where it stands. -/
theorem index_of_instruction? (h : instruction? commands k = some c) :
    c.index = k ∧ ∃ line, commands[k]? = some line ∧ c.line = Blank.trim line := by
  obtain ⟨line, hline, hparse, -⟩ := instruction?_eq_some.mp h
  rw [Command.parse] at hparse
  split at hparse
  · cases hparse
  · simp only at hparse
    split_ifs at hparse
    cases hparse
    exact ⟨rfl, line, hline, rfl⟩

end Instruction

/-! ## Lines -/

theorem runLines_append (xs ys : List String) (i : Nat) (r : Run) :
    outcome (runLines P o skip i (xs ++ ys)) r =
      outcome (runLines P o skip i xs >>= fun _ => runLines P o skip (i + xs.length) ys) r := by
  induction xs generalizing i r with
  | nil => rfl
  | cons x xs ih =>
    rw [List.cons_append, runLines, runLines, outcome_bind, outcome_bind, outcome_bind]
    rcases outcome (runLine P o skip i x) r with ⟨e | ⟨⟩, r'⟩
    · rfl
    · show outcome (runLines P o skip (i + 1) (xs ++ ys)) r' = _
      rw [ih, List.length_cons, outcome_bind, Nat.add_right_comm]
      rfl

theorem runLines_singleton (line : String) (i : Nat) (r : Run) :
    outcome (runLines P o skip i [line]) r = outcome (runLine P o skip i line) r := by
  rw [runLines, outcome_bind]
  rcases outcome (runLine P o skip i line) r with ⟨e | ⟨⟩, r'⟩ <;> rfl

/-- One more line is done after those before it. -/
theorem runLines_take_succ_bind {commands : List String} {k : Nat} {line : String}
    (hline : commands[k]? = some line) (r : Run) :
    outcome (runLines P o skip 0 (commands.take (k + 1))) r =
      outcome (runLines P o skip 0 (commands.take k) >>= fun _ => runLine P o skip k line) r := by
  obtain ⟨hk, -⟩ := List.getElem?_eq_some_iff.mp hline
  rw [List.take_add_one, hline, Option.toList_some, runLines_append, outcome_bind, outcome_bind,
    Nat.zero_add, List.length_take, Nat.min_eq_left (Nat.le_of_lt hk)]
  simp only [runLines_singleton]

/-- **What was done with one more line.** -/
theorem runLines_take_succ {commands : List String} {k : Nat} {line : String}
    (hline : commands[k]? = some line) {r r' : Run} :
    outcome (runLines P o skip 0 (commands.take (k + 1))) r = (.ok (), r') ↔
      ∃ r₁, outcome (runLines P o skip 0 (commands.take k)) r = (.ok (), r₁) ∧
        outcome (runLine P o skip k line) r₁ = (.ok (), r') := by
  rw [runLines_take_succ_bind hline, outcome_bind_eq_ok]
  exact ⟨fun ⟨_, r₁, h⟩ => ⟨r₁, h⟩, fun ⟨r₁, h⟩ => ⟨(), r₁, h⟩⟩

/-- Behind its last line a script does nothing. -/
theorem take_succ_of_none {commands : List String} {k : Nat} (hline : commands[k]? = none) :
    commands.take (k + 1) = commands.take k := by
  rw [List.take_add_one, hline, Option.toList_none, List.append_nil]

/-- The marker of a command is saved, or need not be. -/
def Saves (o : SessionOptions) (c : Command) (t t' : FileTree) : Prop :=
  if c.verb ≠ .new ∧ o.canWrite = true then
    outcome ((RetryMarker.ofCommand c).save o.markerPath) t = (.ok (), t')
  else t' = t

section Line

variable {c : Command} {k : Nat} {line : String} {r r' : Run} {m : Machine} {t : FileTree}

theorem outcome_executeCommand (P : Primitives) (c : Command) (r : Run) :
    outcome (executeCommand P c) r =
      (.ok (Command.resultOf (outcome (c.run P) r.machine).1),
        { r with machine := (outcome (c.run P) r.machine).2 }) := rfl

theorem outcome_saveMarker (o : SessionOptions) (c : Command) (r : Run) :
    outcome (saveMarker o c) r =
      if c.verb ≠ .new ∧ o.canWrite = true then
        let found := outcome ((RetryMarker.ofCommand c).save o.markerPath) r.machine.files
        (found.1, { r with machine.files := found.2 })
      else (.ok (), r) := by
  rw [saveMarker]
  split_ifs <;> rfl

theorem saveMarker_of_saves (h : Saves o c r.machine.files t) :
    ∃ r', outcome (saveMarker o c) r = (.ok (), r') ∧
      r'.machine = { r.machine with files := t } := by
  rw [Saves] at h
  rw [outcome_saveMarker]
  split_ifs at h ⊢
  · exact ⟨{ r with machine.files := t }, by rw [h], rfl⟩
  · exact ⟨r, rfl, by rw [h]⟩

theorem saves_of_saveMarker (h : outcome (saveMarker o c) r = (.ok (), r')) :
    ∃ t, Saves o c r.machine.files t ∧ r'.machine = { r.machine with files := t } := by
  simp only [Saves]
  rw [outcome_saveMarker] at h
  split_ifs at h ⊢
  · obtain ⟨hok, rfl⟩ := Prod.ext_iff.mp h
    exact ⟨_, Prod.ext hok rfl, rfl⟩
  · obtain rfl := congrArg Prod.snd h
    exact ⟨_, rfl, rfl⟩

theorem report_machine (c : Command) (r : Run) :
    ∃ r', outcome (report c) r = (.ok (), r') ∧ r'.machine = r.machine := by
  rw [report, outcome_modify]
  refine ⟨_, rfl, ?_⟩
  simp only
  split_ifs <;> rfl

/-- What follows a command that succeeded. -/
theorem runCommand_of_ok (hrun : outcome (c.run P) r.machine = (.ok (), m)) :
    ∃ r₁, r₁.machine = m ∧ outcome (runCommand P o c) r =
      outcome (saveMarker o c >>= fun _ => report c) r₁ := by
  refine ⟨{ r with machine := m, executed := r.executed + 1 }, rfl, ?_⟩
  rw [runCommand, outcome_bind_of_ok (a := .success) (t := { r with machine := m })
    (by rw [outcome_executeCommand, hrun]; rfl)]
  exact outcome_bind_of_ok (outcome_modify _ _) _

/-- **A command that is executed** leaves its machine with the marker in it. -/
theorem runCommand_executed (hrun : outcome (c.run P) r.machine = (.ok (), m))
    (hsave : Saves o c m.files t) :
    ∃ r', outcome (runCommand P o c) r = (.ok (), r') ∧ r'.machine = { m with files := t } := by
  obtain ⟨r₁, rfl, hcommand⟩ := runCommand_of_ok (o := o) hrun
  obtain ⟨r₂, hsaved, hmachine⟩ := saveMarker_of_saves hsave
  obtain ⟨r₃, hreport, hmachine'⟩ := report_machine c r₂
  exact ⟨r₃, by rw [hcommand, outcome_bind_of_ok hsaved, hreport], hmachine'.trans hmachine⟩

theorem runCommand_failed {e : CommandFailure} (hrun : outcome (c.run P) r.machine = (.error e, m)) :
    ∃ e' r', outcome (runCommand P o c) r = (.error e', r') := by
  rw [runCommand, outcome_bind_of_ok (outcome_executeCommand P c r), hrun, Command.resultOf]
  cases e.isIo with
  | true => exact ⟨_, _, rfl⟩
  | false => exact ⟨_, _, rfl⟩

theorem runCommand_eq_ok (h : outcome (runCommand P o c) r = (.ok (), r')) :
    ∃ m t, outcome (c.run P) r.machine = (.ok (), m) ∧ Saves o c m.files t ∧
      r'.machine = { m with files := t } := by
  rcases hrun : outcome (c.run P) r.machine with ⟨failure | ⟨⟩, m⟩
  · obtain ⟨e, r₁, hfailed⟩ := runCommand_failed (o := o) hrun
    rw [hfailed] at h
    cases congrArg Prod.fst h
  · obtain ⟨r₁, rfl, hcommand⟩ := runCommand_of_ok (o := o) hrun
    rw [hcommand] at h
    obtain ⟨⟨⟩, r₂, hsave, hreport⟩ := outcome_bind_eq_ok.mp h
    obtain ⟨t, hsave, hmachine⟩ := saves_of_saveMarker hsave
    obtain ⟨r₃, hreport₃, hmachine₃⟩ := report_machine c r₂
    rw [hreport₃] at hreport
    obtain rfl : r₃ = r' := congrArg Prod.snd hreport
    exact ⟨_, t, rfl, hsave, hmachine₃.trans hmachine⟩

/-- **However a command of a script ends**, its machine is the one that it left, or the saving of
its marker after that. -/
theorem runCommand_machine (P : Primitives) (o : SessionOptions) (c : Command) (r : Run) :
    (outcome (runCommand P o c) r).2.machine = (outcome (c.run P) r.machine).2 ∨
      ∃ m, outcome (c.run P) r.machine = (.ok (), m) ∧ o.canWrite = true ∧
        (outcome (runCommand P o c) r).2.machine = { m with
          files := (outcome ((RetryMarker.ofCommand c).save o.markerPath) m.files).2 } := by
  rcases hrun : outcome (c.run P) r.machine with ⟨failure | ⟨⟩, m⟩
  · refine .inl ?_
    rw [runCommand, outcome_bind_of_ok (outcome_executeCommand P c r), hrun, Command.resultOf]
    cases failure.isIo <;> rfl
  obtain ⟨r₁, rfl, hcommand⟩ := runCommand_of_ok (o := o) hrun
  rw [hcommand]
  have hsave := outcome_saveMarker o c r₁
  rcases hsaved : outcome (saveMarker o c) r₁ with ⟨e | ⟨⟩, r₂⟩
  · -- nothing is reported
    rw [outcome_bind_of_error hsaved]
    rw [hsaved] at hsave
    split_ifs at hsave with hsaves
    · exact .inr ⟨_, rfl, hsaves.2, congrArg (fun found => found.2.machine) hsave⟩
    · cases congrArg Prod.fst hsave
  · obtain ⟨r₃, hreport, hmachine⟩ := report_machine c r₂
    rw [outcome_bind_of_ok hsaved, hreport]
    rw [hsaved] at hsave
    split_ifs at hsave with hsaves
    · exact .inr ⟨_, rfl, hsaves.2, hmachine.trans (congrArg (fun found => found.2.machine) hsave)⟩
    · exact .inl (hmachine.trans (congrArg (fun found => found.2.machine) hsave))

/-! ## One line -/

variable {commands : List String} (hline : commands[k]? = some line)

include hline

/-- **A line that is no instruction** does nothing, if it can be read at all. -/
theorem runLine_idle (hnone : instruction? commands k = none)
    (hread : ∀ e, Command.parse k line ≠ .error e) :
    outcome (runLine P o skip k line) r = (.ok (), r) := by
  rw [instruction?, hline] at hnone
  rw [runLine]
  rcases hparse : Command.parse k line with e | _ | c
  · exact absurd hparse (hread e)
  · rfl
  · simp only [hparse] at hnone ⊢
    split_ifs at hnone with hverb
    rw [if_neg fun h => h hverb]
    rfl

theorem runLine_instruction (hc : instruction? commands k = some c) :
    outcome (runLine P o skip k line) r =
      if skip.skips c = true then (.ok (), { r with skipped := r.skipped + 1 })
      else outcome (runCommand P o c) r := by
  obtain ⟨line', hline', hparse, hverb⟩ := instruction?_eq_some.mp hc
  obtain rfl : line = line' := by
    rw [hline] at hline'
    exact Option.some.inj hline'
  rw [runLine, hparse]
  simp only
  rw [if_pos hverb]
  split_ifs <;> rfl

/-- **One line** leaves the machine as it is, or runs its command. -/
theorem runLine_cases (P : Primitives) (o : SessionOptions) (skip : RetrySkip) (r : Run) :
    (outcome (runLine P o skip k line) r).2.machine = r.machine ∨
      ∃ c, instruction? commands k = some c ∧ skip.skips c = false ∧
        outcome (runLine P o skip k line) r = outcome (runCommand P o c) r := by
  rcases hparse : Command.parse k line with e | _ | c
  · refine .inl ?_
    rw [runLine, hparse]
    rfl
  · refine .inl ?_
    rw [runLine, hparse]
    rfl
  by_cases hverb : c.verb = .other
  · refine .inl ?_
    rw [runLine, hparse]
    simp only
    rw [if_neg fun h => h hverb]
    rfl
  have hc : instruction? commands k = some c := instruction?_eq_some.mpr ⟨line, hline, hparse, hverb⟩
  rw [runLine_instruction hline hc]
  by_cases hskip : skip.skips c = true
  · rw [if_pos hskip]
    exact .inl rfl
  · rw [if_neg hskip]
    exact .inr ⟨c, hc, Bool.eq_false_iff.mpr hskip, rfl⟩

theorem runUnsaved_idle (hnone : instruction? commands k = none)
    (hread : ∀ e, Command.parse k line ≠ .error e) :
    outcome (runUnsaved P skip k line) r = (.ok (), r) := by
  rw [instruction?, hline] at hnone
  rw [runUnsaved]
  rcases hparse : Command.parse k line with e | _ | c
  · exact absurd hparse (hread e)
  · rfl
  · simp only [hparse] at hnone ⊢
    split_ifs at hnone with hverb
    rw [if_neg fun h => h.1 hverb]
    rfl

theorem runUnsaved_skipped (hc : instruction? commands k = some c) (hskip : skip.skips c = true) :
    outcome (runUnsaved P skip k line) r = (.ok (), r) := by
  obtain ⟨line', hline', hparse, hverb⟩ := instruction?_eq_some.mp hc
  obtain rfl : line = line' := by
    rw [hline] at hline'
    exact Option.some.inj hline'
  rw [runUnsaved, hparse]
  simp only
  rw [if_neg fun h => by rw [hskip] at h; cases h.2]
  rfl

/-- **A command whose marker is not saved** leaves its machine as it is. -/
theorem runUnsaved_eq_ok (hc : instruction? commands k = some c) (hskip : skip.skips c = false) :
    (∃ r', outcome (runUnsaved P skip k line) r = (.ok (), r') ∧ r'.machine = m) ↔
      outcome (c.run P) r.machine = (.ok (), m) := by
  obtain ⟨line', hline', hparse, hverb⟩ := instruction?_eq_some.mp hc
  obtain rfl : line = line' := by
    rw [hline] at hline'
    exact Option.some.inj hline'
  have hstep : outcome (runUnsaved P skip k line) r =
      match Command.resultOf (outcome (c.run P) r.machine).1 with
      | .success => (.ok (), { r with machine := (outcome (c.run P) r.machine).2 })
      | .needsRetry => (.error (.retryRequested c.index c.line),
          { r with machine := (outcome (c.run P) r.machine).2 })
      | .failed => (.error (.commandFailed c.index c.line),
          { r with machine := (outcome (c.run P) r.machine).2 }) := by
    rw [runUnsaved, hparse]
    simp only
    rw [if_pos ⟨hverb, hskip⟩, outcome_bind_of_ok (outcome_executeCommand P c r)]
    rcases Command.resultOf (outcome (c.run P) r.machine).1 <;> rfl
  rw [hstep]
  rcases hrun : outcome (c.run P) r.machine with ⟨failure | ⟨⟩, m'⟩
  · simp only [Command.resultOf]
    cases failure.isIo <;> simp
  · simp [Command.resultOf]

end Line

end Session

end BlockUpdate
