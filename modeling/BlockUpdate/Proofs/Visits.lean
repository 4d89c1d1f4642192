import BlockUpdate.Proofs.Opening

/-!
# The machines that a session comes to

A session goes on from a command only after it succeeded. What holds of its machines is easier to
say of more of them: of all that commands lead to, in whatever order they run and however they end.

- `Session.Visits`: the machines that commands, and the saving of their markers, lead to.
- `Visits.lodged`: in all of them the stash is where the session keeps it.
- **`visits_runLines`**, `visits_runCommands`: every run of lines ends in one of them.
-/

namespace BlockUpdate

namespace Session

open SessionOptions

variable {P : Primitives} {o : SessionOptions} {skip : RetrySkip} {m₀ m : Machine} {r : Run}

/-- The machines that commands lead to, in any order, whatever their results are. Between two
commands a writing session may save a marker, or fail to. -/
inductive Visits (P : Primitives) (o : SessionOptions) (m₀ : Machine) : Machine → Prop
  | start : Visits P o m₀ m₀
  | ran {m : Machine} (h : Visits P o m₀ m) (c : Command) : Visits P o m₀ (outcome (c.run P) m).2
  | saved {m : Machine} (h : Visits P o m₀ m) (hwrite : o.canWrite = true) (c : Command) :
    Visits P o m₀ { m with
      files := (outcome ((RetryMarker.ofCommand c).save o.markerPath) m.files).2 }

theorem Visits.trans {m₁ : Machine} (h : Visits P o m₀ m₁) (h' : Visits P o m₁ m) :
    Visits P o m₀ m := by
  induction h' with
  | start => exact h
  | ran _ c ih => exact ih.ran c
  | saved _ hwrite c ih => exact ih.saved hwrite c

/-- **The stash stays where it is.** -/
theorem Visits.lodged {place : Place} (hm₀ : o.Lodged place m₀) (h : Visits P o m₀ m) :
    o.Lodged place m := by
  induction h with
  | start => exact hm₀
  | ran _ c ih => exact ih.ran P c
  | saved _ _ c ih => exact ih.saved c

/-! ## Runs -/

/-- The machine of a run is one that the machine of another leads to. -/
def Passes (P : Primitives) (o : SessionOptions) (r r' : Run) : Prop :=
  Visits P o r.machine r'.machine

instance : IsPreorder Run (Passes P o) where
  refl _ := .start
  trans _ _ _ := Visits.trans

theorem passes_of_machine_eq {r' : Run} (h : r'.machine = r.machine) : Passes P o r r' := by
  rw [Passes, h]
  exact .start

theorem passes_runCommand (c : Command) (r : Run) : Leaves (Passes P o) (runCommand P o c) r := by
  unfold Leaves Passes
  rcases runCommand_machine P o c r with hmachine | ⟨m, hrun, hwrite, hmachine⟩
  · rw [hmachine]
    exact .ran .start c
  · rw [hmachine]
    have hran : Visits P o r.machine (outcome (c.run P) r.machine).2 := .ran .start c
    rw [hrun] at hran
    exact hran.saved hwrite c

theorem passes_runLine (index : Nat) (line : String) (r : Run) :
    Leaves (Passes P o) (runLine P o skip index line) r := by
  rw [runLine]
  rcases Command.parse index line with e | _ | c
  · exact Leaves.throw _
  · exact Leaves.pure ()
  · exact Leaves.ite (fun _ => Leaves.ite (fun _ => Leaves.modify (passes_of_machine_eq rfl))
      fun _ => passes_runCommand c r) fun _ => Leaves.pure ()

/-- **Lines lead to a machine that commands lead to**, also when they fail. -/
theorem visits_runLines (index : Nat) (lines : List String) (r : Run) :
    Visits P o r.machine (outcome (runLines P o skip index lines) r).2.machine := by
  show Leaves (Passes P o) (runLines P o skip index lines) r
  induction lines generalizing index r with
  | nil => exact Leaves.pure ()
  | cons line rest ih =>
    exact Leaves.bind (passes_runLine index line r) fun _ r₁ _ _ => ih (index + 1) r₁

/-- What a session leaves in the world is what the last of its machines has. -/
theorem visits_runCommands (P : Primitives) (o : SessionOptions) (p : Prepared) (w : World) :
    ∃ m, Visits P o p.machine m ∧ (outcome (runCommands P o p) w).2.device = m.device ∧
      (outcome (runCommands P o p) w).2.files = m.files := by
  let start : Run := { machine := p.machine, progress := w.progress }
  refine ⟨(outcome (runLines P o p.skip 0 p.commands) start).2.machine,
    visits_runLines 0 p.commands start, ?_⟩
  rw [runCommands, outcome_bind, outcome_onMachine]
  rcases outcome (runLines P o p.skip 0 p.commands) start with ⟨_ | _, r⟩
  · exact ⟨rfl, rfl⟩
  · exact ⟨rfl, rfl⟩

end Session

end BlockUpdate
