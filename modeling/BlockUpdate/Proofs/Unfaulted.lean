import BlockUpdate.Proofs.DeviceOperations
import BlockUpdate.Proofs.PatchErrors

/-!
# Errors that are none of a device

Only a device that is written or synced, and the source of new data, have input/output errors.
Everything else that can go wrong is told apart from these: the files around the device do not fail
in that way, and neither arguments nor patches nor sources are taken for a device that failed.

- `FileTree.unfaulted_after`, `FileM.unfaulted_perform`: steps on files.
- `Stash.unfaulted_load?`, `Stash.unfaulted_store`, `Stash.unfaulted_free`: the stash.
- **`Command.unfaulted_source`**: looking for a source, whatever cannot be read.
- **`Emit.OwnErrors.unfaulted`**: patches.
-/

namespace BlockUpdate

namespace Unfaulted

variable {ε α β : Type} {io : ε → Bool}

theorem ite {p : Prop} [Decidable p] {x y : Except ε α} (hx : Unfaulted io x)
    (hy : Unfaulted io y) : Unfaulted io (if p then x else y) := by
  split
  · exact hx
  · exact hy

theorem foldlM {f : β → α → Except ε β} (h : ∀ b a, Unfaulted io (f b a)) (xs : List α) (b : β) :
    Unfaulted io (xs.foldlM f b) := by
  induction xs generalizing b with
  | nil => exact ok b
  | cons a rest ih => exact bind (h b a) fun b' _ => ih b'

/-- **One after the other**, on a state. -/
theorem outcome_bind {σ : Type} {x : ExceptT ε (StateM σ) α} {f : α → ExceptT ε (StateM σ) β}
    {s : σ} (hx : Unfaulted io (outcome x s).1) (hf : ∀ a t, Unfaulted io (outcome (f a) t).1) :
    Unfaulted io (outcome (x >>= f) s).1 := by
  rcases hrun : outcome x s with ⟨e | a, t⟩
  · rw [outcome_bind_of_error hrun]
    exact error (hx e (congrArg Prod.fst hrun))
  · rw [outcome_bind_of_ok hrun]
    exact hf a t

end Unfaulted

open Unfaulted (ok error)

namespace FileTree

variable (t : FileTree) (p : Path)

theorem unfaulted_follow (parts : List String) (place : Place) :
    Unfaulted OsError.isIo (t.follow parts place) := by
  induction parts generalizing place with
  | nil => exact ok place
  | cons part rest ih =>
    rw [follow]
    split
    · exact error rfl
    · exact error rfl
    · exact .ite (ih _) (.ite (ih _) (.ite (error rfl) (ih _)))

theorem unfaulted_locate : Unfaulted OsError.isIo (t.locate p) :=
  .ite (error rfl) (.ite (error rfl) (t.unfaulted_follow _ _))

theorem unfaulted_node : Unfaulted OsError.isIo (t.node p) := by
  refine .bind (t.unfaulted_locate p) fun place _ => ?_
  split
  · exact ok _
  · exact error rfl

/-- **No step on files fails as a device does.** -/
theorem unfaulted_after (step : FileEffect) : Unfaulted OsError.isIo (t.after step) := by
  cases step with
  | create p =>
    refine .bind (t.unfaulted_locate p) fun place _ => ?_
    split
    · exact error rfl
    · exact ok _
  | append p data =>
    refine .bind (t.unfaulted_locate p) fun place _ => ?_
    split
    · exact ok _
    · exact error rfl
    · exact error rfl
  | sync p => exact .bind (t.unfaulted_node p) fun _ _ => ok _
  | rename source target =>
    refine .bind (t.unfaulted_locate source) fun old _ =>
      .bind (t.unfaulted_locate target) fun new _ => ?_
    split
    · exact error rfl
    · exact error rfl
    · exact ok _

end FileTree

namespace FileM

theorem unfaulted_change {f : FileTree → Except OsError FileTree} {t : FileTree}
    (h : Unfaulted OsError.isIo (f t)) : Unfaulted OsError.isIo (outcome (change f) t).1 := by
  rw [outcome_change]
  split
  · exact ok ()
  · exact error (h _ ‹_›)

theorem unfaulted_perform (steps : List FileEffect) (t : FileTree) :
    Unfaulted OsError.isIo (outcome (perform steps) t).1 := by
  induction steps generalizing t with
  | nil => exact ok ()
  | cons step rest ih =>
    show Unfaulted OsError.isIo
      (outcome (change (·.after step) >>= fun _ => perform rest) t).1
    -- the steps that follow are on another tree, for which the induction holds as well
    exact .outcome_bind (unfaulted_change (t.unfaulted_after step)) fun _ t' => ih t'

theorem unfaulted_removeIfPresent (p : Path) (t : FileTree) :
    Unfaulted OsError.isIo (outcome (removeIfPresent p) t).1 := by
  have hremove : Unfaulted OsError.isIo (outcome (remove p) t).1 := by
    refine unfaulted_change (.bind (t.unfaulted_locate p) fun place _ => ?_)
    split
    · exact error rfl
    · exact error rfl
    · exact ok _
  rw [removeIfPresent, removeIfPresent.tolerateAbsence, outcome_mk]
  split
  · rename_i e t' hrun
    split_ifs
    · exact ok ()
    · exact error (hremove _ (congrArg Prod.fst hrun))
  · exact hremove

end FileM

namespace Stash

variable (s : Stash) (t : FileTree) (id : String)

theorem unfaulted_entryPath : Unfaulted StashError.isIo (s.entryPath id) := .ite (ok _) (error rfl)

theorem unfaulted_load? (size : Nat) : Unfaulted StashError.isIo (s.load? t id size) := by
  refine .bind (s.unfaulted_entryPath id) fun p _ => ?_
  have hnode := t.unfaulted_node p
  split
  · exact ok _
  · refine .ite ?_ (ok _)
    exact .bind (error rfl) fun _ _ => ok _
  · rename_i e he
    exact .ite (ok _) (error (hnode _ he))
  · rename_i e _ he
    exact error (hnode e he)

theorem unfaulted_store (data : Bytes) : Unfaulted StashError.isIo (outcome (s.store id data) t).1 := by
  refine .outcome_bind (s.unfaulted_entryPath id) fun path t' => ?_
  rw [outcome_fileMapError]
  exact (FileM.unfaulted_perform _ t').mapError fun _ => rfl

theorem unfaulted_free : Unfaulted StashError.isIo (outcome (s.free id) t).1 := by
  refine .outcome_bind (s.unfaulted_entryPath id) fun path t' => ?_
  rw [outcome_fileMapError]
  exact (FileM.unfaulted_removeIfPresent _ t').mapError fun _ => rfl

end Stash

/-- Whether a device failed with an input/output error. -/
def CommandError.isIo : CommandError → Bool
  | .block error => error.isIo
  | _ => false

theorem CommandFailure.isIo_command (e : CommandError) : (CommandFailure.command e).isIo = e.isIo := by
  cases e <;> rfl

theorem BlockSet.unfaulted_parse (text : String) : Unfaulted BlockError.isIo (parse text) := by
  rw [parse, insert]
  split
  · exact ok _
  · next e set' h =>
    obtain ⟨-, fault, rfl, -⟩ := outcome_extend_eq_error.mp h
    exact error rfl

namespace Command

variable (c : Command)

theorem unfaulted_blockSetOf (text : String) : Unfaulted CommandError.isIo (blockSetOf text) :=
  (BlockSet.unfaulted_parse text).mapError fun _ => rfl

theorem unfaulted_arg (position : Nat) : Unfaulted CommandError.isIo (c.arg position) := by
  rw [arg]
  split
  · exact ok _
  · exact error rfl

theorem unfaulted_number (position : Nat) : Unfaulted CommandError.isIo (c.number position) := by
  refine .bind (c.unfaulted_arg position) fun value _ => ?_
  split
  · exact ok _
  · exact error rfl

theorem unfaulted_blockSet (position : Nat) : Unfaulted CommandError.isIo (c.blockSet position) :=
  .bind (c.unfaulted_arg position) fun _ _ => unfaulted_blockSetOf _

theorem unfaulted_recipe : Unfaulted CommandError.isIo c.recipe := by
  rw [recipe]
  split
  exact .bind (c.unfaulted_arg _) fun _ _ => .bind (c.unfaulted_arg _) fun _ _ =>
    .bind (c.unfaulted_blockSet _) fun _ _ => ok _

theorem unfaulted_patch (patchData : Bytes) :
    Unfaulted CommandFailure.isIo (c.patch patchData) := by
  have hnumber : ∀ position, Unfaulted CommandFailure.isIo ((c.number position).mapError .command) :=
    fun position => (c.unfaulted_number position).mapError CommandFailure.isIo_command
  refine .bind (hnumber 0) fun offset _ => .bind (hnumber 1) fun size _ => ?_
  split
  · exact ok _
  · exact error rfl

end Command

namespace Source

variable (c : Command) (s : Stash) (t : FileTree)

theorem unfaulted_blockSetOf (text : String) : Unfaulted CommandFailure.isIo (blockSetOf text) :=
  (Command.unfaulted_blockSetOf text).mapError CommandFailure.isIo_command

theorem unfaulted_scatter (locations : BlockSet) (data buffer : Bytes) :
    Unfaulted CommandFailure.isIo (scatter c locations data buffer) := by
  rw [scatter]
  split
  · exact ok _
  · exact error rfl

theorem unfaulted_addPiece (buffer : Bytes) (piece : String) :
    Unfaulted CommandFailure.isIo (addPiece c s t buffer piece) := by
  rw [addPiece]
  split
  · refine .bind (unfaulted_blockSetOf _) fun locations _ =>
      .bind ((s.unfaulted_load? t _ _).mapError fun _ => rfl) fun found _ => ?_
    split
    · exact unfaulted_scatter c _ _ _
    · exact ok _
  · exact error rfl

theorem unfaulted_addDevice (d : Device) (range : BlockSet) (locations : Option String)
    (buffer : Bytes) : Unfaulted CommandFailure.isIo (addDevice c d range locations buffer) := by
  cases locations with
  | none => exact ok _
  | some locations =>
    refine .bind (unfaulted_blockSetOf _) fun locations _ => .ite (error rfl) ?_
    exact .bind (unfaulted_scatter c _ _ _) fun _ _ => ok _

theorem unfaulted_load (position : Nat) (d : Device) :
    Unfaulted CommandFailure.isIo (load c position d s t) := by
  refine .bind ((c.unfaulted_number _).mapError CommandFailure.isIo_command) fun blocks _ =>
    .bind ((c.unfaulted_arg _).mapError CommandFailure.isIo_command) fun first _ => .ite ?_ ?_
  · exact .bind (.foldlM (unfaulted_addPiece c s t) _ _) fun _ _ => ok _
  · refine .bind (unfaulted_blockSetOf _) fun range _ => .ite (error rfl) ?_
    exact .bind (unfaulted_addDevice c d _ _ _) fun _ _ =>
      .bind (.foldlM (unfaulted_addPiece c s t) _ _) fun _ _ => ok _

end Source

/-- **Looking for a source does not fail as a device does**, whatever cannot be read. -/
theorem Command.unfaulted_source (P : Primitives) (c : Command) (r : Recipe) (m : Machine) :
    Unfaulted CommandFailure.isIo (c.source P r m) := by
  refine .bind (Source.unfaulted_load c m.stash m.files _ _) fun found _ => .ite (ok _) ?_
  refine .bind (.bind ((m.stash.unfaulted_load? m.files _ _).mapError fun _ => rfl) fun data _ => ?_)
    fun _ _ => ok _
  split
  · exact .ite (ok _) (error rfl)
  · exact error rfl

theorem Emit.OwnErrors.unfaulted {α : Type} {x : Emit α} (h : Emit.OwnErrors x) :
    Unfaulted PatchError.isIo x.emission.outcome := by
  intro e he
  have hown := h.emission e he
  -- a patch by itself has no error of the system, the only kind that may be of a device
  cases e with
  | os os => exact absurd rfl (hown os)
  | _ => rfl

end BlockUpdate
