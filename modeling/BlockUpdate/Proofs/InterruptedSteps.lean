import BlockUpdate.Proofs.Distinct

/-!
# Steps that are cut short

The power can fail between two steps and inside one that appends data, of which a part has then
been added. Removing a name, giving it and emptying a file happen at once or not at all.

- `FileTree.Interrupted`: the trees that an interruption can leave of some steps.
- **`FileM.interrupted_perform`**: what steps leave that end in an error is among them.
- `FileTree.Replaced`: a tree that differs from another one in one file.
- **`interrupted_fill`**: what is left while a file is created and filled.
-/

namespace BlockUpdate

namespace FileTree

variable {t t' u : FileTree} {p : Path} {place : Place} {data : Bytes} {rest : List FileEffect}

/-! ## Interruptions -/

/-- A tree that is left where steps are interrupted. -/
inductive Interrupted : List FileEffect → FileTree → FileTree → Prop
  /-- Nothing was done yet, or nothing is left to do. -/
  | before (steps : List FileEffect) (t : FileTree) : Interrupted steps t t
  /-- The first bytes of what a step appends have been added. -/
  | inside {t u : FileTree} {p : Path} {data : Bytes} (n : Nat) (rest : List FileEffect)
    (h : t.after (.append p (data.takeFirst n)) = .ok u) : Interrupted (.append p data :: rest) t u
  /-- The first step is done. -/
  | behind {t t' u : FileTree} {step : FileEffect} {rest : List FileEffect}
    (hstep : t.after step = .ok t') (h : Interrupted rest t' u) : Interrupted (step :: rest) t u

theorem interrupted_nil : Interrupted [] t u ↔ u = t := by
  constructor
  · rintro ⟨⟩
    rfl
  · rintro rfl
    exact .before [] u

/-- An interruption lists no node twice. -/
theorem Interrupted.distinct {steps : List FileEffect} (h : Interrupted steps t u) :
    KeepsDistinct t u := by
  induction h with
  | before => exact id
  | inside n rest h => exact FileM.distinct_after h
  | behind hstep _ ih => exact ih ∘ FileM.distinct_after hstep

/-! ## One file in another tree -/

/-- A tree that differs from another one in that a file is at a place. -/
def Replaced (t : FileTree) (place : Place) (data : Bytes) (u : FileTree) : Prop :=
  ∀ q, u.get? q = if q = place then some (.file data) else t.get? q

theorem replaced_put (hplain : t.get? place ≠ some .directory) (data : Bytes) :
    t.Replaced place data (t.put place (.file data)) :=
  get?_put t (ne_nil_of_not_directory hplain) _

theorem replaced_written (hplain : t.get? place ≠ some .directory) (data : Bytes) :
    t.Replaced place data (t.written place data) :=
  get?_written t (ne_nil_of_not_directory hplain) data

namespace Replaced

theorem get?_self (h : t.Replaced place data u) : u.get? place = some (.file data) := by
  rw [h place, if_pos rfl]

theorem get?_of_ne (h : t.Replaced place data u) {q : Place} (hq : q ≠ place) :
    u.get? q = t.get? q := by
  rw [h q, if_neg hq]

theorem directory_iff (h : t.Replaced place data u) (hplain : t.get? place ≠ some .directory)
    (q : Place) : u.get? q = some .directory ↔ t.get? q = some .directory :=
  directory_iff_of_get? h hplain (by simp) q

/-- Paths lead where they led. -/
theorem locate (h : t.Replaced place data u) (hplain : t.get? place ≠ some .directory)
    {other : Place} (hp : t.locate p = .ok other) : u.locate p = .ok other :=
  locate_mono (fun q => (h.directory_iff hplain q).mpr) hp

end Replaced

/-! ## Filling a file -/

/-- **While a file is created and filled** it is as it was, or it holds the first bytes of the new
data. -/
theorem interrupted_fill (hp : t.locate p = .ok place) (hplain : t.get? place ≠ some .directory) :
    Interrupted (.create p :: .append p data :: .sync p :: rest) t u ↔
      u = t ∨ u = t.put place (.file ByteArray.empty) ∨
        (∃ n, u = t.written place (data.takeFirst n)) ∨
          Interrupted rest (t.written place data) u := by
  have hcreate := FileM.after_create_of_locate hp hplain
  have happend := FileM.after_append_created hp hplain
  have hsync := FileM.after_sync_written hp hplain data
  constructor
  · rintro (_ | _ | ⟨hstep, h⟩)
    · exact .inl rfl
    obtain rfl := Except.ok.inj (hstep.symm.trans hcreate)
    rcases h with _ | ⟨n, _, hpart⟩ | ⟨hstep, h⟩
    · exact .inr (.inl rfl)
    · exact .inr (.inr (.inl ⟨n, Except.ok.inj (hpart.symm.trans (happend _))⟩))
    obtain rfl := Except.ok.inj (hstep.symm.trans (happend data))
    rcases h with _ | _ | ⟨hstep, h⟩
    · exact .inr (.inr (.inr (.before rest _)))
    obtain rfl := Except.ok.inj (hstep.symm.trans hsync)
    exact .inr (.inr (.inr h))
  · rintro (rfl | rfl | ⟨n, rfl⟩ | h)
    · exact .before _ _
    · exact .behind hcreate (.before _ _)
    · exact .behind hcreate (.inside n _ (happend _))
    · exact .behind hcreate (.behind (happend data) (.behind hsync h))

end FileTree

namespace FileM

open FileTree

/-- **Steps that end in an error** leave what an interruption could leave, and so do steps that
succeed. -/
theorem interrupted_perform (steps : List FileEffect) (t : FileTree) :
    Interrupted steps t (outcome (perform steps) t).2 := by
  induction steps generalizing t with
  | nil => exact .before [] t
  | cons step rest ih =>
    rw [outcome_perform_cons]
    rcases hstep : t.after step with e | t'
    · exact .before _ t
    · exact .behind hstep (ih t')

end FileM

end BlockUpdate
