import BlockUpdate.Script.Session

/-!
# Outcomes of computations

Every stateful part of the library is a computation in `ExceptT ε (StateM σ)`: it ends in a value
or an error, and in a state either way. This file says what that pair is for each way of building
such a computation, so that no later proof unfolds the monad.

- `outcome x s`: how `x` ends when it starts in `s`.
- `outcome_bind`, **`outcome_bind_eq_ok`**: a sequence succeeds exactly when its parts do, one
  after the other. Applied from the outside in, it turns the success of a `do` block into the
  list of its steps.
- One equation for each way in which a computation on a part is run on the whole: `onDevice`,
  `onFiles`, `look`, `lift`, `onMachine`.
-/

namespace BlockUpdate

variable {ε ε' σ α β : Type}

/-- How a computation ends: its result and the state that it leaves. -/
def outcome (x : ExceptT ε (StateM σ) α) (s : σ) : Except ε α × σ := x.run s

/-! ## Building blocks -/

@[simp] theorem outcome_pure (a : α) (s : σ) :
    outcome (pure a : ExceptT ε (StateM σ) α) s = (.ok a, s) := rfl

@[simp] theorem outcome_throw (e : ε) (s : σ) :
    outcome (throw e : ExceptT ε (StateM σ) α) s = (.error e, s) := rfl

@[simp] theorem outcome_get (s : σ) :
    outcome (get : ExceptT ε (StateM σ) σ) s = (.ok s, s) := rfl

@[simp] theorem outcome_set (t s : σ) :
    outcome (set t : ExceptT ε (StateM σ) PUnit) s = (.ok ⟨⟩, t) := rfl

@[simp] theorem outcome_modify (f : σ → σ) (s : σ) :
    outcome (modify f : ExceptT ε (StateM σ) PUnit) s = (.ok ⟨⟩, f s) := rfl

@[simp] theorem outcome_mk (f : StateM σ (Except ε α)) (s : σ) :
    outcome (ExceptT.mk f) s = f s := rfl

/-- A sequence goes on only after a success. -/
theorem outcome_bind (x : ExceptT ε (StateM σ) α) (f : α → ExceptT ε (StateM σ) β) (s : σ) :
    outcome (x >>= f) s =
      match outcome x s with
      | (.ok a, t) => outcome (f a) t
      | (.error e, t) => (.error e, t) := by
  simp only [outcome, bind, ExceptT.bind, ExceptT.run, ExceptT.mk, StateT.bind, ExceptT.bindCont]
  rcases (x s : Except ε α × σ) with ⟨_ | _, t⟩ <;> rfl

theorem outcome_bind_of_ok {x : ExceptT ε (StateM σ) α} {s t : σ} {a : α}
    (h : outcome x s = (.ok a, t)) (f : α → ExceptT ε (StateM σ) β) :
    outcome (x >>= f) s = outcome (f a) t := by
  rw [outcome_bind, h]

theorem outcome_bind_of_error {x : ExceptT ε (StateM σ) α} {s t : σ} {e : ε}
    (h : outcome x s = (.error e, t)) (f : α → ExceptT ε (StateM σ) β) :
    outcome (x >>= f) s = (.error e, t) := by
  rw [outcome_bind, h]

@[simp] theorem outcome_get_bind (f : σ → ExceptT ε (StateM σ) β) (s : σ) :
    outcome (get >>= f) s = outcome (f s) s := outcome_bind_of_ok rfl f

/-- **A sequence succeeds exactly when its parts do**, one after the other. -/
theorem outcome_bind_eq_ok {x : ExceptT ε (StateM σ) α} {f : α → ExceptT ε (StateM σ) β}
    {s u : σ} {b : β} :
    outcome (x >>= f) s = (.ok b, u) ↔
      ∃ a t, outcome x s = (.ok a, t) ∧ outcome (f a) t = (.ok b, u) := by
  rw [outcome_bind]
  rcases outcome x s with ⟨e | a, t⟩
  · exact ⟨fun h => by simp at h, fun ⟨_, _, h, _⟩ => by simp at h⟩
  · exact ⟨fun h => ⟨a, t, rfl, h⟩, fun ⟨_, _, h, h'⟩ => by
      obtain ⟨rfl, rfl⟩ : a = _ ∧ t = _ := by simpa using h
      exact h'⟩

/-- **A sequence fails with its first part**, or with what follows a success of it. -/
theorem outcome_bind_eq_error {x : ExceptT ε (StateM σ) α} {f : α → ExceptT ε (StateM σ) β}
    {s u : σ} {e : ε} :
    outcome (x >>= f) s = (.error e, u) ↔
      outcome x s = (.error e, u) ∨
        ∃ a t, outcome x s = (.ok a, t) ∧ outcome (f a) t = (.error e, u) := by
  rw [outcome_bind]
  rcases outcome x s with ⟨e' | a, t⟩
  · simp
  · exact ⟨fun h => .inr ⟨a, t, rfl, h⟩, fun h => by
      rcases h with h | ⟨_, _, h, h'⟩
      · simp at h
      · obtain ⟨rfl, rfl⟩ : a = _ ∧ t = _ := by simpa using h
        exact h'⟩

/-! ## Results -/

/-- A sequence of readings succeeds exactly when its parts do. -/
theorem except_bind_eq_ok {x : Except ε α} {f : α → Except ε β} {b : β} :
    (x >>= f) = .ok b ↔ ∃ a, x = .ok a ∧ f a = .ok b := by
  constructor
  · intro h
    cases x with
    | error e => cases h
    | ok a => exact ⟨a, rfl, h⟩
  · rintro ⟨a, rfl, h⟩
    exact h

@[simp] theorem mapError_eq_ok {x : Except ε α} {f : ε → ε'} {a : α} :
    x.mapError f = .ok a ↔ x = .ok a := by
  constructor
  · intro h
    cases x <;> cases h
    rfl
  · rintro rfl
    rfl

theorem mapError_eq_error {x : Except ε α} {f : ε → ε'} {e : ε'} :
    x.mapError f = .error e ↔ ∃ e', x = .error e' ∧ f e' = e := by
  constructor
  · intro h
    cases x <;> cases h
    exact ⟨_, rfl, rfl⟩
  · rintro ⟨e', rfl, rfl⟩
    rfl

@[simp] theorem outcome_fileMapError (f : ε → ε') (x : FileM ε α) (t : FileTree) :
    outcome (FileM.mapError f x) t = ((outcome x t).1.mapError f, (outcome x t).2) := by
  show (match outcome x t with
    | (.ok a, t) => ((.ok a : Except ε' α), t)
    | (.error e, t) => (.error (f e), t)) = _
  rcases outcome x t with ⟨_ | _, _⟩ <;> rfl

@[simp] theorem outcome_deviceMapError (f : ε → ε') (x : DeviceM ε α) (d : Device) :
    outcome (DeviceM.mapError f x) d = ((outcome x d).1.mapError f, (outcome x d).2) := by
  show (match outcome x d with
    | (.ok a, d) => ((.ok a : Except ε' α), d)
    | (.error e, d) => (.error (f e), d)) = _
  rcases outcome x d with ⟨_ | _, _⟩ <;> rfl

@[simp] theorem outcome_writerMapError (f : ε → ε') (x : WritingM ε α) (s : Writing) :
    outcome (BlockWriter.mapError f x) s = ((outcome x s).1.mapError f, (outcome x s).2) := by
  show (match outcome x s with
    | (.ok a, s) => ((.ok a : Except ε' α), s)
    | (.error e, s) => (.error (f e), s)) = _
  rcases outcome x s with ⟨_ | _, _⟩ <;> rfl

/-! ## Computations on a part -/

@[simp] theorem outcome_fileLook (f : FileTree → Except ε α) (t : FileTree) :
    outcome (FileM.look f) t = (f t, t) := rfl

@[simp] theorem outcome_machineLook (f : Machine → Except ε α) (m : Machine) :
    outcome (Machine.look f) m = (f m, m) := rfl

@[simp] theorem outcome_ofCommand (x : Except CommandError α) (m : Machine) :
    outcome (Machine.ofCommand x) m = (x.mapError .command, m) := rfl

@[simp] theorem outcome_machineOnDevice (x : DeviceM BlockError α) (m : Machine) :
    outcome (Machine.onDevice x) m =
      ((outcome x m.device).1.mapError .block, { m with device := (outcome x m.device).2 }) := rfl

@[simp] theorem outcome_machineOnFiles (x : FileM StashError α) (m : Machine) :
    outcome (Machine.onFiles x) m =
      ((outcome x m.files).1.mapError .stash, { m with files := (outcome x m.files).2 }) := rfl

@[simp] theorem outcome_writerOnDevice (x : DeviceM ε α) (s : Writing) :
    outcome (BlockWriter.onDevice x) s =
      ((outcome x s.device).1, { s with device := (outcome x s.device).2 }) := rfl

@[simp] theorem outcome_onWriter (x : WritingM ε α) (s : Feeding) :
    outcome (Feed.onWriter x) s =
      ((outcome x s.writing).1, { s with writing := (outcome x s.writing).2 }) := rfl

@[simp] theorem outcome_sessionOnFiles (f : ε → TransferError) (x : FileM ε α) (w : World) :
    outcome (Session.onFiles f x) w =
      ((outcome x w.files).1.mapError f, { w with files := (outcome x w.files).2 }) := rfl

@[simp] theorem outcome_lift (f : ε → TransferError) (x : Except ε α) (w : World) :
    outcome (Session.lift f x) w = (x.mapError f, w) := rfl

theorem outcome_onMachine (m : Machine) (x : Session.RunM α) (w : World) :
    outcome (Session.onMachine m x) w =
      let r := outcome x { machine := m, progress := w.progress }
      (r.1.map fun a => (a, r.2),
        { device := r.2.machine.device, files := r.2.machine.files, progress := r.2.progress }) :=
  rfl

/-! ## Successful computations on a part -/

theorem fileMapError_eq_ok {f : ε → ε'} {x : FileM ε α} {t t' : FileTree} {a : α} :
    outcome (FileM.mapError f x) t = (.ok a, t') ↔ outcome x t = (.ok a, t') := by
  rw [outcome_fileMapError, Prod.ext_iff, Prod.ext_iff, mapError_eq_ok]

theorem machineOnDevice_eq_ok {x : DeviceM BlockError α} {m m' : Machine} {a : α} :
    outcome (Machine.onDevice x) m = (.ok a, m') ↔
      ∃ d, outcome x m.device = (.ok a, d) ∧ m' = { m with device := d } := by
  rw [outcome_machineOnDevice, Prod.ext_iff, mapError_eq_ok]
  exact ⟨fun h => ⟨_, Prod.ext h.1 rfl, h.2.symm⟩, fun ⟨d, h, hm⟩ => by rw [h]; exact ⟨rfl, hm.symm⟩⟩

theorem machineOnFiles_eq_ok {x : FileM StashError α} {m m' : Machine} {a : α} :
    outcome (Machine.onFiles x) m = (.ok a, m') ↔
      ∃ t, outcome x m.files = (.ok a, t) ∧ m' = { m with files := t } := by
  rw [outcome_machineOnFiles, Prod.ext_iff, mapError_eq_ok]
  exact ⟨fun h => ⟨_, Prod.ext h.1 rfl, h.2.symm⟩, fun ⟨d, h, hm⟩ => by rw [h]; exact ⟨rfl, hm.symm⟩⟩

theorem sessionOnFiles_eq_ok {f : ε → TransferError} {x : FileM ε α} {w w' : World} {a : α} :
    outcome (Session.onFiles f x) w = (.ok a, w') ↔
      ∃ t, outcome x w.files = (.ok a, t) ∧ w' = { w with files := t } := by
  rw [outcome_sessionOnFiles, Prod.ext_iff, mapError_eq_ok]
  exact ⟨fun h => ⟨_, Prod.ext h.1 rfl, h.2.symm⟩, fun ⟨d, h, hm⟩ => by rw [h]; exact ⟨rfl, hm.symm⟩⟩

theorem sessionOnFiles_eq_error {f : ε → TransferError} {x : FileM ε α} {w w' : World}
    {e : TransferError} :
    outcome (Session.onFiles f x) w = (.error e, w') ↔
      ∃ e' t, outcome x w.files = (.error e', t) ∧ f e' = e ∧ w' = { w with files := t } := by
  rw [outcome_sessionOnFiles, Prod.ext_iff, mapError_eq_error]
  constructor
  · rintro ⟨⟨e', he, hf⟩, hw⟩
    exact ⟨e', _, Prod.ext he rfl, hf, hw.symm⟩
  · rintro ⟨e', t, hx, hf, rfl⟩
    rw [hx]
    exact ⟨⟨e', rfl, hf⟩, rfl⟩

theorem lift_eq_ok {f : ε → TransferError} {x : Except ε α} {w w' : World} {a : α} :
    outcome (Session.lift f x) w = (.ok a, w') ↔ x = .ok a ∧ w' = w := by
  rw [outcome_lift, Prod.ext_iff, mapError_eq_ok]
  exact and_congr_right fun _ => eq_comm

theorem lift_eq_error {f : ε → TransferError} {x : Except ε α} {w w' : World} {e : TransferError} :
    outcome (Session.lift f x) w = (.error e, w') ↔ (∃ e', x = .error e' ∧ f e' = e) ∧ w' = w := by
  rw [outcome_lift, Prod.ext_iff, mapError_eq_error]
  exact and_congr_right fun _ => eq_comm

theorem ofCommand_eq_ok {x : Except CommandError α} {m m' : Machine} {a : α} :
    outcome (Machine.ofCommand x) m = (.ok a, m') ↔ x = .ok a ∧ m = m' := by
  rw [outcome_ofCommand, Prod.ext_iff, mapError_eq_ok]

theorem machineLook_eq_ok {f : Machine → Except ε α} {m m' : Machine} {a : α} :
    outcome (Machine.look f) m = (.ok a, m') ↔ f m = .ok a ∧ m = m' := by
  rw [outcome_machineLook, Prod.ext_iff]

/-- What follows a look at the machine runs on the same machine. -/
theorem machineLook_bind_eq_ok {f : Machine → Except ε α} {g : α → MachineM ε β} {m m' : Machine}
    {b : β} :
    outcome (Machine.look f >>= g) m = (.ok b, m') ↔
      ∃ a, f m = .ok a ∧ outcome (g a) m = (.ok b, m') := by
  rw [outcome_bind_eq_ok]
  refine exists_congr fun a => ⟨fun ⟨t, hlook, h⟩ => ?_, fun ⟨hf, h⟩ =>
    ⟨m, machineLook_eq_ok.mpr ⟨hf, rfl⟩, h⟩⟩
  obtain ⟨hf, rfl⟩ := machineLook_eq_ok.mp hlook
  exact ⟨hf, h⟩

theorem ofCommand_bind_eq_ok {x : Except CommandError α} {g : α → MachineM CommandFailure β}
    {m m' : Machine} {b : β} :
    outcome (Machine.ofCommand x >>= g) m = (.ok b, m') ↔
      ∃ a, x = .ok a ∧ outcome (g a) m = (.ok b, m') := by
  rw [Machine.ofCommand, machineLook_bind_eq_ok]
  simp only [mapError_eq_ok]

theorem fileLook_eq_ok {f : FileTree → Except ε α} {t t' : FileTree} {a : α} :
    outcome (FileM.look f) t = (.ok a, t') ↔ f t = .ok a ∧ t = t' := by
  rw [outcome_fileLook, Prod.ext_iff]

theorem outcome_change (f : FileTree → Except ε FileTree) (t : FileTree) :
    outcome (FileM.change f) t =
      match f t with
      | .ok t' => (.ok (), t')
      | .error e => (.error e, t) := rfl

theorem outcome_change_eq_ok {f : FileTree → Except ε FileTree} {t u : FileTree} :
    outcome (FileM.change f) t = (.ok (), u) ↔ f t = .ok u := by
  rw [outcome_change]
  cases f t <;> simp

end BlockUpdate
