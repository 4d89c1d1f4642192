import BlockUpdate.Proofs.Writer

/-!
# What a computation asks of a device

Nothing that writes to a device looks at what comes of it, except whether it failed or, of a discard,
whether it was taken. So the operations that a computation asks for are known beforehand, and it ends
with the first of them that fails. The error passes through writers, streams and patches under ever new names, but whether it is
an input/output error can be told from each of them.

- `DeviceOp`, `Device.performAll`: operations in order, up to the first that fails.
- `Asks D mk io x k Q`: from the control state `k`, on whatever device that answers discards by `D`,
  `x` asks for one list of operations; where none fails it has one result and one final control
  state, of which `Q` holds.
- `Asks.bind`, `Asks.lift`: the rules by which such computations are put together.
- **`BlockSet.asks_write`**, **`BlockSet.asks_zero`**, **`BlockSet.asks_receive`**: buffers, zeros
  and patches.
- **`Feed.asks_fill`**: new data, whose source may fail as a device does.
-/

namespace BlockUpdate

/-- What a device is asked for, apart from reads. -/
inductive DeviceOp
  | write (start : Nat) (data : Bytes)
  | sync
  | discard (start len : Nat)

namespace Device

variable (d : Device)

/-- Performs one operation. A discard that is not taken is no failure. -/
def perform : DeviceOp → Except OsError Unit × Device
  | .write start data => d.write start data
  | .sync => (d.sync, d)
  | .discard start len => (.ok (), (d.discard start len).2)

/-- Performs operations in order, up to the first that fails. -/
def performAll (d : Device) : List DeviceOp → Except OsError Unit × Device
  | [] => (.ok (), d)
  | op :: rest =>
    match d.perform op with
    | (.ok (), d') => d'.performAll rest
    | (.error e, d') => (.error e, d')

@[simp] theorem performAll_nil : d.performAll [] = (.ok (), d) := rfl

theorem discards_perform (op : DeviceOp) : (d.perform op).2.discards = d.discards := by
  cases op with
  | write start data =>
    show (d.write start data).2.discards = _
    unfold write
    split_ifs
    · rfl
    · rfl
    · cases d.faults.write d.writes <;> rfl
  | sync => rfl
  | discard start len =>
    show (d.discard start len).2.discards = _
    unfold discard
    split
    · rfl
    · split_ifs <;> rfl

theorem discards_performAll (ops : List DeviceOp) :
    (d.performAll ops).2.discards = d.discards := by
  induction ops generalizing d with
  | nil => rfl
  | cons op rest ih =>
    have hfirst := d.discards_perform op
    rw [performAll]
    rcases hop : d.perform op with ⟨e | ⟨⟩, d'⟩ <;> rw [hop] at hfirst
    · exact hfirst
    · exact (ih d').trans hfirst

theorem performAll_singleton (op : DeviceOp) : d.performAll [op] = d.perform op := by
  rw [performAll]
  rcases d.perform op with ⟨e | ⟨⟩, d'⟩ <;> rfl

theorem performAll_append (ops ops' : List DeviceOp) :
    d.performAll (ops ++ ops') =
      match d.performAll ops with
      | (.ok (), d') => d'.performAll ops'
      | (.error e, d') => (.error e, d') := by
  induction ops generalizing d with
  | nil => rfl
  | cons op rest ih =>
    rw [List.cons_append, performAll, performAll]
    rcases d.perform op with ⟨e | ⟨⟩, d'⟩
    · rfl
    · exact ih d'

end Device

/-! ## Computations that ask -/

section Asking

variable {ε ε' σ κ κ' α β : Type} {D : Option Discards} {mk : κ → Device → σ} {io : ε → Bool}

/-- On a device, a computation asks for given operations: it ends with the first that fails, and as
an input/output error exactly if that one is, or else with the given result. -/
def Answers (mk : κ → Device → σ) (io : ε → Bool) (x : ExceptT ε (StateM σ) α) (k : κ)
    (ops : List DeviceOp) (r : Except ε α) (k' : κ) (d : Device) : Prop :=
  match d.performAll ops with
  | (.ok (), d') => outcome x (mk k d) = (r, mk k' d')
  | (.error e, d') =>
    ∃ e' k'', io e' = e.isIo ∧ outcome x (mk k d) = (.error e', mk k'' d')

/-- Whatever device answers discards by `D`, a computation asks for one list of operations, and has
one result and one final control state, of which `Q` holds, where none of them fails. -/
def Asks (D : Option Discards) (mk : κ → Device → σ) (io : ε → Bool) (x : ExceptT ε (StateM σ) α) (k : κ)
    (Q : Except ε α → κ → Prop) : Prop :=
  ∃ r k' ops, Q r k' ∧ ∀ d, d.discards = D → Answers mk io x k ops r k' d

/-- A result that is not an input/output error. -/
def Unfaulted (io : ε → Bool) (r : Except ε α) : Prop := ∀ e, r = .error e → io e = false

namespace Unfaulted

theorem ok (a : α) : Unfaulted io (.ok a : Except ε α) := nofun

theorem error {e : ε} (h : io e = false) : Unfaulted io (.error e : Except ε α) := by
  rintro _ ⟨⟩
  exact h

theorem bind {x : Except ε α} {f : α → Except ε β} (hx : Unfaulted io x)
    (hf : ∀ a, x = .ok a → Unfaulted io (f a)) : Unfaulted io (x >>= f) := by
  cases x with
  | ok a => exact hf a rfl
  | error e => exact error (hx e rfl)

theorem mapError {io' : ε' → Bool} {f : ε → ε'} {r : Except ε α} (h : Unfaulted io r)
    (hf : ∀ e, io' (f e) = io e) : Unfaulted io' (r.mapError f) := by
  intro e he
  obtain ⟨e', hr, rfl⟩ := mapError_eq_error.mp he
  rw [hf]
  exact h e' hr

end Unfaulted

namespace Asks

variable {x : ExceptT ε (StateM σ) α} {f : α → ExceptT ε (StateM σ) β} {k : κ}
  {Q Q' : Except ε α → κ → Prop} {R : Except ε β → κ → Prop}

theorem imp (h : Asks D mk io x k Q) (hQ : ∀ r k', Q r k' → Q' r k') : Asks D mk io x k Q' := by
  obtain ⟨r, k', ops, hq, hd⟩ := h
  exact ⟨r, k', ops, hQ r k' hq, hd⟩

/-- A computation that asks for nothing. -/
theorem quiet {r : Except ε α} {l : κ} (h : ∀ d, outcome x (mk k d) = (r, mk l d)) (hQ : Q r l) :
    Asks D mk io x k Q :=
  ⟨r, l, [], hQ, fun d _ => h d⟩

theorem pure {a : α} (hQ : Q (.ok a) k) : Asks D mk io (Pure.pure a) k Q := quiet (fun _ => rfl) hQ

theorem throw {e : ε} (hQ : Q (.error e) k) : Asks D mk io (MonadExcept.throw e) k Q :=
  quiet (fun _ => rfl) hQ

/-- A computation that runs another one asks for what that one asks for. -/
theorem of_outcome {y : ExceptT ε (StateM σ) α} (h : Asks D mk io y k Q)
    (hy : ∀ d, d.discards = D → outcome x (mk k d) = outcome y (mk k d)) : Asks D mk io x k Q := by
  obtain ⟨r, k', ops, hq, hd⟩ := h
  exact ⟨r, k', ops, hq, fun d hD => by rw [Answers, hy d hD]; exact hd d hD⟩

/-- **One after the other**: the second part asks where the first has got everything. -/
theorem bind (h : Asks D mk io x k Q) (herror : ∀ e k', Q (.error e) k' → R (.error e) k')
    (hok : ∀ a k', Q (.ok a) k' → Asks D mk io (f a) k' R) : Asks D mk io (x >>= f) k R := by
  obtain ⟨r, k', ops, hq, hd⟩ := h
  cases r with
  | error e =>
    refine ⟨.error e, k', ops, herror e k' hq, fun d hD => ?_⟩
    have h := hd d hD
    rw [Answers] at h ⊢
    rcases hops : d.performAll ops with ⟨e' | ⟨⟩, d'⟩ <;> rw [hops] at h
    · obtain ⟨e'', k'', hio, h⟩ := h
      exact ⟨e'', k'', hio, outcome_bind_of_error h f⟩
    · exact outcome_bind_of_error h f
  | ok a =>
    obtain ⟨r', k'', ops', hr, hd'⟩ := hok a k' hq
    refine ⟨r', k'', ops ++ ops', hr, fun d hD => ?_⟩
    have h := hd d hD
    have hkept := d.discards_performAll ops
    rw [Answers] at h ⊢
    rw [Device.performAll_append]
    rcases hops : d.performAll ops with ⟨e' | ⟨⟩, d'⟩ <;> rw [hops] at h hkept
    · obtain ⟨e'', k₁, hio, h⟩ := h
      exact ⟨e'', k₁, hio, outcome_bind_of_error h f⟩
    · rw [outcome_bind_of_ok h f]
      exact hd' d' (hkept.trans hD)

/-- The state is read, and what follows looks at the control state only. -/
theorem get_bind {f : σ → ExceptT ε (StateM σ) β} {y : ExceptT ε (StateM σ) β}
    (h : Asks D mk io y k R) (hy : ∀ d, d.discards = D → f (mk k d) = y) :
    Asks D mk io (get >>= f) k R :=
  h.of_outcome fun d hD => by rw [outcome_get_bind, hy d hD]

/-- The control state is changed. -/
theorem modify_bind {g : σ → σ} {f : PUnit → ExceptT ε (StateM σ) β} {l : κ}
    (h : Asks D mk io (f ⟨⟩) l R) (hg : ∀ d, g (mk k d) = mk l d) :
    Asks D mk io (modify g >>= f) k R := by
  obtain ⟨r, k', ops, hr, hd⟩ := h
  refine ⟨r, k', ops, hr, fun d hD => ?_⟩
  rw [Answers, outcome_bind_of_ok (outcome_modify g (mk k d)) f, hg]
  exact hd d hD

/-- A computation that passes on what another one does on a part of its state, and whose errors are
told apart as those are. -/
theorem lift {σ' : Type} {n : κ' → Device → σ'} {io' : ε' → Bool} {y : ExceptT ε' (StateM σ') β}
    {l : κ'} {g : κ → κ'} {φ : Except ε α → Except ε' β} {u : σ → σ'} {R : Except ε' β → κ' → Prop}
    (h : Asks D mk io x k Q)
    (hy : ∀ d, outcome y (n l d) = (φ (outcome x (mk k d)).1, u (outcome x (mk k d)).2))
    (hφ : ∀ e, ∃ e', φ (.error e) = .error e' ∧ io' e' = io e)
    (hu : ∀ k₁ d, u (mk k₁ d) = n (g k₁) d)
    (hR : ∀ r k₁, Q r k₁ → R (φ r) (g k₁)) : Asks D n io' y l R := by
  obtain ⟨r, k', ops, hq, hd⟩ := h
  refine ⟨φ r, g k', ops, hR r k' hq, fun d hD => ?_⟩
  have h := hd d hD
  rw [Answers] at h ⊢
  rcases hops : d.performAll ops with ⟨e | ⟨⟩, d'⟩ <;> rw [hops] at h
  · obtain ⟨e₁, k₁, hio, h⟩ := h
    obtain ⟨e₂, he₂, hio₂⟩ := hφ e₁
    exact ⟨e₂, g k₁, hio₂.trans hio, by rw [hy, h, he₂, hu]⟩
  · rw [hy, h, hu]

end Asks

end Asking

/-! ## Devices -/

section Operations

variable {ε ε' α β : Type} {D : Option Discards} {io : ε → Bool}

/-- A computation on a device that fails as its device does, or for a reason of its own. -/
def AsksDevice (D : Option Discards) (io : ε → Bool) (x : DeviceM ε α) : Prop :=
  Asks D (fun (_ : Unit) d => d) io x () fun r _ => Unfaulted io r

namespace AsksDevice

variable {x : DeviceM ε α} {f : α → DeviceM ε β}

theorem pure (a : α) : AsksDevice D io (Pure.pure a : DeviceM ε α) := Asks.pure (.ok a)

theorem throw {e : ε} (h : io e = false) : AsksDevice D io (MonadExcept.throw e : DeviceM ε α) :=
  Asks.throw (.error h)

theorem bind (hx : AsksDevice D io x) (hf : ∀ a, AsksDevice D io (f a)) : AsksDevice D io (x >>= f) :=
  Asks.bind hx (fun _ _ h => .error (h _ rfl)) fun a _ _ => hf a

theorem mapError {io' : ε' → Bool} {g : ε → ε'} (hx : AsksDevice D io x)
    (hg : ∀ e, io' (g e) = io e) : AsksDevice D io' (DeviceM.mapError g x) :=
  Asks.lift hx (g := id) (u := id) (fun d => outcome_deviceMapError g x d)
    (fun e => ⟨g e, rfl, hg e⟩) (fun _ _ => rfl) fun _ _ h => h.mapError hg

end AsksDevice

/-- An operation asks for itself. -/
theorem asksDevice_of_perform {x : DeviceM OsError Unit} (op : DeviceOp)
    (h : ∀ d, outcome x d = d.perform op) : AsksDevice D OsError.isIo x := by
  refine ⟨.ok (), (), [op], .ok (), fun d _ => ?_⟩
  rw [Answers, Device.performAll_singleton, h]
  rcases d.perform op with ⟨e | ⟨⟩, d'⟩
  · exact ⟨e, (), rfl, rfl⟩
  · rfl

theorem DeviceM.asks_write (start : Nat) (data : Bytes) :
    AsksDevice D OsError.isIo (DeviceM.write start data) :=
  asksDevice_of_perform (.write start data) fun _ => rfl

theorem DeviceM.asks_sync : AsksDevice D OsError.isIo DeviceM.sync :=
  asksDevice_of_perform .sync fun _ => rfl

theorem DeviceM.asks_discard {ε : Type} {io : ε → Bool} (start len : Nat) :
    AsksDevice D io (DeviceM.discard start len : DeviceM ε Bool) := by
  -- whether it is taken is the same for all devices that answer by `D`
  have htaken (d : Device) (hD : d.discards = D) :
      (d.discard start len).1 = (D.elim false fun how => how.takes start len) := by
    subst hD
    rw [Device.discard]
    cases d.discards with
    | none => rfl
    | some how =>
      dsimp only [Option.elim]
      split <;> simp_all
  refine ⟨.ok (D.elim false fun how => how.takes start len), (), [.discard start len], .ok _,
    fun d hD => ?_⟩
  rw [← htaken d hD]
  rfl

end Operations

namespace BlockSet

variable {D : Option Discards}

theorem asks_writeRanges (data : Bytes) (ranges : List BlockRange) (position : Nat) :
    AsksDevice D OsError.isIo (writeRanges data ranges position) := by
  induction ranges generalizing position with
  | nil => exact .pure _
  | cons range rest ih => exact (DeviceM.asks_write _ _).bind fun _ => ih _

/-- **A buffer.** -/
theorem asks_write (set : BlockSet) (data : Bytes) :
    AsksDevice D BlockError.isIo (set.write data) := by
  rw [write, checkBuffer]
  split_ifs
  · exact .throw rfl
  · exact (asks_writeRanges data set.ranges 0).mapError fun _ => rfl

variable {run : Nat} {hrun : 0 < run}

theorem asks_zeroFrom (start length done : Nat) :
    AsksDevice D OsError.isIo (zeroFrom run hrun start length done) := by
  fun_induction zeroFrom run hrun start length done with
  | case1 done h n ih => exact (DeviceM.asks_write _ _).bind fun _ => ih
  | case2 done h => exact .pure _

theorem asks_clearRanges (discarding : Bool) (ranges : List BlockRange) :
    AsksDevice D OsError.isIo (clearRanges run hrun discarding ranges) := by
  induction ranges with
  | nil => exact .pure _
  | cons range rest ih =>
    have hzeros : AsksDevice D OsError.isIo
        (zeroFrom run hrun range.byteStart range.byteLength 0 >>= fun _ =>
          clearRanges run hrun discarding rest) := (asks_zeroFrom _ _ _).bind fun _ => ih
    rw [clearRanges]
    cases discarding with
    | false => exact hzeros
    | true =>
      refine (DeviceM.asks_discard _ _).bind fun discarded => ?_
      cases discarded with
      | false => exact hzeros
      | true => exact ih

/-- **Zeros**, and what is discarded in their place. -/
theorem asks_zero (set : BlockSet) (isErase allowFileErase : Bool) :
    AsksDevice D BlockError.isIo (set.zero isErase allowFileErase) := by
  have hcleared (discarding : Bool) : AsksDevice D BlockError.isIo (set.cleared discarding) := by
    rw [cleared]
    split
    · exact (asks_clearRanges _ _).mapError fun _ => rfl
    · exact .pure _
  refine Asks.of_outcome (y := if (isErase && !D.isSome && !allowFileErase) = true then
    throw .notBlockDevice else set.cleared (isErase && D.isSome)) ?_ fun d hD => ?_
  · split
    · exact AsksDevice.throw rfl
    · exact hcleared _
  · rw [outcome_zero, Device.isBlockDevice, hD]

end BlockSet

/-! ## Streams -/

/-- Whether the device failed with an input/output error. -/
def PatchError.isIo : PatchError → Bool
  | .os error => error.isIo
  | _ => false

theorem BlockError.isIo_patch (e : PatchError) : (BlockError.patch e).isIo = e.isIo := by
  cases e <;> rfl

namespace BlockWriter

variable {ε ε' α β : Type} {D : Option Discards} {io : ε → Bool} {w : BlockWriter}

/-- A computation of a writer that fails as its device does, or for a reason of its own. -/
def AsksWriter (D : Option Discards) (io : ε → Bool) (x : WritingM ε α) : Prop :=
  ∀ w, Asks D Writing.mk io x w fun r _ => Unfaulted io r

namespace AsksWriter

variable {x : WritingM ε α} {f : α → WritingM ε β}

theorem pure (a : α) : AsksWriter D io (Pure.pure a : WritingM ε α) := fun _ => Asks.pure (.ok a)

theorem throw {e : ε} (h : io e = false) : AsksWriter D io (MonadExcept.throw e : WritingM ε α) :=
  fun _ => Asks.throw (.error h)

theorem bind (hx : AsksWriter D io x) (hf : ∀ a, AsksWriter D io (f a)) : AsksWriter D io (x >>= f) :=
  fun w => Asks.bind (hx w) (fun _ _ h => .error (h _ rfl)) fun a w' _ => hf a w'

/-- The writer is read, and not its device. -/
theorem get_bind {f : Writing → WritingM ε β} (h : ∀ s, AsksWriter D io (f s))
    (hf : ∀ w d d', f ⟨w, d⟩ = f ⟨w, d'⟩) : AsksWriter D io (get >>= f) :=
  fun w => Asks.get_bind (h ⟨w, Device.full⟩ w) fun d _ => hf w d Device.full

theorem ite {p : Prop} [Decidable p] {x y : WritingM ε α} (hx : AsksWriter D io x)
    (hy : AsksWriter D io y) : AsksWriter D io (if p then x else y) := by
  split
  · exact hx
  · exact hy

/-- The writer is moved on. -/
theorem modify_bind {f : PUnit → WritingM ε β} (g : BlockWriter → BlockWriter)
    (h : AsksWriter D io (f ⟨⟩)) :
    AsksWriter D io (modify (fun s : Writing => { s with writer := g s.writer }) >>= f) :=
  fun w => Asks.modify_bind (h (g w)) fun _ => rfl

theorem mapError {io' : ε' → Bool} {g : ε → ε'} (hx : AsksWriter D io x)
    (hg : ∀ e, io' (g e) = io e) : AsksWriter D io' (BlockWriter.mapError g x) :=
  fun w => Asks.lift (hx w) (g := id) (u := id) (fun d => outcome_writerMapError g x ⟨w, d⟩)
    (fun e => ⟨g e, rfl, hg e⟩) (fun _ _ => rfl) fun _ _ h => h.mapError hg

theorem onDevice {x : DeviceM ε α} (h : AsksDevice D io x) : AsksWriter D io (BlockWriter.onDevice x) :=
  fun w => Asks.lift h (g := fun _ => w) (φ := id) (u := fun d => ⟨w, d⟩) (fun _ => rfl)
    (fun e => ⟨e, rfl, rfl⟩) (fun _ _ => rfl) fun _ _ h => h

end AsksWriter

theorem asks_writeRanges (data : Bytes) (ranges : List BlockRange) (consumed : Nat) :
    AsksWriter D OsError.isIo (writeRanges data ranges consumed) := by
  induction ranges generalizing consumed with
  | nil => exact .pure _
  | cons r rest ih =>
    refine .ite (.pure _) (.get_bind (fun s => ?_) fun _ _ _ => rfl)
    -- the write, if there is one, comes before the writer moves on
    have hrest : ∀ n room, AsksWriter D OsError.isIo (do
        modify fun s : Writing => { s with writer := BlockWriter.advance s.writer n r.byteLength }
        if n = room then writeRanges data rest (consumed + n) else return consumed + n) :=
      fun n room => .modify_bind (fun v => v.advance n r.byteLength) (.ite (ih _) (.pure _))
    exact .ite ((AsksWriter.onDevice (DeviceM.asks_write _ _)).bind fun _ => hrest _ _) (hrest _ _)

theorem asks_write (data : Bytes) : AsksWriter D OsError.isIo (write data) :=
  .get_bind (fun s => asks_writeRanges data (s.writer.set.ranges.drop s.writer.rangeIndex) 0)
    fun _ _ _ => rfl

theorem asks_put (data : Bytes) : AsksWriter D PatchError.isIo (put data) := by
  have hwrite : AsksWriter D PatchError.isIo (mapError PatchError.os (write data)) :=
    (asks_write data).mapError fun _ => rfl
  exact .get_bind (fun _ => .ite (.throw rfl) (hwrite.bind fun _ => .pure _)) fun _ _ _ => rfl

theorem asks_deliverPieces (pieces : List Bytes) :
    AsksWriter D PatchError.isIo
      (ExceptT.mk (Emission.deliverPieces (fun s piece => outcome (put piece) s) pieces)) := by
  induction pieces with
  | nil => exact fun w => Asks.quiet (fun _ => rfl) (.ok ())
  | cons piece rest ih =>
    refine fun w => Asks.of_outcome ((asks_put piece).bind (fun _ => ih) w) fun d _ => ?_
    rw [outcome_bind, outcome_mk, Emission.deliverPieces]
    rcases outcome (put piece) ⟨w, d⟩ with ⟨_ | _, _⟩ <;> rfl

/-- What an emission hands over, whose own error is none of a device. -/
theorem asks_receive {e : Emission α} (h : Unfaulted PatchError.isIo e.outcome) :
    AsksWriter D PatchError.isIo (receive e) := by
  have hend : AsksWriter D PatchError.isIo
      (ExceptT.mk fun s => (e.outcome, s) : WritingM PatchError α) :=
    fun w => Asks.quiet (fun _ => rfl) h
  refine fun w => Asks.of_outcome ((asks_deliverPieces e.pieces).bind (fun _ => hend) w)
    fun d _ => ?_
  have hdeliver : outcome (receive e) ⟨w, d⟩ =
      Emission.deliver (fun s piece => outcome (put piece) s) e ⟨w, d⟩ := rfl
  rw [hdeliver, Emission.deliver, outcome_bind, outcome_mk]
  rcases Emission.deliverPieces (fun s piece => outcome (put piece) s) e.pieces ⟨w, d⟩ with
    ⟨_ | _, _⟩ <;> rfl

theorem asks_finish : AsksWriter D BlockError.isIo finish := by
  have hsync : AsksWriter D BlockError.isIo (mapError BlockError.os (onDevice DeviceM.sync)) :=
    (AsksWriter.onDevice DeviceM.asks_sync).mapError fun _ => rfl
  exact .get_bind (fun _ => .ite (.throw rfl) (.ite (hsync.bind fun _ => .pure _) (.pure _)))
    fun _ _ _ => rfl

end BlockWriter

/-- **A patch** whose own error is none of a device. -/
theorem BlockSet.asks_receive {D : Option Discards} {α : Type} (set : BlockSet) {e : Emission α}
    (h : Unfaulted PatchError.isIo e.outcome) : AsksDevice D BlockError.isIo (set.receive e) :=
  Asks.lift (((BlockWriter.asks_receive h).mapError BlockError.isIo_patch).bind
      (fun _ => BlockWriter.asks_finish) (BlockWriter.new set false))
    (g := fun _ => ()) (φ := id) (u := Writing.device) (fun _ => rfl)
    (fun e => ⟨e, rfl, rfl⟩) (fun _ _ => rfl) fun _ _ h => h

/-! ## New data -/

namespace Feed

/-- An error of a source. -/
def Fails (source : NewData) (e : OsError) : Prop :=
  .failed e ∈ source.pulls ∨ source.ending = some e

/-- A result that is an input/output error only if a source has one. -/
def SourceOnly {α : Type} (source : NewData) (r : Except FeedError α) : Prop :=
  ∀ e, r = .error e → e.isIo = true → ∃ e', e = .source e' ∧ Fails source e'

variable {α : Type} {D : Option Discards} {source : NewData}

theorem SourceOnly.of_unfaulted {r : Except FeedError α} (h : Unfaulted FeedError.isIo r) :
    SourceOnly source r := by
  intro e he hio
  rw [h e he] at hio
  cases hio

theorem asks_writer {ε : Type} {io : ε → Bool} {x : WritingM ε α} {f : ε → FeedError}
    (h : BlockWriter.AsksWriter D io x) (hf : ∀ e, (f e).isIo = io e) (k : Feed × BlockWriter) :
    Asks D feeding FeedError.isIo (writerError f x) k fun r k' =>
      Unfaulted FeedError.isIo r ∧ k'.1 = k.1 :=
  Asks.lift (h k.2) (g := fun w => (k.1, w)) (φ := Except.mapError f) (u := fun s => ⟨k.1, s⟩)
    (fun d => by rw [writerError, outcome_onWriter, outcome_writerMapError]; rfl)
    (fun e => ⟨f e, rfl, hf e⟩) (fun _ _ => rfl) fun _ _ h => ⟨h.mapError hf, rfl⟩

theorem asks_writeBuffer (k : Feed × BlockWriter) :
    Asks D feeding FeedError.isIo writeBuffer k fun r k' =>
      Unfaulted FeedError.isIo r ∧ k'.1.source = k.1.source := by
  by_cases hempty : k.1.buffer.size = 0
  · exact Asks.get_bind (y := pure ()) (Asks.pure ⟨.ok (), rfl⟩) fun d _ =>
      if_neg (not_not_intro hempty)
  · refine Asks.get_bind (y := writerError (.block ∘ .os) (BlockWriter.write k.1.buffer) >>=
      fun n => modify fun s : Feeding =>
        { s with feed.buffer := s.feed.buffer.dropFirst n }) ?_ fun d _ => if_pos hempty
    refine Asks.bind (asks_writer (BlockWriter.asks_write k.1.buffer) (fun _ => rfl) k) ?_ ?_
    · rintro e k' ⟨h, hk⟩
      exact ⟨.error (h e rfl), by rw [hk]⟩
    · rintro n k' ⟨-, hk⟩
      exact Asks.quiet (l := ({ k'.1 with buffer := k'.1.buffer.dropFirst n }, k'.2))
        (fun d => rfl) ⟨.ok _, by rw [hk]⟩

theorem asks_settle (k : Feed × BlockWriter) :
    Asks D feeding FeedError.isIo settle k fun r k' =>
      Unfaulted FeedError.isIo r ∧ k'.1.source = k.1.source := by
  have hend : ∀ k' : Feed × BlockWriter, k'.1.source = k.1.source →
      Asks D feeding FeedError.isIo
        (do return (← get).writing.writer.isDone : FeedingM FeedError Bool) k' fun r k'' =>
          Unfaulted FeedError.isIo r ∧ k''.1.source = k.1.source := fun k' hk =>
    Asks.get_bind (y := pure k'.2.isDone) (Asks.pure ⟨.ok _, hk⟩) fun _ _ => rfl
  by_cases hdone : k.2.isDone = true
  · refine Asks.get_bind (y := do return (← get).writing.writer.isDone) (hend k rfl) fun d _ => ?_
    show (if (!k.2.isDone) = true then _ else _) = _
    rw [hdone]
    rfl
  · refine Asks.get_bind (y := writeBuffer >>= fun _ => do
      return (← get).writing.writer.isDone) ?_ fun d _ => ?_
    · refine Asks.bind (asks_writeBuffer k) (fun e k' h => ⟨.error (h.1 e rfl), h.2⟩) ?_
      exact fun _ k' h => hend k' h.2
    · show (if (!k.2.isDone) = true then _ else _) = _
      rw [Bool.eq_false_iff.mpr hdone]
      rfl

theorem asks_starve (k : Feed × BlockWriter) :
    Asks D feeding FeedError.isIo (starve : FeedingM FeedError α) k fun r _ => SourceOnly source r :=
  Asks.get_bind (y := throw (.starved k.2.written k.2.expected))
    (Asks.throw (.of_unfaulted (.error rfl))) fun _ _ => rfl

theorem asks_exhaust (k : Feed × BlockWriter) :
    Asks D feeding FeedError.isIo exhaust k fun r _ => SourceOnly source r :=
  Asks.modify_bind (asks_starve ({ k.1 with exhausted := true }, k.2)) fun _ => rfl

/-- A round of a fill. -/
theorem asks_round {next : FeedingM FeedError Nat} (k : Feed × BlockWriter)
    (hnext : ∀ k', k'.1.source = k.1.source →
      Asks D feeding FeedError.isIo next k' fun r _ => SourceOnly source r) :
    Asks D feeding FeedError.isIo (do
        if ← settle then writerError FeedError.block BlockWriter.finish
        else if (← get).feed.exhausted then starve
        else next) k fun r _ => SourceOnly source r := by
  refine Asks.bind (asks_settle k) (fun e k' h => .of_unfaulted (.error (h.1 e rfl))) ?_
  rintro done k' ⟨-, hk⟩
  cases done with
  | true =>
    exact (asks_writer BlockWriter.asks_finish (fun _ => rfl) k').imp fun r _ h => .of_unfaulted h.1
  | false =>
    refine Asks.get_bind (y := if k'.1.exhausted = true then starve else next) ?_ fun _ _ => rfl
    split
    · exact asks_starve k'
    · exact hnext k' hk

theorem asks_fillFrom (pulls : List Pull) (k : Feed × BlockWriter)
    (hpulls : ∀ e, .failed e ∈ pulls → Fails source e) (hending : k.1.source.ending = source.ending) :
    Asks D feeding FeedError.isIo (fillFrom pulls) k fun r _ => SourceOnly source r := by
  have hfails : ∀ {e k'}, Fails source e →
      Asks D feeding FeedError.isIo (throw (.source e) : FeedingM FeedError Nat) k' fun r _ =>
        SourceOnly source r := fun h => Asks.throw (by rintro _ ⟨⟩ -; exact ⟨_, rfl, h⟩)
  induction pulls generalizing k with
  | nil =>
    refine asks_round k fun k' hk => ?_
    cases hend : k'.1.source.ending with
    | some error =>
      refine Asks.get_bind (y := throw (.source error)) (hfails (.inr ?_)) fun d _ => ?_
      · rw [← hending, ← hk, hend]
      · simp only [feeding, hend]
    | none =>
      refine Asks.get_bind (y := exhaust) (asks_exhaust k') fun d _ => ?_
      simp only [feeding, hend]
  | cons pull rest ih =>
    have hrest : ∀ e, .failed e ∈ rest → Fails source e :=
      fun e he => hpulls e (List.mem_cons_of_mem pull he)
    refine asks_round k fun k' hk => ?_
    let k'' : Feed × BlockWriter := ({ k'.1 with source.pulls := rest }, k'.2)
    have hending'' : k''.1.source.ending = source.ending := by
      rw [← hending, ← hk]
    refine Asks.modify_bind (l := k'') ?_ fun _ => rfl
    cases pull with
    | failed error => exact hfails (hpulls error List.mem_cons_self)
    | interrupted => exact ih k'' hrest hending''
    | bytes data =>
      show Asks D feeding FeedError.isIo (if data.size = 0 then exhaust else _) k'' _
      split
      · exact asks_exhaust k''
      · exact Asks.modify_bind (ih ({ k''.1 with
          buffer := data, consumed := k''.1.consumed + data.size }, k''.2) hrest hending'') fun _ => rfl

/-- **New data** asks a device for its writes, and fails with an error of its source only if that
source has it. -/
theorem asks_fill (feed : Feed) (w : BlockWriter) :
    Asks D feeding FeedError.isIo fill (feed, w) fun r _ => SourceOnly feed.source r :=
  Asks.get_bind (asks_fillFrom feed.source.pulls (feed, w) (fun _ h => .inl h) rfl) fun _ _ => rfl

end Feed

end BlockUpdate
