import BlockUpdate.Proofs.Emitted

/-!
# Outputs that are handed to a receiver

A receiver takes pieces one by one and may refuse one, which ends the output with the refusal.
Delivering an output, as `Emission.deliver` does, runs the output first and hands its pieces over
afterwards. A program does both at once: where it would emit a piece, it calls the receiver. This
file shows that there is no difference, part by part.

- `Emit.Steady`: an output hands over the same pieces whatever was handed over before.
- **`Emit.emission_bind_of_ok`**: the pieces of a sequence are those of its parts.
- `Emit.into`: an output on its way to a receiver, and **`Emit.into_bind`**: a sequence on its way
  to a receiver is the sequence of its parts on their way. With `into_emit` and the like, an output
  is turned step by step into a program that calls the receiver.
- `Emission.noting`: a receiver that notes each call and its answer.
  **`Emission.deliver_noting`**: a delivery in terms of these calls.
-/

namespace BlockUpdate

variable {σ α β : Type}

/-- What takes the pieces of an output. It takes a piece or refuses it, and changes its state
either way. -/
abbrev Receiver (σ : Type) := σ → Bytes → Except PatchError Unit × σ

namespace Emit

variable {x : Emit α} {f : α → Emit β} {a : α}

/-! ## Steady outputs -/

/-- An output ends the same way and hands over the same pieces, whatever was handed over before. -/
def Steady (x : Emit α) : Prop :=
  ∀ before, outcome x before = (x.emission.outcome, before ++ x.emission.pieces.toArray)

theorem emission_eq {r : Except PatchError α} {pieces : List Bytes}
    (h : ∀ before, outcome x before = (r, before ++ pieces.toArray)) :
    x.emission = ⟨pieces, r⟩ := by
  have hrun : x.emission = ⟨(outcome x #[]).2.toList, (outcome x #[]).1⟩ := rfl
  rw [hrun, h]
  simp

theorem steady_of {r : Except PatchError α} {pieces : List Bytes}
    (h : ∀ before, outcome x before = (r, before ++ pieces.toArray)) : Steady x := by
  rw [Steady, emission_eq h]
  exact h

theorem run_pure (a : α) (before : Array Bytes) :
    outcome (pure a : Emit α) before = (.ok a, before ++ ([] : List Bytes).toArray) := by simp

theorem run_throw (e : PatchError) (before : Array Bytes) :
    outcome (throw e : Emit α) before = (.error e, before ++ ([] : List Bytes).toArray) := by simp

theorem run_emit (piece : Bytes) (before : Array Bytes) :
    outcome (emit piece) before = (.ok (), before ++ [piece].toArray) := by
  rw [BlockUpdate.emit, outcome_modify]
  simp

theorem emission_pure (a : α) : (pure a : Emit α).emission = ⟨[], .ok a⟩ :=
  emission_eq (run_pure a)

theorem emission_throw (e : PatchError) : (throw e : Emit α).emission = ⟨[], .error e⟩ :=
  emission_eq (run_throw e)

theorem emission_emit (piece : Bytes) : (emit piece).emission = ⟨[piece], .ok ()⟩ :=
  emission_eq (run_emit piece)

theorem emission_ofExcept (r : Except PatchError α) : (ofExcept r).emission = ⟨[], r⟩ := by
  cases r with
  | ok a => exact emission_pure a
  | error e => exact emission_throw e

theorem emission_bind_of_error {e : PatchError} (hx : x.emission.outcome = .error e) :
    (x >>= f).emission = ⟨x.emission.pieces, .error e⟩ := by
  have hrun : outcome x #[] = (.error e, x.emission.pieces.toArray) := Prod.ext hx (by rfl)
  have hbind : (x >>= f).emission = ⟨(outcome (x >>= f) #[]).2.toList, (outcome (x >>= f) #[]).1⟩ :=
    rfl
  rw [hbind, outcome_bind_of_error hrun]

/-- **The pieces of a sequence** are those of its parts, one after the other. -/
theorem emission_bind_of_ok (hx : x.emission.outcome = .ok a) (hf : Steady (f a)) :
    (x >>= f).emission =
      ⟨x.emission.pieces ++ (f a).emission.pieces, (f a).emission.outcome⟩ := by
  have hrun : outcome x #[] = (.ok a, x.emission.pieces.toArray) := Prod.ext hx (by rfl)
  have hbind : (x >>= f).emission = ⟨(outcome (x >>= f) #[]).2.toList, (outcome (x >>= f) #[]).1⟩ :=
    rfl
  rw [hbind, outcome_bind_of_ok hrun, hf]
  simp

namespace Steady

theorem pure (a : α) : Steady (Pure.pure a : Emit α) := steady_of (run_pure a)

theorem throw (e : PatchError) : Steady (MonadExcept.throw e : Emit α) := steady_of (run_throw e)

theorem emit (piece : Bytes) : Steady (BlockUpdate.emit piece) := steady_of (run_emit piece)

theorem bind (hx : Steady x) (hf : ∀ a, Steady (f a)) : Steady (x >>= f) := by
  cases hend : x.emission.outcome with
  | error e =>
    have hrun (before : Array Bytes) :
        outcome (x >>= f) before = (.error e, before ++ x.emission.pieces.toArray) :=
      outcome_bind_of_error (by rw [hx, hend]) f
    exact steady_of hrun
  | ok a =>
    have hrun (before : Array Bytes) : outcome (x >>= f) before =
        ((f a).emission.outcome,
          before ++ (x.emission.pieces ++ (f a).emission.pieces).toArray) := by
      rw [outcome_bind_of_ok (by rw [hx, hend]) f, hf a]
      simp
    exact steady_of hrun

end Steady

/-- A sequence that ends in a value is one of parts that do. -/
theorem emission_bind_eq_ok (hf : ∀ a, Steady (f a)) {b : β}
    (h : (x >>= f).emission.outcome = .ok b) :
    ∃ a, x.emission.outcome = .ok a ∧ (f a).emission.outcome = .ok b ∧
      (x >>= f).emission.bytes = x.emission.bytes ++ (f a).emission.bytes := by
  cases hend : x.emission.outcome with
  | error e =>
    rw [emission_bind_of_error hend] at h
    cases h
  | ok a =>
    have hbind := emission_bind_of_ok hend (hf a)
    rw [hbind] at h
    refine ⟨a, rfl, h, ?_⟩
    rw [hbind, Emission.bytes, Bytes.join_append]
    rfl

theorem ofExcept_ok_bind (a : α) (f : α → Emit β) : (ofExcept (.ok a) >>= f) = f a :=
  pure_bind a f

theorem emission_ofExcept_bind_eq_ok {r : Except PatchError α} {b : β}
    (h : (ofExcept r >>= f).emission.outcome = .ok b) :
    ∃ a, r = .ok a ∧ (f a).emission.outcome = .ok b ∧ (ofExcept r >>= f) = f a := by
  cases r with
  | error e =>
    rw [emission_bind_of_error (congrArg Emission.outcome (emission_ofExcept _))] at h
    cases h
  | ok a => exact ⟨a, rfl, h, ofExcept_ok_bind a f⟩

/-! ## On the way to a receiver -/

/-- An output on its way to a receiver. -/
def into (put : Receiver σ) (x : Emit α) : ExceptT PatchError (StateM σ) α :=
  ExceptT.mk (x.emission.deliver put)

/-- Hands one piece to a receiver. -/
def hand (put : Receiver σ) (piece : Bytes) : ExceptT PatchError (StateM σ) Unit :=
  ExceptT.mk (put · piece)

variable {put : Receiver σ}

theorem outcome_into (s : σ) : outcome (into put x) s = x.emission.deliver put s := rfl

theorem deliverPieces_append (front back : List Bytes) (s : σ) :
    Emission.deliverPieces put (front ++ back) s =
      match Emission.deliverPieces put front s with
      | (.ok (), t) => Emission.deliverPieces put back t
      | (.error e, t) => (.error e, t) := by
  induction front generalizing s with
  | nil => rfl
  | cons piece rest ih =>
    rw [List.cons_append, Emission.deliverPieces, Emission.deliverPieces]
    rcases put s piece with ⟨e | ⟨⟩, t⟩
    · rfl
    · exact ih t

theorem into_pure (a : α) : into put (pure a) = pure a := by
  rw [into, emission_pure]
  rfl

theorem into_throw (e : PatchError) : into put (throw e : Emit α) = throw e := by
  rw [into, emission_throw]
  rfl

theorem into_emit (piece : Bytes) : into put (emit piece) = hand put piece := by
  rw [into, emission_emit]
  funext s
  change Emission.deliver put ⟨[piece], .ok ()⟩ s = put s piece
  rw [Emission.deliver, Emission.deliverPieces]
  rcases put s piece with ⟨e | ⟨⟩, t⟩ <;> rfl

/-- What is read before an output is not handed over. -/
theorem into_ofExcept_bind (r : Except PatchError α) (f : α → Emit β) :
    into put (ofExcept r >>= f) = MonadExcept.ofExcept r >>= fun a => into put (f a) := by
  cases r with
  | error e =>
    have hthrow : (ofExcept (.error e) >>= f) = (throw e : Emit β) := rfl
    rw [hthrow, into_throw]
    rfl
  | ok a => exact congrArg (into put) (ofExcept_ok_bind a f)

/-- **A sequence on its way to a receiver** is the sequence of its parts on their way: handing over
what the first part emitted comes before everything that the second part does. -/
theorem into_bind (hf : ∀ a, Steady (f a)) :
    into put (x >>= f) = into put x >>= fun a => into put (f a) := by
  funext s
  change (x >>= f).emission.deliver put s = outcome (into put x >>= fun a => into put (f a)) s
  rw [outcome_bind, outcome_into, Emission.deliver, Emission.deliver]
  cases hend : x.emission.outcome with
  | error e =>
    rw [emission_bind_of_error hend]
    dsimp only
    rcases Emission.deliverPieces put x.emission.pieces s with ⟨e' | ⟨⟩, t⟩ <;> rfl
  | ok a =>
    rw [emission_bind_of_ok hend (hf a), deliverPieces_append]
    dsimp only
    rcases Emission.deliverPieces put x.emission.pieces s with ⟨e' | ⟨⟩, t⟩
    · rfl
    · rfl

end Emit

/-! ## The calls of a receiver -/

/-- One call: the piece that a receiver was handed, and its answer. -/
structure Call where
  piece : Bytes
  answer : Except PatchError Unit

namespace Emission

variable (put : Receiver σ)

/-- A receiver that notes its calls. -/
def noting : Receiver (σ × List Call) := fun s piece =>
  ((put s.1 piece).1, (put s.1 piece).2, s.2 ++ [⟨piece, (put s.1 piece).1⟩])

/-- The calls by which pieces are taken. -/
def taken (pieces : List Bytes) : List Call := pieces.map fun piece => ⟨piece, .ok ()⟩

/-- Either all pieces are taken, or the first that is refused ends the delivery. -/
theorem deliverPieces_noting (pieces : List Bytes) (s : σ) (calls : List Call) :
    (∃ t, deliverPieces (noting put) pieces (s, calls) = (.ok (), t, calls ++ taken pieces)) ∨
    ∃ front piece back e t, pieces = front ++ piece :: back ∧
      deliverPieces (noting put) pieces (s, calls) =
        (.error e, t, calls ++ taken front ++ [⟨piece, .error e⟩]) := by
  induction pieces generalizing s calls with
  | nil => exact .inl ⟨s, by rw [taken, List.map_nil, List.append_nil]; rfl⟩
  | cons piece rest ih =>
    rw [deliverPieces, noting]
    rcases put s piece with ⟨e | ⟨⟩, t⟩
    · exact .inr ⟨[], piece, rest, e, t, rfl, by rw [taken, List.map_nil, List.append_nil]⟩
    · dsimp only
      rcases ih t (calls ++ [⟨piece, .ok ()⟩]) with ⟨t', h⟩ | ⟨front, piece', back, e, t', rfl, h⟩
      · exact .inl ⟨t', by rw [h, List.append_assoc]; rfl⟩
      · exact .inr ⟨piece :: front, piece', back, e, t', rfl, by
          rw [h, List.append_assoc calls]
          rfl⟩

/-- **A delivery in terms of the calls.** It ends in a value only if the output does and every piece
was taken; a refusal is its error, and the last call; and its error is a refusal or that of the
output. -/
theorem deliver_noting (e : Emission α) (s : σ) :
    let run := e.deliver (noting put) (s, [])
    (∀ a, run.1 = .ok a → e.outcome = .ok a ∧ run.2.2 = taken e.pieces) ∧
    (∀ call ∈ run.2.2, ∀ err, call.answer = .error err →
      run.1 = .error err ∧ run.2.2.getLast? = some call) ∧
    (∀ err, run.1 = .error err → e.outcome = .error err ∨
      ∃ call ∈ run.2.2, call.answer = .error err) := by
  intro run
  have hrun : run = e.deliver (noting put) (s, []) := rfl
  rw [deliver] at hrun
  rcases deliverPieces_noting put e.pieces s [] with
    ⟨t, h⟩ | ⟨front, piece, back, refusal, t, hpieces, h⟩
  · rw [h, List.nil_append] at hrun
    dsimp only at hrun
    rw [hrun]
    refine ⟨fun a ha => ⟨ha, rfl⟩, fun call hcall err herr => ?_, fun err herr => .inl herr⟩
    obtain ⟨piece, -, rfl⟩ := List.mem_map.mp hcall
    cases herr
  · rw [h, List.nil_append] at hrun
    dsimp only at hrun
    rw [hrun]
    refine ⟨fun a ha => ?_, fun call hcall err herr => ?_, fun err herr => .inr ?_⟩
    · cases ha
    · rcases List.mem_append.mp hcall with hcall | hcall
      · obtain ⟨piece, -, rfl⟩ := List.mem_map.mp hcall
        cases herr
      · obtain rfl := List.mem_singleton.mp hcall
        cases herr
        exact ⟨rfl, List.getLast?_concat⟩
    · cases herr
      exact ⟨_, List.mem_append_right _ (List.mem_singleton_self _), rfl⟩

end Emission

end BlockUpdate
