import BlockUpdate.Compiled.Build
import BlockUpdate.Proofs.Outcome

/-!
# When computations on words do what is said with numbers

The definitions of the library compute with numbers of any size. A computation on words does the
same as long as every size fits its word. Where one does not, a build that checks ends there, and
nothing is said of one that goes on with another number.

- `Compiled.Sized b n r a`: `r` is the value `a`, for which the size `n` is taken.
- `Checks b O x y`, `Agrees b O x y s`: a computation on words gives what the one on numbers gives;
  or else `O` holds, and a build that checks ends at a size that does not fit. Their rules are those
  of the ways to build a computation.
-/

namespace BlockUpdate

open Decimal (limit64)

variable {ε ε' σ τ α β γ : Type} {b : Build}

namespace Compiled

/-! ## Words -/

/-- A value for which one size is taken: if the size fits, there is this value; and if not, a build
that checks ends there. -/
structure Sized (b : Build) (n : Nat) (r : Except (Halt ε) α) (a : α) : Prop where
  fits : n < limit64 → r = .ok a
  stops : limit64 ≤ n → b = .checked → r = .error .overflow

theorem size_of_lt {n : Nat} (h : n < limit64) : (size b n : Except (Halt ε) Nat) = .ok n :=
  if_pos h

theorem size_of_le {n : Nat} (h : limit64 ≤ n) :
    (size .checked n : Except (Halt ε) Nat) = .error .overflow := if_neg (Nat.not_lt.mpr h)

theorem minus_of_le {x y : Nat} (h : y ≤ x) : (minus b x y : Except (Halt ε) Nat) = .ok (x - y) :=
  if_pos h

theorem window_of_le {room start stop : Nat} (h : start ≤ stop) (h' : stop ≤ room) :
    (window room start stop : Except (Halt ε) Unit) = .ok () := if_pos ⟨h, h'⟩

/-- A size is a value for which it is taken. -/
theorem sized_size (b : Build) (n : Nat) : Sized b n (size b n : Except (Halt ε) Nat) n where
  fits := size_of_lt
  stops hle hb := hb ▸ size_of_le hle

/-- For what is made of a value, the size is taken that is taken for the value. -/
theorem Sized.bind {n : Nat} {r : Except (Halt ε) α} {a : α} {c : β} {f : α → Except (Halt ε) β}
    (h : Sized b n r a) (hf : n < limit64 → f a = .ok c) : Sized b n (r >>= f) c where
  fits hn := by
    rw [h.fits hn]
    exact hf hn
  stops hle hb := by
    rw [h.stops hle hb]
    rfl

theorem outcome_onPart (part : σ → τ) (put : σ → τ → σ) (f : ε → ε') (x : CompiledM ε τ α) (s : σ) :
    outcome (onPart part put f x) s =
      ((outcome x (part s)).1.mapError (.map f), put s (outcome x (part s)).2) := rfl

theorem map_unchecked (f : ε → ε') (y : Except ε α) :
    (unchecked y).mapError (.map f) = unchecked (y.mapError f) := by
  cases y <;> rfl

end Compiled

open Compiled (Sized unchecked size minus give look onPart rename step)

/-! ## Results -/

/-- A result on words is the one on numbers; or `O` holds, and a build that checks found a size that
does not fit. -/
def Checks (b : Build) (O : Prop) (x : Except (Halt ε) α) (y : Except ε α) : Prop :=
  x = unchecked y ∨ O ∧ (b = .checked → x = .error .overflow)

namespace Checks

variable {O O' : Prop} {x : Except (Halt ε) α} {y : Except ε α} {f : α → Except (Halt ε) β}
  {g : α → Except ε β} {n : Nat} {a : α} {z : Except ε β}

protected theorem unchecked (y : Except ε α) : Checks b O (unchecked y) y := .inl rfl

theorem ok (a : α) : Checks b O (.ok a) (.ok a : Except ε α) := .inl rfl

theorem error (e : ε) : Checks b O (.error (.failed e)) (.error e : Except ε α) := .inl rfl

theorem mono (h : Checks b O x y) (hO : O → O') : Checks b O' x y := h.imp_right (.imp_left hO)

/-- **One after the other.** -/
theorem bind (hx : Checks b O x y) (hf : ∀ a, y = .ok a → Checks b O (f a) (g a)) :
    Checks b O (x >>= f) (y >>= g) := by
  rcases hx with rfl | ⟨hO, hstop⟩
  · cases y with
    | ok a => exact hf a rfl
    | error e => exact .inl rfl
  · exact .inr ⟨hO, fun hb => by rw [hstop hb]; rfl⟩

/-- The same decision on both sides. -/
theorem ite {p : Prop} [Decidable p] {x' : Except (Halt ε) α} {y' : Except ε α}
    (h : p → Checks b O x y) (h' : ¬ p → Checks b O x' y') :
    Checks b O (if p then x else x') (if p then y else y') := by
  split
  · exact h ‹_›
  · exact h' ‹_›

/-- A result that no word has a part in comes first. -/
theorem unchecked_bind (hf : ∀ a, y = .ok a → Checks b O (f a) (g a)) :
    Checks b O (unchecked y >>= f) (y >>= g) := (Checks.unchecked y).bind hf

/-- **A size is taken**, and what follows may use that it fits. -/
theorem sized_bind {r : Except (Halt ε) α} (hr : Sized b n r a) (hO : limit64 ≤ n → O)
    (h : n < limit64 → Checks b O (f a) z) : Checks b O (r >>= f) z := by
  by_cases hn : n < limit64
  · rw [hr.fits hn]
    exact h hn
  · have hle := Nat.le_of_not_lt hn
    exact .inr ⟨hO hle, fun hb => by rw [hr.stops hle hb]; rfl⟩

theorem size_bind {f : Nat → Except (Halt ε) β} (hO : limit64 ≤ n → O)
    (h : n < limit64 → Checks b O (f n) z) : Checks b O (size b n >>= f) z :=
  sized_bind (Compiled.sized_size b n) hO h

/-- A result without a fault comes first. -/
theorem ok_bind {r : Except (Halt ε) α} (hr : r = .ok a) (h : Checks b O (f a) z) :
    Checks b O (r >>= f) z := by
  rw [hr]
  exact h

theorem mapError (h : Checks b O x y) (f : ε → ε') :
    Checks b O (x.mapError (.map f)) (y.mapError f) := by
  rcases h with rfl | ⟨hO, hstop⟩
  · exact .inl (Compiled.map_unchecked f y)
  · exact .inr ⟨hO, fun hb => by rw [hstop hb]; rfl⟩

/-- **Folds**, element by element. -/
theorem foldlM {f : α → γ → Except (Halt ε) α} {g : α → γ → Except ε α} {cs : List γ}
    (h : ∀ a, ∀ c ∈ cs, Checks b O (f a c) (g a c)) (a : α) :
    Checks b O (cs.foldlM f a) (cs.foldlM g a) := by
  induction cs generalizing a with
  | nil => exact .ok a
  | cons c cs ih =>
    rw [List.foldlM_cons, List.foldlM_cons]
    refine (h a c List.mem_cons_self).bind fun b _ => ih (fun a c' hc => ?_) b
    exact h a c' (List.mem_cons_of_mem c hc)

end Checks

/-! ## Computations with a state -/

/-- From a state, a computation on words ends as the one on numbers; or `O` holds, and a build that
checks ends at a size that does not fit. -/
def Agrees (b : Build) (O : Prop) (x : CompiledM ε σ α) (y : ExceptT ε (StateM σ) α) (s : σ) :
    Prop :=
  outcome x s = (unchecked (outcome y s).1, (outcome y s).2) ∨
    O ∧ (b = .checked → (outcome x s).1 = .error .overflow)

namespace Agrees

variable {O O' : Prop} {x : CompiledM ε σ α} {y : ExceptT ε (StateM σ) α} {f : α → CompiledM ε σ β}
  {g : α → ExceptT ε (StateM σ) β} {s : σ}

protected theorem step (y : ExceptT ε (StateM σ) α) (s : σ) : Agrees b O (step y) y s := .inl rfl

theorem pure (a : α) (s : σ) : Agrees b O (pure a : CompiledM ε σ α) (pure a) s := .inl rfl

theorem throw (e : ε) (s : σ) :
    Agrees b O (throw (.failed e) : CompiledM ε σ α) (throw e) s := .inl rfl

theorem throw_bind (e : ε) (s : σ) :
    Agrees b O (MonadExcept.throw (.failed e) >>= f) (MonadExcept.throw e >>= g) s := .inl rfl

/-- The same decision on both sides. -/
theorem ite {p : Prop} [Decidable p] {x' : CompiledM ε σ α} {y' : ExceptT ε (StateM σ) α}
    (h : p → Agrees b O x y s) (h' : ¬ p → Agrees b O x' y' s) :
    Agrees b O (if p then x else x') (if p then y else y') s := by
  split
  · exact h ‹_›
  · exact h' ‹_›

theorem mono (h : Agrees b O x y s) (hO : O → O') : Agrees b O' x y s := h.imp_right (.imp_left hO)

/-- Where nothing but one size can fail to fit, and that one fits, both end in the same way. -/
theorem eq_of_lt {n : Nat} (h : Agrees b (limit64 ≤ n) x y s) (hfits : n < limit64) :
    outcome x s = (unchecked (outcome y s).1, (outcome y s).2) :=
  h.resolve_right fun hlarge => Nat.not_le.mpr hfits hlarge.1

/-- Computations with the same outcomes are interchangeable. -/
theorem of_outcome {x' : CompiledM ε σ α} {y' : ExceptT ε (StateM σ) α} {s' : σ}
    (h : Agrees b O x' y' s') (hx : outcome x s = outcome x' s')
    (hy : outcome y s = outcome y' s') : Agrees b O x y s := by
  rwa [Agrees, hx, hy]

/-- **One after the other**, from where the first part ends. -/
theorem bind (hx : Agrees b O x y s)
    (hf : ∀ a t, outcome y s = (.ok a, t) → Agrees b O (f a) (g a) t) :
    Agrees b O (x >>= f) (y >>= g) s := by
  rcases hx with hx | ⟨hO, hx⟩
  · rcases hy : outcome y s with ⟨e | a, t⟩
    · rw [hy] at hx
      refine .inl ?_
      rw [outcome_bind_of_error hx, outcome_bind_of_error hy]
      rfl
    · rw [hy] at hx
      exact (hf a t hy).of_outcome (outcome_bind_of_ok hx f) (outcome_bind_of_ok hy g)
  · refine .inr ⟨hO, fun hb => ?_⟩
    rw [outcome_bind_of_error (Prod.ext (hx hb) rfl)]

/-- The state is read. -/
theorem get_bind {f : σ → CompiledM ε σ β} {g : σ → ExceptT ε (StateM σ) β}
    (h : Agrees b O (f s) (g s) s) : Agrees b O (get >>= f) (get >>= g) s :=
  h.of_outcome (outcome_get_bind f s) (outcome_get_bind g s)

/-- The state is changed in the same way. -/
theorem modify_bind {h h' : σ → σ} {f : PUnit → CompiledM ε σ β}
    {g : PUnit → ExceptT ε (StateM σ) β} (hsame : h s = h' s)
    (hrest : Agrees b O (f ⟨⟩) (g ⟨⟩) (h' s)) :
    Agrees b O (modify h >>= f) (modify h' >>= g) s := by
  refine hrest.of_outcome ?_ (outcome_bind_of_ok (outcome_modify h' s) g)
  rw [outcome_bind_of_ok (outcome_modify h s) f, hsame]

theorem modify (h : σ → σ) (s : σ) :
    Agrees b O (modify h : CompiledM ε σ PUnit) (modify h) s := .inl rfl

/-- **A size is taken**, and what follows may use that it fits. -/
theorem sized_bind {n : Nat} {r : Except (Halt ε) α} {a : α} {y : ExceptT ε (StateM σ) β}
    {k : α → CompiledM ε σ β} (hr : Sized b n r a) (hO : limit64 ≤ n → O)
    (h : n < limit64 → Agrees b O (k a) y s) : Agrees b O (give r >>= k) y s := by
  by_cases hn : n < limit64
  · rw [hr.fits hn]
    exact h hn
  · have hle := Nat.le_of_not_lt hn
    exact .inr ⟨hO hle, fun hb => by rw [hr.stops hle hb]; rfl⟩

theorem size_bind {n : Nat} {y : ExceptT ε (StateM σ) β} {k : Nat → CompiledM ε σ β}
    (hO : limit64 ≤ n → O) (h : n < limit64 → Agrees b O (k n) y s) :
    Agrees b O (give (size b n) >>= k) y s := sized_bind (Compiled.sized_size b n) hO h

/-- A result without a fault is given. -/
theorem ok_bind {r : Except (Halt ε) α} {a : α} {y : ExceptT ε (StateM σ) β}
    {f : α → CompiledM ε σ β} (hr : r = .ok a) (h : Agrees b O (f a) y s) :
    Agrees b O (give r >>= f) y s := by
  rw [hr]
  exact h

/-- **A part of the state** and errors under another name. -/
theorem onPart {part : σ → τ} {put : σ → τ → σ} {f : ε → ε'} {x : CompiledM ε τ α}
    {y : ExceptT ε (StateM τ) α} {y' : ExceptT ε' (StateM σ) α} (h : Agrees b O x y (part s))
    (hy : outcome y' s = ((outcome y (part s)).1.mapError f, put s (outcome y (part s)).2)) :
    Agrees b O (onPart part put f x) y' s := by
  rw [Agrees, Compiled.outcome_onPart, hy]
  rcases h with h | ⟨hO, h⟩
  · rw [h]
    exact .inl (Prod.ext (Compiled.map_unchecked f _) rfl)
  · refine .inr ⟨hO, fun hb => ?_⟩
    rw [h hb]
    rfl

theorem rename {f : ε → ε'} {y' : ExceptT ε' (StateM σ) α} (h : Agrees b O x y s)
    (hy : outcome y' s = ((outcome y s).1.mapError f, (outcome y s).2)) :
    Agrees b O (rename f x) y' s := onPart h hy

end Agrees

end BlockUpdate
