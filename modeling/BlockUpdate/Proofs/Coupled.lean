import BlockUpdate.Proofs.Outcome
import Mathlib.Data.List.Forall2

/-!
# Two runs side by side

Two computations that differ in what they are given are run in states that differ as well, and each
step of one is compared with the same step of the other. Errors are compared more loosely than values:
what they say may differ as long as they are of the same kind.

- `Alike E Q`: two results, both values that `Q` relates or both errors that `E` relates.
- `Coupled S E Q x y`: from states that `S` relates, `x` and `y` end with such results, and in states
  that `S` relates.
- **`Alike.bind`**, **`Coupled.bind`**: sequences are compared part by part; `Alike.foldlM`: and so are
  folds over lists, element by element.
-/

namespace BlockUpdate

section

variable {ε ε' ε₁ ε₁' α α' β β' γ γ' σ τ : Type}

/-! ## Results -/

/-- Two results that are both values or both errors, and related. -/
inductive Alike (E : ε → ε' → Prop) (Q : α → α' → Prop) : Except ε α → Except ε' α' → Prop
  | ok {a : α} {a' : α'} (h : Q a a') : Alike E Q (.ok a) (.ok a')
  | error {e : ε} {e' : ε'} (h : E e e') : Alike E Q (.error e) (.error e')

namespace Alike

variable {E : ε → ε' → Prop} {E₁ : ε₁ → ε₁' → Prop} {Q : α → α' → Prop} {Q' : β → β' → Prop}

theorem refl {E : ε → ε → Prop} {Q : α → α → Prop} (hE : ∀ e, E e e) (hQ : ∀ a, Q a a) :
    ∀ x : Except ε α, Alike E Q x x
  | .ok a => .ok (hQ a)
  | .error e => .error (hE e)

/-- One after the other. -/
theorem bind {x : Except ε α} {x' : Except ε' α'} {f : α → Except ε β} {f' : α' → Except ε' β'}
    (hx : Alike E Q x x') (hf : ∀ a a', Q a a' → Alike E Q' (f a) (f' a')) :
    Alike E Q' (x >>= f) (x' >>= f') := by
  cases hx with
  | ok h => exact hf _ _ h
  | error h => exact .error h

/-- The same to begin with. -/
theorem bind_refl {E : ε → ε → Prop} (hE : ∀ e, E e e) {x : Except ε α} {f : α → Except ε β}
    {f' : α → Except ε β'} (hf : ∀ a, x = .ok a → Alike E Q' (f a) (f' a)) :
    Alike E Q' (x >>= f) (x >>= f') := by
  cases x with
  | ok a => exact hf a rfl
  | error e => exact .error (hE e)

/-- Errors under another name. -/
theorem mapError {x : Except ε α} {x' : Except ε' α'} {f : ε → ε₁} {f' : ε' → ε₁'}
    (hx : Alike E Q x x') (hf : ∀ e e', E e e' → E₁ (f e) (f' e')) :
    Alike E₁ Q (x.mapError f) (x'.mapError f') := by
  cases hx with
  | ok h => exact .ok h
  | error h => exact .error (hf _ _ h)

/-- Values under another name. -/
theorem map {x : Except ε α} {x' : Except ε' α'} {f : α → β} {f' : α' → β'}
    (hx : Alike E Q x x') (hf : ∀ a a', Q a a' → Q' (f a) (f' a')) :
    Alike E Q' (x.map f) (x'.map f') := by
  cases hx with
  | ok h => exact .ok (hf _ _ h)
  | error h => exact .error h

/-- **Folds**, element by element. -/
theorem foldlM {R : γ → γ' → Prop} {f : α → γ → Except ε α} {f' : α' → γ' → Except ε' α'}
    (hf : ∀ a a' c c', Q a a' → R c c' → Alike E Q (f a c) (f' a' c')) {cs : List γ}
    {cs' : List γ'} (hcs : List.Forall₂ R cs cs') {a : α} {a' : α'} (ha : Q a a') :
    Alike E Q (cs.foldlM f a) (cs'.foldlM f' a') := by
  induction hcs generalizing a a' with
  | nil => exact .ok ha
  | cons hc _ ih =>
    rw [List.foldlM_cons, List.foldlM_cons]
    exact (hf _ _ _ _ ha hc).bind fun _ _ => ih

/-- What follows two computations with results that are alike is compared from where they end. -/
theorem outcome_bind {x : ExceptT ε (StateM σ) α} {x' : ExceptT ε' (StateM τ) α'}
    {f : α → ExceptT ε (StateM σ) β} {f' : α' → ExceptT ε' (StateM τ) β'} {s : σ} {s' : τ}
    {H : Except ε β × σ → Except ε' β' × τ → Prop}
    (hx : Alike E Q (outcome x s).1 (outcome x' s').1)
    (hok : ∀ a a' t t', outcome x s = (.ok a, t) → outcome x' s' = (.ok a', t') → Q a a' →
      H (outcome (f a) t) (outcome (f' a') t'))
    (herror : ∀ e e' t t', outcome x s = (.error e, t) → outcome x' s' = (.error e', t') → E e e' →
      H (.error e, t) (.error e', t')) :
    H (outcome (x >>= f) s) (outcome (x' >>= f') s') := by
  rw [BlockUpdate.outcome_bind, BlockUpdate.outcome_bind]
  rcases hrun : outcome x s with ⟨r, t⟩
  rcases hrun' : outcome x' s' with ⟨r', t'⟩
  rw [hrun, hrun'] at hx
  cases hx with
  | ok ha => exact hok _ _ _ _ hrun hrun' ha
  | error he => exact herror _ _ _ _ hrun hrun' he

end Alike

/-! ## Computations -/

/-- Two computations with related results and states at the end, from related states on. -/
def Coupled (S : σ → τ → Prop) (E : ε → ε' → Prop) (Q : α → α' → Prop)
    (x : ExceptT ε (StateM σ) α) (x' : ExceptT ε' (StateM τ) α') : Prop :=
  ∀ s s', S s s' →
    Alike E Q (outcome x s).1 (outcome x' s').1 ∧ S (outcome x s).2 (outcome x' s').2

namespace Coupled

variable {S : σ → τ → Prop} {E : ε → ε' → Prop} {Q : α → α' → Prop} {Q' : β → β' → Prop}

theorem pure {a : α} {a' : α'} (h : Q a a') :
    Coupled S E Q (Pure.pure a) (Pure.pure a') := fun _ _ hs => ⟨.ok h, hs⟩

theorem throw {e : ε} {e' : ε'} (h : E e e') :
    Coupled S E Q (MonadExcept.throw e) (MonadExcept.throw e') := fun _ _ hs => ⟨.error h, hs⟩

/-- The same computation on both sides. -/
theorem refl {E : ε → ε → Prop} (hE : ∀ e, E e e) (x : ExceptT ε (StateM σ) α) :
    Coupled Eq E Eq x x := by
  rintro s _ rfl
  exact ⟨Alike.refl hE (fun _ => rfl) _, rfl⟩

/-- **One after the other.** -/
theorem bind {x : ExceptT ε (StateM σ) α} {x' : ExceptT ε' (StateM τ) α'}
    {f : α → ExceptT ε (StateM σ) β} {f' : α' → ExceptT ε' (StateM τ) β'}
    (hx : Coupled S E Q x x') (hf : ∀ a a', Q a a' → Coupled S E Q' (f a) (f' a')) :
    Coupled S E Q' (x >>= f) (x' >>= f') := by
  intro s s' hs
  obtain ⟨hresult, hstate⟩ := hx s s' hs
  refine hresult.outcome_bind (H := fun run run' => Alike E Q' run.1 run'.1 ∧ S run.2 run'.2)
    (fun a a' t t' hrun hrun' ha => ?_) fun e e' t t' hrun hrun' he => ?_
  · rw [hrun, hrun'] at hstate
    exact hf a a' ha t t' hstate
  · rw [hrun, hrun'] at hstate
    exact ⟨.error he, hstate⟩

/-- The same decision on both sides. -/
theorem ite {p p' : Prop} [Decidable p] [Decidable p'] {x y : ExceptT ε (StateM σ) α}
    {x' y' : ExceptT ε' (StateM τ) α'} (hp : p' ↔ p) (hx : p → Coupled S E Q x x')
    (hy : ¬ p → Coupled S E Q y y') :
    Coupled S E Q (if p then x else y) (if p' then x' else y') := by
  by_cases h : p
  · rw [if_pos h, if_pos (hp.mpr h)]
    exact hx h
  · rw [if_neg h, if_neg fun h' => h (hp.mp h')]
    exact hy h

/-- Both states are read. -/
theorem get_bind {f : σ → ExceptT ε (StateM σ) β} {f' : τ → ExceptT ε' (StateM τ) β'}
    (h : ∀ s s', S s s' → Coupled S E Q' (f s) (f' s')) :
    Coupled S E Q' (get >>= f) (get >>= f') := by
  intro s s' hs
  rw [outcome_get_bind, outcome_get_bind]
  exact h s s' hs s s' hs

theorem modify {f : σ → σ} {f' : τ → τ} (h : ∀ s s', S s s' → S (f s) (f' s')) :
    Coupled S E Eq (modify f : ExceptT ε (StateM σ) PUnit)
      (modify f' : ExceptT ε' (StateM τ) PUnit) := fun s s' hs => ⟨.ok rfl, h s s' hs⟩

end Coupled

end

end BlockUpdate
