/-
# `BSVM.Lib.Lockstep` — two computations side by side

`Lockstep Stop Q x y` says that `x` and `y` fail with the same error, or return
values that `Q` relates, as long as `x` does not stop with an error in `Stop`;
if it does, nothing is said of `y`.  The rules follow the constructors of an
`Except` computation, and a loop over a list, whose states stay related if one
round keeps them so.
-/
import BSVM.Lib.Returns

universe u v

variable {ε : Type u} {α β γ δ : Type v} {Stop : ε → Prop}

inductive Lockstep (Stop : ε → Prop) (Q : α → β → Prop) : Except ε α → Except ε β → Prop
  | stop {e : ε} {y : Except ε β} : Stop e → Lockstep Stop Q (.error e) y
  | error (e : ε) : Lockstep Stop Q (.error e) (.error e)
  | ok {a : α} {b : β} : Q a b → Lockstep Stop Q (.ok a) (.ok b)

namespace Lockstep

theorem mono {Q P : α → β → Prop} (hQP : ∀ a b, Q a b → P a b) {x : Except ε α}
    {y : Except ε β} (h : Lockstep Stop Q x y) : Lockstep Stop P x y := by
  cases h with
  | stop he => exact .stop he
  | error e => exact .error e
  | ok hab => exact .ok (hQP _ _ hab)

theorem bind {Q : α → β → Prop} {P : γ → δ → Prop} {x : Except ε α} {y : Except ε β}
    {f : α → Except ε γ} {g : β → Except ε δ} (h : Lockstep Stop Q x y)
    (hfg : ∀ a b, Q a b → Lockstep Stop P (f a) (g b)) : Lockstep Stop P (x >>= f) (y >>= g) := by
  cases h with
  | stop he => exact .stop he
  | error e => exact .error e
  | ok hab => exact hfg _ _ hab

/-- The same test on both sides. -/
theorem ite {c : Prop} [Decidable c] {Q : α → β → Prop} {x x' : Except ε α}
    {y y' : Except ε β} (h : c → Lockstep Stop Q x y) (h' : ¬ c → Lockstep Stop Q x' y') :
    Lockstep Stop Q (if c then x else x') (if c then y else y') := by
  by_cases hc : c
  · rw [if_pos hc, if_pos hc]
    exact h hc
  · rw [if_neg hc, if_neg hc]
    exact h' hc

theorem refl {Q : α → α → Prop} (hQ : ∀ a, Q a a) (x : Except ε α) : Lockstep Stop Q x x := by
  cases x with
  | error e => exact .error e
  | ok a => exact .ok (hQ a)

/-- The same computation first on both sides. -/
theorem bind_same {P : β → γ → Prop} (x : Except ε α) {f : α → Except ε β} {g : α → Except ε γ}
    (hfg : ∀ a, Lockstep Stop P (f a) (g a)) : Lockstep Stop P (x >>= f) (x >>= g) := by
  cases x with
  | error e => exact .error e
  | ok a => exact hfg a

/-- Related by equality, the two are equal. -/
theorem eq_of_not_stop {x y : Except ε α} (h : Lockstep Stop Eq x y)
    (hx : ∀ e, Stop e → x ≠ .error e) : x = y := by
  cases h with
  | stop he => exact absurd rfl (hx _ he)
  | error e => rfl
  | ok hab => rw [hab]

/-- A loop keeps what one round keeps. -/
theorem foldlM {σ τ : Type v} {ι : Type u} {Q : σ → τ → Prop} {f : σ → ι → Except ε σ}
    {g : τ → ι → Except ε τ} {l : List ι}
    (hstep : ∀ i ∈ l, ∀ s t, Q s t → Lockstep Stop Q (f s i) (g t i)) {s : σ} {t : τ}
    (h : Q s t) : Lockstep Stop Q (l.foldlM f s) (l.foldlM g t) := by
  induction l generalizing s t with
  | nil => exact .ok h
  | cons i l ih =>
    rw [List.foldlM_cons, List.foldlM_cons]
    refine bind (hstep i (List.mem_cons_self ..) s t h) fun s' t' h' => ?_
    exact ih (fun j hj => hstep j (List.mem_cons_of_mem _ hj)) h'

end Lockstep
