/-
# `BSVM.Lib.Fails` — what a computation can fail with

`Fails x P` says that `x` fails only with errors that satisfy `P`; it is `Returns` for
the other half of `Except`, and its rules go through a computation in the same way.
The rule of a composition keeps what the first half has returned, as the second may
fail because of it.

`Raises x` says that `x` does fail.  Its rules are equivalences, so they find the exact
condition under which a computation does not return.
-/
import BSVM.Lib.Returns

universe u v

variable {ε : Type u} {α β : Type v}

/-- Every error of `x` satisfies `P`. -/
def Fails (x : Except ε α) (P : ε → Prop) : Prop :=
  ∀ e, x = .error e → P e

namespace Fails

variable {P Q : ε → Prop}

theorem ok {a : α} : Fails (.ok a : Except ε α) P := by
  intro e h
  cases h

theorem error {e : ε} (h : P e) : Fails (.error e : Except ε α) P := by
  intro e' he
  cases he
  exact h

theorem bind {x : Except ε α} {f : α → Except ε β} (hx : Fails x P)
    (hf : ∀ a, x = .ok a → Fails (f a) P) : Fails (x >>= f) P := by
  cases x with
  | error e => exact error (hx e rfl)
  | ok a => exact hf a rfl

theorem ite {c : Prop} [Decidable c] {x y : Except ε α} (hx : c → Fails x P)
    (hy : ¬ c → Fails y P) : Fails (if c then x else y) P := by
  split
  · next h => exact hx h
  · next h => exact hy h

/-- A test that returns early, in front of the rest. -/
theorem guard {c : Prop} [Decidable c] {a : α} {x : Except ε α} (hx : ¬ c → Fails x P) :
    Fails (if c then .ok a else x) P :=
  ite (fun _ => ok) hx

theorem mono {x : Except ε α} (h : Fails x P) (hPQ : ∀ e, P e → Q e) : Fails x Q := by
  intro e he
  exact hPQ e (h e he)

/-- A loop fails where one of its rounds does. -/
theorem foldlM {σ : Type v} {ι : Type u} {f : σ → ι → Except ε σ} {l : List ι} {s₀ : σ}
    (hround : ∀ pre i post s, l = pre ++ i :: post → pre.foldlM f s₀ = .ok s → Fails (f s i) P) :
    Fails (l.foldlM f s₀) P := by
  have hrest : ∀ (post pre : List ι) (s : σ), l = pre ++ post → pre.foldlM f s₀ = .ok s →
      Fails (post.foldlM f s) P := by
    intro post
    induction post with
    | nil => exact fun _ _ _ _ => ok
    | cons i post ih =>
        intro pre s hl hpre
        rw [List.foldlM_cons]
        refine bind (hround pre i post s hl hpre) fun s' hs' => ?_
        refine ih (pre ++ [i]) s' (hl.trans (List.append_cons _ _ _)) ?_
        rw [List.foldlM_append, hpre, Except.ok_bind, List.foldlM_cons, hs']
        rfl
  exact hrest l [] s₀ rfl rfl

/-- A computation without an error to fail with returns. -/
theorem returns {x : Except ε α} (h : Fails x fun _ => False) : ∃ a, x = .ok a := by
  cases x with
  | error e => exact (h e rfl).elim
  | ok a => exact ⟨a, rfl⟩

end Fails

/-- `x` fails. -/
def Raises (x : Except ε α) : Prop :=
  ∃ e, x = .error e

namespace Raises

@[simp] theorem ok_iff {a : α} : Raises (.ok a : Except ε α) ↔ False := by
  constructor
  · rintro ⟨e, h⟩
    cases h
  · exact False.elim

@[simp] theorem error_iff {e : ε} : Raises (.error e : Except ε α) ↔ True :=
  ⟨fun _ => trivial, fun _ => ⟨e, rfl⟩⟩

theorem ite_iff {c : Prop} [Decidable c] {x y : Except ε α} :
    Raises (if c then x else y) ↔ (c ∧ Raises x) ∨ (¬ c ∧ Raises y) := by
  by_cases h : c
  · simp [h]
  · simp [h]

/-- A test that returns early does not fail. -/
theorem guard_iff {c : Prop} [Decidable c] {a : α} {x : Except ε α} :
    Raises (if c then .ok a else x) ↔ ¬ c ∧ Raises x := by
  rw [ite_iff, ok_iff]
  simp

/-- The first half fails, or the second does on what the first has returned. -/
theorem bind_iff {x : Except ε α} {f : α → Except ε β} :
    Raises (x >>= f) ↔ Raises x ∨ ∃ a, x = .ok a ∧ Raises (f a) := by
  cases x with
  | error e => simp
  | ok a => simp

theorem map_iff {x : Except ε α} {f : α → β} : Raises (x.map f) ↔ Raises x := by
  cases x with
  | error e => exact iff_of_true (error_iff.mpr trivial) (error_iff.mpr trivial)
  | ok a => exact iff_of_false ok_iff.mp ok_iff.mp

end Raises
