/-
# `BSVM.Lib.Returns` — partial correctness of a computation that may fail

`Returns x Q` says that whatever value `x` produces satisfies `Q`; a failing
`x` satisfies it for every `Q`.  The rules below read a postcondition
backwards through the constructors of an `Except` computation, so that a
goal about a program becomes a goal about the values it computes.  They are
equivalences: rewriting with them loses nothing.

`Avoids x e` is the companion about failures: `x` does not fail with `e`.  The
values that the first half of a computation returns matter for the second,
so its rule for a composition uses `Returns`.

`bind_eq_ok` is the same fact in the other direction, for a hypothesis that
a composed computation did return.
-/
import Mathlib.Logic.Basic

universe u v

variable {ε : Type u} {α β : Type v}

/-- Every value `x` returns satisfies `Q`. -/
def Returns (x : Except ε α) (Q : α → Prop) : Prop :=
  ∀ a, x = .ok a → Q a

namespace Returns

@[simp] theorem ok_iff {a : α} {Q : α → Prop} : Returns (.ok a : Except ε α) Q ↔ Q a :=
  ⟨fun h => h a rfl, fun h _ hb => by cases hb; exact h⟩

@[simp] theorem error_iff {e : ε} {Q : α → Prop} :
    Returns (.error e : Except ε α) Q ↔ True :=
  ⟨fun _ => trivial, fun _ _ hb => by cases hb⟩

@[simp] theorem bind_iff {x : Except ε α} {f : α → Except ε β} {Q : β → Prop} :
    Returns (x >>= f) Q ↔ Returns x (fun a => Returns (f a) Q) := by
  cases x with
  | error e => exact ⟨fun _ => error_iff.mpr trivial, fun _ => error_iff.mpr trivial⟩
  | ok a =>
      show Returns (f a) Q ↔ _
      rw [ok_iff]

@[simp] theorem ite_iff {c : Prop} [Decidable c] {x y : Except ε α} {Q : α → Prop} :
    Returns (if c then x else y) Q ↔ (c → Returns x Q) ∧ (¬ c → Returns y Q) := by
  by_cases h : c <;> simp [h]

/-- A test that returns early, in front of the rest. -/
theorem guard {c : Prop} [Decidable c] {a : α} {x : Except ε α} {Q : α → Prop} (ha : Q a)
    (hx : ¬ c → Returns x Q) : Returns (if c then .ok a else x) Q :=
  ite_iff.mpr ⟨fun _ => ok_iff.mpr ha, hx⟩

/-- A postcondition that does not depend on what comes before. -/
theorem bind {x : Except ε α} {f : α → Except ε β} {Q : β → Prop} (h : ∀ a, Returns (f a) Q) :
    Returns (x >>= f) Q :=
  bind_iff.mpr fun a _ => h a

/-- A loop keeps what one round keeps. -/
theorem foldlM {σ : Type v} {ι : Type u} {Q : σ → Prop} {f : σ → ι → Except ε σ} {l : List ι}
    (hstep : ∀ i ∈ l, ∀ s, Q s → Returns (f s i) Q) {s : σ} (h : Q s) :
    Returns (l.foldlM f s) Q := by
  induction l generalizing s with
  | nil => exact ok_iff.mpr h
  | cons i l ih =>
    rw [List.foldlM_cons, bind_iff]
    intro s' hs'
    exact ih (fun j hj => hstep j (List.mem_cons_of_mem _ hj))
      (hstep i (List.mem_cons_self ..) s h s' hs')

theorem mono {x : Except ε α} {P Q : α → Prop} (h : Returns x P)
    (hPQ : ∀ a, P a → Q a) : Returns x Q :=
  fun a ha => hPQ a (h a ha)

end Returns

@[simp] theorem Except.ok_bind {a : α} {f : α → Except ε β} :
    ((.ok a : Except ε α) >>= f) = f a :=
  rfl

@[simp] theorem Except.error_bind {e : ε} {f : α → Except ε β} :
    ((.error e : Except ε α) >>= f) = .error e :=
  rfl

@[simp] theorem Except.pure_eq {a : α} : (pure a : Except ε α) = .ok a :=
  rfl

/-- A composed computation returns exactly when both halves do. -/
theorem Except.bind_eq_ok {x : Except ε α} {f : α → Except ε β} {b : β} :
    (x >>= f) = .ok b ↔ ∃ a, x = .ok a ∧ f a = .ok b := by
  cases x with
  | error e => exact ⟨nofun, fun ⟨_, h, _⟩ => nomatch h⟩
  | ok a =>
      constructor
      · exact fun h => ⟨a, rfl, h⟩
      · rintro ⟨_, h, hf⟩
        cases h
        exact hf

theorem Except.map_eq_ok {x : Except ε α} {f : α → β} {b : β} :
    x.map f = .ok b ↔ ∃ a, x = .ok a ∧ f a = b := by
  cases x with
  | error e => exact ⟨nofun, fun ⟨_, h, _⟩ => nomatch h⟩
  | ok a =>
      constructor
      · exact fun h => ⟨a, rfl, Except.ok.inj h⟩
      · rintro ⟨_, h, hf⟩
        cases h
        exact congrArg Except.ok hf

theorem Except.mapM_ok {α : Type u} {l : List α} {f : α → Except ε β} {g : α → β}
    (h : ∀ a ∈ l, f a = .ok (g a)) : l.mapM f = .ok (l.map g) := by
  induction l with
  | nil => rfl
  | cons a l ih =>
      obtain ⟨ha, hl⟩ := List.forall_mem_cons.mp h
      rw [List.mapM_cons, ha, ih hl]
      rfl

/-- `x` does not fail with `e`. -/
def Avoids (x : Except ε α) (e : ε) : Prop :=
  x ≠ .error e

namespace Avoids

variable {e : ε}

theorem ok {a : α} : Avoids (.ok a : Except ε α) e :=
  nofun

theorem bind {x : Except ε α} {f : α → Except ε β} (hx : Avoids x e)
    (hf : Returns x (fun a => Avoids (f a) e)) : Avoids (x >>= f) e := by
  cases x with
  | error e' => exact fun h => hx (congrArg Except.error (Except.error.inj h))
  | ok a => exact hf a rfl

theorem ite {c : Prop} [Decidable c] {x y : Except ε α} (hx : c → Avoids x e)
    (hy : ¬ c → Avoids y e) : Avoids (if c then x else y) e := by
  by_cases h : c
  · rw [if_pos h]
    exact hx h
  · rw [if_neg h]
    exact hy h

theorem guard {c : Prop} [Decidable c] {a : α} {x : Except ε α} (hx : ¬ c → Avoids x e) :
    Avoids (if c then .ok a else x) e :=
  ite (fun _ => ok) hx

end Avoids
