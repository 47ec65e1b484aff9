/-
# `BSVM.Lib.BoundedStack` — a stack of at most `n` elements

What one request does to the stack (`Step n`):

    push v    room     done, v on top        or refused, nothing changed
    push v    full     overflow, nothing changed
    pop       v on top delivered v, v gone   or refused, nothing changed
    pop       empty    underflow, nothing changed

A machine refines the stack under an abstraction and an invariant when each
of its steps, seen through the abstraction, is one of these and keeps the
invariant (`Refines`); its traces are then traces of the stack.
-/
import Mathlib.Logic.Basic

universe u v

namespace BoundedStack

variable {α : Type u} {σ : Type v}

/-! ## Requests and answers -/

inductive Request (α : Type u) where
  | push (v : α)
  | pop
  deriving DecidableEq, Repr

inductive Answer (α : Type u) where
  | done
  | delivered (v : α)
  | overflow
  | underflow
  | refused
  deriving DecidableEq, Repr

/-- One request, with the stack before and after, top first. -/
inductive Step (n : Nat) : List α → Request α → Answer α → List α → Prop
  | pushed {l : List α} {v : α} (h : l.length < n) : Step n l (.push v) .done (v :: l)
  | full {l : List α} {v : α} (h : l.length = n) : Step n l (.push v) .overflow l
  | notPushed {l : List α} {v : α} (h : l.length < n) : Step n l (.push v) .refused l
  | popped {l : List α} {v : α} : Step n (v :: l) .pop (.delivered v) l
  | empty : Step n [] .pop .underflow []
  | notPopped {l : List α} {v : α} : Step n (v :: l) .pop .refused (v :: l)

theorem Step.overflow_iff {n : Nat} {l l' : List α} {q : Request α} {a : Answer α}
    (h : Step n l q a l') : a = .overflow ↔ (∃ v, q = .push v) ∧ l.length = n := by
  cases h with
  | pushed h => exact ⟨nofun, fun h' => absurd h'.2 (Nat.ne_of_lt h)⟩
  | full h => exact ⟨fun _ => ⟨⟨_, rfl⟩, h⟩, fun _ => rfl⟩
  | notPushed h => exact ⟨nofun, fun h' => absurd h'.2 (Nat.ne_of_lt h)⟩
  | popped => exact ⟨nofun, fun ⟨⟨_, h⟩, _⟩ => nomatch h⟩
  | empty => exact ⟨nofun, fun ⟨⟨_, h⟩, _⟩ => nomatch h⟩
  | notPopped => exact ⟨nofun, fun ⟨⟨_, h⟩, _⟩ => nomatch h⟩

theorem Step.underflow_iff {n : Nat} {l l' : List α} {q : Request α} {a : Answer α}
    (h : Step n l q a l') : a = .underflow ↔ q = .pop ∧ l = [] := by
  cases h with
  | pushed => exact ⟨nofun, fun h => nomatch h.1⟩
  | full => exact ⟨nofun, fun h => nomatch h.1⟩
  | notPushed => exact ⟨nofun, fun h => nomatch h.1⟩
  | popped => exact ⟨nofun, fun h => nomatch h.2⟩
  | empty => exact ⟨fun _ => ⟨rfl, rfl⟩, fun _ => rfl⟩
  | notPopped => exact ⟨nofun, fun h => nomatch h.2⟩

/-! ## Traces -/

/-- Any number of requests, with their answers, between two states. -/
inductive Trace (step : σ → Request α → Answer α → σ → Prop) :
    σ → List (Request α × Answer α) → σ → Prop
  | nil (s : σ) : Trace step s [] s
  | cons {s s₁ s' : σ} {q : Request α} {a : Answer α} {t : List (Request α × Answer α)}
      (h : step s q a s₁) (ht : Trace step s₁ t s') : Trace step s ((q, a) :: t) s'

/-- Every step from a state with the invariant is a step of the stack, and
keeps the invariant. -/
def Refines (n : Nat) (inv : σ → Prop) (abs : σ → List α)
    (step : σ → Request α → Answer α → σ → Prop) : Prop :=
  ∀ s q a s', inv s → step s q a s' → Step n (abs s) q a (abs s') ∧ inv s'

/-- Traces of a refinement are traces of the stack. -/
theorem Refines.trace {n : Nat} {inv : σ → Prop} {abs : σ → List α}
    {step : σ → Request α → Answer α → σ → Prop} (h : Refines n inv abs step)
    {s s' : σ} {t : List (Request α × Answer α)} (ht : Trace step s t s') :
    inv s → Trace (Step n) (abs s) t (abs s') ∧ inv s' := by
  induction ht with
  | nil s => exact fun hs => ⟨.nil _, hs⟩
  | cons hstep _ ih =>
      intro hs
      obtain ⟨hstep', hs₁⟩ := h _ _ _ _ hs hstep
      obtain ⟨htrace, hs'⟩ := ih hs₁
      exact ⟨.cons hstep' htrace, hs'⟩

end BoundedStack
