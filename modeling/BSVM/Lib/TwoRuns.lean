/-
# `BSVM.Lib.TwoRuns` — two runs of a loop side by side

The rounds that two runs of one loop make over the same list keep in step as
long as their states stay related (`runPass_twice`), and so do those over two
lists that are related element by element (`runPass_related`).  A note beside
the error tells more about a round that fails; to forget the notes gives the
loop back.
-/
import Mathlib.Data.List.Forall2
import BSVM.Lib.Lockstep
import BSVM.Lib.Pass

universe u v w

variable {ε τ : Type u} {ν : Type w} {ρ σ : Type v} [DecidableEq ρ] {good : ρ}

/-- What two rounds or two runs answer, `Q` relating the states. -/
def SameAnswer (Q : σ → σ → Prop) (x y : ρ × σ) : Prop :=
  x.1 = y.1 ∧ Q x.2 y.2

section
variable {Stop : ε → Prop} {body : ν → σ → Except ε (ρ × σ)} {P : List ν → σ → σ → Prop}
  {Q : σ → σ → Prop}

/-- The two-run rule: `P` relates the states between two rounds, `Q` those that
are returned.  The first run has come through what it has seen. -/
theorem runPass_twice {l : List ν} {s t : σ} (h₀ : P [] s t) (hend : ∀ s t, P l s t → Q s t)
    (hstep : ∀ pre n post s₁ t₁, l = pre ++ n :: post →
      runPass good body pre s = .ok (good, s₁) → P pre s₁ t₁ →
      Lockstep Stop (fun x y => SameAnswer Q x y ∧ (x.1 = good → P (pre ++ [n]) x.2 y.2))
        (body n s₁) (body n t₁)) :
    Lockstep Stop (SameAnswer Q) (runPass good body l s) (runPass good body l t) := by
  have hrest : ∀ (post pre : List ν) (s₁ t₁ : σ), l = pre ++ post →
      runPass good body pre s = .ok (good, s₁) → P pre s₁ t₁ →
      Lockstep Stop (SameAnswer Q) (runPass good body post s₁) (runPass good body post t₁) := by
    intro post
    induction post with
    | nil =>
        intro pre s₁ t₁ hl _ hP
        rw [List.append_nil] at hl
        exact .ok ⟨rfl, hend s₁ t₁ (hl ▸ hP)⟩
    | cons n post ih =>
        intro pre s₁ t₁ hl hrun hP
        have hround := hstep pre n post s₁ t₁ hl hrun hP
        rw [runPass, runPass]
        generalize hx : body n s₁ = x at hround
        generalize body n t₁ = y at hround
        cases hround with
        | stop he => exact .stop he
        | error e => exact .error e
        | @ok a b hab =>
            obtain ⟨r, s₂⟩ := a
            obtain ⟨r', t₂⟩ := b
            obtain ⟨⟨hr, hQ⟩, hkeep⟩ := hab
            obtain rfl : r = r' := hr
            rw [Except.ok_bind, Except.ok_bind]
            refine .ite (fun hgo => ?_) fun _ => .ok ⟨rfl, hQ⟩
            subst hgo
            refine ih (pre ++ [n]) s₂ t₂ (by rw [hl, List.append_cons]) ?_ (hkeep rfl)
            exact runPass_append.mpr ⟨s₁, hrun, runPass_cons.mpr ⟨s₂, hx, rfl⟩⟩
  exact hrest l [] s t rfl rfl h₀

/-- The rule for two lists: rounds on related elements keep the states related. -/
theorem runPass_related {R : ν → ν → Prop} {l l' : List ν} (hl : List.Forall₂ R l l')
    (hstep : ∀ n ∈ l, ∀ n', R n n' → ∀ s t, Q s t →
      Lockstep Stop (SameAnswer Q) (body n s) (body n' t)) {s t : σ} (h : Q s t) :
    Lockstep Stop (SameAnswer Q) (runPass good body l s) (runPass good body l' t) := by
  induction hl generalizing s t with
  | nil => exact .ok ⟨rfl, h⟩
  | cons hn _ ih =>
      obtain ⟨hhead, htail⟩ := List.forall_mem_cons.mp hstep
      rw [runPass, runPass]
      refine .bind (hhead _ hn s t h) ?_
      rintro ⟨r, s'⟩ ⟨r', t'⟩ ⟨hr, hQ⟩
      obtain rfl : r = r' := hr
      exact .ite (fun _ => ih htail hQ) fun _ => .ok ⟨rfl, hQ⟩

end

/-! ## Notes -/

theorem Except.mapError_eq_ok {α : Type v} {x : Except ε α} {f : ε → τ} {a : α} :
    x.mapError f = .ok a ↔ x = .ok a := by
  cases x with
  | error e => exact ⟨nofun, nofun⟩
  | ok b => exact ⟨fun h => congrArg Except.ok (Except.ok.inj h), fun h => by rw [h]; rfl⟩

/-- The loop, with a note beside the error of the round that fails. -/
def runNoted (good : ρ) (body : ν → σ → Except ε (ρ × σ)) (note : ν → σ → τ) :
    List ν → σ → Except (ε × τ) (ρ × σ) :=
  runPass good fun n s => (body n s).mapError fun e => (e, note n s)

section
variable {body : ν → σ → Except ε (ρ × σ)} {note : ν → σ → τ} {s s' : σ} {l : List ν}

theorem runNoted_forget :
    (runNoted good body note l s).mapError Prod.fst = runPass good body l s := by
  induction l generalizing s with
  | nil => rfl
  | cons n l ih =>
      rw [runNoted, runPass, runPass]
      cases body n s with
      | error e => rfl
      | ok x =>
          change Except.mapError Prod.fst (if x.1 = good then _ else _) =
            if x.1 = good then _ else _
          by_cases hgo : x.1 = good
          · rw [if_pos hgo, if_pos hgo]
            exact ih
          · rw [if_neg hgo, if_neg hgo]
            rfl

theorem runNoted_eq_ok {x : ρ × σ} :
    runNoted good body note l s = .ok x ↔ runPass good body l s = .ok x := by
  rw [← runNoted_forget, Except.mapError_eq_ok]

/-- The loop fails in a round it comes to, with the note of that round. -/
theorem runNoted_fails {pre post : List ν} {n : ν} {e : ε}
    (hpre : runPass good body pre s = .ok (good, s')) (hn : body n s' = .error e) :
    runNoted good body note (pre ++ n :: post) s = .error (e, note n s') := by
  induction pre generalizing s with
  | nil =>
      cases hpre
      rw [List.nil_append, runNoted, runPass, hn]
      rfl
  | cons m pre ih =>
      obtain ⟨s₁, hm, hpre⟩ := runPass_cons.mp hpre
      rw [List.cons_append, runNoted, runPass, hm]
      exact (if_pos rfl).trans (ih hpre)

end

/-- The same note on both sides. -/
theorem Lockstep.mapError {α β : Type v} {Q : α → β → Prop} {x : Except ε α} {y : Except ε β}
    (f : ε → τ) (h : Lockstep (fun _ => False) Q x y) :
    Lockstep (fun _ => False) Q (x.mapError f) (y.mapError f) := by
  cases h with
  | stop he => exact he.elim
  | error e => exact .error (f e)
  | ok hab => exact .ok hab
