/-
# `BSVM.Lib.Loop` — a loop that goes on while its rounds say so

One round takes a state and an input of its own, and fails or returns a value and
the next state; a test on these two says whether there is another round.  `run`
gives up when its fuel is used up, so that it computes whatever the loop does;
`Rounds` says the same without fuel.

    run_ok_iff       what is returned, and after how many rounds
    run_mono         more fuel changes nothing
    run_fails        an invariant, and what it gives where a round fails
    run_returns      a rank that falls with every round
    run_total        both, of rounds that do not fail
    run_related      two loops whose rounds stay in step
-/
import BSVM.Lib.Lockstep

universe u v w

/-- One round, and the test behind it. -/
structure Loop (ι : Type w) (ε : Type u) (β σ : Type v) where
  step : ι → σ → Except ε (β × σ)
  goesOn : β → σ → Bool

namespace Loop

variable {ι : Type w} {ε : Type u} {β γ σ τ : Type v} {L : Loop ι ε β σ} {inputs : Nat → ι}

/-- The loop from round number `k` on: the number of the round that was the last,
and what it returned. -/
def run (L : Loop ι ε β σ) (inputs : Nat → ι) : Nat → Nat → σ → Option (Except ε (Nat × β × σ))
  | 0, _, _ => none
  | fuel + 1, k, s =>
      match L.step (inputs k) s with
      | .error e => some (.error e)
      | .ok (b, s') =>
          if L.goesOn b s' then L.run inputs fuel (k + 1) s' else some (.ok (k, b, s'))

/-- The rounds from number `k` up to number `m` all go on. -/
inductive Rounds (L : Loop ι ε β σ) (inputs : Nat → ι) : Nat → σ → Nat → σ → Prop
  | refl (k : Nat) (s : σ) : Rounds L inputs k s k s
  | head {k m : Nat} {s s' s'' : σ} {b : β} : L.step (inputs k) s = .ok (b, s') →
      L.goesOn b s' = true → Rounds L inputs (k + 1) s' m s'' → Rounds L inputs k s m s''

/-! ## One round -/

theorem run_error {k : Nat} {s : σ} {e : ε} (h : L.step (inputs k) s = .error e) (fuel : Nat) :
    L.run inputs (fuel + 1) k s = some (.error e) := by
  simp only [run, h]

theorem run_stop {k : Nat} {s s' : σ} {b : β} (h : L.step (inputs k) s = .ok (b, s'))
    (hstop : L.goesOn b s' = false) (fuel : Nat) :
    L.run inputs (fuel + 1) k s = some (.ok (k, b, s')) := by
  simp [run, h, hstop]

theorem run_next {k : Nat} {s s' : σ} {b : β} (h : L.step (inputs k) s = .ok (b, s'))
    (hnext : L.goesOn b s' = true) (fuel : Nat) :
    L.run inputs (fuel + 1) k s = L.run inputs fuel (k + 1) s' := by
  simp [run, h, hnext]

/-- A round fails, is the last one, or goes on. -/
theorem step_cases (L : Loop ι ε β σ) (inputs : Nat → ι) (k : Nat) (s : σ) :
    (∃ e, L.step (inputs k) s = .error e) ∨
      (∃ b s', L.step (inputs k) s = .ok (b, s') ∧ L.goesOn b s' = false) ∨
      ∃ b s', L.step (inputs k) s = .ok (b, s') ∧ L.goesOn b s' = true := by
  cases h : L.step (inputs k) s with
  | error e => exact Or.inl ⟨e, rfl⟩
  | ok r =>
      obtain ⟨b, s'⟩ := r
      cases hgo : L.goesOn b s' with
      | false => exact Or.inr (Or.inl ⟨b, s', rfl, hgo⟩)
      | true => exact Or.inr (Or.inr ⟨b, s', rfl, hgo⟩)

/-! ## With fuel and without -/

/-- More fuel changes nothing. -/
theorem run_mono {fuel fuel' k : Nat} {s : σ} {r : Except ε (Nat × β × σ)}
    (h : L.run inputs fuel k s = some r) (hle : fuel ≤ fuel') :
    L.run inputs fuel' k s = some r := by
  induction fuel generalizing fuel' k s with
  | zero => cases h
  | succ fuel ih =>
      obtain ⟨fuel', rfl⟩ : ∃ n, fuel' = n + 1 := ⟨fuel' - 1, by omega⟩
      rcases step_cases L inputs k s with ⟨e, hs⟩ | ⟨b, s', hs, hgo⟩ | ⟨b, s', hs, hgo⟩
      · rw [run_error hs] at h ⊢
        exact h
      · rw [run_stop hs hgo] at h ⊢
        exact h
      · rw [run_next hs hgo] at h ⊢
        exact ih h (Nat.le_of_succ_le_succ hle)

theorem Rounds.le {k m : Nat} {s s' : σ} (h : Rounds L inputs k s m s') : k ≤ m := by
  induction h with
  | refl => exact Nat.le_refl _
  | head _ _ _ ih => omega

theorem Rounds.run_eq {k m : Nat} {s s' : σ} (h : Rounds L inputs k s m s') (fuel : Nat) :
    L.run inputs (m - k + fuel) k s = L.run inputs fuel m s' := by
  induction h with
  | refl => simp
  | head hs hgo hrest ih =>
      have hle := hrest.le
      rw [← ih, ← run_next hs hgo]
      congr 1
      omega

theorem Rounds.snoc {k m : Nat} {s s' s'' : σ} {b : β} (h : Rounds L inputs k s m s')
    (hs : L.step (inputs m) s' = .ok (b, s'')) (hgo : L.goesOn b s'' = true) :
    Rounds L inputs k s (m + 1) s'' := by
  induction h with
  | refl => exact .head hs hgo (.refl _ _)
  | head hs' hgo' _ ih => exact .head hs' hgo' (ih hs)

/-- Where the fuel is not used up there is a last round. -/
theorem run_some {fuel k : Nat} {s : σ} {r : Except ε (Nat × β × σ)}
    (h : L.run inputs fuel k s = some r) : ∃ m s', m < k + fuel ∧ Rounds L inputs k s m s' ∧
      ((∃ e, r = .error e ∧ L.step (inputs m) s' = .error e) ∨
        ∃ b s'', r = .ok (m, b, s'') ∧ L.step (inputs m) s' = .ok (b, s'') ∧
          L.goesOn b s'' = false) := by
  induction fuel generalizing k s with
  | zero => cases h
  | succ fuel ih =>
      rcases step_cases L inputs k s with ⟨e, hs⟩ | ⟨b, s', hs, hgo⟩ | ⟨b, s', hs, hgo⟩
      · rw [run_error hs] at h
        exact ⟨k, s, by omega, .refl k s, Or.inl ⟨e, (Option.some.inj h).symm, hs⟩⟩
      · rw [run_stop hs hgo] at h
        exact ⟨k, s, by omega, .refl k s, Or.inr ⟨b, s', (Option.some.inj h).symm, hs, hgo⟩⟩
      · rw [run_next hs hgo] at h
        obtain ⟨m, s'', hm, hrest, hlast⟩ := ih h
        exact ⟨m, s'', by omega, .head hs hgo hrest, hlast⟩

/-- The loop returns what the first round returns that does not go on. -/
theorem run_ok_iff {k m : Nat} {s t : σ} {b : β} :
    (∃ fuel, L.run inputs fuel k s = some (.ok (m, b, t))) ↔
      ∃ s', Rounds L inputs k s m s' ∧ L.step (inputs m) s' = .ok (b, t) ∧
        L.goesOn b t = false := by
  constructor
  · rintro ⟨fuel, h⟩
    obtain ⟨m', s', -, hrest, ⟨e, he, -⟩ | ⟨b', t', heq, hs, hgo⟩⟩ := run_some h
    · cases he
    · cases heq
      exact ⟨s', hrest, hs, hgo⟩
  · rintro ⟨s', hrest, hs, hgo⟩
    exact ⟨m - k + 1, by rw [hrest.run_eq, run_stop hs hgo]⟩

/-! ## Invariants -/

section
variable {P : σ → Prop}

theorem Rounds.keeps
    (hstep : ∀ i s b s', P s → L.step i s = .ok (b, s') → L.goesOn b s' = true → P s')
    {k m : Nat} {s s' : σ} (h : Rounds L inputs k s m s') (hs : P s) : P s' := by
  induction h with
  | refl => exact hs
  | head hround hgo _ ih => exact ih (hstep _ _ _ _ hs hround hgo)

/-- An error of the loop is one of a round. -/
theorem run_fails
    (hstep : ∀ i s b s', P s → L.step i s = .ok (b, s') → L.goesOn b s' = true → P s')
    {E : ε → Prop} (herr : ∀ i s e, P s → L.step i s = .error e → E e)
    {fuel k : Nat} {s : σ} {e : ε} (hs : P s) (h : L.run inputs fuel k s = some (.error e)) :
    E e := by
  obtain ⟨m, s', -, hrest, ⟨e', he, hround⟩ | ⟨b, t, heq, -⟩⟩ := run_some h
  · cases he
    exact herr _ _ _ (hrest.keeps hstep hs) hround
  · cases heq

/-- A rank that falls with every round that goes on bounds their number. -/
theorem run_returns {R : σ → Nat}
    (hstep : ∀ i s b s', P s → L.step i s = .ok (b, s') → L.goesOn b s' = true →
      P s' ∧ R s' < R s) {fuel k : Nat} {s : σ} (hs : P s) (hfuel : R s < fuel) :
    ∃ r, L.run inputs fuel k s = some r := by
  induction fuel generalizing k s with
  | zero => exact absurd hfuel (Nat.not_lt_zero _)
  | succ fuel ih =>
      rcases step_cases L inputs k s with ⟨e, hround⟩ | ⟨b, s', hround, hgo⟩ | ⟨b, s', hround, hgo⟩
      · exact ⟨_, run_error hround fuel⟩
      · exact ⟨_, run_stop hround hgo fuel⟩
      · obtain ⟨hs', hlt⟩ := hstep _ _ _ _ hs hround hgo
        rw [run_next hround hgo]
        exact ih hs' (by omega)

/-- Rounds that do not fail, and end with `Q` or go on with a lower rank. -/
theorem run_total {R : σ → Nat} {Q : β → σ → Prop}
    (hstep : ∀ i s, P s → ∃ b s', L.step i s = .ok (b, s') ∧
      (L.goesOn b s' = true → P s' ∧ R s' < R s) ∧ (L.goesOn b s' = false → Q b s'))
    {fuel k : Nat} {s : σ} (hs : P s) (hfuel : R s < fuel) :
    ∃ m b t, L.run inputs fuel k s = some (.ok (m, b, t)) ∧ Q b t := by
  have hnext : ∀ i s b s', P s → L.step i s = .ok (b, s') → L.goesOn b s' = true →
      P s' ∧ R s' < R s := by
    intro i s b s' hs hround hgo
    obtain ⟨b', t', hround', hkeep, -⟩ := hstep i s hs
    cases hround.symm.trans hround'
    exact hkeep hgo
  obtain ⟨r, hr⟩ : ∃ r, L.run inputs fuel k s = some r := run_returns hnext hs hfuel
  obtain ⟨m, s', -, hrest, hlast⟩ := run_some hr
  have hs' : P s' := hrest.keeps (fun i s b s' hs hround hgo => (hnext i s b s' hs hround hgo).1) hs
  obtain ⟨b, t, hround, -, hQ⟩ := hstep (inputs m) s' hs'
  rcases hlast with ⟨e, -, he⟩ | ⟨b', t', rfl, hround', hgo⟩
  · exact absurd (he.symm.trans hround) nofun
  · cases hround.symm.trans hround'
    exact ⟨m, b, t, hr, hQ hgo⟩

end

/-! ## Two loops -/

/-- The loop with its errors renamed. -/
def mapError {ε' : Type u} (f : ε → ε') (L : Loop ι ε β σ) : Loop ι ε' β σ where
  step i s := (L.step i s).mapError f
  goesOn := L.goesOn

theorem run_mapError {ε' : Type u} (f : ε → ε') (fuel k : Nat) (s : σ) :
    (L.mapError f).run inputs fuel k s = (L.run inputs fuel k s).map (Except.mapError f) := by
  induction fuel generalizing k s with
  | zero => rfl
  | succ fuel ih =>
      rcases step_cases L inputs k s with ⟨e, hs⟩ | ⟨b, s', hs, hgo⟩ | ⟨b, s', hs, hgo⟩
      · have hs' : (L.mapError f).step (inputs k) s = .error (f e) :=
          congrArg (Except.mapError f) hs
        rw [run_error hs, run_error hs']
        rfl
      · have hs' : (L.mapError f).step (inputs k) s = .ok (b, s') := congrArg (Except.mapError f) hs
        rw [run_stop hs hgo, run_stop hs' hgo]
        rfl
      · have hs' : (L.mapError f).step (inputs k) s = .ok (b, s') := congrArg (Except.mapError f) hs
        rw [run_next hs hgo, run_next hs' hgo]
        exact ih (k + 1) s'

/-- Both loops are still running, or have stopped alike; or the first one has
stopped with an error in `Stop`, and the other one does what it likes. -/
inductive Related (Stop : ε → Prop) (Q : β → σ → γ → τ → Prop) :
    Option (Except ε (Nat × β × σ)) → Option (Except ε (Nat × γ × τ)) → Prop
  | stop {e : ε} {y : Option (Except ε (Nat × γ × τ))} : Stop e → Related Stop Q (some (.error e)) y
  | running : Related Stop Q none none
  | error (e : ε) : Related Stop Q (some (.error e)) (some (.error e))
  | ok {m : Nat} {b : β} {s : σ} {c : γ} {t : τ} : Q b s c t →
      Related Stop Q (some (.ok (m, b, s))) (some (.ok (m, c, t)))

/-- The loop with its inputs taken from others. -/
def comap {κ : Type w} (g : κ → ι) (L : Loop ι ε β σ) : Loop κ ε β σ where
  step i s := L.step (g i) s
  goesOn := L.goesOn

theorem run_comap {κ : Type w} (g : κ → ι) (inputs : Nat → κ) (fuel k : Nat) (s : σ) :
    (L.comap g).run inputs fuel k s = L.run (fun n => g (inputs n)) fuel k s := by
  induction fuel generalizing k s with
  | zero => rfl
  | succ fuel ih =>
      have hnext : (L.comap g).run inputs fuel (k + 1) =
          L.run (fun n => g (inputs n)) fuel (k + 1) :=
        funext (ih (k + 1))
      rw [run, run, hnext]
      rfl

/-- Loops whose rounds stay in step do so to the end. -/
theorem run_related {M : Loop ι ε γ τ} {Stop : ε → Prop} {R : σ → τ → Prop}
    {Q : β → σ → γ → τ → Prop}
    (hstep : ∀ i s t, R s t → Lockstep Stop
      (fun x y => Q x.1 x.2 y.1 y.2 ∧ L.goesOn x.1 x.2 = M.goesOn y.1 y.2 ∧
        (L.goesOn x.1 x.2 = true → R x.2 y.2)) (L.step i s) (M.step i t))
    {fuel k : Nat} {s : σ} {t : τ} (h : R s t) :
    Related Stop Q (L.run inputs fuel k s) (M.run inputs fuel k t) := by
  induction fuel generalizing k s t with
  | zero => exact .running
  | succ fuel ih =>
      have hround := hstep (inputs k) s t h
      generalize hx : L.step (inputs k) s = x at hround
      generalize hy : M.step (inputs k) t = y at hround
      cases hround with
      | stop he =>
          rw [run_error hx]
          exact .stop he
      | error e =>
          rw [run_error hx, run_error hy]
          exact .error e
      | @ok a b hab =>
          obtain ⟨x, s'⟩ := a
          obtain ⟨y, t'⟩ := b
          obtain ⟨hQ, hgo, hR⟩ := hab
          cases hL : L.goesOn x s' with
          | false =>
              rw [run_stop hx hL, run_stop hy (hgo.symm.trans hL)]
              exact .ok hQ
          | true =>
              rw [run_next hx hL, run_next hy (hgo.symm.trans hL)]
              exact ih (hR hL)

end Loop
