/-
# `BSVM.Lib.Pass` — a loop over a list that may return early

In each round the body gets the next element and the state, and answers with a
status and a new state.  The loop goes on while the status is `good`; any
other status is returned at once.

A loop that ends well has been through every prefix of its list
(`runPass_append`), which gives the invariant rule: what holds of no elements
and is kept by every round holds of every prefix (`runPass_at`).
-/
import BSVM.Lib.Fails

universe u v w

variable {ε : Type u} {ν : Type w} {ρ σ : Type v} [DecidableEq ρ]

/-- The loop. -/
def runPass (good : ρ) (body : ν → σ → Except ε (ρ × σ)) :
    List ν → σ → Except ε (ρ × σ)
  | [], s => .ok (good, s)
  | n :: l, s => do
      let (r, s) ← body n s
      if r = good then runPass good body l s else return (r, s)

variable {good : ρ} {body : ν → σ → Except ε (ρ × σ)} {s s' : σ}

omit [DecidableEq ρ] in
/-- A round that ends well has not returned early. -/
theorem early_iff {c : Prop} [Decidable c] {r : ρ} {x : Except ε (ρ × σ)} (hr : r ≠ good) :
    (if c then .ok (r, s) else x) = .ok (good, s') ↔ ¬ c ∧ x = .ok (good, s') := by
  by_cases hc : c
  · rw [if_pos hc]
    constructor
    · intro h
      exact absurd (Prod.mk.inj (Except.ok.inj h)).1 hr
    · exact fun h => absurd hc h.1
  · rw [if_neg hc]
    exact ⟨fun h => ⟨hc, h⟩, fun h => h.2⟩

theorem runPass_cons {n : ν} {l : List ν} :
    runPass good body (n :: l) s = .ok (good, s') ↔
      ∃ s₁, body n s = .ok (good, s₁) ∧ runPass good body l s₁ = .ok (good, s') := by
  rw [runPass, Except.bind_eq_ok]
  constructor
  · rintro ⟨⟨r, s₁⟩, hbody, h⟩
    dsimp only at h
    split at h
    · next hr =>
        subst hr
        exact ⟨s₁, hbody, h⟩
    · next hr =>
        cases h
        exact absurd rfl hr
  · rintro ⟨s₁, hbody, h⟩
    refine ⟨(good, s₁), hbody, ?_⟩
    dsimp only
    rw [if_pos rfl, h]

/-- What the body does not tell apart, the loop does not. -/
theorem runPass_map {f : ν → ν} {l : List ν} (h : ∀ n ∈ l, ∀ s, body (f n) s = body n s) :
    runPass good body (l.map f) s = runPass good body l s := by
  induction l generalizing s with
  | nil => rfl
  | cons n l ih =>
      obtain ⟨hn, hl⟩ := List.forall_mem_cons.mp h
      have hrest : runPass good body (l.map f) = runPass good body l := funext fun s => ih hl
      rw [List.map_cons, runPass, runPass, hn s, hrest]

/-- A loop ends well when it does on a prefix and, from there, on the rest. -/
theorem runPass_append {l l' : List ν} :
    runPass good body (l ++ l') s = .ok (good, s') ↔
      ∃ s₁, runPass good body l s = .ok (good, s₁) ∧ runPass good body l' s₁ = .ok (good, s') := by
  induction l generalizing s with
  | nil =>
      constructor
      · exact fun h => ⟨s, rfl, h⟩
      · rintro ⟨s₁, h₁, h⟩
        cases h₁
        exact h
  | cons n l ih =>
      rw [List.cons_append, runPass_cons]
      constructor
      · rintro ⟨s₁, hbody, h⟩
        obtain ⟨s₂, h₁, h₂⟩ := ih.mp h
        exact ⟨s₂, runPass_cons.mpr ⟨s₁, hbody, h₁⟩, h₂⟩
      · rintro ⟨s₂, h₁, h₂⟩
        obtain ⟨s₁, hbody, h₁⟩ := runPass_cons.mp h₁
        exact ⟨s₁, hbody, ih.mpr ⟨s₂, h₁, h₂⟩⟩

/-- The invariant rule, for a property of the elements seen and the state; it
holds at every point the loop comes through. -/
theorem runPass_at {P : List ν → σ → Prop} {l : List ν} (h₀ : P [] s)
    (hstep : ∀ pre n post s₁ s₂, l = pre ++ n :: post → P pre s₁ →
      body n s₁ = .ok (good, s₂) → P (pre ++ [n]) s₂)
    (h : runPass good body l s = .ok (good, s')) {pre post : List ν} (hl : l = pre ++ post) :
    ∃ s₁, runPass good body pre s = .ok (good, s₁) ∧ P pre s₁ ∧
      runPass good body post s₁ = .ok (good, s') := by
  have hkeep : ∀ (mid seen rest : List ν) (s s₁ : σ), l = seen ++ mid ++ rest → P seen s →
      runPass good body mid s = .ok (good, s₁) → P (seen ++ mid) s₁ := by
    intro mid
    induction mid with
    | nil =>
        intro seen rest s s₁ _ hP hrun
        cases hrun
        rw [List.append_nil]
        exact hP
    | cons n mid ih =>
        intro seen rest s s₁ hmid hP hrun
        obtain ⟨s₂, hbody, hrun⟩ := runPass_cons.mp hrun
        have hn : l = seen ++ n :: (mid ++ rest) := by
          rw [hmid, List.append_assoc, List.cons_append]
        have hP₂ := hstep seen n (mid ++ rest) s s₂ hn hP hbody
        rw [List.append_cons]
        refine ih (seen ++ [n]) rest s₂ s₁ ?_ hP₂ hrun
        rw [hmid, List.append_cons]
  rw [hl] at h
  obtain ⟨s₁, hpre, hpost⟩ := runPass_append.mp h
  exact ⟨s₁, hpre, hkeep pre [] post s s₁ hl h₀ hpre, hpost⟩

/-- The progress rule: where every round from a state with the property answers
one of some results, and keeps the property while it goes on, so does the loop. -/
theorem runPass_progress {P : List ν → σ → Prop} {Q : ρ → Prop} {l : List ν} (h₀ : P [] s)
    (hgood : Q good)
    (hstep : ∀ pre n post s₁, l = pre ++ n :: post → P pre s₁ → ∃ r s₂,
      body n s₁ = .ok (r, s₂) ∧ Q r ∧ (r = good → P (pre ++ [n]) s₂)) :
    ∃ r s', runPass good body l s = .ok (r, s') ∧ Q r ∧ (r = good → P l s') := by
  have hrest : ∀ (post pre : List ν) (s : σ), l = pre ++ post → P pre s →
      ∃ r s', runPass good body post s = .ok (r, s') ∧ Q r ∧ (r = good → P l s') := by
    intro post
    induction post with
    | nil =>
        intro pre s hl hP
        rw [List.append_nil] at hl
        exact ⟨good, s, rfl, hgood, fun _ => hl ▸ hP⟩
    | cons n post ih =>
        intro pre s hl hP
        obtain ⟨r, s₂, hbody, hr, hkeep⟩ := hstep pre n post s hl hP
        rw [runPass, hbody, Except.ok_bind]
        dsimp only
        by_cases hgo : r = good
        · rw [if_pos hgo]
          exact ih (pre ++ [n]) s₂ (by rw [hl, List.append_cons]) (hkeep hgo)
        · rw [if_neg hgo]
          exact ⟨r, s₂, rfl, hr, fun h => absurd h hgo⟩
  exact hrest l [] s rfl h₀

/-- The failure rule, with the invariant of the rounds that end well. -/
theorem runPass_fails {P : List ν → σ → Prop} {E : ε → Prop} {l : List ν} (h₀ : P [] s)
    (hstep : ∀ pre n post s₁ s₂, l = pre ++ n :: post → P pre s₁ →
      body n s₁ = .ok (good, s₂) → P (pre ++ [n]) s₂)
    (hround : ∀ pre n post s₁, l = pre ++ n :: post → P pre s₁ → Fails (body n s₁) E) :
    Fails (runPass good body l s) E := by
  have hrest : ∀ (post pre : List ν) (s : σ), l = pre ++ post → P pre s →
      Fails (runPass good body post s) E := by
    intro post
    induction post with
    | nil => exact fun _ _ _ _ => .ok
    | cons n post ih =>
        intro pre s hl hP
        refine .bind (hround pre n post s hl hP) ?_
        rintro ⟨r, s₂⟩ hbody
        refine .ite (fun hgo => ?_) fun _ => .ok
        subst hgo
        refine ih (pre ++ [n]) s₂ (by rw [hl, List.append_cons]) ?_
        exact hstep pre n post s s₂ hl hP hbody
  exact hrest l [] s rfl h₀
