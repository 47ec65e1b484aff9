/-
# `BSVM.Lib.Longest` — the longest beginning of a list with a property

Among the beginnings of a list that have a property there is one that all the
others are beginnings of, if the property passes from a list to its beginnings
and the empty list has it.

A loop that goes on exactly as long as the property holds of what it has seen
stops behind that beginning (`runPass_longest`).
-/
import Mathlib.Data.List.Infix
import BSVM.Lib.Pass

universe u v w

/-- `pre` begins `l` and has the property, and every other such list begins `pre`. -/
structure Longest {ν : Type w} (P : List ν → Prop) (l pre : List ν) : Prop where
  isPrefix : pre <+: l
  holds : P pre
  greatest : ∀ q, q <+: l → P q → q <+: pre

section
variable {ν : Type w} {P Q : List ν → Prop} {l pre pre' post : List ν} {n : ν}

theorem Longest.unique (h : Longest P l pre) (h' : Longest P l pre') : pre = pre' := by
  have hle : pre <+: pre' := h'.greatest pre h.isPrefix h.holds
  have hge : pre' <+: pre := h.greatest pre' h'.isPrefix h'.holds
  exact hle.eq_of_length_le hge.length_le

theorem longest_whole (h : P l) : Longest P l l where
  isPrefix := List.prefix_rfl
  holds := h
  greatest _ hq _ := hq

theorem Longest.whole (h : Longest P l pre) (hl : P l) : pre = l :=
  h.unique (longest_whole hl)

/-- The next element is one too many. -/
theorem longest_cut (hclosed : ∀ p q, q <+: p → P p → P q) (hpre : P pre)
    (hnext : ¬ P (pre ++ [n])) : Longest P (pre ++ n :: post) pre where
  isPrefix := List.prefix_append _ _
  holds := hpre
  greatest q hq hP := by
    have hcut : pre ++ [n] <+: pre ++ n :: post := ⟨post, (List.append_cons pre n post).symm⟩
    rcases List.prefix_or_prefix_of_prefix hq hcut with hle | hge
    · rcases List.prefix_concat_iff.mp hle with rfl | hle
      · exact absurd hP hnext
      · exact hle
    · exact absurd (hclosed q _ hge hP) hnext

/-- Only the beginnings of the list matter. -/
theorem Longest.congr (h : Longest P l pre) (hiff : ∀ q, q <+: l → (P q ↔ Q q)) :
    Longest Q l pre where
  isPrefix := h.isPrefix
  holds := (hiff pre h.isPrefix).mp h.holds
  greatest q hq hQ := h.greatest q hq ((hiff q hq).mpr hQ)

end

/-! ## The loop -/

section
variable {ε : Type u} {ν : Type w} {ρ σ : Type v} [DecidableEq ρ] {good : ρ}
  {body : ν → σ → Except ε (ρ × σ)} {P : List ν → Prop} {I J : List ν → σ → Prop}

/-- The rule for a loop that goes on as long as a property holds: `I` is kept by
the rounds it goes through, `J` is what it leaves. -/
theorem runPass_longest {l : List ν} {s : σ} (hclosed : ∀ p q, q <+: p → P p → P q)
    (hnil : P []) (h₀ : I [] s)
    (hround : ∀ pre n post s₁, l = pre ++ n :: post → I pre s₁ →
      (P (pre ++ [n]) ∧ ∃ s₂, body n s₁ = .ok (good, s₂) ∧ I (pre ++ [n]) s₂) ∨
      (¬ P (pre ++ [n]) ∧ ∃ r s₂, r ≠ good ∧ body n s₁ = .ok (r, s₂) ∧ J pre s₂))
    (hend : ∀ s₁, I l s₁ → J l s₁) :
    ∃ r s' pre, runPass good body l s = .ok (r, s') ∧ Longest P l pre ∧ J pre s' := by
  have hrest : ∀ (post pre : List ν) (s : σ), l = pre ++ post → P pre → I pre s →
      ∃ r s' q, runPass good body post s = .ok (r, s') ∧ Longest P l q ∧ J q s' := by
    intro post
    induction post with
    | nil =>
        intro pre s hl hP hI
        rw [List.append_nil] at hl
        subst hl
        exact ⟨good, s, l, rfl, longest_whole hP, hend s hI⟩
    | cons n post ih =>
        intro pre s hl hP hI
        rw [runPass]
        rcases hround pre n post s hl hI with ⟨hP', s₂, hbody, hI'⟩ | ⟨hnot, r, s₂, hr, hbody, hJ⟩
        · rw [hbody, Except.ok_bind]
          dsimp only
          rw [if_pos rfl]
          exact ih (pre ++ [n]) s₂ (by rw [hl, List.append_cons]) hP' hI'
        · rw [hbody, Except.ok_bind]
          dsimp only
          rw [if_neg hr]
          exact ⟨r, s₂, pre, rfl, hl ▸ longest_cut hclosed hP hnot, hJ⟩
  exact hrest l [] s rfl hnil h₀

end
