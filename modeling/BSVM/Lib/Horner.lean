/-
# `BSVM.Lib.Horner` — a numeral, digit by digit from the left

`value base v ds` is the number `v` with the digits `ds` written behind it.  The
guarded loop tests `base * v` against a limit before it adds the next digit
(`guarded`), so what it comes to (`reached`) can be above the limit by less than
`base`:

    guarded_eq       it ends with the value unless the value without its last
                     digit, times `base`, is above the limit
    reached_lt       it never comes to `limit + base`
    reached_le_iff   it stays within the limit unless a prefix is above it only
                     by its last digit
-/
import Mathlib.Data.List.Basic
import Mathlib.Data.Nat.Basic

namespace Horner

variable {base limit v d : Nat} {ds : List Nat}

def value (base v : Nat) (ds : List Nat) : Nat :=
  ds.foldl (fun v d => base * v + d) v

@[simp] theorem value_nil : value base v [] = v :=
  rfl

@[simp] theorem value_cons : value base v (d :: ds) = value base (base * v + d) ds :=
  rfl

theorem le_value (hbase : 0 < base) : v ≤ value base v ds := by
  induction ds generalizing v with
  | nil => exact Nat.le_refl v
  | cons d ds ih =>
    have hmul : v ≤ base * v := Nat.le_mul_of_pos_left v hbase
    exact Nat.le_trans (Nat.le_trans hmul (Nat.le_add_right _ d)) ih

/-- The loop, if it does not stop at its test. -/
def guarded (base limit : Nat) : Nat → List Nat → Option Nat
  | v, [] => some v
  | v, d :: ds => if limit < base * v then none else guarded base limit (base * v + d) ds

/-- What it comes to. -/
def reached (base limit : Nat) : Nat → List Nat → List Nat
  | v, [] => [v]
  | v, d :: ds => v :: if limit < base * v then [] else reached base limit (base * v + d) ds

/-- The number with one digit more, without it. -/
theorem init_add (hd : d < base) : base * ((base * v + d) / base) = base * v := by
  rw [Nat.mul_add_div (Nat.zero_lt_of_lt hd), Nat.div_eq_of_lt hd, Nat.add_zero]

/-- Behind a number that is too large, all are. -/
theorem mul_init_value (hbase : 0 < base) :
    base * v ≤ base * (value base (base * v + d) ds / base) := by
  have hle : base * v + d ≤ value base (base * v + d) ds := le_value hbase
  refine Nat.mul_le_mul_left base ((Nat.le_div_iff_mul_le hbase).mpr ?_)
  rw [Nat.mul_comm]
  exact Nat.le_trans (Nat.le_add_right _ d) hle

theorem guarded_eq (hne : ds ≠ []) (hds : ∀ d ∈ ds, d < base) :
    guarded base limit v ds =
      if limit < base * (value base v ds / base) then none else some (value base v ds) := by
  induction ds generalizing v with
  | nil => exact absurd rfl hne
  | cons d ds ih =>
    obtain ⟨hd, hds⟩ := List.forall_mem_cons.mp hds
    rw [guarded, value_cons]
    by_cases hlarge : limit < base * v
    · have hvalue : limit < base * (value base (base * v + d) ds / base) :=
        Nat.lt_of_lt_of_le hlarge (mul_init_value (Nat.zero_lt_of_lt hd))
      rw [if_pos hlarge, if_pos hvalue]
    · rw [if_neg hlarge]
      cases ds with
      | nil => rw [value_nil, init_add hd, if_neg hlarge, guarded]
      | cons d' ds => exact ih (List.cons_ne_nil _ _) hds

theorem mem_reached_self : v ∈ reached base limit v ds := by
  cases ds <;> exact List.mem_cons_self

theorem reached_lt (hds : ∀ d ∈ ds, d < base) (hv : v < limit + base) :
    ∀ n ∈ reached base limit v ds, n < limit + base := by
  induction ds generalizing v with
  | nil => exact List.forall_mem_singleton.mpr hv
  | cons d ds ih =>
    obtain ⟨hd, hds⟩ := List.forall_mem_cons.mp hds
    refine List.forall_mem_cons.mpr ⟨hv, ?_⟩
    split
    · exact List.forall_mem_nil _
    · next hsmall => exact ih hds (by omega)

theorem reached_le_iff (hds : ∀ d ∈ ds, d < base) (hv : v ≤ limit) :
    (∀ n ∈ reached base limit v ds, n ≤ limit) ↔
      ∀ p, p <+: ds → limit < value base v p → limit < base * (value base v p / base) := by
  induction ds generalizing v with
  | nil =>
    refine ⟨fun _ p hp hlt => ?_, fun _ => List.forall_mem_singleton.mpr hv⟩
    rw [List.prefix_nil.mp hp] at hlt
    exact absurd hlt (Nat.not_lt.mpr hv)
  | cons d ds ih =>
    obtain ⟨hd, hds⟩ := List.forall_mem_cons.mp hds
    have hnil : ¬ limit < value base v [] := Nat.not_lt.mpr hv
    rw [reached, List.forall_mem_cons, and_iff_right hv]
    by_cases hlarge : limit < base * v
    · rw [if_pos hlarge]
      refine ⟨fun _ p hp hlt => ?_, fun _ => List.forall_mem_nil _⟩
      rcases List.prefix_cons_iff.mp hp with rfl | ⟨p, rfl, -⟩
      · exact absurd hlt hnil
      · exact Nat.lt_of_lt_of_le hlarge (mul_init_value (Nat.zero_lt_of_lt hd))
    · rw [if_neg hlarge]
      by_cases hnext : base * v + d ≤ limit
      · rw [ih hds hnext]
        constructor
        · intro h p hp hlt
          rcases List.prefix_cons_iff.mp hp with rfl | ⟨p, rfl, hrest⟩
          · exact absurd hlt hnil
          · exact h p hrest hlt
        · exact fun h p hp => h (d :: p) ((List.prefix_cons_inj d).mpr hp)
      · -- the digit itself is too much
        refine ⟨fun h => absurd (h _ mem_reached_self) hnext, fun h => ?_⟩
        have hedge := h [d] ((List.prefix_cons_inj d).mpr (List.nil_prefix ..))
          (Nat.not_le.mp hnext)
        rw [value_cons, value_nil, init_add hd] at hedge
        exact absurd hedge hlarge

end Horner
