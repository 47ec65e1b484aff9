/-
# `BSVM.Lib.Tiling` — pieces that fill an interval without gap or overlap

A piece `x` starts at `lo x` and is `len x` long.  `Tiles lo len xs a b` says
that the pieces `xs`, in order, fill `[a, b)`: the first starts at `a`, each
starts where the one before ends, the last ends at `b`.  Pieces of length
zero are allowed, so several pieces may start at one point.

Everything about the interval follows from the order of the list alone: the
lengths add up (`Tiles.sum`), every piece is inside (`Tiles.bounds`) and a
piece ends before any later one starts (`Tiles.pairwise`).  Cutting a piece
in two and joining two neighbours are one equivalence, `tiles_cut`.
-/
import Mathlib.Algebra.Order.Monoid.Canonical.Defs
import Mathlib.Algebra.BigOperators.Group.List.Basic

namespace Tiling

variable {ι M : Type*} [AddMonoid M] {lo len : ι → M}

/-- `xs` fills `[a, b)` in order. -/
def Tiles (lo len : ι → M) : List ι → M → M → Prop
  | [], a, b => a = b
  | x :: xs, a, b => lo x = a ∧ Tiles lo len xs (a + len x) b

theorem tiles_append {xs ys : List ι} :
    ∀ {a c : M}, Tiles lo len (xs ++ ys) a c ↔
      ∃ b, Tiles lo len xs a b ∧ Tiles lo len ys b c := by
  induction xs with
  | nil => exact ⟨fun h => ⟨_, rfl, h⟩, fun ⟨_, e, h⟩ => e ▸ h⟩
  | cons x xs ih =>
      intro a c
      simp only [List.cons_append, Tiles, ih]
      constructor
      · rintro ⟨hx, b, h₁, h₂⟩
        exact ⟨b, ⟨hx, h₁⟩, h₂⟩
      · rintro ⟨b, ⟨hx, h₁⟩, h₂⟩
        exact ⟨hx, b, h₁, h₂⟩

/-- Replacing a run of pieces by another that fills the same interval. -/
theorem Tiles.replace {l u v r : List ι} {a b : M} (h : Tiles lo len (l ++ (u ++ r)) a b)
    (hmid : ∀ c d, Tiles lo len u c d → Tiles lo len v c d) :
    Tiles lo len (l ++ (v ++ r)) a b := by
  obtain ⟨c, hpre, h⟩ := tiles_append.mp h
  obtain ⟨d, hm, hpost⟩ := tiles_append.mp h
  exact tiles_append.mpr ⟨c, hpre, tiles_append.mpr ⟨d, hmid c d hm, hpost⟩⟩

/-- A piece and the two it is cut into fill the same interval. -/
theorem tiles_cut {x y z : ι} {a b : M} (hy : lo y = lo x) (hz : lo z = lo y + len y)
    (hlen : len y + len z = len x) :
    Tiles lo len [x] a b ↔ Tiles lo len [y, z] a b := by
  simp only [Tiles, hy, hz, ← hlen, add_assoc]
  constructor
  · rintro ⟨rfl, h⟩
    exact ⟨rfl, rfl, h⟩
  · rintro ⟨rfl, -, h⟩
    exact ⟨rfl, h⟩

theorem Tiles.sum {xs : List ι} :
    ∀ {a b : M}, Tiles lo len xs a b → a + (xs.map len).sum = b := by
  induction xs with
  | nil =>
      intro a b h
      rw [List.map_nil, List.sum_nil, add_zero]
      exact h
  | cons x xs ih =>
      rintro a b ⟨_, h⟩
      rw [List.map_cons, List.sum_cons, ← add_assoc]
      exact ih h

/-- A tiling spelled out: where it starts, how its pieces follow one another,
and what their lengths add up to. -/
theorem tiles_iff {xs : List ι} :
    ∀ {a b : M}, Tiles lo len xs a b ↔
      (∀ x ∈ xs.head?, lo x = a) ∧ xs.IsChain (fun x y => lo x + len x = lo y) ∧
        a + (xs.map len).sum = b := by
  induction xs with
  | nil => simp [Tiles]
  | cons x xs ih =>
      intro a b
      cases xs with
      | nil => simp [Tiles]
      | cons y xs =>
          rw [Tiles, ih]
          simp only [List.head?_cons, Option.mem_some_iff, forall_eq', List.isChain_cons_cons,
            List.map_cons, List.sum_cons, add_assoc]
          constructor
          · rintro ⟨rfl, hy, hc, hs⟩
            exact ⟨rfl, ⟨hy.symm, hc⟩, hs⟩
          · rintro ⟨rfl, ⟨hy, hc⟩, hs⟩
            exact ⟨rfl, hy.symm, hc, hs⟩

/-! ## In an order where adding only grows -/

section Order
variable [PartialOrder M] [CanonicallyOrderedAdd M]

theorem Tiles.le {xs : List ι} {a b : M} (h : Tiles lo len xs a b) : a ≤ b :=
  h.sum ▸ le_self_add

/-- Every piece lies inside the interval. -/
theorem Tiles.bounds {xs : List ι} {a b : M} {x : ι} (h : Tiles lo len xs a b) (hx : x ∈ xs) :
    a ≤ lo x ∧ lo x + len x ≤ b := by
  obtain ⟨pre, post, rfl⟩ := List.append_of_mem hx
  obtain ⟨c, hpre, hxc, hpost⟩ := tiles_append.mp h
  exact ⟨hxc ▸ hpre.le, hxc ▸ hpost.le⟩

/-- A piece ends before any later one starts. -/
theorem Tiles.pairwise {xs : List ι} :
    ∀ {a b : M}, Tiles lo len xs a b → xs.Pairwise (fun x y => lo x + len x ≤ lo y) := by
  induction xs with
  | nil => exact fun _ => .nil
  | cons x xs ih =>
      rintro a b ⟨rfl, h⟩
      exact .cons (fun y hy => (h.bounds hy).1) (ih h)

end Order

end Tiling
