/-
# `BSVM.Lib.Growable` — an array that doubles when it is full

An array counts its elements, has a size in elements and a block of some
bytes.  Before an element is stored a full array doubles its size and gets a
block of `realloc size` bytes, which has the common prefix of the old one.
The store is right if the block then has the bytes of the new element and the
elements before it were in both blocks (`Holds`).

With a block that has its size (`Sound`), the store is right if `realloc` gives
the new size its bytes (`Sound.holds`).  If it gives too few, the store is right
exactly below the size (`Sound.holds_iff`).
-/
import Mathlib.Order.Lattice

structure Growable where
  count : Nat
  size : Nat
  bytes : Nat

namespace Growable

variable {elem : Nat} {realloc : Nat → Nat} {a b : Growable}

/-- The growth before a store. -/
def grow (realloc : Nat → Nat) (a : Growable) : Growable :=
  if a.count = a.size then { a with size := 2 * a.size, bytes := realloc a.size } else a

/-- The store. -/
def push (a : Growable) : Growable := { a with count := a.count + 1 }

/-- Element `count` can be stored in `b`, to which `a` has grown, behind the others. -/
structure Holds (elem : Nat) (a b : Growable) : Prop where
  fits : (b.count + 1) * elem ≤ b.bytes
  kept : a.count * elem ≤ min a.bytes b.bytes

/-- There is a block, it has its size, and the elements are in it. -/
structure Sound (elem : Nat) (a : Growable) : Prop where
  le : a.count ≤ a.size
  pos : 0 < a.size
  bytes : a.bytes = a.size * elem

theorem Sound.kept (h : a.Sound elem) : a.count * elem ≤ a.bytes := by
  rw [h.bytes]
  exact Nat.mul_le_mul_right elem h.le

theorem grow_full (h : a.count = a.size) :
    a.grow realloc = ⟨a.count, 2 * a.size, realloc a.size⟩ := if_pos h

theorem grow_free (h : a.count ≠ a.size) : a.grow realloc = a := if_neg h

/-- Below the size, nothing grows. -/
theorem Sound.holds_of_lt (h : a.Sound elem) (hlt : a.count < a.size) :
    Holds elem a (a.grow realloc) := by
  rw [grow_free hlt.ne]
  refine ⟨?_, ?_⟩
  · rw [h.bytes]
    exact Nat.mul_le_mul_right elem hlt
  · rw [min_self]
    exact h.kept

/-- The rule for a `realloc` that gives the new size its bytes. -/
theorem Sound.holds (h : a.Sound elem) (hrealloc : realloc a.size = 2 * a.size * elem) :
    Holds elem a (a.grow realloc) := by
  by_cases hfull : a.count = a.size
  · have hpos := h.pos
    have hmore : a.count + 1 ≤ 2 * a.size := by omega
    rw [grow_full hfull, hrealloc]
    refine ⟨Nat.mul_le_mul_right elem hmore, le_min h.kept ?_⟩
    exact Nat.mul_le_mul_right elem (Nat.le_of_succ_le hmore)
  · exact h.holds_of_lt (lt_of_le_of_ne h.le hfull)

/-- The rule for one that does not. -/
theorem Sound.lt_of_fits (h : a.Sound elem) (hrealloc : realloc a.size < (a.size + 1) * elem)
    (hfits : ((a.grow realloc).count + 1) * elem ≤ (a.grow realloc).bytes) : a.count < a.size := by
  refine lt_of_le_of_ne h.le fun hfull => ?_
  rw [grow_full hfull, hfull] at hfits
  exact absurd hrealloc (Nat.not_lt.mpr hfits)

theorem Sound.holds_iff (h : a.Sound elem) (hrealloc : realloc a.size < (a.size + 1) * elem) :
    Holds elem a (a.grow realloc) ↔ a.count < a.size :=
  ⟨fun hholds => h.lt_of_fits hrealloc hholds.fits, h.holds_of_lt⟩

end Growable
