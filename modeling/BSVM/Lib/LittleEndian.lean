/-
# `BSVM.Lib.LittleEndian` — a word as its bytes, least significant first

`byte v i` is the `i`-th byte of `v`, `join w f n` the word of width `w` whose
first `n` bytes are `f 0 … f (n-1)`.  Both are read bit by bit
(`getLsbD_byte`, `getLsbD_join`), which makes them inverse to each other
whenever the bytes cover the word.
-/
import Mathlib.Logic.Basic

namespace LittleEndian

variable {w : Nat}

/-- Byte `i` of `v`. -/
def byte (v : BitVec w) (i : Nat) : BitVec 8 :=
  (v >>> (8 * i)).setWidth 8

/-- The word of the bytes `f 0 … f (n-1)`. -/
def join (w : Nat) (f : Nat → BitVec 8) : Nat → BitVec w
  | 0 => 0
  | n + 1 => join w f n ||| ((f n).setWidth w <<< (8 * n))

theorem getLsbD_byte (v : BitVec w) (i j : Nat) :
    (byte v i).getLsbD j = (decide (j < 8) && v.getLsbD (8 * i + j)) := by
  simp [byte]

theorem getLsbD_join (f : Nat → BitVec 8) (n k : Nat) :
    (join w f n).getLsbD k =
      (decide (k < w) && decide (k < 8 * n) && (f (k / 8)).getLsbD (k % 8)) := by
  induction n with
  | zero => simp [join]
  | succ n ih =>
      simp only [join, BitVec.getLsbD_or, ih, BitVec.getLsbD_shiftLeft,
        BitVec.getLsbD_setWidth]
      -- bit `k` comes from the part already joined, from byte `n`, or from neither
      rcases Nat.lt_trichotomy (k / 8) n with hlt | heq | hgt
      · have h1 : k < 8 * n := by omega
        have h2 : k < 8 * (n + 1) := by omega
        simp [h1, h2]
      · have h1 : ¬ k < 8 * n := by omega
        have h2 : k < 8 * (n + 1) := by omega
        have h3 : k - 8 * n = k % 8 := by omega
        have h4 : k % 8 < w ∨ ¬ k < w := by omega
        rcases h4 with h4 | h4 <;> simp [h1, h2, h3, h4, heq]
      · have h1 : ¬ k < 8 * n := by omega
        have h2 : ¬ k < 8 * (n + 1) := by omega
        have h3 : 8 ≤ k - 8 * n := by omega
        simp [h1, h2, BitVec.getLsbD_of_ge _ _ h3]

theorem byte_join {f : Nat → BitVec 8} {n i : Nat} (hi : i < n) (hn : 8 * n ≤ w) :
    byte (join w f n) i = f i := by
  refine BitVec.eq_of_getLsbD_eq fun j hj => ?_
  have h1 : 8 * i + j < w := by omega
  have h2 : 8 * i + j < 8 * n := by omega
  have h3 : (8 * i + j) / 8 = i := by omega
  have h4 : (8 * i + j) % 8 = j := by omega
  rw [getLsbD_byte, getLsbD_join, h3, h4]
  simp [hj, h1, h2]

theorem join_byte {n : Nat} (v : BitVec w) (hn : w ≤ 8 * n) : join w (byte v) n = v := by
  refine BitVec.eq_of_getLsbD_eq fun k hk => ?_
  have h1 : k < 8 * n := by omega
  have h2 : k % 8 < 8 := Nat.mod_lt _ (by decide)
  have h3 : 8 * (k / 8) + k % 8 = k := Nat.div_add_mod k 8
  rw [getLsbD_join, getLsbD_byte, h3]
  simp [hk, h1, h2]

theorem join_congr {f g : Nat → BitVec 8} {n : Nat} (h : ∀ i < n, f i = g i) :
    join w f n = join w g n := by
  induction n with
  | zero => rfl
  | succ n ih =>
      rw [join, join, ih fun i hi => h i (Nat.lt_succ_of_lt hi), h n (Nat.lt_succ_self n)]

/-- The bytes an arithmetic shift exposes are those of the logical one, as
long as it stays inside the word. -/
theorem setWidth_sshiftRight {i : Nat} (v : BitVec w) (hi : 8 * i + 8 ≤ w) :
    (v.sshiftRight (8 * i)).setWidth 8 = byte v i := by
  refine BitVec.eq_of_getLsbD_eq fun j hj => ?_
  have h1 : 8 * i + j < w := by omega
  rw [BitVec.getLsbD_setWidth, getLsbD_byte, BitVec.getLsbD_sshiftRight]
  simp [hj, h1]
  omega

end LittleEndian
