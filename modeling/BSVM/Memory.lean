/-
# `BSVM.Memory` — `memory.c`

The two word accesses are translated with their loops: an address that is
incremented modulo 2^64 and a byte moved in each round.  `memRead64_eq` and
`memWrite64_eq` then say once what they do, and nothing below this module
looks at the loops again:

    (addr + 7) mod 2^64 ≥ MEM_SIZE     VM_ILL_MEM_ACCESS, nothing changed
    addr + 7 < MEM_SIZE                VM_OK, the eight bytes from `addr`
    otherwise                          addr + 7 wraps: the test passes and the
                                       first access is outside the array

Writes are described by one operation on memories, `overlay`, which the block
operations of the system calls use as well.
-/
import Mathlib.Logic.Function.Basic
import Mathlib.Tactic.Common
import BSVM.Lib.LittleEndian
import BSVM.State

namespace BSVM

/-! ## One byte -/

def VM.load (vm : VM) (addr : Nat) : Exec Byte :=
  if h : addr < MEM_SIZE then .ok (vm.memory ⟨addr, h⟩) else .error .memory

def VM.store (vm : VM) (addr : Nat) (byte : Byte) : Exec VM :=
  if h : addr < MEM_SIZE then
    .ok { vm with memory := Function.update vm.memory ⟨addr, h⟩ byte }
  else .error .memory

/-! ## One word -/

/-- The loop of `memRead64`: `*out |= (int64_t) memory[addr++] << (8 * i)`. -/
def memRead64Loop (vm : VM) (n : Nat) (addr out : Word) : Exec (Word × Word) :=
  (List.range n).foldlM (fun (addr, out) i => do
    let byte ← vm.load addr.toNat
    return (addr + 1, out ||| (byte.setWidth 64 <<< (8 * i)))) (addr, out)

/-- `out` is what the caller's variable holds before the call. -/
def memRead64 (vm : VM) (addr : Word) (out : Word) : Exec (VmError × Word) :=
  if MEM_SIZE ≤ (addr + 7).toNat then .ok (.illMemAccess, out)
  else do
    let (_, out) ← memRead64Loop vm 8 addr 0
    return (.ok, out)

/-- The loop of `memWrite64`: `memory[addr++] = (uint8_t) (value >> 8 * i)`. -/
def memWrite64Loop (vm : VM) (n : Nat) (addr value : Word) : Exec (VM × Word) :=
  (List.range n).foldlM (fun (vm, addr) i => do
    let vm ← vm.store addr.toNat ((value.sshiftRight (8 * i)).setWidth 8)
    return (vm, addr + 1)) (vm, addr)

def memWrite64 (vm : VM) (addr value : Word) : Exec Result :=
  if MEM_SIZE ≤ (addr + 7).toNat then .ok (.illMemAccess, vm)
  else do
    let (vm, _) ← memWrite64Loop vm 8 addr value
    return (.ok, vm)

/-! ## Memories as functions

`readWord` and `overlay` say what the loops compute. -/

/-- The byte at `k`; past the end of the array, which no caller reaches, `0`. -/
def byteAt (m : Memory) (k : Nat) : Byte :=
  if h : k < MEM_SIZE then m ⟨k, h⟩ else 0

/-- The little-endian word at `k`. -/
def readWord (m : Memory) (k : Nat) : Word :=
  LittleEndian.join 64 (fun i => byteAt m (k + i)) 8

/-- `m` with the `n` bytes from `lo` replaced by `f 0 … f (n-1)`. -/
def overlay (m : Memory) (lo n : Nat) (f : Nat → Byte) : Memory :=
  fun k => if lo ≤ k ∧ k < lo + n then f (k - lo) else m k

/-- `m` with the word at `k` replaced by `v`. -/
def writeWord (m : Memory) (k : Nat) (v : Word) : Memory :=
  overlay m k 8 (LittleEndian.byte v)

theorem byteAt_lt {m : Memory} {k : Nat} (h : k < MEM_SIZE) : byteAt m k = m ⟨k, h⟩ :=
  dif_pos h

theorem overlay_outside {m : Memory} {lo n : Nat} {f : Nat → Byte} {k : Fin MEM_SIZE}
    (h : (k : Nat) < lo ∨ lo + n ≤ k) : overlay m lo n f k = m k :=
  if_neg (by omega)

theorem overlay_inside {m : Memory} {lo n : Nat} {f : Nat → Byte} {k : Fin MEM_SIZE}
    (h₁ : lo ≤ k) (h₂ : (k : Nat) < lo + n) : overlay m lo n f k = f (k - lo) :=
  if_pos ⟨h₁, h₂⟩

@[simp] theorem overlay_zero (m : Memory) (lo : Nat) (f : Nat → Byte) :
    overlay m lo 0 f = m := by
  funext k
  exact overlay_outside (by omega)

/-- One more byte of an overlay is a point update at its end. -/
theorem overlay_succ {m : Memory} {lo n : Nat} {f : Nat → Byte} (h : lo + n < MEM_SIZE) :
    overlay m lo (n + 1) f = Function.update (overlay m lo n f) ⟨lo + n, h⟩ (f n) := by
  funext k
  rcases eq_or_ne k ⟨lo + n, h⟩ with rfl | hk
  · rw [Function.update_self, overlay_inside (by simp) (by simp)]
    simp
  · rw [Function.update_of_ne hk]
    have hk' : (k : Nat) ≠ lo + n := fun e => hk (Fin.ext e)
    by_cases h₁ : lo ≤ k ∧ (k : Nat) < lo + n
    · rw [overlay_inside h₁.1 h₁.2, overlay_inside h₁.1 (by omega)]
    · rw [overlay_outside (by omega), overlay_outside (by omega)]

/-- An overlay changes nothing exactly when it writes what is already there. -/
theorem overlay_eq_iff {m : Memory} {lo n : Nat} {f : Nat → Byte} {k : Fin MEM_SIZE} :
    overlay m lo n f k = m k ↔ (lo ≤ k → (k : Nat) < lo + n → f (k - lo) = m k) := by
  by_cases h : lo ≤ k ∧ (k : Nat) < lo + n
  · rw [overlay_inside h.1 h.2]
    exact ⟨fun e _ _ => e, fun e => e h.1 h.2⟩
  · rw [overlay_outside (by omega)]
    exact ⟨fun _ h₁ h₂ => absurd ⟨h₁, h₂⟩ h, fun _ => rfl⟩

theorem byte_readWord {m : Memory} {k i : Nat} (hi : i < 8) :
    LittleEndian.byte (readWord m k) i = byteAt m (k + i) :=
  LittleEndian.byte_join hi (by decide)

/-- The word at `k` is `v` exactly when its eight bytes are those of `v`. -/
theorem readWord_eq_iff {m : Memory} {k : Nat} {v : Word} :
    readWord m k = v ↔ ∀ i < 8, byteAt m (k + i) = LittleEndian.byte v i := by
  constructor
  · rintro rfl i hi
    exact (byte_readWord hi).symm
  · intro h
    rw [readWord, LittleEndian.join_congr h]
    exact LittleEndian.join_byte v (by decide)

theorem byteAt_overlay {m : Memory} {lo n : Nat} {f : Nat → Byte} {k : Nat} (hk : k < MEM_SIZE) :
    byteAt (overlay m lo n f) k = if lo ≤ k ∧ k < lo + n then f (k - lo) else byteAt m k := by
  rw [byteAt_lt hk, byteAt_lt hk]
  rfl

theorem readWord_writeWord {m : Memory} {k : Nat} (v : Word) (h : k + 8 ≤ MEM_SIZE) :
    readWord (writeWord m k v) k = v := by
  refine readWord_eq_iff.mpr fun i hi => ?_
  rw [writeWord, byteAt_overlay (by omega), if_pos (by omega), Nat.add_sub_cancel_left]

theorem readWord_writeWord_of_disjoint {m : Memory} {k j : Nat} (v : Word)
    (h : j + 8 ≤ k ∨ k + 8 ≤ j) : readWord (writeWord m k v) j = readWord m j := by
  refine readWord_eq_iff.mpr fun i hi => ?_
  rw [byte_readWord hi]
  by_cases hin : j + i < MEM_SIZE
  · rw [writeWord, byteAt_overlay hin, if_neg (by omega)]
  · rw [byteAt, byteAt, dif_neg hin, dif_neg hin]

theorem writeWord_self {m : Memory} {k : Nat} {v : Word} (h : readWord m k = v) :
    writeWord m k v = m := by
  funext j
  refine overlay_eq_iff.mpr fun hlo hhi => ?_
  rw [← readWord_eq_iff.mp h (j - k) (by omega), byteAt_lt (by omega)]
  congr 2
  omega

/-- A fresh memory reads as zeros. -/
theorem readWord_fresh (k : Nat) : readWord (fun _ => 0) k = 0 := by
  refine readWord_eq_iff.mpr fun i _ => ?_
  rw [byteAt]
  split <;> simp [LittleEndian.byte]

/-! ## What the loops compute -/

theorem toNat_add_ofNat {a : Word} {n : Nat} (h : a.toNat + n < 2 ^ 64) :
    (a + BitVec.ofNat 64 n).toNat = a.toNat + n := by
  rw [BitVec.toNat_add, BitVec.toNat_ofNat]
  omega

theorem VM.load_lt {vm : VM} {k : Nat} (h : k < MEM_SIZE) :
    vm.load k = .ok (byteAt vm.memory k) := by
  rw [VM.load, dif_pos h, byteAt_lt h]

theorem VM.load_ge {vm : VM} {k : Nat} (h : MEM_SIZE ≤ k) : vm.load k = .error .memory :=
  dif_neg (by omega)

theorem VM.store_ge {vm : VM} {k : Nat} {b : Byte} (h : MEM_SIZE ≤ k) :
    vm.store k b = .error .memory :=
  dif_neg (by omega)

theorem memRead64Loop_eq {vm : VM} {addr : Word} :
    ∀ {n : Nat}, n ≤ 8 → addr.toNat + n ≤ MEM_SIZE →
      memRead64Loop vm n addr 0 = .ok (addr + BitVec.ofNat 64 n,
        LittleEndian.join 64 (fun i => byteAt vm.memory (addr.toNat + i)) n)
  | 0, _, _ => by simp [memRead64Loop, LittleEndian.join, pure, Except.pure]
  | n + 1, hn, h => by
      have ih : memRead64Loop vm n addr 0 = _ := memRead64Loop_eq (by omega) (by omega)
      have hk : (addr + BitVec.ofNat 64 n).toNat = addr.toNat + n :=
        toNat_add_ofNat (by simp at h; omega)
      have hl : vm.load (addr.toNat + n) = _ := VM.load_lt (by omega)
      simp only [memRead64Loop] at ih ⊢
      rw [List.range_succ, List.foldlM_append, ih]
      simp only [List.foldlM_cons, List.foldlM_nil, Except.ok_bind, Except.pure_eq, hk, hl,
        LittleEndian.join]
      rw [BitVec.add_assoc, BitVec.ofNat_add]
      rfl

theorem memWrite64Loop_eq {vm : VM} {addr value : Word} :
    ∀ {n : Nat}, n ≤ 8 → addr.toNat + n ≤ MEM_SIZE →
      memWrite64Loop vm n addr value =
        .ok ({ vm with memory := overlay vm.memory addr.toNat n (LittleEndian.byte value) },
          addr + BitVec.ofNat 64 n)
  | 0, _, _ => by simp [memWrite64Loop, pure, Except.pure]
  | n + 1, hn, h => by
      have ih : memWrite64Loop vm n addr value = _ := memWrite64Loop_eq (by omega) (by omega)
      have hlt : addr.toNat + n < MEM_SIZE := by omega
      have hk : (addr + BitVec.ofNat 64 n).toNat = addr.toNat + n :=
        toNat_add_ofNat (by simp at h; omega)
      have hb := LittleEndian.setWidth_sshiftRight (i := n) value (by omega)
      simp only [memWrite64Loop] at ih ⊢
      rw [List.range_succ, List.foldlM_append, ih]
      simp only [List.foldlM_cons, List.foldlM_nil, Except.ok_bind, Except.pure_eq, hk, hb,
        VM.store, dif_pos hlt, overlay_succ hlt]
      rw [BitVec.add_assoc, BitVec.ofNat_add]
      rfl

/-! ## The two word accesses -/

/-- `addr + 7` of the bounds test, as a number. -/
theorem toNat_add_seven (addr : Word) :
    (addr + 7).toNat =
      if addr.toNat + 7 < 2 ^ 64 then addr.toNat + 7 else addr.toNat + 7 - 2 ^ 64 := by
  have := addr.isLt
  rw [BitVec.toNat_add]
  split <;> simp <;> omega

theorem memRead64_eq (vm : VM) (addr out : Word) :
    memRead64 vm addr out =
      if MEM_SIZE ≤ (addr + 7).toNat then .ok (.illMemAccess, out)
      else if addr.toNat + 7 < MEM_SIZE then .ok (.ok, readWord vm.memory addr.toNat)
      else .error .memory := by
  unfold memRead64
  split
  · rfl
  · split
    · next h =>
        rw [memRead64Loop_eq (Nat.le_refl 8) (by omega)]
        rfl
    · next h₁ h₂ =>
        have hge : MEM_SIZE ≤ addr.toNat := by
          rw [toNat_add_seven] at h₁
          split at h₁ <;> simp at h₁ h₂ ⊢ <;> omega
        simp only [memRead64Loop, List.range_succ_eq_map, List.foldlM_cons, VM.load_ge hge]
        rfl

theorem memWrite64_eq (vm : VM) (addr value : Word) :
    memWrite64 vm addr value =
      if MEM_SIZE ≤ (addr + 7).toNat then .ok (.illMemAccess, vm)
      else if addr.toNat + 7 < MEM_SIZE then
        .ok (.ok, { vm with memory := writeWord vm.memory addr.toNat value })
      else .error .memory := by
  unfold memWrite64
  split
  · rfl
  · split
    · next h =>
        rw [memWrite64Loop_eq (Nat.le_refl 8) (by omega)]
        rfl
    · next h₁ h₂ =>
        have hge : MEM_SIZE ≤ addr.toNat := by
          rw [toNat_add_seven] at h₁
          split at h₁ <;> simp at h₁ h₂ ⊢ <;> omega
        simp only [memWrite64Loop, List.range_succ_eq_map, List.foldlM_cons, VM.store_ge hge]
        rfl

/-! ## Inside and outside the array -/

/-- An address the bounds test refuses is not the address of a word. -/
theorem not_inside {addr : Word} (h : MEM_SIZE ≤ (addr + 7).toNat) :
    ¬ addr.toNat + 7 < MEM_SIZE := by
  rw [toNat_add_seven] at h
  split at h <;> simp at h ⊢ <;> omega

/-- The bounds test is right where its sum does not wrap. -/
theorem refused_iff {addr : Word} (h : addr.toNat + 7 < 2 ^ 64) :
    MEM_SIZE ≤ (addr + 7).toNat ↔ ¬ addr.toNat + 7 < MEM_SIZE := by
  rw [toNat_add_seven, if_pos h, Nat.not_lt]

theorem memRead64_inside {addr : Word} (h : addr.toNat + 7 < MEM_SIZE) (vm : VM) (out : Word) :
    memRead64 vm addr out = .ok (.ok, readWord vm.memory addr.toNat) := by
  rw [memRead64_eq, if_neg (mt not_inside (not_not.mpr h)), if_pos h]

theorem memWrite64_inside {addr : Word} (h : addr.toNat + 7 < MEM_SIZE) (vm : VM) (value : Word) :
    memWrite64 vm addr value =
      .ok (.ok, { vm with memory := writeWord vm.memory addr.toNat value }) := by
  rw [memWrite64_eq, if_neg (mt not_inside (not_not.mpr h)), if_pos h]

theorem memRead64_outside {addr : Word} (hwrap : addr.toNat + 7 < 2 ^ 64)
    (h : ¬ addr.toNat + 7 < MEM_SIZE) (vm : VM) (out : Word) :
    memRead64 vm addr out = .ok (.illMemAccess, out) := by
  rw [memRead64_eq, if_pos ((refused_iff hwrap).mpr h)]

theorem memWrite64_outside {addr : Word} (hwrap : addr.toNat + 7 < 2 ^ 64)
    (h : ¬ addr.toNat + 7 < MEM_SIZE) (vm : VM) (value : Word) :
    memWrite64 vm addr value = .ok (.illMemAccess, vm) := by
  rw [memWrite64_eq, if_pos ((refused_iff hwrap).mpr h)]

/-! ## Word accesses, read backwards -/

theorem memRead64_cases {vm : VM} {addr out v : Word} {status : VmError}
    (h : memRead64 vm addr out = .ok (status, v)) :
    (status = .ok ∧ addr.toNat + 7 < MEM_SIZE ∧ v = readWord vm.memory addr.toNat) ∨
    (status = .illMemAccess ∧ ¬ addr.toNat + 7 < MEM_SIZE ∧ v = out) := by
  rw [memRead64_eq] at h
  split at h
  · next hge =>
      cases h
      exact Or.inr ⟨rfl, not_inside hge, rfl⟩
  · split at h
    · next hlt =>
        cases h
        exact Or.inl ⟨rfl, hlt, rfl⟩
    · cases h

theorem memWrite64_cases {vm vm' : VM} {addr v : Word} {status : VmError}
    (h : memWrite64 vm addr v = .ok (status, vm')) :
    (status = .ok ∧ addr.toNat + 7 < MEM_SIZE ∧
      vm' = { vm with memory := writeWord vm.memory addr.toNat v }) ∨
    (status = .illMemAccess ∧ ¬ addr.toNat + 7 < MEM_SIZE ∧ vm' = vm) := by
  rw [memWrite64_eq] at h
  split at h
  · next hge =>
      cases h
      exact Or.inr ⟨rfl, not_inside hge, rfl⟩
  · split at h
    · next hlt =>
        cases h
        exact Or.inl ⟨rfl, hlt, rfl⟩
    · cases h

/-! ## Which addresses are answered

Seven addresses at the end of the address space are not: the sum of the bounds
test wraps, and the first access is outside the array. -/

/-- `memRead64` reads the word at `addr` if it is in the array, from its own eight
bytes, and leaves `*out` alone if it is not. -/
structure ReadsWord (vm : VM) (addr out : Word) : Prop where
  inside : addr.toNat + 7 < MEM_SIZE →
    memRead64 vm addr out = .ok (.ok, readWord vm.memory addr.toNat) ∧
      ∀ vm' : VM,
        (∀ i < 8, byteAt vm'.memory (addr.toNat + i) = byteAt vm.memory (addr.toNat + i)) →
        memRead64 vm' addr out = memRead64 vm addr out
  outside : ¬ addr.toNat + 7 < MEM_SIZE → memRead64 vm addr out = .ok (.illMemAccess, out)

/-- `memWrite64` changes the eight bytes from `addr` if they are in the array, and
nothing if they are not. -/
structure WritesWord (vm : VM) (addr value : Word) : Prop where
  inside : addr.toNat + 7 < MEM_SIZE →
    ∃ m, memWrite64 vm addr value = .ok (.ok, { vm with memory := m }) ∧
      readWord m addr.toNat = value ∧
      ∀ k : Fin MEM_SIZE, (k : Nat) < addr.toNat ∨ addr.toNat + 8 ≤ k → m k = vm.memory k
  outside : ¬ addr.toNat + 7 < MEM_SIZE → memWrite64 vm addr value = .ok (.illMemAccess, vm)

theorem readsWord {addr : Word} (h : addr.toNat + 7 < 2 ^ 64) (vm : VM) (out : Word) :
    ReadsWord vm addr out where
  inside hlt := by
    refine ⟨memRead64_inside hlt vm out, fun vm' hsame => ?_⟩
    rw [memRead64_inside hlt, memRead64_inside hlt]
    congr 2
    refine readWord_eq_iff.mpr fun i hi => ?_
    rw [hsame i hi, byte_readWord hi]
  outside hge := memRead64_outside h hge vm out

theorem writesWord {addr : Word} (h : addr.toNat + 7 < 2 ^ 64) (vm : VM) (value : Word) :
    WritesWord vm addr value where
  inside hlt := by
    refine ⟨writeWord vm.memory addr.toNat value, memWrite64_inside hlt vm value, ?_, ?_⟩
    · exact readWord_writeWord value hlt
    · exact fun k hk => overlay_outside hk
  outside hge := memWrite64_outside h hge vm value

/-- **The two word accesses do what is asked of them** at the addresses that do not
wrap, and at no other. -/
theorem word_access_iff (vm : VM) (addr out value : Word) :
    ReadsWord vm addr out ∧ WritesWord vm addr value ↔ addr.toNat + 7 < 2 ^ 64 := by
  constructor
  · rintro ⟨hread, -⟩
    by_contra hwrap
    have hout : ¬ addr.toNat + 7 < MEM_SIZE := fun hlt => hwrap (Nat.lt_trans hlt (by decide))
    have hrefused := hread.outside hout
    have hsum : (addr + 7).toNat < MEM_SIZE := by
      have hlt := addr.isLt
      rw [toNat_add_seven, if_neg hwrap]
      simp only [MEM_SIZE]
      omega
    rw [memRead64_eq, if_neg (Nat.not_le.mpr hsum), if_neg hout] at hrefused
    cases hrefused
  · exact fun h => ⟨readsWord h vm out, writesWord h vm value⟩

/-- The last address: `addr + 7` is 6. -/
theorem last_address_faults :
    memRead64 initVM (-1) 0 = .error .memory ∧ memWrite64 initVM (-1) 0 = .error .memory ∧
      ¬ (ReadsWord initVM (-1) 0 ∧ WritesWord initVM (-1) 0) := by
  have hread : memRead64 initVM (-1) 0 = .error .memory := rfl
  refine ⟨hread, rfl, fun h => ?_⟩
  have hrefused := h.1.outside (by decide)
  rw [hread] at hrefused
  cases hrefused

/-! ## A word that is written, and words that are read

Two words of memory may be the same, meet in part, or be apart; each byte of the one
that is read says for itself which of the two memories it is from. -/

/-- What is asked of a write at `p` that leaves `vm'`, and of the reads around it. -/
structure ReadsBack (vm : VM) (p q v out : Word) (vm' : VM) : Prop where
  written : memWrite64 vm p v = .ok (.ok, vm')
  read : memRead64 vm' p out = .ok (.ok, v)
  frame : ∀ k : Fin MEM_SIZE, (k : Nat) < p.toNat ∨ p.toNat + 8 ≤ k → vm'.memory k = vm.memory k
  rest : vm' = { vm with memory := vm'.memory }
  apart : p.toNat + 8 ≤ q.toNat ∨ q.toNat + 8 ≤ p.toNat →
    memRead64 vm' q out = memRead64 vm q out
  /-- new bytes where the two words meet, and old bytes elsewhere -/
  bytes : ∃ w, memRead64 vm' q out = .ok (.ok, w) ∧ ∀ i < 8, LittleEndian.byte w i =
    if p.toNat ≤ q.toNat + i ∧ q.toNat + i < p.toNat + 8 then
      LittleEndian.byte v (q.toNat + i - p.toNat)
    else byteAt vm.memory (q.toNat + i)
  /-- the word that was read, written back -/
  back : ∃ w, memRead64 vm q out = .ok (.ok, w) ∧ memWrite64 vm q w = .ok (.ok, vm)

/-- **A word is read back as it was written**, words apart from it as they were, and a
word that meets it byte by byte. -/
theorem reads_back (vm : VM) (p q v out : Word) (hp : p.toNat ≤ MEM_SIZE - 8)
    (hq : q.toNat ≤ MEM_SIZE - 8) : ∃ vm', ReadsBack vm p q v out vm' := by
  have hp8 : p.toNat + 7 < MEM_SIZE := Nat.lt_of_le_of_lt (Nat.add_le_add_right hp 7) (by decide)
  have hq8 : q.toNat + 7 < MEM_SIZE := Nat.lt_of_le_of_lt (Nat.add_le_add_right hq 7) (by decide)
  refine ⟨{ vm with memory := writeWord vm.memory p.toNat v }, memWrite64_inside hp8 vm v, ?_,
    fun k hk => overlay_outside hk, rfl, fun hapart => ?_, ?_, ?_⟩
  · rw [memRead64_inside hp8, readWord_writeWord v hp8]
  · rw [memRead64_inside hq8, memRead64_inside hq8, readWord_writeWord_of_disjoint v hapart.symm]
  · refine ⟨_, memRead64_inside hq8 _ out, fun i hi => ?_⟩
    rw [byte_readWord hi, writeWord, byteAt_overlay (by omega)]
  · refine ⟨_, memRead64_inside hq8 vm out, ?_⟩
    rw [memWrite64_inside hq8, writeWord_self rfl]

/-- -2 at 1280, and the word three bytes further. -/
theorem reads_back_minus_two : ∃ vm', ReadsBack initVM 1280 1283 (-2) 0 vm' :=
  reads_back initVM 1280 1283 (-2) 0 (by decide) (by decide)

end BSVM
