/-
# `BSVM.FetchSet` — FAS reads and sets one word

`FAS` computes its address twice, once to read and once to write, and in two of its
three modes not in the same way (`fasStore`):

    DIR            the address of the instruction, both times
    IND            R[b], then the number b
    IDX, a ≠ b     R[b] + o, both times
    IDX, a = b     R[b] + o, then the word that was read plus o

Where the two differ the wrong word becomes 1, which is seen unless both words are
1 already (`writeWord_one_iff`).
-/
import BSVM.Cpu
import BSVM.Effect

namespace BSVM

variable {host : Host} {vm : VM} {i : Instruction}

/-! ## Two writes of 1 -/

theorem byte_one {n : Nat} (hpos : 0 < n) (hlt : n < 8) :
    LittleEndian.byte (1 : Word) n ≠ LittleEndian.byte (1 : Word) 0 := by
  obtain rfl | rfl | rfl | rfl | rfl | rfl | rfl :
      n = 1 ∨ n = 2 ∨ n = 3 ∨ n = 4 ∨ n = 5 ∨ n = 6 ∨ n = 7 := by omega
  all_goals decide

/-- Of two words that overlap, only one can be 1. -/
theorem not_both_one {m : Memory} {j k : Nat} (hjk : j < k) (hover : k < j + 8)
    (hk : k + 8 ≤ MEM_SIZE) : writeWord m j 1 ≠ writeWord m k 1 := by
  intro h
  have hbyte := congrArg (fun m => byteAt m k) h
  rw [writeWord, writeWord, byteAt_overlay (by omega), byteAt_overlay (by omega),
    if_pos ⟨hjk.le, hover⟩, if_pos ⟨Nat.le_refl k, by omega⟩, Nat.sub_self] at hbyte
  exact byte_one (by omega) (by omega) hbyte

theorem writeWord_one_iff {m : Memory} {j k : Nat} (hj : j + 8 ≤ MEM_SIZE) (hk : k + 8 ≤ MEM_SIZE) :
    writeWord m j 1 = writeWord m k 1 ↔ j = k ∨ (readWord m k = 1 ∧ readWord m j = 1) := by
  constructor
  · intro h
    by_cases hdisj : j + 8 ≤ k ∨ k + 8 ≤ j
    · refine .inr ⟨?_, ?_⟩
      · rw [← readWord_writeWord_of_disjoint 1 (hdisj.symm) (m := m), h, readWord_writeWord 1 hk]
      · rw [← readWord_writeWord_of_disjoint 1 hdisj (m := m), ← h, readWord_writeWord 1 hj]
    · rcases Nat.lt_trichotomy j k with hlt | heq | hgt
      · exact absurd h (not_both_one hlt (by omega) hk)
      · exact .inl heq
      · exact absurd h.symm (not_both_one hgt (by omega) hj)
  · rintro (rfl | ⟨hread, hread'⟩)
    · rfl
    · rw [writeWord_self hread, writeWord_self hread']

/-! ## The three modes -/

/-- Both accesses, the second one at the address that is computed then. -/
theorem fetchSet_eq {addr' : VM → Exec Word} (ha : i.a.toNat < N_REG)
    (haddr : addr' (vm.fetched i ⟨i.a.toNat, ha⟩) = .ok (fasStore vm i)) :
    fetchSet vm i.a (fasLoad vm i) addr' =
      if MEM_SIZE ≤ (fasLoad vm i + 7).toNat then .ok (.illMemAccess, vm)
      else if (fasLoad vm i).toNat + 7 < MEM_SIZE then
        memWrite64 (vm.fetched i ⟨i.a.toNat, ha⟩) (fasStore vm i) 1
      else .error .memory := by
  have hset : vm.setReg i.a (readWord vm.memory (fasLoad vm i).toNat)
      = .ok (vm.fetched i ⟨i.a.toNat, ha⟩) := VM.setReg_lt ha
  rw [fetchSet, onWord, memRead64_eq]
  split
  · rfl
  · split
    · simp only [Except.ok_bind, if_true, bodyLD, hset, Except.pure_eq, haddr]
    · rfl

/-- The modes of `FAS`. -/
abbrev FasMode (mode : Mode) : Prop :=
  mode = .dir ∨ mode = .ind ∨ mode = .idx

theorem execute_fas (host : Host) (hop : i.opcode = .fas) (hm : FasMode i.mode)
    (ha : i.a.toNat < N_REG) (hb : i.b.toNat < N_REG) :
    execute host vm i =
      if (fasLoad vm i).toNat < DATA_BASE ∨ MEM_SIZE ≤ (fasLoad vm i + 7).toNat then
        .ok (.illMemAccess, vm)
      else if (fasLoad vm i).toNat + 7 < MEM_SIZE then
        memWrite64 (vm.fetched i ⟨i.a.toNat, ha⟩) (fasStore vm i) 1
      else .error .memory := by
  have hor : ∀ x : Exec Result, (if (fasLoad vm i).toNat < DATA_BASE ∨
      MEM_SIZE ≤ (fasLoad vm i + 7).toNat then .ok (.illMemAccess, vm) else x) =
        if (fasLoad vm i).toNat < DATA_BASE then .ok (.illMemAccess, vm)
        else if MEM_SIZE ≤ (fasLoad vm i + 7).toNat then .ok (.illMemAccess, vm) else x := by
    intro x
    by_cases h : (fasLoad vm i).toNat < DATA_BASE <;> simp [h]
  have hand : ¬ (N_REG ≤ i.a.toNat ∧ N_REG ≤ i.b.toNat) := fun h => Nat.not_lt.mpr h.1 ha
  rw [hor, execute, hop]
  rcases hm with hm | hm | hm
  · have hload : i.args = fasLoad vm i := by rw [fasLoad, hm]
    have hstore : fasStore vm i = fasLoad vm i := by rw [fasStore, fasLoad, hm]
    rw [hm]
    show atDIR _ vm i = _
    rw [atDIR, if_neg (Nat.not_le.mpr ha), inData, hload,
      fetchSet_eq ha (congrArg Except.ok hstore.symm)]
  · have hload : vm.reg i.b = fasLoad vm i := by rw [fasLoad, hm]
    have hstore : fasStore vm i = i.b.setWidth 64 := by rw [fasStore, hm]
    rw [hm]
    show instrFASI vm i = _
    rw [instrFASI, if_neg hand, VM.getReg_reg hb, Except.ok_bind, hload,
      fetchSet_eq ha (congrArg Except.ok hstore.symm)]
    rfl
  · have hload : vm.reg i.b + i.args = fasLoad vm i := by rw [fasLoad, hm]
    have haddr : (do
        let b ← (vm.fetched i ⟨i.a.toNat, ha⟩).getReg i.b
        return b + i.args) = Except.ok (fasStore vm i) := by
      rw [VM.getReg_reg hb, Except.ok_bind, fetched_reg _ rfl hb, fasStore, hm]
      rfl
    rw [hm]
    show instrFASX vm i = _
    rw [instrFASX, if_neg hand, VM.getReg_reg hb, Except.ok_bind, hload, fetchSet_eq ha haddr]
    rfl

/-- The word at the effective address is in the array and not in the code. -/
abbrev Addressable (ea : Nat) : Prop :=
  DATA_BASE ≤ ea ∧ ea ≤ MEM_SIZE - 8

/-- `FAS` leaves the old word in the register and 1 in its place, and nothing where
there is no such word. -/
structure FetchesAndSets (host : Host) (vm : VM) (i : Instruction) : Prop where
  sets : Addressable (fasLoad vm i).toNat →
    ∃ vm₁, vm.setReg i.a (readWord vm.memory (fasLoad vm i).toNat) = .ok vm₁ ∧
      execute host vm i
        = .ok (.ok, { vm₁ with memory := writeWord vm.memory (fasLoad vm i).toNat 1 })
  refuses : ¬ Addressable (fasLoad vm i).toNat → execute host vm i = .ok (.illMemAccess, vm)

/-- The second access, when the first has succeeded. -/
theorem stores_iff {w : VM} {k : Nat} (st : Word) (hk : k + 8 ≤ MEM_SIZE) :
    memWrite64 w st 1 = .ok (.ok, { w with memory := writeWord w.memory k 1 }) ↔
      st.toNat = k ∨ (st.toNat + 7 < MEM_SIZE ∧ readWord w.memory k = 1 ∧
        readWord w.memory st.toNat = 1) := by
  by_cases hst : st.toNat + 7 < MEM_SIZE
  · rw [memWrite64_inside hst]
    constructor
    · intro h
      have hmem := congrArg VM.memory (Prod.mk.inj (Except.ok.inj h)).2
      exact ((writeWord_one_iff hst hk).mp hmem).imp id fun h => ⟨hst, h⟩
    · intro h
      rw [(writeWord_one_iff hst hk).mpr (h.imp id And.right)]
  · constructor
    · intro h
      rcases memWrite64_cases h with ⟨-, hlt, -⟩ | ⟨hill, -⟩
      · exact absurd hlt hst
      · cases hill
    · rintro (h | h)
      · exact absurd (h ▸ hk) hst
      · exact absurd h.1 hst

/-- The tests of an address that does not wrap. -/
theorem addressable_iff {ea : Word} (h : ea.toNat + 7 < 2 ^ 64) :
    Addressable ea.toNat ↔ ¬ (ea.toNat < DATA_BASE ∨ MEM_SIZE ≤ (ea + 7).toNat) := by
  rw [toNat_add_seven, if_pos h]
  simp only [MEM_SIZE, DATA_BASE, Addressable]
  omega

/-- One that wraps passes them. -/
theorem wrapped_passes {ea : Word} (h : ¬ ea.toNat + 7 < 2 ^ 64) :
    ¬ (ea.toNat < DATA_BASE ∨ MEM_SIZE ≤ (ea + 7).toNat) := by
  have hlt := ea.isLt
  rw [toNat_add_seven, if_neg h]
  simp only [MEM_SIZE, DATA_BASE]
  omega

theorem Addressable.inside {ea : Nat} (h : Addressable ea) : ea + 7 < MEM_SIZE := by
  simp only [MEM_SIZE, DATA_BASE, Addressable] at h ⊢
  omega

theorem fetchesAndSets_iff (ha : i.a.toNat < N_REG) (haddr : Addressable (fasLoad vm i).toNat) :
    FetchesAndSets host vm i ↔ execute host vm i = .ok (.ok,
      { vm.fetched i ⟨i.a.toNat, ha⟩ with
        memory := writeWord vm.memory (fasLoad vm i).toNat 1 }) := by
  have hset : vm.setReg i.a (readWord vm.memory (fasLoad vm i).toNat)
      = .ok (vm.fetched i ⟨i.a.toNat, ha⟩) := VM.setReg_lt ha
  constructor
  · intro h
    obtain ⟨vm₁, hset', hok⟩ := h.sets haddr
    rw [hset] at hset'
    cases hset'
    exact hok
  · exact fun h => ⟨fun _ => ⟨_, hset, h⟩, fun hno => absurd haddr hno⟩

theorem fetchesAndSets_iff_refuses (haddr : ¬ Addressable (fasLoad vm i).toNat) :
    FetchesAndSets host vm i ↔ execute host vm i = .ok (.illMemAccess, vm) :=
  ⟨fun h => h.refuses haddr, fun h => ⟨fun h' => absurd h' haddr, fun _ => h⟩⟩

/-- **`FAS` reads and sets one word** exactly when its address does not wrap and, where
it is one of a word, it stores at that address or both words are 1. -/
theorem fas_iff (host : Host) (hop : i.opcode = .fas) (hm : FasMode i.mode)
    (ha : i.a.toNat < N_REG) (hb : i.b.toNat < N_REG) :
    FetchesAndSets host vm i ↔ (fasLoad vm i).toNat + 7 < 2 ^ 64 ∧
      (Addressable (fasLoad vm i).toNat → (fasStore vm i).toNat = (fasLoad vm i).toNat ∨
        ((fasStore vm i).toNat + 7 < MEM_SIZE ∧ readWord vm.memory (fasLoad vm i).toNat = 1 ∧
          readWord vm.memory (fasStore vm i).toNat = 1)) := by
  have hrun : execute host vm i = _ := execute_fas host hop hm ha hb
  by_cases hwrap : (fasLoad vm i).toNat + 7 < 2 ^ 64
  · rw [and_iff_right hwrap]
    by_cases haddr : Addressable (fasLoad vm i).toNat
    · have hk := haddr.inside
      rw [if_neg ((addressable_iff hwrap).mp haddr), if_pos hk] at hrun
      rw [fetchesAndSets_iff ha haddr, hrun]
      have hstores : _ ↔ _ := @stores_iff (vm.fetched i ⟨i.a.toNat, ha⟩) _ (fasStore vm i) hk
      exact hstores.trans ⟨fun h _ => h, fun h => h haddr⟩
    · rw [if_pos (not_not.mp (mt (addressable_iff hwrap).mpr haddr))] at hrun
      rw [fetchesAndSets_iff_refuses haddr]
      exact ⟨fun _ h => absurd h haddr, fun _ => hrun⟩
  · -- the first access is outside the array, and nothing is answered
    have hout : ¬ (fasLoad vm i).toNat + 7 < MEM_SIZE :=
      fun hlt => hwrap (Nat.lt_trans hlt (by decide))
    rw [if_neg (wrapped_passes hwrap), if_neg hout] at hrun
    rw [fetchesAndSets_iff_refuses fun haddr => hout haddr.inside, hrun]
    exact ⟨(fun h => nomatch h), fun h => absurd h.1 hwrap⟩

/-- In mode DIR, on the first word of the data segment. -/
theorem fas_first_word :
    FetchesAndSets default initVM ⟨.fas, .dir, 0, 0, 1024⟩ :=
  (fas_iff (i := ⟨.fas, .dir, 0, 0, 1024⟩) default rfl (.inl rfl) (by decide)
    (by decide)).mpr ⟨by decide, fun _ => .inl rfl⟩

/-- `FAS R0 [R1]` with 1024 in R1: the word at address 1 becomes 1. -/
theorem fas_sets_code :
    let vm := { initVM with registers := fun _ => 1024 }
    let i : Instruction := ⟨.fas, .ind, 0, 1, 0⟩
    ¬ FetchesAndSets default vm i := by
  intro vm i h
  have hrun : execute default vm i = _ :=
    execute_fas default rfl (.inr (.inl rfl)) (by decide) (by decide)
  obtain ⟨vm₁, hset, hok⟩ := h.sets (by decide)
  cases hset
  rw [hok] at hrun
  have hstores := (stores_iff (w := vm.fetched i 0) (fasStore vm i)
    (show 1024 + 8 ≤ MEM_SIZE by decide)).mp hrun.symm
  rcases hstores with h | ⟨-, h, -⟩
  · exact absurd h (by decide)
  · have hfresh : readWord (vm.fetched i 0).memory 1024 = 0 := readWord_fresh _
    rw [hfresh] at h
    exact absurd h (by decide)

end BSVM
