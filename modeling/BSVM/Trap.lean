/-
# `BSVM.Trap` — what a system call can do to the machine

Every system call pops its arguments and then changes registers, the heap
list, `running`, or a range of memory that starts at the heap or above
(`Trapped`).  `MEMCPY` is the exception: its destination is any address
(`Copied`).
-/
import BSVM.Stack
import BSVM.Syscalls

namespace BSVM

/-! ## Arguments -/

/-- The `k`-th word on the stack, the top one being number 0. -/
def VM.stackWord (vm : VM) (k : Nat) : Word :=
  readWord vm.memory (vm.sp.toNat + 8 * k)

/-- The machine a system call leaves, compared with the one it found. -/
structure Trapped (vm vm' : VM) : Prop where
  pc : vm'.pc = vm.pc
  sr : vm'.sr = vm.sr
  sp : ∃ n, vm'.sp = vm.sp + BitVec.ofNat 64 (8 * n) ∧
    (n = 0 ∨ vm.sp.toNat + 8 * n ≤ MEM_SIZE)
  memory : ∃ lo n f, HEAP_BASE ≤ lo ∧ vm'.memory = overlay vm.memory lo n f

/-- A change of the other fields only. -/
theorem Trapped.rest {vm vm' : VM} (hpc : vm'.pc = vm.pc) (hsr : vm'.sr = vm.sr)
    (hsp : vm'.sp = vm.sp) (hmem : vm'.memory = vm.memory) : Trapped vm vm' where
  pc := hpc
  sr := hsr
  sp := ⟨0, by simp [hsp], Or.inl rfl⟩
  memory := ⟨HEAP_BASE, 0, fun _ => 0, Nat.le_refl _, by rw [overlay_zero, hmem]⟩

theorem Trapped.refl (vm : VM) : Trapped vm vm :=
  .rest rfl rfl rfl rfl

theorem Trapped.answer {vm vm₁ : VM} (h : Trapped vm vm₁) (v : Word) :
    Returns (BSVM.answer vm₁ v) (fun r => Trapped vm r.2) := by
  intro r hr
  obtain ⟨vm₂, hset, heq⟩ := Except.bind_eq_ok.mp hr
  cases heq
  rw [VM.setReg_lt (k := 0) (by decide)] at hset
  cases hset
  exact ⟨h.pc, h.sr, h.sp, h.memory⟩

theorem Trapped.fill {vm : VM} {lo n : Nat} {f : Nat → Byte} (hlo : HEAP_BASE ≤ lo) :
    Returns (vm.fill lo n f) (fun vm' => Trapped vm vm') := by
  intro vm' h
  obtain ⟨_, -, heq⟩ := Except.bind_eq_ok.mp h
  cases heq
  exact ⟨rfl, rfl, ⟨0, by simp, Or.inl rfl⟩, lo, n, f, hlo, rfl⟩

/-- Popping an argument first. -/
theorem Trapped.popped {vm vm' : VM} {a : Fin N_REG} (hsp : vm.sp.toNat + 8 ≤ MEM_SIZE)
    (h : Trapped (vm.popped a) vm') : Trapped vm vm' where
  pc := h.pc
  sr := h.sr
  sp := by
    obtain ⟨n, hn, hbound⟩ := h.sp
    refine ⟨n + 1, ?_, Or.inr ?_⟩
    · rw [hn, Nat.mul_succ, Nat.add_comm, BitVec.ofNat_add, ← BitVec.add_assoc]
      rfl
    · rw [popped_sp hsp] at hbound
      omega
  memory := h.memory

theorem withPop_eq (vm : VM) (k : VM → Word → Exec Result) :
    withPop vm k =
      if MEM_SIZE ≤ vm.sp.toNat then .ok (.stackUnderflow, vm)
      else if vm.sp.toNat + 8 ≤ MEM_SIZE then k (vm.popped 0) (vm.stackWord 0)
      else .ok (.illMemAccess, vm) := by
  rw [withPop, instrPOP_eq (i := popR0) (by decide)]
  split
  · rfl
  · split
    · simp only [Except.ok_bind, ne_eq, not_true, if_false]
      rfl
    · rfl

theorem Trapped.withPop {vm : VM} {k : VM → Word → Exec Result}
    (hk : ∀ r0, Returns (k (vm.popped 0) r0) (fun r => Trapped (vm.popped 0) r.2)) :
    Returns (withPop vm k) (fun r => Trapped vm r.2) := by
  rw [withPop_eq]
  split
  · exact Returns.ok_iff.mpr (.refl vm)
  · split
    · next hsp => exact (hk _).mono fun _ h => h.popped hsp
    · exact Returns.ok_iff.mpr (.refl vm)

theorem readFile_trapped (host : Host) (vm : VM) :
    Returns (syscallREAD_FILE host vm) (fun r => Trapped vm r.2) := by
  refine Trapped.withPop fun _ => Trapped.withPop fun addr => Returns.ite_iff.mpr ⟨?_, ?_⟩
  · exact fun _ => Returns.ok_iff.mpr (.refl _)
  · intro hrange
    refine Trapped.withPop fun size => Returns.bind_iff.mpr fun _ _ => Returns.bind_iff.mpr ?_
    have hlo : HEAP_BASE ≤ addr.toNat := Nat.le_of_not_lt fun h => hrange (Or.inl h)
    exact (Trapped.fill hlo).mono fun _ h => h.answer _

theorem readStr_trapped (host : Host) (vm : VM) :
    Returns (syscallREAD_STR host vm) (fun r => Trapped vm r.2) := by
  refine Trapped.withPop fun addr => Trapped.withPop fun size => Returns.ite_iff.mpr ⟨?_, ?_⟩
  · exact fun _ => Returns.ok_iff.mpr (.refl _)
  · intro hrange
    have hlo : HEAP_BASE ≤ addr.toNat := Nat.le_of_not_lt fun h => hrange (Or.inl h)
    refine Returns.bind_iff.mpr fun _ _ => Returns.bind_iff.mpr ?_
    exact (Trapped.fill hlo).mono fun _ h => h.answer _

theorem memset_trapped (vm : VM) :
    Returns (syscallMEMSET vm) (fun r => Trapped vm r.2) := by
  refine Trapped.withPop fun ptr => Trapped.withPop fun value => Trapped.withPop fun size =>
    Returns.ite_iff.mpr ⟨?_, ?_⟩
  · exact fun _ => Returns.ok_iff.mpr (.refl _)
  · intro hrange
    have hlo : HEAP_BASE ≤ ptr.toNat := Nat.le_of_not_lt fun h => hrange (Or.inl h)
    exact Returns.bind_iff.mpr ((Trapped.fill hlo).mono fun _ h => h.answer _)

theorem malloc_trapped (host : Host) (vm : VM) :
    Returns (syscallMALLOC host vm) (fun r => Trapped vm r.2) := by
  refine Trapped.withPop fun size => ?_
  generalize vm.popped 0 = vm
  intro r hr
  dsimp only at hr
  obtain ⟨vm₁, hset, heq⟩ := Except.bind_eq_ok.mp hr
  cases heq
  rw [VM.setReg_lt (k := 0) (by decide)] at hset
  cases hset
  rw [vmAlloc]
  split
  · exact .rest rfl rfl rfl rfl
  · exact .rest rfl rfl rfl rfl

theorem free_trapped (vm : VM) : Returns (syscallFREE vm) (fun r => Trapped vm r.2) := by
  refine Trapped.withPop fun ptr => Returns.ok_iff.mpr ?_
  generalize vm.popped 0 = vm
  rw [vmFree]
  split
  · exact .refl vm
  · split
    · exact .refl vm
    · exact .rest rfl rfl rfl rfl

/-- Every handler of the table but the one at 13. -/
theorem syscall_trapped {host : Host} {id : Nat} {handler : SysCall}
    (hh : dispatchSyscalls host id = some handler) (hid : id ≠ 13) (vm : VM) :
    Returns (handler vm) (fun r => Trapped vm r.2) := by
  have hanswer : ∀ (vm : VM) v, Returns (answer vm v) (fun r => Trapped vm r.2) :=
    fun vm v => (Trapped.refl vm).answer v
  unfold dispatchSyscalls at hh
  split at hh <;> cases hh
  · exact .withPop fun _ => .withPop fun _ => .withPop fun _ =>
      Returns.bind_iff.mpr fun _ _ => hanswer _ _
  · exact readFile_trapped host vm
  · exact .withPop fun _ => Returns.bind_iff.mpr fun _ _ => hanswer _ _
  · exact .withPop fun _ => hanswer _ _
  · exact .withPop fun _ => hanswer _ _
  · exact .withPop fun _ => Returns.bind_iff.mpr fun _ _ => hanswer _ _
  · exact hanswer _ _
  · exact readStr_trapped host vm
  · exact .withPop fun _ => Returns.ok_iff.mpr (.rest rfl rfl rfl rfl)
  · exact malloc_trapped host vm
  · exact free_trapped vm
  · exact memset_trapped vm
  · exact absurd rfl hid
  · exact Returns.ok_iff.mpr (.refl vm)
  · exact Returns.ok_iff.mpr (.refl vm)
  · refine .withPop fun _ => .withPop fun _ => Returns.ite_iff.mpr ⟨?_, ?_⟩
    · exact fun _ => Returns.ok_iff.mpr (.refl _)
    · exact fun _ => Returns.bind_iff.mpr fun _ _ => Returns.ok_iff.mpr (.refl _)

/-- The bytes that `memcpy` stores. -/
def copied (host : Host) (m : Memory) (dst src n : Nat) : Nat → Byte :=
  if dst + n ≤ src ∨ src + n ≤ dst then fun k => byteAt m (src + k) else host.overlap

/-- What `syscallMEMCPY` leaves when it has its three arguments. -/
structure Copied (host : Host) (vm vm' : VM) : Prop where
  room : vm.sp.toNat + 24 ≤ MEM_SIZE
  pc : vm'.pc = vm.pc
  sr : vm'.sr = vm.sr
  sp : vm'.sp = vm.sp + 24
  memory :
    let dst := (vm.stackWord 0).toNat
    let src := (vm.stackWord 1).toNat
    let n := (vm.stackWord 2).toNat
    vm'.memory = overlay vm.memory dst n (copied host vm.memory dst src n)

theorem withPop_cases {vm : VM} {k : VM → Word → Exec Result} {r : Result}
    (h : withPop vm k = .ok r) :
    (¬ vm.sp.toNat + 8 ≤ MEM_SIZE ∧ r.2 = vm) ∨
    (vm.sp.toNat + 8 ≤ MEM_SIZE ∧ k (vm.popped 0) (vm.stackWord 0) = .ok r) := by
  rw [withPop_eq] at h
  split at h
  · next hempty =>
      cases h
      exact Or.inl ⟨by simp at hempty ⊢; omega, rfl⟩
  · split at h
    · next hsp => exact Or.inr ⟨hsp, h⟩
    · next hsp =>
        cases h
        exact Or.inl ⟨hsp, rfl⟩

theorem popped_stackWord {vm : VM} {a : Fin N_REG} (h : vm.sp.toNat + 8 ≤ MEM_SIZE) (k : Nat) :
    (vm.popped a).stackWord k = vm.stackWord (k + 1) := by
  rw [VM.stackWord, VM.stackWord, popped_sp h, Nat.mul_succ]
  congr 1
  omega

theorem VM.memcpy_eq {host : Host} {vm vm' : VM} {dst src n : Nat}
    (h : vm.memcpy host dst src n = .ok vm') :
    vm' = { vm with memory := overlay vm.memory dst n (copied host vm.memory dst src n) } := by
  obtain ⟨_, -, h⟩ := Except.bind_eq_ok.mp h
  rw [copied]
  split at h
  · next hdisj =>
      obtain ⟨_, -, h⟩ := Except.bind_eq_ok.mp h
      cases h
      rw [if_pos hdisj]
  · next hover =>
      obtain ⟨_, -, h⟩ := Except.bind_eq_ok.mp h
      cases h
      rw [if_neg hover]

/-- `MEMCPY` stops at a missing argument with nothing stored, or copies. -/
theorem memcpy_cases {host : Host} {vm : VM} {r : Result} (h : syscallMEMCPY host vm = .ok r) :
    (¬ vm.sp.toNat + 24 ≤ MEM_SIZE ∧ Trapped vm r.2 ∧ r.2.memory = vm.memory) ∨
      Copied host vm r.2 := by
  rcases withPop_cases h with ⟨hsp, heq⟩ | ⟨h₁, h⟩
  · exact Or.inl ⟨by omega, heq ▸ .refl vm, by rw [heq]⟩
  have hsp₁ := popped_sp (a := 0) h₁
  rcases withPop_cases h with ⟨hsp, heq⟩ | ⟨h₂, h⟩
  · exact Or.inl ⟨by omega, heq ▸ (Trapped.refl _).popped h₁, by rw [heq]; rfl⟩
  have hsp₂ := popped_sp (a := 0) h₂
  rcases withPop_cases h with ⟨hsp, heq⟩ | ⟨h₃, h⟩
  · exact Or.inl ⟨by omega, heq ▸ ((Trapped.refl _).popped h₂).popped h₁, by rw [heq]; rfl⟩
  refine Or.inr ?_
  rw [popped_stackWord h₂, popped_stackWord h₁, popped_stackWord h₁] at h
  obtain ⟨vm₁, hcopy, h⟩ := Except.bind_eq_ok.mp h
  obtain ⟨vm₂, hset, h⟩ := Except.bind_eq_ok.mp h
  cases h
  rw [VM.setReg_lt (k := 0) (by decide)] at hset
  cases hset
  rw [VM.memcpy_eq hcopy]
  refine ⟨by omega, rfl, rfl, ?_, rfl⟩
  show vm.sp + 8 + 8 + 8 = vm.sp + 24
  rw [BitVec.add_assoc, BitVec.add_assoc]
  rfl

end BSVM
