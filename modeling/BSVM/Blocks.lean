/-
# `BSVM.Blocks` — `memset` and `memcpy`, called as the README says

    12    memset(size, addr, value)      13    memcpy(size, src, dest)

The arguments are pushed in this order, so that the last one is on top.
`syscallMEMCPY` pops them as they come.  `syscallMEMSET` pops the address first
and the value second, and refuses a range that ends where the memory does.  A
call with the address and the value exchanged is right where it leaves what the
other would have (`blocks_iff`).
-/
import BSVM.Cpu
import BSVM.Requests

namespace BSVM

/-! ## Guest code -/

/-- The instructions in order, as long as they return `VM_OK`. -/
def executeAll (host : Host) : List Instruction → VM → Exec Result
  | [], vm => .ok (.ok, vm)
  | i :: instrs, vm => do
      let (status, vm) ← execute host vm i
      if status = .ok then executeAll host instrs vm else return (status, vm)

/-- `PUSH w`, or `PUSH` of a register that holds `w`. -/
inductive PushesWord (registers : Fin N_REG → Word) : Instruction → Word → Prop
  | imm {i : Instruction} (hop : i.opcode = .push) (hm : i.mode = .imm) (ha : i.a.toNat < N_REG) :
      PushesWord registers i i.args
  | regu {i : Instruction} (hop : i.opcode = .push) (hm : i.mode = .regu) (ha : i.a.toNat < N_REG) :
      PushesWord registers i (registers ⟨i.a.toNat, ha⟩)

/-- The machine with one more word on the stack. -/
def VM.stacked (vm : VM) (w : Word) : VM :=
  { vm with sp := vm.sp - 8, memory := writeWord vm.memory (vm.sp.toNat - 8) w }

/-- `TRAP`. -/
def trap : Instruction := { opcode := .trap, mode := .none, a := 0, b := 0, args := 0 }

section
variable {host : Host} {vm : VM}

theorem stacked_sp (w : Word) (h : 8 ≤ vm.sp.toNat) :
    (vm.stacked w).sp.toNat = vm.sp.toNat - 8 := by
  show (vm.sp - 8).toNat = _
  have hlt := vm.sp.isLt
  rw [BitVec.toNat_sub]
  simp
  omega

theorem execute_push {i : Instruction} {w : Word} (h : PushesWord vm.registers i w)
    (hbase : STACK_BASE < vm.sp.toNat) (htop : vm.sp.toNat ≤ MEM_SIZE) :
    execute host vm i = .ok (.ok, vm.stacked w) := by
  have hpush : ∀ w, pushWord vm w = .ok (.ok, vm.stacked w) := by
    intro w
    rw [pushWord_eq w hbase, if_pos htop]
    rfl
  cases h with
  | imm hop hm ha =>
      have hh : getHandler host i.opcode i.mode = some instrPUSH := by
        rw [hop, hm]
        rfl
      rw [execute_handler hh, instrPUSH, if_neg (Nat.not_le.mpr hbase), if_neg (Nat.not_le.mpr ha),
        hpush]
  | regu hop hm ha =>
      have hh : getHandler host i.opcode i.mode = some instrPUSHR := by
        rw [hop, hm]
        rfl
      rw [execute_handler hh, instrPUSHR, if_neg (Nat.not_le.mpr hbase),
        if_neg (Nat.not_le.mpr ha), VM.getReg_lt ha, Except.ok_bind, hpush]

/-- A push leaves the registers alone, so each finds what the first found. -/
theorem executeAll_pushes {instrs : List Instruction} {words : List Word}
    (h : List.Forall₂ (PushesWord vm.registers) instrs words)
    (hroom : STACK_BASE + 8 * words.length ≤ vm.sp.toNat) (htop : vm.sp.toNat ≤ MEM_SIZE) :
    executeAll host instrs vm = .ok (.ok, words.foldl VM.stacked vm) := by
  induction words generalizing vm instrs with
  | nil =>
      cases h
      rfl
  | cons w words ih =>
      cases h with
      | @cons i _ instrs _ hi hrest =>
          rw [List.length_cons] at hroom
          have hsp : (vm.stacked w).sp.toNat = vm.sp.toNat - 8 := stacked_sp w (by omega)
          have hpush : execute host vm i = .ok (.ok, vm.stacked w) :=
            execute_push hi (by omega) htop
          rw [executeAll, hpush, Except.ok_bind]
          refine (if_pos rfl).trans (ih hrest ?_ ?_)
          · rw [hsp]
            omega
          · rw [hsp]
            omega

theorem stacked_top (w : Word) (h : 8 ≤ vm.sp.toNat) (htop : vm.sp.toNat ≤ MEM_SIZE) :
    (vm.stacked w).stackWord 0 = w := by
  rw [VM.stackWord, stacked_sp w h]
  exact readWord_writeWord w (by omega)

theorem stacked_below (w : Word) (h : 8 ≤ vm.sp.toNat) (k : Nat) :
    (vm.stacked w).stackWord (k + 1) = vm.stackWord k := by
  have haddr : vm.sp.toNat - 8 + 8 * (k + 1) = vm.sp.toNat + 8 * k := by omega
  rw [VM.stackWord, VM.stackWord, stacked_sp w h, haddr]
  exact readWord_writeWord_of_disjoint w (Or.inr (by omega))

end

/-! ## The machine at `TRAP` -/

/-- Room for `n` words on the stack. -/
def Room (vm : VM) (n : Nat) : Prop :=
  STACK_BASE + 8 * n ≤ vm.sp.toNat ∧ vm.sp.toNat ≤ MEM_SIZE

instance (vm : VM) (n : Nat) : Decidable (Room vm n) :=
  inferInstanceAs (Decidable (_ ∧ _))

/-- The words were pushed in this order, and `R0` has the number; the other register,
`pc` and `sr` may have changed. -/
structure AtTrap (host : Host) (vm : VM) (words : List Word) (id : Word) (vm₁ : VM) : Prop where
  pushed : ∃ instrs vm₂, List.Forall₂ (PushesWord vm.registers) instrs words ∧
    executeAll host instrs vm = .ok (.ok, vm₂) ∧ vm₁.sp = vm₂.sp ∧ vm₁.memory = vm₂.memory
  number : vm₁.reg 0 = id

/-- The stack slots that the three words are popped from. -/
def PoppedSlot (vm : VM) (k : Nat) : Prop :=
  vm.sp.toNat - 24 ≤ k ∧ k < vm.sp.toNat

/-- Three words on the stack, and the memory below and above them as it was. -/
structure ThreeArgs (vm : VM) (x y z : Word) (vm₁ : VM) : Prop where
  fits : vm₁.sp.toNat + 24 ≤ MEM_SIZE
  sp : vm₁.sp + 24 = vm.sp
  first : vm₁.stackWord 2 = x
  second : vm₁.stackWord 1 = y
  third : vm₁.stackWord 0 = z
  kept : ∀ k : Fin MEM_SIZE, ¬ PoppedSlot vm k → vm₁.memory k = vm.memory k

section
variable {host : Host} {vm vm₁ : VM} {words : List Word} {id : Word}

theorem exists_pushes (registers : Fin N_REG → Word) (words : List Word) :
    ∃ instrs, List.Forall₂ (PushesWord registers) instrs words := by
  induction words with
  | nil => exact ⟨[], .nil⟩
  | cons w words ih =>
      obtain ⟨instrs, h⟩ := ih
      let push : Instruction := { opcode := .push, mode := .imm, a := 0, b := 0, args := w }
      have hpush : PushesWord registers push w := .imm rfl rfl Nat.two_pos
      exact ⟨push :: instrs, .cons hpush h⟩

theorem AtTrap.eq (hroom : Room vm words.length) (h : AtTrap host vm words id vm₁) :
    vm₁.sp = (words.foldl VM.stacked vm).sp ∧ vm₁.memory = (words.foldl VM.stacked vm).memory := by
  obtain ⟨instrs, vm₂, hwords, hrun, hsp, hmem⟩ := h.pushed
  rw [executeAll_pushes hwords hroom.1 hroom.2] at hrun
  cases hrun
  exact ⟨hsp, hmem⟩

/-- There is such a machine. -/
theorem atTrap_loaded (host : Host) (words : List Word) (hroom : Room vm words.length) (id : Word) :
    AtTrap host vm words id { words.foldl VM.stacked vm with registers := fun _ => id } where
  pushed := by
    obtain ⟨instrs, h⟩ := exists_pushes vm.registers words
    exact ⟨instrs, _, h, executeAll_pushes h hroom.1 hroom.2, rfl, rfl⟩
  number := rfl

theorem stacked_kept (w : Word) {k : Fin MEM_SIZE}
    (h : (k : Nat) < vm.sp.toNat - 8 ∨ vm.sp.toNat ≤ k) (hsp : 8 ≤ vm.sp.toNat) :
    (vm.stacked w).memory k = vm.memory k :=
  overlay_outside (by omega)

theorem threeArgs_stacked (hroom : Room vm 3) (x y z : Word) :
    ThreeArgs vm x y z ([x, y, z].foldl VM.stacked vm) := by
  obtain ⟨hbase, htop⟩ := hroom
  have hx : (vm.stacked x).sp.toNat = vm.sp.toNat - 8 := stacked_sp x (by omega)
  have hy : ((vm.stacked x).stacked y).sp.toNat = vm.sp.toNat - 16 := by
    rw [stacked_sp y (by omega), hx]
    omega
  have hz : (((vm.stacked x).stacked y).stacked z).sp.toNat = vm.sp.toNat - 24 := by
    rw [stacked_sp z (by omega), hy]
    omega
  rw [List.foldl_cons, List.foldl_cons, List.foldl_cons, List.foldl_nil]
  refine ⟨by omega, ?_, ?_, ?_, ?_, fun k hk => ?_⟩
  · show vm.sp - 8 - 8 - 8 + 24 = vm.sp
    bv_omega
  · rw [stacked_below z (by omega), stacked_below y (by omega), stacked_top x (by omega) htop]
  · rw [stacked_below z (by omega), stacked_top y (by omega) (by omega)]
  · rw [stacked_top z (by omega) (by omega)]
  · have hout : (k : Nat) < vm.sp.toNat - 24 ∨ vm.sp.toNat ≤ k := by
      by_contra hin
      exact hk ⟨by omega, by omega⟩
    rw [stacked_kept z (by omega) (by omega), stacked_kept y (by omega) (by omega),
      stacked_kept x (by omega) (by omega)]

theorem AtTrap.args {x y z : Word} (hroom : Room vm 3) (h : AtTrap host vm [x, y, z] id vm₁) :
    ThreeArgs vm x y z vm₁ := by
  have hargs := threeArgs_stacked hroom x y z
  obtain ⟨hsp, hmem⟩ := h.eq hroom
  have hword : ∀ k, vm₁.stackWord k = ([x, y, z].foldl VM.stacked vm).stackWord k := by
    intro k
    rw [VM.stackWord, VM.stackWord, hsp, hmem]
  refine ⟨?_, ?_, ?_, ?_, ?_, ?_⟩
  · rw [hsp]
    exact hargs.fits
  · rw [hsp]
    exact hargs.sp
  · rw [hword]
    exact hargs.first
  · rw [hword]
    exact hargs.second
  · rw [hword]
    exact hargs.third
  · rw [hmem]
    exact hargs.kept

theorem execute_trap (id : Nat) {handler : SysCall} (hid : id < 32)
    (hh : dispatchSyscalls host id = some handler) (hr : vm₁.reg 0 = BitVec.ofNat 64 id) :
    execute host vm₁ trap = handler vm₁ := by
  have hlow : (vm₁.reg 0).toNat % 2 ^ 32 = id := by
    rw [hr, BitVec.toNat_ofNat]
    omega
  have htrap : getHandler host trap.opcode trap.mode = some (instrTRAP host) := rfl
  rw [execute_handler htrap, instrTRAP_inside host vm₁ trap (by rw [hlow]; exact hid), hlow, hh]
  rfl

end

/-! ## The two calls -/

/-- The range lies between `HEAP_BASE` and the end of the memory. -/
def Inside (addr size : Word) : Prop :=
  HEAP_BASE ≤ addr.toNat ∧ addr.toNat + size.toNat ≤ MEM_SIZE

instance (addr size : Word) : Decidable (Inside addr size) :=
  inferInstanceAs (Decidable (_ ∧ _))

/-- The `n` bytes from `lo` are `f 0 … f (n-1)`, and no other byte has changed but the
slots that the arguments were in. -/
structure BlockDone (vm : VM) (lo n : Nat) (f : Nat → Byte) (vm' : VM) : Prop where
  stored : ∀ k : Fin MEM_SIZE, lo ≤ k → (k : Nat) < lo + n → vm'.memory k = f (k - lo)
  kept : ∀ k : Fin MEM_SIZE, (k : Nat) < lo ∨ lo + n ≤ k → ¬ PoppedSlot vm k →
    vm'.memory k = vm.memory k
  r0 : vm'.reg 0 = 0
  sp : vm'.sp = vm.sp

/-- The pushes succeed. -/
def Pushed (host : Host) (vm : VM) (words : List Word) : Prop :=
  ∀ instrs, List.Forall₂ (PushesWord vm.registers) instrs words →
    ∃ vm₂, executeAll host instrs vm = .ok (.ok, vm₂)

/-- `memset(size, addr, value)`. -/
structure MemsetCall (host : Host) (vm : VM) (size addr value : Word) : Prop where
  pushed : Pushed host vm [size, addr, value]
  answered : ∀ vm₁, AtTrap host vm [size, addr, value] 12 vm₁ →
    ∃ status vm', execute host vm₁ trap = .ok (status, vm') ∧
      (status = .ok ↔ Inside addr size) ∧
      (status = .ok → BlockDone vm addr.toNat size.toNat (fun _ => value.setWidth 8) vm')

/-- The two ranges are in the memory and have no byte in common. -/
structure DisjointRanges (size src dest : Word) : Prop where
  source : src.toNat + size.toNat ≤ MEM_SIZE
  destination : dest.toNat + size.toNat ≤ MEM_SIZE
  disjoint : dest.toNat + size.toNat ≤ src.toNat ∨ src.toNat + size.toNat ≤ dest.toNat

/-- `memcpy(size, src, dest)`; what is copied is what is there at `TRAP`. -/
structure MemcpyCall (host : Host) (vm : VM) (size src dest : Word) : Prop where
  pushed : Pushed host vm [size, src, dest]
  answered : ∀ vm₁, AtTrap host vm [size, src, dest] 13 vm₁ → DisjointRanges size src dest →
    ∃ vm', execute host vm₁ trap = .ok (.ok, vm') ∧
      BlockDone vm dest.toNat size.toNat (fun k => byteAt vm₁.memory (src.toNat + k)) vm'
  source : ∀ vm₁, AtTrap host vm [size, src, dest] 13 vm₁ → ∀ k : Fin MEM_SIZE,
    ¬ PoppedSlot vm k → vm₁.memory k = vm.memory k

section
variable {host : Host} {vm vm₁ : VM}

theorem pushed_ok (host : Host) {words : List Word} (hroom : Room vm words.length) :
    Pushed host vm words :=
  fun _ h => ⟨_, executeAll_pushes h hroom.1 hroom.2⟩

theorem answer_eq (vm : VM) (v : Word) :
    answer vm v = .ok (.ok, { vm with registers := Function.update vm.registers 0 v }) := by
  rw [answer, VM.setReg_lt (k := 0) (by decide)]
  rfl

theorem popped_three_sp (vm : VM) : (((vm.popped 0).popped 0).popped 0).sp = vm.sp + 24 := by
  show vm.sp + 8 + 8 + 8 = vm.sp + 24
  rw [BitVec.add_assoc, BitVec.add_assoc]
  rfl

/-- What is stored behind the three pops. -/
theorem ThreeArgs.blockDone {x y z : Word} {lo n : Nat} {f g : Nat → Byte} {vm' : VM}
    (h : ThreeArgs vm x y z vm₁) (hmem : vm'.memory = overlay vm₁.memory lo n g)
    (hfg : ∀ k < n, lo + k < MEM_SIZE → g k = f k) (hr0 : vm'.reg 0 = 0)
    (hsp : vm'.sp = vm₁.sp + 24) : BlockDone vm lo n f vm' where
  stored k hlo hhi := by
    rw [hmem, overlay_inside hlo hhi]
    have hk := k.isLt
    exact hfg _ (by omega) (by omega)
  kept k hout hslot := by
    rw [hmem, overlay_outside hout]
    exact h.kept k hslot
  r0 := hr0
  sp := hsp.trans h.sp

/-- `MEMCPY` takes its arguments in the order of the README. -/
theorem memcpyCall (host : Host) (hroom : Room vm 3) (size src dest : Word) :
    MemcpyCall host vm size src dest where
  pushed := pushed_ok host hroom
  answered vm₁ hat hranges := by
    have hargs := hat.args hroom
    obtain ⟨hsrc, hdst, hdisj⟩ := hranges
    have hsource : inMemory src.toNat size.toNat = .ok () := if_pos (Or.inr hsrc)
    have hdest : inMemory dest.toNat size.toNat = .ok () := if_pos (Or.inr hdst)
    rw [execute_trap 13 (by decide) rfl hat.number, syscallMEMCPY, args₃ hargs.fits,
      hargs.first, hargs.second, hargs.third, VM.memcpy, hsource, Except.ok_bind, if_pos hdisj,
      VM.fill, hdest, Except.ok_bind, Except.pure_eq, Except.ok_bind, answer_eq]
    exact ⟨_, rfl, hargs.blockDone rfl (fun _ _ _ => rfl) rfl (popped_three_sp vm₁)⟩
  source vm₁ hat := (hat.args hroom).kept

end

/-! ## The exchange -/

/-- `k` is one of the `size` addresses from `addr`. -/
def InBlock (addr size : Word) (k : Nat) : Prop :=
  addr.toNat ≤ k ∧ k < addr.toNat + size.toNat

/-- The bytes are what both calls make of them: where the ranges meet, the low bytes of
the address and the value are the same, and elsewhere the bytes were there before. -/
structure SameBytes (vm : VM) (size addr value : Word) : Prop where
  common : ∀ k : Fin MEM_SIZE, InBlock addr size k → InBlock value size k →
    addr.setWidth 8 = value.setWidth 8
  missed : ∀ k : Fin MEM_SIZE, InBlock addr size k → ¬ InBlock value size k →
    ([size, addr, value].foldl VM.stacked vm).memory k = value.setWidth 8
  extra : ∀ k : Fin MEM_SIZE, InBlock value size k → ¬ InBlock addr size k →
    ¬ PoppedSlot vm k → vm.memory k = addr.setWidth 8

/-- Both calls are refused, or both store, and store the same. -/
inductive ExchangeUnseen (vm : VM) (size addr value : Word) : Prop
  | refused (hout : ¬ Inside addr size)
      (htest : value.toNat < HEAP_BASE ∨ MEM_SIZE ≤ (value + size).toNat) :
      ExchangeUnseen vm size addr value
  | stored (hin : Inside addr size) (hlo : HEAP_BASE ≤ value.toNat)
      (hend : value.toNat + size.toNat < MEM_SIZE) (hbytes : SameBytes vm size addr value) :
      ExchangeUnseen vm size addr value

section
variable {host : Host} {vm vm₁ : VM} {size addr value : Word}

theorem memset_refused (host : Host) (hargs : ThreeArgs vm size addr value vm₁)
    (hnum : vm₁.reg 0 = 12)
    (htest : value.toNat < HEAP_BASE ∨ MEM_SIZE ≤ (value + size).toNat) :
    ∃ vm', execute host vm₁ trap = .ok (.illMemAccess, vm') := by
  rw [execute_trap 12 (by decide) rfl hnum, syscallMEMSET, args₃ hargs.fits, hargs.first,
    hargs.second, hargs.third, if_pos htest]
  exact ⟨_, rfl⟩

theorem memset_stored (host : Host) (hargs : ThreeArgs vm size addr value vm₁)
    (hnum : vm₁.reg 0 = 12) (hlo : HEAP_BASE ≤ value.toNat)
    (hend : value.toNat + size.toNat < MEM_SIZE) :
    ∃ vm', execute host vm₁ trap = .ok (.ok, vm') ∧
      vm'.memory = overlay vm₁.memory value.toNat size.toNat (fun _ => addr.setWidth 8) ∧
      vm'.reg 0 = 0 ∧ vm'.sp = vm₁.sp + 24 := by
  have hsum : (value + size).toNat = value.toNat + size.toNat := by
    rw [BitVec.toNat_add, Nat.mod_eq_of_lt]
    simp at hend
    omega
  have htest : ¬ (value.toNat < HEAP_BASE ∨ MEM_SIZE ≤ (value + size).toNat) := by
    rw [hsum]
    omega
  have hmem : inMemory value.toNat size.toNat = .ok () := if_pos (Or.inr (Nat.le_of_lt hend))
  rw [execute_trap 12 (by decide) rfl hnum, syscallMEMSET, args₃ hargs.fits, hargs.first,
    hargs.second, hargs.third, if_neg htest, VM.fill, hmem, Except.ok_bind, Except.pure_eq,
    Except.ok_bind, answer_eq]
  exact ⟨_, rfl, rfl, rfl, popped_three_sp vm₁⟩

/-- The sum of the test wraps. -/
theorem memset_faults (hargs : ThreeArgs vm size addr value vm₁) (hnum : vm₁.reg 0 = 12)
    (htest : ¬ (value.toNat < HEAP_BASE ∨ MEM_SIZE ≤ (value + size).toNat))
    (hend : ¬ value.toNat + size.toNat < MEM_SIZE) :
    execute host vm₁ trap = .error .memory := by
  have hlt := value.isLt
  have hmem : inMemory value.toNat size.toNat = .error .memory := by
    refine if_neg ?_
    rw [not_or, BitVec.toNat_add] at htest
    simp only [MEM_SIZE, HEAP_BASE] at htest hend ⊢
    omega
  rw [execute_trap 12 (by decide) rfl hnum, syscallMEMSET, args₃ hargs.fits, hargs.first,
    hargs.second, hargs.third, if_neg htest, VM.fill, hmem]
  rfl

/-- What is left of the bytes by a call that stores what the other would have. -/
theorem SameBytes.blockDone {vm' : VM} (h : SameBytes vm size addr value)
    (hat : AtTrap host vm [size, addr, value] 12 vm₁) (hroom : Room vm 3)
    (hmem : vm'.memory = overlay vm₁.memory value.toNat size.toNat (fun _ => addr.setWidth 8))
    (hr0 : vm'.reg 0 = 0) (hsp : vm'.sp = vm₁.sp + 24) :
    BlockDone vm addr.toNat size.toNat (fun _ => value.setWidth 8) vm' where
  stored k hlo hhi := by
    rw [hmem]
    by_cases hvalue : InBlock value size k
    · rw [overlay_inside hvalue.1 hvalue.2]
      exact h.common k ⟨hlo, hhi⟩ hvalue
    · rw [overlay_outside (by rw [InBlock] at hvalue; omega), (hat.eq hroom).2]
      exact h.missed k ⟨hlo, hhi⟩ hvalue
  kept k hout hslot := by
    rw [hmem]
    by_cases hvalue : InBlock value size k
    · rw [overlay_inside hvalue.1 hvalue.2]
      exact (h.extra k hvalue (fun haddr => by rw [InBlock] at haddr; omega) hslot).symm
    · rw [overlay_outside (by rw [InBlock] at hvalue; omega)]
      exact (hat.args hroom).kept k hslot
  r0 := hr0
  sp := hsp.trans (hat.args hroom).sp

theorem sameBytes_of_blockDone {vm' : VM}
    (hat : AtTrap host vm [size, addr, value] 12 vm₁) (hroom : Room vm 3)
    (hmem : vm'.memory = overlay vm₁.memory value.toNat size.toNat (fun _ => addr.setWidth 8))
    (h : BlockDone vm addr.toNat size.toNat (fun _ => value.setWidth 8) vm') :
    SameBytes vm size addr value where
  common k haddr hvalue := by
    have hk := h.stored k haddr.1 haddr.2
    rw [hmem, overlay_inside hvalue.1 hvalue.2] at hk
    exact hk
  missed k haddr hvalue := by
    have hk := h.stored k haddr.1 haddr.2
    rw [hmem, overlay_outside (by rw [InBlock] at hvalue; omega), (hat.eq hroom).2] at hk
    exact hk
  extra k hvalue haddr hslot := by
    have hk := h.kept k (by rw [InBlock] at haddr; omega) hslot
    rw [hmem, overlay_inside hvalue.1 hvalue.2] at hk
    exact hk.symm

theorem memsetCall_iff (host : Host) (hroom : Room vm 3) :
    MemsetCall host vm size addr value ↔ ExchangeUnseen vm size addr value := by
  constructor
  · intro h
    have hat := atTrap_loaded host [size, addr, value] hroom 12
    have hargs := hat.args hroom
    obtain ⟨status, vm', hrun, hstatus, hdone⟩ := h.answered _ hat
    by_cases htest : value.toNat < HEAP_BASE ∨ MEM_SIZE ≤ (value + size).toNat
    · obtain ⟨vm₂, hrefused⟩ := memset_refused host hargs hat.number htest
      rw [hrefused] at hrun
      cases hrun
      exact .refused (mt hstatus.mpr nofun) htest
    · by_cases hend : value.toNat + size.toNat < MEM_SIZE
      · have hlo : HEAP_BASE ≤ value.toNat := Nat.le_of_not_lt fun hlt => htest (Or.inl hlt)
        obtain ⟨vm₂, hstored, hmem, -⟩ := memset_stored host hargs hat.number hlo hend
        rw [hstored] at hrun
        cases hrun
        exact .stored (hstatus.mp rfl) hlo hend (sameBytes_of_blockDone hat hroom hmem (hdone rfl))
      · rw [memset_faults hargs hat.number htest hend] at hrun
        cases hrun
  · intro h
    refine ⟨pushed_ok host hroom, fun vm₁ hat => ?_⟩
    have hargs := hat.args hroom
    cases h with
    | refused hout htest =>
        obtain ⟨vm', hrun⟩ := memset_refused host hargs hat.number htest
        exact ⟨_, vm', hrun, ⟨nofun, fun hin => absurd hin hout⟩, nofun⟩
    | stored hin hlo hend hbytes =>
        obtain ⟨vm', hrun, hmem, hr0, hsp⟩ :=
          memset_stored host hargs hat.number hlo hend
        exact ⟨_, vm', hrun, ⟨fun _ => hin, fun _ => rfl⟩, fun _ =>
          hbytes.blockDone hat hroom hmem hr0 hsp⟩

end

/-- **The two calls do what the README says** exactly where the exchange of the address
and the value is not seen. -/
theorem blocks_iff (host : Host) (vm : VM) (size addr value src dest : Word)
    (hroom : Room vm 3) :
    MemsetCall host vm size addr value ∧ MemcpyCall host vm size src dest ↔
      ExchangeUnseen vm size addr value := by
  rw [memsetCall_iff host hroom]
  exact and_iff_left (memcpyCall host hroom size src dest)

/-- 16 bytes from 1280 become 0x00, the low byte of 1280 as of the address. -/
theorem blocks_low_byte :
    MemsetCall default initVM 16 1280 1280 ∧ MemcpyCall default initVM 16 1280 1296 := by
  refine (blocks_iff default initVM 16 1280 1280 1280 1296 (by decide)).mpr ?_
  refine .stored (by decide) (by decide) (by decide) ⟨fun _ _ _ => rfl, ?_, ?_⟩
  · exact fun k haddr hvalue => absurd haddr hvalue
  · exact fun k hvalue haddr => absurd hvalue haddr

/-- 16 bytes from 1280 should become 7: the address 7 is refused. -/
theorem memset_by_readme :
    Room initVM 3 ∧ Inside 1280 16 ∧ ¬ MemsetCall default initVM 16 1280 7 := by
  have hroom : Room initVM 3 := by decide
  have hin : Inside 1280 16 := by decide
  refine ⟨hroom, hin, fun h => ?_⟩
  have hat := atTrap_loaded default [16, 1280, 7] hroom 12
  obtain ⟨status, vm', hrun, hstatus, -⟩ := h.answered _ hat
  obtain ⟨vm₂, hrefused⟩ :=
    memset_refused default (hat.args hroom) hat.number (Or.inl (by decide))
  rw [hrefused] at hrun
  cases hrun
  cases hstatus.mpr hin

end BSVM
