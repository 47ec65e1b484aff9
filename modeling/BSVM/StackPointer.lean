/-
# `BSVM.StackPointer` — `sp` in every machine the program can reach

The invariant is that `sp` is a multiple of eight between the base of the
stack and the end of memory.  Every handler compares `sp` with one end of
that range only, strictly, and moves it by eight: a multiple of eight that is
not the end is at least eight away from it, which is what makes the other
access, and the guards of the handlers, suffice.

    push    STACK_BASE < sp    so  STACK_BASE ≤ sp - 8
    pop     sp < MEM_SIZE      so  sp + 8 ≤ MEM_SIZE
-/
import BSVM.Run

namespace BSVM

/-! ## The invariant -/

structure StackAligned (vm : VM) : Prop where
  aligned : 8 ∣ vm.sp.toNat
  base : STACK_BASE ≤ vm.sp.toNat
  top : vm.sp.toNat ≤ MEM_SIZE

variable {host : Host} {vm vm' : VM} {i : Instruction} {status : VmError}

/-- The invariant is about `sp` only. -/
theorem StackAligned.of_sp (h : StackAligned vm) (hsp : vm'.sp = vm.sp) : StackAligned vm' where
  aligned := hsp ▸ h.aligned
  base := hsp ▸ h.base
  top := hsp ▸ h.top

theorem stackAligned_init (m : Memory) (pc : Word) :
    StackAligned { initVM with memory := m, pc := pc } := by
  have h : StackAligned initVM := ⟨by decide, by decide, by decide⟩
  exact h.of_sp rfl

theorem StackAligned.push (h : StackAligned vm) (hsp : STACK_BASE < vm.sp.toNat)
    (hvm' : vm'.sp = vm.sp - 8) : StackAligned vm' := by
  obtain ⟨⟨k, hk⟩, -, htop⟩ := h
  simp at hsp htop
  have hsub : vm'.sp.toNat = vm.sp.toNat - 8 := by
    rw [hvm', BitVec.toNat_sub]
    simp
    omega
  refine ⟨⟨k - 1, ?_⟩, ?_, ?_⟩
  · omega
  · simp
    omega
  · simp
    omega

/-- Any number of words popped at once. -/
theorem StackAligned.pops (h : StackAligned vm) (n : Nat)
    (hn : n = 0 ∨ vm.sp.toNat + 8 * n ≤ MEM_SIZE)
    (hvm' : vm'.sp = vm.sp + BitVec.ofNat 64 (8 * n)) : StackAligned vm' := by
  rcases hn with rfl | hn
  · exact h.of_sp (by rw [hvm']; simp)
  · obtain ⟨⟨k, hk⟩, hbase, -⟩ := h
    simp at hn hbase
    have hadd : vm'.sp.toNat = vm.sp.toNat + 8 * n := by
      rw [hvm']
      exact toNat_add_ofNat (by omega)
    refine ⟨⟨k + n, ?_⟩, ?_, ?_⟩
    · omega
    · simp
      omega
    · simp
      omega

theorem StackAligned.effect (h : StackAligned vm) (he : Effect host vm i status vm') :
    StackAligned vm' := by
  cases he with
  | refused | passed => exact h
  | computed | loaded | stored | fetchedSet | fetched | jumped | halted => exact h.of_sp rfl
  | pushed v pc h₁ => exact h.push h₁ rfl
  | popped regs pc hroom => exact h.pops 1 (Or.inr hroom) rfl
  | reset => exact stackAligned_init _ _
  | trapped _ ht =>
      obtain ⟨n, hsp, hroom⟩ := ht.sp
      exact h.pops n hroom hsp
  | copied _ _ hc => exact h.pops 3 (Or.inr hc.room) hc.sp

theorem Reachable.stackAligned (h : Reachable vm) : StackAligned vm :=
  h.induction stackAligned_init fun _ _ hstep =>
    hstep.keeps (P := StackAligned) (fun _ _ h => h.of_sp rfl) fun _ _ _ _ _ h he => h.effect he

/-! ## The accesses at `sp` -/

/-- The accesses at `sp` succeed behind the tests that the handlers make, and
what follows for the handlers. -/
structure StackServes (vm : VM) : Prop where
  /-- the write of a push -/
  write : ∀ v, STACK_BASE < vm.sp.toNat → ∃ m,
    memWrite64 { vm with sp := vm.sp - 8 } (vm.sp - 8) v =
      .ok (.ok, { vm with sp := vm.sp - 8, memory := m })
  /-- the read of a pop -/
  read : ∀ out, vm.sp.toNat < MEM_SIZE → ∃ v, memRead64 vm vm.sp out = .ok (.ok, v)
  /-- no push is undone -/
  push : ∀ v, STACK_BASE < vm.sp.toNat → ∃ m,
    pushWord vm v = .ok (.ok, { vm with sp := vm.sp - 8, memory := m })
  /-- no access at `sp` is reported -/
  status : ∀ handler ∈ [instrPUSH, instrPUSHR, instrPOP, instrCALL, instrCALLR, instrRTN],
    ∀ i, Returns (handler vm i) (fun r => r.1 ≠ .illMemAccess)
  /-- nor by a call whose target is in memory, which reports the read of that -/
  call : ∀ i addr, STACK_BASE < vm.sp.toNat →
    Returns (callAt vm i addr) (fun r => r.1 = .illMemAccess →
      ∃ v, memRead64 vm addr 0 = .ok (.illMemAccess, v))
  /-- the local of `RTN` is set -/
  rtn : ∀ i, instrRTN vm i ≠ .error .uninitialised

section
variable (h : StackAligned vm)
include h

theorem StackAligned.room (hsp : vm.sp.toNat < MEM_SIZE) : vm.sp.toNat + 8 ≤ MEM_SIZE := by
  obtain ⟨⟨k, hk⟩, -, -⟩ := h
  simp at hsp ⊢
  omega

theorem StackAligned.pushWord_eq (v : Word) (hsp : STACK_BASE < vm.sp.toNat) :
    pushWord vm v = .ok (.ok, { vm with sp := vm.sp - 8,
                                        memory := writeWord vm.memory (vm.sp.toNat - 8) v }) := by
  rw [BSVM.pushWord_eq v hsp, if_pos h.top]

theorem StackAligned.write (v : Word) (hsp : STACK_BASE < vm.sp.toNat) :
    memWrite64 { vm with sp := vm.sp - 8 } (vm.sp - 8) v =
      .ok (.ok, { vm with sp := vm.sp - 8,
                          memory := writeWord vm.memory (vm.sp.toNat - 8) v }) := by
  have hpush := h.pushWord_eq v hsp
  rw [pushWord] at hpush
  obtain ⟨⟨status, vm₁⟩, hwrite, hpush⟩ := Except.bind_eq_ok.mp hpush
  dsimp only at hpush
  split at hpush
  · exact hwrite.trans hpush
  · next hne => exact absurd (Prod.mk.inj (Except.ok.inj hpush)).1 hne

theorem StackAligned.read (out : Word) (hsp : vm.sp.toNat < MEM_SIZE) :
    memRead64 vm vm.sp out = .ok (.ok, readWord vm.memory vm.sp.toNat) := by
  rw [memRead64_sp out hsp, if_pos (h.room hsp)]

theorem StackAligned.push_ok (v : Word) (hsp : STACK_BASE < vm.sp.toNat) :
    Returns (pushWord vm v) (fun r => r.1 ≠ .illMemAccess) := by
  rw [h.pushWord_eq v hsp]
  exact Returns.ok_iff.mpr nofun

/-- A call that gets to its push reports nothing. -/
theorem StackAligned.callTo_ok (i : Instruction) (target : Word)
    (hsp : STACK_BASE < vm.sp.toNat) :
    Returns (callTo vm i target) (fun r => r.1 ≠ .illMemAccess) := by
  refine Returns.bind_iff.mpr fun size _ => ?_
  beta_reduce
  rw [h.pushWord_eq _ hsp]
  exact Returns.ok_iff.mpr nofun

theorem StackAligned.pop_ok (i : Instruction) :
    Returns (instrPOP vm i) (fun r => r.1 ≠ .illMemAccess) := by
  refine Returns.guard nofun fun hsp => ?_
  refine Returns.guard nofun fun _ => ?_
  rw [h.read 0 (Nat.not_le.mp hsp), Except.ok_bind]
  refine Returns.ite_iff.mpr ⟨fun _ => ?_, fun hne => absurd rfl hne⟩
  exact Returns.bind_iff.mpr fun vm₁ _ => Returns.ok_iff.mpr nofun

/-- No instruction that uses the stack reports an access at `sp`. -/
theorem StackAligned.status_ok {handler : InstrHandler}
    (hmem : handler ∈ [instrPUSH, instrPUSHR, instrPOP, instrCALL, instrCALLR, instrRTN])
    (i : Instruction) : Returns (handler vm i) (fun r => r.1 ≠ .illMemAccess) := by
  simp only [List.mem_cons, List.not_mem_nil, or_false] at hmem
  rcases hmem with rfl | rfl | rfl | rfl | rfl | rfl
  · refine Returns.guard nofun fun hsp => ?_
    refine Returns.guard nofun fun _ => ?_
    exact h.push_ok _ (Nat.not_le.mp hsp)
  · refine Returns.guard nofun fun hsp => ?_
    refine Returns.guard nofun fun _ => ?_
    exact Returns.bind_iff.mpr fun x _ => h.push_ok x (Nat.not_le.mp hsp)
  · exact h.pop_ok i
  · refine Returns.guard nofun fun hsp => ?_
    refine Returns.guard nofun fun _ => ?_
    exact h.callTo_ok i _ (Nat.not_le.mp hsp)
  · refine Returns.guard nofun fun _ => ?_
    refine Returns.guard nofun fun hsp => ?_
    refine Returns.bind_iff.mpr fun target _ => ?_
    refine Returns.guard nofun fun _ => ?_
    exact h.callTo_ok i _ (Nat.not_le.mp hsp)
  · refine Returns.guard nofun fun hsp => ?_
    rw [h.read 0 (Nat.not_le.mp hsp), Except.ok_bind]
    refine Returns.ite_iff.mpr ⟨fun hne => absurd rfl hne, fun _ => ?_⟩
    exact Returns.ite_iff.mpr ⟨fun _ => Returns.ok_iff.mpr nofun,
      fun _ => Returns.ok_iff.mpr nofun⟩

theorem StackAligned.serves : StackServes vm where
  write v hsp := ⟨_, h.write v hsp⟩
  read out hsp := ⟨_, h.read out hsp⟩
  push v hsp := ⟨_, h.pushWord_eq v hsp⟩
  status handler hmem i := h.status_ok hmem i
  call i addr hsp := by
    refine Returns.bind_iff.mpr ?_
    rintro ⟨status, v⟩ hread
    refine Returns.ite_iff.mpr ⟨fun _ => Returns.ok_iff.mpr ?_, fun _ => ?_⟩
    · rintro (rfl : status = _)
      exact ⟨v, hread⟩
    · refine Returns.guard nofun fun _ => ?_
      exact (h.callTo_ok i _ hsp).mono fun _ hne heq => absurd heq hne
  rtn i := by
    rw [instrRTN]
    split
    · exact nofun
    · next hsp =>
        rw [h.read 0 (Nat.not_le.mp hsp), Except.ok_bind]
        simp only [ne_eq, not_true, if_false]
        split
        · exact nofun
        · exact nofun

end

/-- **In every machine the program can reach, `sp` is a multiple of eight
inside the stack, and no access at `sp` fails.** -/
theorem stack_pointer_reachable (hvm : Reachable vm) :
    8 ∣ vm.sp.toNat ∧ STACK_BASE ≤ vm.sp.toNat ∧ vm.sp.toNat ≤ MEM_SIZE ∧ StackServes vm := by
  have h := hvm.stackAligned
  exact ⟨h.aligned, h.base, h.top, h.serves⟩

/-- `CALL 13`, `HALT`, and at 13 `PUSH 7`, `POP R1`, `RTN`. -/
def oneCall : Binary where
  headers := ⟨0, 0, 29, 0⟩
  bytecode := [18, 1, 0, 13, 0, 0, 0, 0, 0, 0, 0, 29, 0, 15, 1, 0, 7, 0, 0, 0, 0, 0, 0, 0,
    16, 2, 1, 19, 0]
  data := []

/-- Inside the callee, with the return address and the `7` on the stack. -/
theorem stack_pointer_callee : (machineAfter oneCall 2).sp = BitVec.ofNat 64 (MEM_SIZE - 16) ∧
    8 ∣ (machineAfter oneCall 2).sp.toNat ∧ STACK_BASE ≤ (machineAfter oneCall 2).sp.toNat ∧
      (machineAfter oneCall 2).sp.toNat ≤ MEM_SIZE ∧ StackServes (machineAfter oneCall 2) := by
  have hcall : Step (machineAfter oneCall 0) (machineAfter oneCall 1) := ⟨default, .ok, rfl⟩
  have hpush : Step (machineAfter oneCall 1) (machineAfter oneCall 2) := ⟨default, .ok, rfl⟩
  exact ⟨rfl, stack_pointer_reachable
    ⟨oneCall, 0, .ok, _, rfl, (Relation.ReflTransGen.single hcall).tail hpush⟩⟩

end BSVM
