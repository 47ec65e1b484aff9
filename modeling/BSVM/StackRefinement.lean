/-
# `BSVM.StackRefinement` — the guest's stack is a bounded stack

The words from `sp` to the end of memory, top first (`VM.stack`), behave as a
stack of `stackCapacity` words under the instructions that use it:

    PUSH, PUSH Rn    push the operand
    CALL             push the address behind the instruction
    POP Rn           pop into the register
    RTN              pop into pc

Some of them are refused although the stack would serve them (`TestFails`).
`stack_refines` is that refinement, for one instruction and for every
sequence of them.
-/
import BSVM.Lib.BoundedStack
import BSVM.StackPointer

namespace BSVM

open BoundedStack (Request Answer)

/-! ## The abstraction -/

def stackCapacity : Nat := (MEM_SIZE - STACK_BASE) / 8

/-- The words on the stack, top first. -/
def VM.stack (vm : VM) : List Word :=
  (List.range ((MEM_SIZE - vm.sp.toNat) / 8)).map vm.stackWord

/-- What the instruction asks of the stack, if it uses it. -/
def request (vm : VM) (i : Instruction) : Option (Request Word) :=
  match i.opcode, i.mode with
  | .push, .imm => some (.push i.args)
  | .push, .regu => some (.push (vm.reg i.a))
  | .pop, .regu => some .pop
  | .rtn, .none => some .pop
  | .call, .imm => some (.push (vm.pc + 11))
  | .call, .regu => some (.push (vm.pc + 3))
  | .call, .dir => some (.push (vm.pc + 11))
  | .call, .ind => some (.push (vm.pc + 4))
  | .call, .idx => some (.push (vm.pc + 12))
  | _, _ => none

/-- The register operand, in the modes that have one. -/
def OperandExists (i : Instruction) : Prop :=
  i.mode = .regu ∨ i.mode = .ind ∨ i.mode = .idx → i.a.toNat < N_REG

/-- The call through the word at `addr` has no target: the word is not in memory, or
not an address of the code. -/
def NoTarget (vm : VM) (addr : Word) : Prop :=
  addr.toNat + 7 < MEM_SIZE → DATA_BASE ≤ (readWord vm.memory addr.toNat).toInt

/-- The tests the code makes that are not about the stack's depth: `PUSH x` looks at the
byte `a`, `CALL` and `RTN` at the target. -/
def TestFails (vm : VM) (i : Instruction) : Prop :=
  match i.opcode, i.mode with
  | .push, .imm => N_REG ≤ i.a.toNat
  | .rtn, .none => DATA_BASE ≤ (vm.stackWord 0).toInt
  | .call, .imm => DATA_BASE ≤ i.args.toNat
  | .call, .regu => DATA_BASE ≤ (vm.reg i.a).toInt
  | .call, .dir => NoTarget vm i.args
  | .call, .ind => NoTarget vm (vm.reg i.a)
  | .call, .idx => NoTarget vm (vm.reg i.a + i.args)
  | _, _ => False

/-- The stack can serve the request. -/
def VM.HasRoom (vm : VM) : Request Word → Prop
  | .push _ => vm.stack.length < stackCapacity
  | .pop => vm.stack ≠ []

/-- The status, and where a pop leaves its word. -/
def answerOf (i : Instruction) (r : Result) : Answer Word :=
  match r.1, i.opcode with
  | .ok, .pop => .delivered (r.2.reg i.a)
  | .ok, .rtn => .delivered r.2.pc
  | .ok, _ => .done
  | .stackOverflow, _ => .overflow
  | .stackUnderflow, _ => .underflow
  | _, _ => .refused

/-- One instruction that uses the stack.  What happens to `pc`, the registers
and the flags until the next one is left open. -/
def StackStep (vm : VM) (q : Request Word) (a : Answer Word) (vm' : VM) : Prop :=
  ∃ host i r, request vm i = some q ∧ OperandExists i ∧ execute host vm i = .ok r ∧
    a = answerOf i r ∧ vm'.sp = r.2.sp ∧ vm'.memory = r.2.memory

variable {host : Host} {vm vm' : VM} {i : Instruction} {q : Request Word}

/-! ## The words on the stack -/

theorem stack_length (vm : VM) : vm.stack.length = (MEM_SIZE - vm.sp.toNat) / 8 := by
  rw [VM.stack, List.length_map, List.length_range]

theorem stack_congr (hsp : vm'.sp = vm.sp) (hmem : vm'.memory = vm.memory) :
    vm'.stack = vm.stack := by
  have hword : vm'.stackWord = vm.stackWord := by
    funext k
    rw [VM.stackWord, VM.stackWord, hsp, hmem]
  rw [VM.stack, VM.stack, hsp, hword]

/-- Two machines one of which has one word more. -/
theorem stack_cons (hsp : vm'.sp.toNat = vm.sp.toNat + 8) (htop : vm'.sp.toNat ≤ MEM_SIZE)
    (hword : ∀ k, vm'.stackWord k = vm.stackWord (k + 1)) :
    vm.stack = vm.stackWord 0 :: vm'.stack := by
  have hdepth : (MEM_SIZE - vm.sp.toNat) / 8 = (MEM_SIZE - vm'.sp.toNat) / 8 + 1 := by
    simp at htop ⊢
    omega
  rw [VM.stack, VM.stack, hdepth, List.range_succ_eq_map, List.map_cons, List.map_map]
  exact congrArg _ (List.map_congr_left fun k _ => (hword k).symm)

/-- The machine after a push of `v`. -/
def VM.pushed (vm : VM) (v pc : Word) : VM :=
  { vm with sp := vm.sp - 8, pc := pc, memory := writeWord vm.memory (vm.sp.toNat - 8) v }

theorem stack_pushed (h : StackAligned vm) (hsp : STACK_BASE < vm.sp.toNat) (v pc : Word) :
    (vm.pushed v pc).stack = v :: vm.stack := by
  have htop := h.top
  simp at hsp htop
  have hsub : (vm.pushed v pc).sp.toNat = vm.sp.toNat - 8 := by
    show (vm.sp - 8).toNat = _
    rw [BitVec.toNat_sub]
    simp
    omega
  have hfirst : (vm.pushed v pc).stackWord 0 = v := by
    rw [VM.stackWord, hsub]
    exact readWord_writeWord v (by simp; omega)
  have hback : vm.sp.toNat = (vm.pushed v pc).sp.toNat + 8 := by omega
  have hrest : ∀ k, vm.stackWord k = (vm.pushed v pc).stackWord (k + 1) := by
    intro k
    rw [VM.stackWord, VM.stackWord, hsub,
      show vm.sp.toNat - 8 + 8 * (k + 1) = vm.sp.toNat + 8 * k by omega]
    exact (readWord_writeWord_of_disjoint v (Or.inr (by omega))).symm
  have hcons := stack_cons hback h.top hrest
  rwa [hfirst] at hcons

theorem stack_popped (hroom : vm.sp.toNat + 8 ≤ MEM_SIZE) (hsp : vm'.sp = vm.sp + 8)
    (hmem : vm'.memory = vm.memory) : vm.stack = vm.stackWord 0 :: vm'.stack := by
  have hadd : vm'.sp.toNat = vm.sp.toNat + 8 := by
    rw [hsp]
    exact toNat_add_ofNat (n := 8) (by simp at hroom; omega)
  refine stack_cons hadd (hadd ▸ hroom) fun k => ?_
  rw [VM.stackWord, VM.stackWord, hadd, hmem]
  congr 1
  omega

theorem full_iff (h : StackAligned vm) :
    vm.stack.length = stackCapacity ↔ vm.sp.toNat ≤ STACK_BASE := by
  have hbase := h.base
  rw [stack_length, stackCapacity]
  simp at hbase ⊢
  omega

theorem empty_iff (h : StackAligned vm) : vm.stack = [] ↔ MEM_SIZE ≤ vm.sp.toNat := by
  obtain ⟨⟨k, hk⟩, -, htop⟩ := h
  rw [← List.length_eq_zero_iff, stack_length]
  simp at htop ⊢
  omega

/-! ## Instructions that push

They test for a full stack, and what they do otherwise (`Pushes`). -/

/-- The errors that are not about the stack. -/
def VmError.refuses : VmError → Bool
  | .ok | .stackOverflow | .stackUnderflow => false
  | _ => true

inductive Pushes (vm : VM) (refuses : Prop) (v : Word) : Result → Prop
  | refused {status : VmError} (h : status.refuses = true) (hr : refuses) :
      Pushes vm refuses v (status, vm)
  | pushed (pc : Word) (hr : ¬ refuses) : Pushes vm refuses v (.ok, vm.pushed v pc)

theorem refuses_pushes {refuses : Prop} {v : Word} {status : VmError}
    (h : status.refuses = true) (hr : refuses) :
    Returns (.ok (status, vm) : Exec Result) (Pushes vm refuses v) :=
  Returns.ok_iff.mpr (.refused h hr)

section
variable (h : StackAligned vm) (hsp : STACK_BASE < vm.sp.toNat)
include h hsp

theorem pushWord_pushes {refuses : Prop} (hr : ¬ refuses) (v : Word) :
    Returns (pushWord vm v) (Pushes vm refuses v) := by
  rw [h.pushWord_eq v hsp]
  exact Returns.ok_iff.mpr (.pushed vm.pc hr)

theorem callTo_pushes {refuses : Prop} {size : Nat} (hsize : modeSize i.mode = .ok size)
    (hr : ¬ refuses) (target : Word) :
    Returns (callTo vm i target) (Pushes vm refuses (vm.pc + BitVec.ofNat 64 size)) := by
  rw [callTo, hsize, Except.ok_bind, h.pushWord_eq _ hsp]
  exact Returns.ok_iff.mpr (.pushed target hr)

theorem callAt_pushes {size : Nat} (hsize : modeSize i.mode = .ok size) (addr : Word) :
    Returns (callAt vm i addr)
      (Pushes vm (NoTarget vm addr) (vm.pc + BitVec.ofNat 64 size)) := by
  refine Returns.bind_iff.mpr ?_
  rintro ⟨status, target⟩ hread
  rcases memRead64_cases hread with ⟨rfl, hin, rfl⟩ | ⟨rfl, hout, -⟩
  · refine Returns.ite_iff.mpr ⟨fun hne => absurd rfl hne, fun _ => ?_⟩
    refine Returns.ite_iff.mpr ⟨fun hge => refuses_pushes rfl fun _ => hge, fun hlt => ?_⟩
    exact callTo_pushes h hsp hsize (fun hno => hlt (hno hin)) _
  · exact Returns.ite_iff.mpr ⟨fun _ => refuses_pushes rfl fun hin => absurd hin hout,
      fun hno => absurd (by decide) hno⟩

end

/-- The test for a full stack comes first, up to the register of `CALL Rn`. -/
theorem push_shape (host : Host) (h : StackAligned vm) {v : Word}
    (hq : request vm i = some (.push v)) (hreg : OperandExists i) :
    ∃ x, execute host vm i =
        (if vm.sp.toNat ≤ STACK_BASE then .ok (.stackOverflow, vm) else x) ∧
      (STACK_BASE < vm.sp.toNat → Returns x (Pushes vm (TestFails vm i) v)) := by
  rw [execute, TestFails]
  rw [request] at hq
  split at hq <;> cases hq
  · next hop hm =>
      rw [hop, hm]
      refine ⟨_, rfl, fun hsp => ?_⟩
      refine Returns.ite_iff.mpr ⟨fun ha => refuses_pushes rfl ha, fun ha => ?_⟩
      exact pushWord_pushes h hsp ha _
  · next hop hm =>
      have ha := hreg (Or.inl hm)
      rw [hop, hm]
      refine ⟨_, rfl, fun hsp => ?_⟩
      refine Returns.ite_iff.mpr ⟨fun hno => absurd ha (Nat.not_lt.mpr hno), fun _ => ?_⟩
      refine Returns.bind_iff.mpr fun x hx => ?_
      obtain ⟨-, rfl⟩ := getReg_cases hx
      exact pushWord_pushes h hsp not_false _
  · next hop hm =>
      have hsize : modeSize i.mode = .ok 11 := by rw [hm]; rfl
      rw [hop, hm]
      refine ⟨_, rfl, fun hsp => ?_⟩
      refine Returns.ite_iff.mpr ⟨fun hge => refuses_pushes rfl hge, fun hlt => ?_⟩
      exact callTo_pushes h hsp hsize hlt _
  · next hop hm =>
      have hsize : modeSize i.mode = .ok 3 := by rw [hm]; rfl
      have ha := hreg (Or.inl hm)
      rw [hop, hm]
      refine ⟨_, if_neg (Nat.not_le.mpr ha), fun hsp => ?_⟩
      refine Returns.bind_iff.mpr fun target htarget => ?_
      obtain ⟨-, rfl⟩ := getReg_cases htarget
      refine Returns.ite_iff.mpr ⟨fun hge => refuses_pushes rfl hge, fun hlt => ?_⟩
      exact callTo_pushes h hsp hsize hlt _
  · next hop hm =>
      have hsize : modeSize i.mode = .ok 11 := by rw [hm]; rfl
      rw [hop, hm]
      exact ⟨_, rfl, fun hsp => callAt_pushes h hsp hsize _⟩
  · next hop hm =>
      have hsize : modeSize i.mode = .ok 4 := by rw [hm]; rfl
      have ha := hreg (Or.inr (Or.inl hm))
      rw [hop, hm]
      refine ⟨_, rfl, fun hsp => ?_⟩
      refine Returns.ite_iff.mpr ⟨fun hno => absurd ha (Nat.not_lt.mpr hno), fun _ => ?_⟩
      refine Returns.bind_iff.mpr fun addr haddr => ?_
      obtain ⟨-, rfl⟩ := getReg_cases haddr
      exact callAt_pushes h hsp hsize _
  · next hop hm =>
      have hsize : modeSize i.mode = .ok 12 := by rw [hm]; rfl
      have ha := hreg (Or.inr (Or.inr hm))
      rw [hop, hm]
      refine ⟨_, rfl, fun hsp => ?_⟩
      refine Returns.ite_iff.mpr ⟨fun hno => absurd ha (Nat.not_lt.mpr hno), fun _ => ?_⟩
      refine Returns.bind_iff.mpr fun a ha' => ?_
      obtain ⟨-, rfl⟩ := getReg_cases ha'
      exact callAt_pushes h hsp hsize _

/-! ## Instructions that pop -/

inductive Pops (vm : VM) (i : Instruction) : Result → Prop
  | refused {status : VmError} (h : status.refuses = true) (hr : TestFails vm i) :
      Pops vm i (status, vm)
  | popped {vm' : VM} (hsp : vm'.sp = vm.sp + 8) (hmem : vm'.memory = vm.memory)
      (hword : answerOf i (.ok, vm') = .delivered (vm.stackWord 0)) (hr : ¬ TestFails vm i) :
      Pops vm i (.ok, vm')

theorem pop_shape (host : Host) (h : StackAligned vm) (hq : request vm i = some .pop)
    (hreg : OperandExists i) :
    ∃ x, execute host vm i =
        (if MEM_SIZE ≤ vm.sp.toNat then .ok (.stackUnderflow, vm) else x) ∧
      (vm.sp.toNat < MEM_SIZE → Returns x (Pops vm i)) := by
  rw [execute]
  rw [request] at hq
  split at hq <;> cases hq
  · next hop hm =>
      have ha := hreg (Or.inl hm)
      rw [hop, hm]
      refine ⟨_, instrPOP_eq ha, fun hsp => ?_⟩
      refine Returns.ite_iff.mpr ⟨fun hroom => Returns.ok_iff.mpr ?_,
        fun hno => absurd (h.room hsp) hno⟩
      refine .popped rfl rfl ?_ ?_
      · rw [answerOf, hop]
        show Answer.delivered ((vm.popped ⟨i.a.toNat, ha⟩).reg i.a) = _
        rw [VM.reg, dif_pos ha, VM.popped]
        exact congrArg _ (Function.update_self ..)
      · rw [TestFails, hop, hm]
        exact not_false
  · next hop hm =>
      have hrefuses : TestFails vm i ↔ DATA_BASE ≤ (vm.stackWord 0).toInt := by
        rw [TestFails, hop, hm]
      rw [hop, hm]
      refine ⟨_, rfl, fun hsp => ?_⟩
      rw [h.read 0 hsp, Except.ok_bind]
      refine Returns.ite_iff.mpr ⟨fun hne => absurd rfl hne, fun _ => ?_⟩
      refine Returns.ite_iff.mpr ⟨fun hge => Returns.ok_iff.mpr ?_,
        fun hlt => Returns.ok_iff.mpr ?_⟩
      · exact .refused rfl (hrefuses.mpr hge)
      · refine .popped rfl rfl ?_ (mt hrefuses.mp hlt)
        rw [answerOf, hop]
        rfl

/-! ## The refinement -/

theorem answerOf_refuses {r : Result} (h : r.1.refuses = true) : answerOf i r = .refused := by
  obtain ⟨status, vm'⟩ := r
  rw [answerOf]
  cases status
  case ok | stackOverflow | stackUnderflow => cases h
  all_goals rfl

theorem answerOf_push {v : Word} (hq : request vm i = some (.push v)) (vm' : VM) :
    answerOf i (.ok, vm') = .done := by
  rw [request] at hq
  rw [answerOf]
  split at hq <;> cases hq
  all_goals
    next hop _ =>
      rw [hop]

/-- What one instruction leaves is a step of the stack, and it is refused for its own
test only. -/
structure Serves (vm : VM) (i : Instruction) (q : Request Word) (r : Result) : Prop where
  step : BoundedStack.Step stackCapacity vm.stack q (answerOf i r) r.2.stack
  refused : answerOf i r = .refused ↔ TestFails vm i ∧ vm.HasRoom q
  aligned : StackAligned r.2

theorem push_serves (h : StackAligned vm) {v : Word} (hq : request vm i = some (.push v))
    (hreg : OperandExists i) : Returns (execute host vm i) (Serves vm i (.push v)) := by
  obtain ⟨x, hx, hpush⟩ := push_shape host h hq hreg
  rw [hx]
  refine Returns.ite_iff.mpr ⟨fun hsp => Returns.ok_iff.mpr ?_, fun hsp => ?_⟩
  · have hfull := (full_iff h).mpr hsp
    exact ⟨.full hfull, iff_of_false nofun fun hno => Nat.ne_of_lt hno.2 hfull, h⟩
  · have hroom := Nat.not_le.mp hsp
    have hlen : vm.stack.length < stackCapacity := by
      have hbase := h.base
      rw [stack_length, stackCapacity]
      simp at hroom ⊢
      omega
    refine (hpush hroom).mono fun r hr => ?_
    cases hr with
    | refused hst hrefuses =>
        have hanswer := answerOf_refuses (i := i) (r := (_, vm)) hst
        exact ⟨hanswer ▸ .notPushed hlen, iff_of_true hanswer ⟨hrefuses, hlen⟩, h⟩
    | pushed pc hno =>
        have hanswer := answerOf_push hq (vm.pushed v pc)
        refine ⟨?_, iff_of_false (hanswer ▸ nofun) fun hyes => hno hyes.1, h.push hroom rfl⟩
        rw [hanswer, stack_pushed h hroom]
        exact .pushed hlen

theorem pop_serves (h : StackAligned vm) (hq : request vm i = some .pop)
    (hreg : OperandExists i) : Returns (execute host vm i) (Serves vm i .pop) := by
  obtain ⟨x, hx, hpop⟩ := pop_shape host h hq hreg
  rw [hx]
  refine Returns.ite_iff.mpr ⟨fun hsp => Returns.ok_iff.mpr ?_, fun hsp => ?_⟩
  · have hempty := (empty_iff h).mpr hsp
    refine ⟨?_, iff_of_false nofun fun hno => hno.2 hempty, h⟩
    rw [hempty]
    exact .empty
  · have htop := h.room (Nat.not_le.mp hsp)
    have hcons : vm.stack = vm.stackWord 0 :: ({ vm with sp := vm.sp + 8 } : VM).stack :=
      stack_popped htop rfl rfl
    refine (hpop (Nat.not_le.mp hsp)).mono fun r hr => ?_
    cases hr with
    | refused hst hrefuses =>
        have hanswer := answerOf_refuses (i := i) (r := (_, vm)) hst
        have hroom : vm.stack ≠ [] := fun hnil => List.cons_ne_nil _ _ (hcons.symm.trans hnil)
        refine ⟨?_, iff_of_true hanswer ⟨hrefuses, hroom⟩, h⟩
        rw [hanswer, hcons]
        exact .notPopped
    | popped hsp' hmem hword hno =>
        refine ⟨?_, iff_of_false (hword ▸ nofun) fun hyes => hno hyes.1,
          h.pops 1 (Or.inr htop) hsp'⟩
        rw [hword, stack_popped htop hsp' hmem]
        exact .popped

theorem stack_step (h : StackAligned vm) (hq : request vm i = some q) (hreg : OperandExists i) :
    Returns (execute host vm i) (Serves vm i q) := by
  cases q with
  | push v => exact push_serves h hq hreg
  | pop => exact pop_serves h hq hreg

theorem stack_refinement :
    BoundedStack.Refines stackCapacity StackAligned VM.stack StackStep := by
  rintro vm q a vm' h ⟨host, i, r, hq, hreg, hrun, rfl, hsp, hmem⟩
  have hserved := stack_step h hq hreg r hrun
  rw [stack_congr hsp hmem]
  exact ⟨hserved.step, hserved.aligned.of_sp hsp⟩

/-- `cpu_step` on such an instruction: it moves `pc` after the handler. -/
theorem cpuStep_stackStep {status : VmError} (hexec : Executes host vm i)
    (hq : request vm i = some q) (hreg : OperandExists i)
    (hstep : cpuStep host vm = .ok (status, vm')) : ∃ a, StackStep vm q a vm' := by
  obtain ⟨handler, size, vm₁, hh, -, hrun, rfl⟩ := cpuStep_executes hexec hstep
  have hexecute : execute host vm i = .ok (status, vm₁) := (execute_handler hh).trans hrun
  exact ⟨_, host, i, _, hq, hreg, hexecute, rfl, advance_sp _ _ _, advance_memory _ _ _⟩

/-- What is asked of an instruction that uses the stack. -/
structure StackServed (host : Host) (vm : VM) (i : Instruction) (q : Request Word) : Prop where
  overflow : (∃ vm', execute host vm i = .ok (.stackOverflow, vm')) ↔
    (∃ v, q = .push v) ∧ vm.stack.length = stackCapacity
  underflow : (∃ vm', execute host vm i = .ok (.stackUnderflow, vm')) ↔ q = .pop ∧ vm.stack = []
  step : ∀ r, execute host vm i = .ok r →
    BoundedStack.Step stackCapacity vm.stack q (answerOf i r) r.2.stack
  refused : ∀ r, execute host vm i = .ok r →
    (answerOf i r = .refused ↔ TestFails vm i ∧ vm.HasRoom q)

theorem stack_served (h : StackAligned vm) (hq : request vm i = some q) (hreg : OperandExists i) :
    StackServed host vm i q where
  overflow := by
    constructor
    · rintro ⟨vm', hrun⟩
      have hstep := (stack_step h hq hreg _ hrun).step
      exact hstep.overflow_iff.mp rfl
    · rintro ⟨⟨v, rfl⟩, hfull⟩
      obtain ⟨x, hx, -⟩ := push_shape host h hq hreg
      rw [hx, if_pos ((full_iff h).mp hfull)]
      exact ⟨vm, rfl⟩
  underflow := by
    constructor
    · rintro ⟨vm', hrun⟩
      have hstep := (stack_step h hq hreg _ hrun).step
      exact hstep.underflow_iff.mp rfl
    · rintro ⟨rfl, hempty⟩
      obtain ⟨x, hx, -⟩ := pop_shape host h hq hreg
      rw [hx, if_pos ((empty_iff h).mp hempty)]
      exact ⟨vm, rfl⟩
  step r hrun := (stack_step h hq hreg r hrun).step
  refused r hrun := (stack_step h hq hreg r hrun).refused

/-- **From every machine with an aligned `sp`, the instructions that use the
stack, one by one and in every sequence, are operations of a bounded stack.** -/
theorem stack_refines (vm : VM) :
    StackAligned vm →
      (∀ host i q, request vm i = some q → OperandExists i → StackServed host vm i q) ∧
      (∀ trace vm', BoundedStack.Trace StackStep vm trace vm' →
        BoundedStack.Trace (BoundedStack.Step stackCapacity) vm.stack trace vm'.stack ∧
          StackAligned vm') := by
  intro h
  constructor
  · exact fun host i q hq hreg => stack_served h hq hreg
  · exact fun trace vm' ht => stack_refinement.trace ht h

/-- `PUSH 5` on an empty stack. -/
theorem stack_refines_push :
    StackServed default initVM ⟨.push, .imm, 0, 0, 5⟩ (.push 5) ∧
      BoundedStack.Trace (BoundedStack.Step stackCapacity) initVM.stack [(.push 5, .done)]
        (initVM.pushed 5 0).stack := by
  have h : StackAligned initVM := stackAligned_init _ _
  have hreg : OperandExists ⟨.push, .imm, 0, 0, 5⟩ := nofun
  have hrun : execute default initVM ⟨.push, .imm, 0, 0, 5⟩ = .ok (.ok, initVM.pushed 5 0) :=
    h.pushWord_eq 5 (by decide)
  have hstep : StackStep initVM (.push 5) .done (initVM.pushed 5 0) :=
    ⟨default, _, _, rfl, hreg, hrun, rfl, rfl, rfl⟩
  obtain ⟨hserved, htrace⟩ := stack_refines initVM h
  exact ⟨hserved _ _ _ rfl hreg, (htrace _ _ (.cons hstep (.nil _))).1⟩

end BSVM
