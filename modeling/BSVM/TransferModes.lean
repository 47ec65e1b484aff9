/-
# `BSVM.TransferModes` — the modes of a control transfer

What each mode should be, in terms of another, for JMP, the conditional
jumps and CALL:

    REGU r      IMM with the value of register r
    IND r       DIR at the value of register r
    IDX r, o    DIR at that value plus o

The calls agree, but for the signed comparison of CALL in mode REGU.  The
jumps in modes IND and IDX do not: `jumpd` refuses an address in the data
segment, `jumpi` and `jumpx` refuse one that is not.  `FormsMatch` is where
two forms do the same nevertheless.
-/
import BSVM.Addressing
import BSVM.StackPointer
import BSVM.Transfer

namespace BSVM

/-! ## The forms -/

/-- The three modes with a register. -/
inductive Form where
  | regu | ind | idx
  deriving DecidableEq, Repr

def Form.mode : Form → Mode
  | .regu => .regu
  | .ind => .ind
  | .idx => .idx

/-- The mode each is compared with. -/
def Form.directMode : Form → Mode
  | .regu => .imm
  | .ind | .idx => .dir

/-- The operand that the direct form has in the place of register and offset. -/
def Form.operand (form : Form) (vm : VM) (r : Byte) (o : Word) : Word :=
  match form with
  | .regu | .ind => vm.reg r
  | .idx => vm.reg r + o

/-- The offset is used by mode IDX only; where it is not, it is a left-over
like the field `b`, which no transfer uses. -/
def Form.indirect (form : Form) (op : OpCode) (r b : Byte) (o : Word) : Instruction :=
  { opcode := op, mode := form.mode, a := r, b := b, args := o }

def Form.direct (form : Form) (op : OpCode) (a b : Byte) (v : Word) : Instruction :=
  { opcode := op, mode := form.directMode, a := a, b := b, args := v }

/-! ## When two forms agree -/

/-- The machine after a call, with the return address of an instruction of
the given size. -/
def VM.called (vm : VM) (target : Word) (size : Nat) : VM :=
  { vm with
    sp := vm.sp - 8
    pc := target
    memory := writeWord vm.memory (vm.sp.toNat - 8) (vm.pc + BitVec.ofNat 64 size) }

/-- The two outcomes are the same, up to the return address of a call, which
is behind an instruction of another size. -/
def SameTransfer (vm : VM) (i i' : Instruction) (x y : Exec Result) : Prop :=
  x = y ∨ i.opcode = .call ∧ ∃ target size size',
    modeSize i.mode = .ok size ∧ modeSize i'.mode = .ok size' ∧
      x = .ok (.ok, vm.called target size) ∧ y = .ok (.ok, vm.called target size')

/-- The flags let the jump happen. -/
def taken (op : OpCode) (mode : Mode) (vm : VM) : Bool :=
  match op.condition? with
  | some j => !j.skips mode vm
  | none => true

/-- A jump through the word at `x`, in modes IND and IDX, and what mode DIR
makes of the same address. -/
def JumpsMatch (vm : VM) (x : Word) : (takes takes' : Bool) → Prop
  | true, true => DATA_BASE ≤ x.toNat ∧ x.toNat + 7 < MEM_SIZE ∧
      DATA_BASE ≤ (readWord vm.memory x.toNat).toNat
  | true, false => DATA_BASE ≤ x.toNat ∧ x.toNat + 7 < MEM_SIZE ∧
      readWord vm.memory x.toNat = vm.pc ∧ vm.pc.toNat < DATA_BASE
  | false, true => x.toNat < DATA_BASE ∧
      readWord vm.memory x.toNat = vm.pc ∧ vm.pc.toNat < DATA_BASE
  | false, false => True

def FormsMatch (vm : VM) (op : OpCode) (form : Form) (r : Byte) (o : Word) : Prop :=
  match form with
  | .regu => op = .call → STACK_BASE < vm.sp.toNat → (vm.reg r).toNat < 2 ^ 63
  | _ => op ≠ .call →
      JumpsMatch vm (form.operand vm r o) (taken op form.mode vm) (taken op .dir vm)

/-! ## The jumps -/

variable {host : Host} {vm : VM}

theorem conditional_dispatch (host : Host) (j : Condition) (mode : Mode) :
    getHandler host j.opcode mode = (dispatchJMP mode).map (skipIf (j.skips mode)) := by
  cases j <;> cases mode <;> rfl

/-- A jump is JMP in its mode, when it is taken. -/
theorem execute_jump {i : Instruction} (jmp : InstrHandler) (hop : i.opcode.isJump = true)
    (hjmp : dispatchJMP i.mode = some jmp) :
    execute host vm i = if taken i.opcode i.mode vm then jmp vm i else .ok (.ok, vm) := by
  rw [taken]
  cases hcond : i.opcode.condition? with
  | some j =>
      have hh : getHandler host i.opcode i.mode = some (skipIf (j.skips i.mode) jmp) := by
        rw [opcode_of_condition hcond, conditional_dispatch, hjmp]
        rfl
      rw [execute_handler hh, skipIf]
      by_cases hskip : j.skips i.mode vm = true
      · rw [if_pos hskip, if_neg (by simp [hskip])]
      · rw [if_neg hskip, if_pos (by simp [hskip])]
  | none =>
      have hjump : i.opcode = .jmp := by simpa [OpCode.isJump, hcond] using hop
      have hh : getHandler host i.opcode i.mode = some jmp := by
        rw [hjump]
        exact hjmp
      exact execute_handler hh

/-- The end of `jumpi` and `jumpx`. -/
def throughData (vm : VM) (x : Word) : Exec Result :=
  if x.toNat < DATA_BASE then .ok (.illMemAccess, vm) else goToWord vm x

/-- `jumpd`. -/
def throughCode (vm : VM) (x : Word) : Exec Result :=
  if DATA_BASE ≤ x.toNat then .ok (.invalidJmp, vm) else goToWord vm x

theorem throughData_eq_self {x : Word} :
    throughData vm x = .ok (.ok, vm) ↔ JumpsMatch vm x true false := by
  rw [throughData, JumpsMatch]
  split
  · next hcode => exact ⟨nofun, fun h => absurd hcode (Nat.not_lt.mpr h.1)⟩
  · next hdata =>
      rw [goToWord_eq_self]
      exact ⟨fun h => ⟨Nat.not_lt.mp hdata, h⟩, fun h => h.2⟩

theorem throughCode_eq_self {x : Word} :
    throughCode vm x = .ok (.ok, vm) ↔ JumpsMatch vm x false true := by
  rw [throughCode, JumpsMatch]
  split
  · next hdata => exact ⟨nofun, fun h => absurd h.1 (Nat.not_lt.mpr hdata)⟩
  · next hcode =>
      have hlt := Nat.not_le.mp hcode
      rw [goToWord_eq_self]
      exact ⟨fun h => ⟨hlt, h.2⟩, fun h => ⟨by simp at hlt ⊢; omega, h.2⟩⟩

theorem goToWord_inside {x : Word} (h : x.toNat + 7 < MEM_SIZE) :
    goToWord vm x = .ok (goTo vm (readWord vm.memory x.toNat)) := by
  rw [goToWord, memRead64_inside h]
  rfl

theorem goToWord_refused {x : Word} :
    goToWord vm x = .ok (.invalidJmp, vm) ↔
      x.toNat + 7 < MEM_SIZE ∧ DATA_BASE ≤ (readWord vm.memory x.toNat).toNat := by
  by_cases hlt : x.toNat + 7 < MEM_SIZE
  · rw [goToWord_inside hlt, goTo]
    split
    · next hge => exact ⟨fun _ => ⟨hlt, hge⟩, fun _ => rfl⟩
    · next hin =>
        refine ⟨fun h => ?_, fun h => absurd h.2 hin⟩
        cases h
  · refine ⟨fun h => ?_, fun h => absurd h.1 hlt⟩
    rcases goToWord_cases h with ⟨hlt', -⟩ | ⟨-, heq⟩
    · exact absurd hlt' hlt
    · cases heq

/-- One of the two refuses every address. -/
theorem through_eq {x : Word} :
    throughData vm x = throughCode vm x ↔ JumpsMatch vm x true true := by
  rw [throughData, throughCode, JumpsMatch]
  by_cases hcode : x.toNat < DATA_BASE
  · rw [if_pos hcode, if_neg (Nat.not_le.mpr hcode), goToWord_inside (by simp at hcode ⊢; omega),
      goTo]
    refine ⟨fun h => ?_, fun h => absurd hcode (Nat.not_lt.mpr h.1)⟩
    split at h
    · cases h
    · cases h
  · have hdata := Nat.not_lt.mp hcode
    rw [if_neg hcode, if_pos hdata, goToWord_refused]
    exact ⟨fun h => ⟨hdata, h⟩, fun h => h.2⟩

/-- With the two decisions of the flags. -/
theorem jumps_match_iff {x : Word} (takes takes' : Bool) :
    (if takes then throughData vm x else .ok (.ok, vm)) =
        (if takes' then throughCode vm x else .ok (.ok, vm)) ↔
      JumpsMatch vm x takes takes' := by
  cases takes with
  | true =>
      cases takes' with
      | true => exact through_eq
      | false => exact throughData_eq_self
  | false =>
      cases takes' with
      | true => exact eq_comm.trans throughCode_eq_self
      | false => exact ⟨fun _ => trivial, fun _ => rfl⟩

section
variable {op : OpCode} {r : Byte} (hop : op.isJump = true) (hr : r.toNat < N_REG)
include hop hr

theorem execute_jump_regu (a b b' : Byte) (o : Word) :
    execute host vm (Form.regu.indirect op r b o) =
      execute host vm (Form.regu.direct op a b' (vm.reg r)) := by
  have htaken : taken op .regu vm = taken op .imm vm := by
    rw [taken, taken]
    cases op.condition? with
    | none => rfl
    | some j => cases j <;> rfl
  have hreg : jumpr vm (Form.regu.indirect op r b o) = .ok (goTo vm (vm.reg r)) := by
    simp only [jumpr, Form.indirect, if_neg (Nat.not_lt.mpr hr.le), VM.getReg_reg hr,
      Except.ok_bind, Except.pure_eq]
  rw [execute_jump jumpr hop rfl, execute_jump jump hop rfl, hreg]
  show (if taken op .regu vm then _ else _) = if taken op .imm vm then _ else _
  rw [htaken]
  rfl

theorem execute_jump_indirect {form : Form} (hform : form ≠ .regu) (b : Byte) (o : Word) :
    execute host vm (form.indirect op r b o) =
      if taken op form.mode vm then throughData vm (form.operand vm r o) else .ok (.ok, vm) := by
  have hle := Nat.not_lt.mpr hr.le
  cases form with
  | regu => exact absurd rfl hform
  | ind =>
      have hthrough : jumpi vm (Form.ind.indirect op r b o) = throughData vm (vm.reg r) := by
        simp only [jumpi, Form.indirect, if_neg hle, VM.getReg_reg hr, Except.ok_bind]
        rfl
      rw [execute_jump jumpi hop rfl, hthrough]
      rfl
  | idx =>
      have hthrough : jumpx vm (Form.idx.indirect op r b o) = throughData vm (vm.reg r + o) := by
        simp only [jumpx, Form.indirect, if_neg hle, VM.getReg_reg hr, Except.ok_bind]
        rfl
      rw [execute_jump jumpx hop rfl, hthrough]
      rfl

end

theorem execute_jump_direct {op : OpCode} (hop : op.isJump = true) {form : Form}
    (hform : form ≠ .regu) (a b : Byte) (x : Word) :
    execute host vm (form.direct op a b x) =
      if taken op .dir vm then throughCode vm x else .ok (.ok, vm) := by
  have hmode : form.directMode = .dir := by
    cases form with
    | regu => exact absurd rfl hform
    | ind => rfl
    | idx => rfl
  rw [Form.direct, hmode, execute_jump jumpd hop rfl]
  rfl

theorem jump_through_iff (host : Host) (vm : VM) {op : OpCode} (hop : op.isJump = true)
    (form : Form) (hform : form ≠ .regu) {r : Byte} (hr : r.toNat < N_REG) (a b b' : Byte)
    (o : Word) :
    execute host vm (form.indirect op r b o) =
        execute host vm (form.direct op a b' (form.operand vm r o)) ↔
      JumpsMatch vm (form.operand vm r o) (taken op form.mode vm) (taken op .dir vm) := by
  rw [execute_jump_indirect hop hr hform, execute_jump_direct hop hform, jumps_match_iff]

/-! ## The calls -/

/-- Two calls of one target push behind themselves. -/
theorem callTo_same (i i' : Instruction) {size size' : Nat} (hop : i.opcode = .call)
    (hs : modeSize i.mode = .ok size) (hs' : modeSize i'.mode = .ok size')
    (hsp : STACK_BASE < vm.sp.toNat) (target : Word) :
    SameTransfer vm i i' (callTo vm i target) (callTo vm i' target) := by
  have hcall : ∀ {i : Instruction} {size : Nat}, modeSize i.mode = .ok size →
      callTo vm i target = if vm.sp.toNat ≤ MEM_SIZE then .ok (.ok, vm.called target size)
        else .ok (.illMemAccess, vm) := by
    intro i size hs
    rw [callTo, hs, Except.ok_bind, pushWord_eq _ hsp]
    split
    · rfl
    · rfl
  rw [hcall hs, hcall hs']
  split
  · exact Or.inr ⟨hop, target, size, size', hs, hs', rfl, rfl⟩
  · exact Or.inl rfl

theorem callAt_same {i i' : Instruction} {size size' : Nat} (hop : i.opcode = .call)
    (hs : modeSize i.mode = .ok size) (hs' : modeSize i'.mode = .ok size')
    (hsp : STACK_BASE < vm.sp.toNat) (addr : Word) :
    SameTransfer vm i i' (callAt vm i addr) (callAt vm i' addr) := by
  rw [callAt, callAt]
  cases memRead64 vm addr 0 with
  | error e => exact Or.inl rfl
  | ok read =>
      obtain ⟨status, target⟩ := read
      simp only [Except.ok_bind]
      split
      · exact Or.inl rfl
      · split
        · exact Or.inl rfl
        · exact callTo_same i i' hop hs hs' hsp target

/-- The signed comparison lets a target through that the unsigned one
refuses, when the top bit is set. -/
theorem signed_base_iff {t : Word} :
    ((DATA_BASE : Int) ≤ t.toInt ↔ DATA_BASE ≤ t.toNat) ↔ t.toNat < 2 ^ 63 := by
  have hlt := t.isLt
  rw [BitVec.toInt_eq_toNat_cond]
  split <;> simp <;> omega

theorem call_regu_iff {r : Byte} (hr : r.toNat < N_REG) (a b b' : Byte) (o : Word) :
    let i := Form.regu.indirect .call r b o
    let i' := Form.regu.direct .call a b' (vm.reg r)
    SameTransfer vm i i' (execute host vm i) (execute host vm i') ↔
      (STACK_BASE < vm.sp.toNat → (vm.reg r).toNat < 2 ^ 63) := by
  intro i i'
  have hregu : execute host vm i =
      if vm.sp.toNat ≤ STACK_BASE then .ok (.stackOverflow, vm)
      else if (DATA_BASE : Int) ≤ (vm.reg r).toInt then .ok (.invalidJmp, vm)
      else callTo vm i (vm.reg r) := by
    show instrCALLR vm i = _
    have hno : ¬ N_REG ≤ i.a.toNat := Nat.not_le.mpr hr
    have hget : vm.getReg i.a = .ok (vm.reg r) := VM.getReg_reg hr
    simp only [instrCALLR, if_neg hno, hget, Except.ok_bind, Except.pure_eq]
  have himm : execute host vm i' =
      if vm.sp.toNat ≤ STACK_BASE then .ok (.stackOverflow, vm)
      else if DATA_BASE ≤ (vm.reg r).toNat then .ok (.invalidJmp, vm)
      else callTo vm i' (vm.reg r) := rfl
  rw [hregu, himm]
  by_cases hsp : vm.sp.toNat ≤ STACK_BASE
  · rw [if_pos hsp, if_pos hsp]
    exact ⟨fun _ h => absurd h (Nat.not_lt.mpr hsp), fun _ => Or.inl rfl⟩
  · have hfull := Nat.not_le.mp hsp
    have hsame := callTo_same i i' rfl rfl rfl hfull (vm.reg r)
    have hcmp := signed_base_iff (t := vm.reg r)
    rw [if_neg hsp, if_neg hsp]
    by_cases hsmall : (vm.reg r).toNat < 2 ^ 63
    · refine ⟨fun _ _ => hsmall, fun _ => ?_⟩
      by_cases hge : DATA_BASE ≤ (vm.reg r).toNat
      · rw [if_pos ((hcmp.mpr hsmall).mpr hge), if_pos hge]
        exact Or.inl rfl
      · rw [if_neg fun h => hge ((hcmp.mpr hsmall).mp h), if_neg hge]
        exact hsame
    · -- REGU calls or reports the push, IMM refuses the target
      have hge : DATA_BASE ≤ (vm.reg r).toNat := by simp at hsmall ⊢; omega
      have hlt : ¬ (DATA_BASE : Int) ≤ (vm.reg r).toInt :=
        fun h => hsmall (hcmp.mp ⟨fun _ => hge, fun _ => h⟩)
      rw [if_neg hlt, if_pos hge]
      refine ⟨fun h => ?_, fun h => absurd (h hfull) hsmall⟩
      rcases h with h | ⟨-, _, _, _, -, -, -, h⟩
      · rw [callTo, show modeSize i.mode = .ok 3 from rfl, Except.ok_bind,
          pushWord_eq _ hfull] at h
        split at h
        · cases h
        · cases h
      · cases h

theorem call_through_same (host : Host) (vm : VM) (form : Form) (hform : form ≠ .regu) {r : Byte}
    (hr : r.toNat < N_REG) (a b b' : Byte) (o : Word) :
    let i := form.indirect .call r b o
    let i' := form.direct .call a b' (form.operand vm r o)
    SameTransfer vm i i' (execute host vm i) (execute host vm i') := by
  intro i i'
  have hno : ¬ N_REG ≤ i.a.toNat := Nat.not_le.mpr hr
  have hget : vm.getReg i.a = .ok (vm.reg r) := VM.getReg_reg hr
  by_cases hsp : vm.sp.toNat ≤ STACK_BASE
  · have hfull : ∀ k : Instruction, k.opcode = .call →
        k.mode = .dir ∨ k.mode = .ind ∨ k.mode = .idx →
        execute host vm k = .ok (.stackOverflow, vm) := by
      intro k hop hm
      rw [execute, hop]
      rcases hm with hm | hm | hm
      all_goals
        rw [hm]
        exact if_pos hsp
    refine Or.inl ?_
    cases form with
    | regu => exact absurd rfl hform
    | ind => rw [hfull i rfl (Or.inr (Or.inl rfl)), hfull i' rfl (Or.inl rfl)]
    | idx => rw [hfull i rfl (Or.inr (Or.inr rfl)), hfull i' rfl (Or.inl rfl)]
  · cases form with
    | regu => exact absurd rfl hform
    | ind =>
        have hi : execute host vm i = callAt vm i (vm.reg r) := by
          show instrCALLI vm i = _
          simp only [instrCALLI, if_neg hsp, if_neg hno, hget, Except.ok_bind]
        have hi' : execute host vm i' = callAt vm i' (vm.reg r) := if_neg hsp
        rw [hi, hi']
        exact callAt_same rfl rfl rfl (Nat.not_le.mp hsp) _
    | idx =>
        have hi : execute host vm i = callAt vm i (vm.reg r + o) := by
          show instrCALLX vm i = _
          simp only [instrCALLX, if_neg hsp, if_neg hno, hget, Except.ok_bind]
          rfl
        have hi' : execute host vm i' = callAt vm i' (vm.reg r + o) := if_neg hsp
        rw [hi, hi']
        exact callAt_same rfl rfl rfl (Nat.not_le.mp hsp) _

/-! ## All transfers -/

theorem isJump_ne_call {op : OpCode} (h : op.isJump = true) : op ≠ .call := by
  rintro rfl
  cases h

/-- **A register form of a transfer does what the direct form does at the
operand the register gives, exactly when the two match.** -/
theorem forms_agree_iff (host : Host) (vm : VM) (op : OpCode) (form : Form) (r a b b' : Byte)
    (o : Word) :
    op.isJump = true ∨ op = .call → r.toNat < N_REG →
      let i := form.indirect op r b o
      let i' := form.direct op a b' (form.operand vm r o)
      (SameTransfer vm i i' (execute host vm i) (execute host vm i') ↔
        FormsMatch vm op form r o) := by
  intro hop hr i i'
  rcases hop with hop | rfl
  · have hne := isJump_ne_call hop
    have hsame : SameTransfer vm i i' (execute host vm i) (execute host vm i') ↔
        execute host vm i = execute host vm i' :=
      ⟨fun h => h.resolve_right fun h => hne h.1, Or.inl⟩
    rw [hsame]
    have hthrough := jump_through_iff host vm hop form
    cases form with
    | regu => exact ⟨fun _ h => absurd h hne, fun _ => execute_jump_regu hop hr a b b' o⟩
    | ind | idx =>
        exact (hthrough nofun hr a b b' o).trans ⟨fun h _ => h, fun h => h hne⟩
  · have hthrough := call_through_same host vm form
    cases form with
    | regu => exact (call_regu_iff hr a b b' o).trans ⟨fun h _ => h, fun h => h rfl⟩
    | ind | idx =>
        exact ⟨fun _ h => absurd rfl h, fun _ => hthrough nofun hr a b b' o⟩

theorem call_through_r1 :
    let i := Form.ind.indirect .call 1 0 0
    let i' := Form.ind.direct .call 0 0 (initVM.reg 1)
    SameTransfer initVM i i' (execute default initVM i) (execute default initVM i') :=
  (forms_agree_iff default initVM .call .ind 1 0 0 0 0 (Or.inr rfl) (by decide)).mpr
    fun h => absurd rfl h

/-- `JMP [R1]` goes to the address in the data segment that `R1` holds, and
`JMP [1024]` refuses it. -/
theorem jmp_through_data :
    let vm : VM := { initVM with registers := fun _ => 1024 }
    let i := Form.ind.indirect .jmp 1 0 0
    let i' := Form.ind.direct .jmp 0 0 1024
    execute default vm i = .ok (.ok, { vm with pc := 0 }) ∧
      execute default vm i' = .ok (.invalidJmp, vm) ∧
      ¬ SameTransfer vm i i' (execute default vm i) (execute default vm i') := by
  intro vm i i'
  have hi : execute default vm i = .ok (.ok, { vm with pc := 0 }) := by
    show goToWord vm 1024 = _
    rw [goToWord_inside (by decide), show vm.memory = fun _ => 0 from rfl, readWord_fresh]
    rfl
  have hi' : execute default vm i' = .ok (.invalidJmp, vm) := rfl
  refine ⟨hi, hi', fun h => ?_⟩
  rw [hi, hi'] at h
  rcases h with h | ⟨h, -⟩
  · cases h
  · cases h

end BSVM
