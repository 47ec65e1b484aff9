/-
# `BSVM.HeldBlocks` — the heap of a program that runs

`Heap` runs the allocator by itself.  Here it is called by `TRAP`, between any
other instructions, and what the program holds is read off its own run
(`held`): `MALLOC` gives what it leaves in `R0`, `FREE` takes back what begins
at its argument, `RST` forgets everything.

    no other instruction touches the list of nodes      (`Effect.memblocks`)
    a step is a call of the allocator, `RST`, or neither (`HeldStep.heaps`)

So the list is always that of some history of calls, and the invariants of
`Heap` hold of every machine that a program can reach.
-/
import BSVM.Heap
import BSVM.StackPointer

namespace BSVM

variable {host : Host} {vm vm' : VM} {i : Instruction} {status : VmError}

/-! ## What leaves the list of nodes alone -/

/-- The list of nodes is `nodes`. -/
abbrev HasNodes (nodes : List MemNode) (r : Result) : Prop := r.2.memblocks = nodes

section
variable {nodes : List MemNode}

theorem withPop_nodes {k : VM → Word → Exec Result} (h : vm.memblocks = nodes)
    (hk : ∀ vm' r0, vm'.memblocks = nodes → Returns (k vm' r0) (HasNodes nodes)) :
    Returns (withPop vm k) (HasNodes nodes) := by
  intro r hr
  rcases withPop_cases hr with ⟨-, hsame⟩ | ⟨-, hr⟩
  · exact (congrArg VM.memblocks hsame).trans h
  · exact hk (vm.popped 0) _ h r hr

theorem answer_nodes (h : vm.memblocks = nodes) (v : Word) :
    Returns (answer vm v) (HasNodes nodes) := by
  refine Returns.bind_iff.mpr fun vm₁ hset => Returns.ok_iff.mpr ?_
  obtain ⟨-, rfl⟩ := setReg_cases hset
  exact h

theorem fill_nodes (h : vm.memblocks = nodes) {lo n : Nat} {f : Nat → Byte} {v : Word} :
    Returns (do let vm ← vm.fill lo n f
                answer vm v) (HasNodes nodes) := by
  refine Returns.bind_iff.mpr fun vm₁ hfill => answer_nodes ?_ v
  obtain ⟨-, rfl⟩ := fill_cases hfill
  exact h

theorem refused_nodes (h : vm.memblocks = nodes) :
    Returns (.ok (status, vm) : Exec Result) (HasNodes nodes) :=
  Returns.ok_iff.mpr h

theorem readFile_nodes (h : vm.memblocks = nodes) :
    Returns (syscallREAD_FILE host vm) (HasNodes nodes) := by
  refine withPop_nodes h fun vm _ h => withPop_nodes h fun vm addr h => ?_
  refine Returns.ite_iff.mpr ⟨fun _ => refused_nodes h, fun _ => withPop_nodes h fun vm _ h => ?_⟩
  exact .bind fun _ => fill_nodes h

theorem readStr_nodes (h : vm.memblocks = nodes) :
    Returns (syscallREAD_STR host vm) (HasNodes nodes) := by
  refine withPop_nodes h fun vm _ h => withPop_nodes h fun vm _ h => ?_
  exact Returns.ite_iff.mpr ⟨fun _ => refused_nodes h, fun _ => .bind fun _ => fill_nodes h⟩

theorem memset_nodes (h : vm.memblocks = nodes) :
    Returns (syscallMEMSET vm) (HasNodes nodes) := by
  refine withPop_nodes h fun vm _ h => withPop_nodes h fun vm _ h => ?_
  refine withPop_nodes h fun vm _ h => ?_
  exact Returns.ite_iff.mpr ⟨fun _ => refused_nodes h, fun _ => fill_nodes h⟩

theorem memcpy_nodes (h : vm.memblocks = nodes) :
    Returns (syscallMEMCPY host vm) (HasNodes nodes) := by
  refine withPop_nodes h fun vm _ h => withPop_nodes h fun vm _ h => ?_
  refine withPop_nodes h fun vm _ h => ?_
  refine Returns.bind_iff.mpr fun vm₁ hcopy => answer_nodes ?_ 0
  rw [VM.memcpy_eq hcopy]
  exact h

theorem dumpMem_nodes (h : vm.memblocks = nodes) :
    Returns (syscallDUMP_MEM vm) (HasNodes nodes) := by
  refine withPop_nodes h fun vm _ h => withPop_nodes h fun vm _ h => ?_
  exact Returns.ite_iff.mpr ⟨fun _ => refused_nodes h, fun _ => .bind fun _ => refused_nodes h⟩

/-- Every system call but the two of the allocator. -/
theorem syscall_nodes {id : Nat} {handler : SysCall}
    (hh : dispatchSyscalls host id = some handler) (hmalloc : id ≠ 10) (hfree : id ≠ 11)
    (h : vm.memblocks = nodes) : Returns (handler vm) (HasNodes nodes) := by
  unfold dispatchSyscalls at hh
  split at hh <;> cases hh
  · exact withPop_nodes h fun _ _ h => withPop_nodes h fun _ _ h => withPop_nodes h fun _ _ h =>
      .bind fun _ => answer_nodes h _
  · exact readFile_nodes h
  · exact withPop_nodes h fun _ _ h => .bind fun _ => answer_nodes h _
  · exact withPop_nodes h fun _ _ h => answer_nodes h _
  · exact withPop_nodes h fun _ _ h => answer_nodes h _
  · exact withPop_nodes h fun _ _ h => .bind fun _ => answer_nodes h _
  · exact answer_nodes h _
  · exact readStr_nodes h
  · exact withPop_nodes h fun _ _ h => refused_nodes h
  · exact absurd rfl hmalloc
  · exact absurd rfl hfree
  · exact memset_nodes h
  · exact memcpy_nodes h
  · exact refused_nodes h
  · exact refused_nodes h
  · exact dumpMem_nodes h

end

/-! ## What the program holds -/

/-- What a program holds after an instruction that returned `VM_OK` in `vm` and
left `vm'`. -/
def held (i : Instruction) (vm vm' : VM) (live : List Block) : List Block :=
  match i.opcode with
  | .rst => []
  | .trap =>
      if syscallId (vm.reg 0) = 10 then ⟨vm'.reg 0, vm.stackWord 0⟩ :: live
      else if syscallId (vm.reg 0) = 11 then
        live.filter fun b => b.addr ≠ vm.stackWord 0
      else live
  | _ => live

/-- A call of `cpu_step`, and what the program holds before and after it. -/
inductive HeldStep : HeapState → HeapState → Prop
  | executed {host : Host} {vm vm' : VM} {i : Instruction} {live : List Block}
      (hexec : Executes host vm i) (h : cpuStep host vm = .ok (.ok, vm')) :
      HeldStep ⟨vm, live⟩ ⟨vm', held i vm vm' live⟩
  | refused {host : Host} {vm vm' : VM} {status : VmError} {live : List Block}
      (hst : status ≠ .ok) (h : cpuStep host vm = .ok (status, vm')) :
      HeldStep ⟨vm, live⟩ ⟨vm', live⟩

/-- Any program, loaded in a machine that holds nothing, after any number of calls. -/
def HeldRun (s : HeapState) : Prop :=
  ∃ bin start status vm₀, loadProgram initVM bin start = .ok (status, vm₀) ∧
    Relation.ReflTransGen HeldStep ⟨vm₀, []⟩ s

/-- Whatever is held, a step can be taken. -/
theorem Step.held (h : Step vm vm') (live : List Block) :
    ∃ live', HeldStep ⟨vm, live⟩ ⟨vm', live'⟩ := by
  obtain ⟨host, status, h⟩ := h
  by_cases hst : status = .ok
  · subst hst
    rcases cpuStep_cases h with ⟨hne, -⟩ | ⟨i, hexec⟩
    · exact absurd rfl hne
    · exact ⟨_, .executed hexec h⟩
  · exact ⟨_, .refused hst h⟩

theorem HeldStep.step {s s' : HeapState} (h : HeldStep s s') : Step s.vm s'.vm := by
  cases h with
  | executed _ h => exact ⟨_, _, h⟩
  | refused _ h => exact ⟨_, _, h⟩

/-- Every machine that can be reached is reached holding something. -/
theorem Reachable.held (h : Reachable vm) : ∃ live, HeldRun ⟨vm, live⟩ := by
  obtain ⟨bin, start, status, vm₀, hload, hrun⟩ := h
  have : ∃ live, Relation.ReflTransGen HeldStep ⟨vm₀, []⟩ ⟨vm, live⟩ := by
    induction hrun with
    | refl => exact ⟨[], .refl⟩
    | tail _ hstep ih =>
        obtain ⟨live, hrun⟩ := ih
        obtain ⟨live', hstep⟩ := hstep.held live
        exact ⟨live', hrun.tail hstep⟩
  obtain ⟨live, hrun⟩ := this
  exact ⟨live, bin, start, status, vm₀, hload, hrun⟩

theorem HeldRun.reachable {s : HeapState} (h : HeldRun s) : Reachable s.vm := by
  obtain ⟨bin, start, status, vm₀, hload, hrun⟩ := h
  refine ⟨bin, start, status, vm₀, hload, ?_⟩
  exact hrun.lift HeapState.vm fun _ _ h => h.step

/-! ## A step is a call of the allocator, or none -/

/-- The same nodes and the same blocks held. -/
structure SameHeap (s t : HeapState) : Prop where
  nodes : s.vm.memblocks = t.vm.memblocks
  live : s.live = t.live

theorem SameHeap.trans {s t u : HeapState} (h : SameHeap s t) (h' : SameHeap t u) : SameHeap s u :=
  ⟨h.nodes.trans h'.nodes, h.live.trans h'.live⟩

theorem apply_alloc_none {s : HeapState} {size : Word}
    (h : allocNodes size s.vm.memblocks = none) : (HeapOp.alloc size).apply s = s := by
  simp only [HeapOp.apply, vmAlloc, h]

theorem apply_alloc_some {s : HeapState} {size addr : Word} {nodes : List MemNode}
    (h : allocNodes size s.vm.memblocks = some (addr, nodes)) :
    (HeapOp.alloc size).apply s = ⟨{ s.vm with memblocks := nodes }, ⟨addr, size⟩ :: s.live⟩ := by
  simp only [HeapOp.apply, vmAlloc, h]

/-- What `vm_free` returns and leaves depends on the nodes only. -/
theorem vmFree_congr {w : VM} (h : vm.memblocks = w.memblocks) (addr : Word) :
    (vmFree vm addr).1 = (vmFree w addr).1 ∧
      (vmFree vm addr).2.memblocks = (vmFree w addr).2.memblocks := by
  rw [vmFree, vmFree, h]
  split
  · exact ⟨rfl, h⟩
  · split
    · exact ⟨rfl, h⟩
    · exact ⟨rfl, rfl⟩

theorem apply_free_ok {s : HeapState} {addr : Word} (h : (vmFree s.vm addr).1 = .ok) :
    (HeapOp.free addr).apply s =
      ⟨(vmFree s.vm addr).2, s.live.filter fun b => b.addr ≠ addr⟩ := by
  rcases hr : vmFree s.vm addr with ⟨status, vm'⟩
  rw [hr] at h
  cases h
  simp only [HeapOp.apply, hr]

theorem apply_free_refused {s : HeapState} {addr : Word} (h : (vmFree s.vm addr).1 ≠ .ok) :
    (HeapOp.free addr).apply s = s ∧ (vmFree s.vm addr).2 = s.vm := by
  rcases vmFree_cases s.vm addr with ⟨-, -, pre, node, post, -, -, -, heq⟩ | ⟨heq, -⟩ | ⟨heq, -⟩
  · rw [heq] at h
    exact absurd rfl h
  · exact ⟨by simp only [HeapOp.apply, heq], by rw [heq]⟩
  · exact ⟨by simp only [HeapOp.apply, heq], by rw [heq]⟩

/-- The allocator sees nothing else of the machine. -/
theorem SameHeap.apply {s t : HeapState} (h : SameHeap s t) (op : HeapOp) :
    SameHeap (op.apply s) (op.apply t) := by
  cases op with
  | alloc size =>
      cases halloc : allocNodes size s.vm.memblocks with
      | none =>
          rw [apply_alloc_none halloc, apply_alloc_none (h.nodes ▸ halloc)]
          exact h
      | some r =>
          obtain ⟨addr, nodes⟩ := r
          rw [apply_alloc_some halloc, apply_alloc_some (h.nodes ▸ halloc)]
          exact ⟨rfl, congrArg (List.cons _) h.live⟩
  | free addr =>
      obtain ⟨hstatus, hnodes⟩ := vmFree_congr h.nodes addr
      by_cases hok : (vmFree s.vm addr).1 = .ok
      · rw [apply_free_ok hok, apply_free_ok (hstatus ▸ hok)]
        exact ⟨hnodes, congrArg (List.filter _) h.live⟩
      · rw [(apply_free_refused hok).1, (apply_free_refused (hstatus ▸ hok)).1]
        exact h

/-! ## The two calls -/

theorem malloc_cases (h : syscallMALLOC host vm = .ok (status, vm')) :
    (status ≠ .ok ∧ vm'.memblocks = vm.memblocks) ∨
      ∃ addr nodes, status = .ok ∧ allocNodes (vm.stackWord 0) vm.memblocks = some (addr, nodes) ∧
        vm'.memblocks = nodes ∧ vm'.reg 0 = addr := by
  rw [syscallMALLOC, withPop_eq] at h
  split at h
  · cases h
    exact Or.inl ⟨by simp, rfl⟩
  · split at h
    · rw [vmAlloc] at h
      cases halloc : allocNodes (vm.stackWord 0) vm.memblocks with
      | none =>
          rw [show allocNodes (vm.stackWord 0) (vm.popped 0).memblocks = none from halloc] at h
          obtain ⟨vm₁, hset, h⟩ := Except.bind_eq_ok.mp h
          cases h
          obtain ⟨-, rfl⟩ := setReg_cases hset
          exact Or.inl ⟨by simp, rfl⟩
      | some r =>
          obtain ⟨addr, nodes⟩ := r
          rw [show allocNodes (vm.stackWord 0) (vm.popped 0).memblocks = _ from halloc] at h
          obtain ⟨vm₁, hset, h⟩ := Except.bind_eq_ok.mp h
          cases h
          obtain ⟨-, rfl⟩ := setReg_cases hset
          exact Or.inr ⟨addr, nodes, rfl, rfl, rfl, rfl⟩
    · cases h
      exact Or.inl ⟨by simp, rfl⟩

theorem free_cases (h : syscallFREE vm = .ok (status, vm')) :
    (status ≠ .ok ∧ vm'.memblocks = vm.memblocks) ∨
      (status = .ok ∧ (vmFree vm (vm.stackWord 0)).1 = .ok ∧
        vm'.memblocks = (vmFree vm (vm.stackWord 0)).2.memblocks) := by
  rw [syscallFREE, withPop_eq] at h
  split at h
  · cases h
    exact Or.inl ⟨by simp, rfl⟩
  · split at h
    · obtain ⟨hstatus, hnodes⟩ :=
        vmFree_congr (show (vm.popped 0).memblocks = vm.memblocks from rfl) (vm.stackWord 0)
      obtain heq : vmFree (vm.popped 0) (vm.stackWord 0) = (status, vm') := Except.ok.inj h
      rw [heq] at hstatus hnodes
      by_cases hok : status = .ok
      · exact Or.inr ⟨hok, hstatus.symm.trans hok, hnodes⟩
      · refine Or.inl ⟨hok, hnodes.trans ?_⟩
        rw [(apply_free_refused (s := ⟨vm, []⟩) (hstatus ▸ hok)).2]
    · cases h
      exact Or.inl ⟨by simp, rfl⟩

/-! ## A step is a call of the allocator, `RST`, or neither -/

/-- `TRAP` runs the handler of its id. -/
theorem instrTRAP_handler {r : Result} (h : instrTRAP host vm i = .ok r) {handler : SysCall}
    (hh : dispatchSyscalls host (syscallId (vm.reg 0)).toNat = some handler) :
    handler vm = .ok r := by
  obtain ⟨r0, hget, h⟩ := Except.bind_eq_ok.mp h
  obtain ⟨-, rfl⟩ := getReg_cases hget
  split at h
  · cases h
  · rw [hh] at h
    exact h

/-- An id that is not the allocator's. -/
theorem instrTRAP_nodes {r : Result} (h : instrTRAP host vm i = .ok r)
    (hmalloc : syscallId (vm.reg 0) ≠ 10) (hfree : syscallId (vm.reg 0) ≠ 11) :
    r.2.memblocks = vm.memblocks := by
  obtain ⟨r0, hget, h⟩ := Except.bind_eq_ok.mp h
  obtain ⟨-, rfl⟩ := getReg_cases hget
  split at h
  · cases h
  · split at h
    · cases h
      rfl
    · next handler hh => exact syscall_nodes hh (by omega) (by omega) rfl r h

/-- Any other instruction but `RST`. -/
theorem Effect.memblocks (h : Effect host vm i status vm') (hop : i.opcode ≠ .trap)
    (hrst : i.opcode ≠ .rst) : vm'.memblocks = vm.memblocks := by
  cases h with
  | reset h => exact absurd h hrst
  | trapped h => exact absurd h hop
  | copied h => exact absurd h hop
  | _ => rfl

/-- The heap after an instruction: `HeldStep` is one call of the allocator, or
starts again, or neither. -/
def Heaps (s s' : HeapState) : Prop :=
  SameHeap s' s ∨ SameHeap s' ⟨initVM, []⟩ ∨ ∃ op : HeapOp, SameHeap s' (op.apply s)

theorem trap_heaps (hop : i.opcode = .trap) (h : instrTRAP host vm i = .ok (status, vm'))
    (live : List Block) :
    (status ≠ .ok ∧ vm'.memblocks = vm.memblocks) ∨
      (status = .ok ∧ Heaps ⟨vm, live⟩ ⟨vm', held i vm vm' live⟩) := by
  have hheld : held i vm vm' live =
      if syscallId (vm.reg 0) = 10 then ⟨vm'.reg 0, vm.stackWord 0⟩ :: live
      else if syscallId (vm.reg 0) = 11 then live.filter fun b => b.addr ≠ vm.stackWord 0
      else live := by
    rw [held, hop]
  rw [hheld]
  by_cases hmalloc : syscallId (vm.reg 0) = 10
  · rw [if_pos hmalloc]
    have hrun := instrTRAP_handler h (by rw [hmalloc]; rfl)
    rcases malloc_cases hrun with hrefused | ⟨addr, nodes, hok, halloc, hnodes, hreg⟩
    · exact Or.inl hrefused
    · refine Or.inr ⟨hok, Or.inr (Or.inr ⟨.alloc (vm.stackWord 0), ?_⟩)⟩
      rw [apply_alloc_some (s := ⟨vm, live⟩) halloc, hreg]
      exact ⟨hnodes, rfl⟩
  · rw [if_neg hmalloc]
    by_cases hfree : syscallId (vm.reg 0) = 11
    · rw [if_pos hfree]
      have hrun := instrTRAP_handler h (by rw [hfree]; rfl)
      rcases free_cases hrun with hrefused | ⟨hok, hdone, hnodes⟩
      · exact Or.inl hrefused
      · refine Or.inr ⟨hok, Or.inr (Or.inr ⟨.free (vm.stackWord 0), ?_⟩)⟩
        rw [apply_free_ok (s := ⟨vm, live⟩) hdone]
        exact ⟨hnodes, rfl⟩
    · rw [if_neg hfree]
      have hnodes := instrTRAP_nodes h hmalloc hfree
      by_cases hok : status = .ok
      · exact Or.inr ⟨hok, Or.inl ⟨hnodes, rfl⟩⟩
      · exact Or.inl ⟨hok, hnodes⟩

theorem held_eq (hop : i.opcode ≠ .trap) (hrst : i.opcode ≠ .rst) (vm vm' : VM)
    (live : List Block) : held i vm vm' live = live := by
  unfold held
  split
  · next h => exact absurd h hrst
  · next h => exact absurd h hop
  · rfl

theorem handler_heaps {handler : InstrHandler}
    (hh : getHandler host i.opcode i.mode = some handler)
    (h : handler vm i = .ok (status, vm')) (live : List Block) :
    (status ≠ .ok ∧ vm'.memblocks = vm.memblocks) ∨
      (status = .ok ∧ Heaps ⟨vm, live⟩ ⟨vm', held i vm vm' live⟩) := by
  by_cases hop : i.opcode = .trap
  · have hm : i.mode = .none ∧ handler = instrTRAP host := by
      rw [hop] at hh
      cases hm : i.mode <;> rw [hm] at hh <;> cases hh
      exact ⟨rfl, rfl⟩
    rw [hm.2] at h
    exact trap_heaps hop h live
  by_cases hrst : i.opcode = .rst
  · have hrun : handler = instrRST := by
      rw [hrst] at hh
      cases hm : i.mode <;> rw [hm] at hh <;> cases hh
      rfl
    rw [hrun] at h
    cases h
    refine Or.inr ⟨rfl, Or.inr (Or.inl ⟨rfl, ?_⟩)⟩
    unfold held
    rw [hrst]
  · have hnodes := (handler_effective hh vm _ h).memblocks hop hrst
    by_cases hok : status = .ok
    · refine Or.inr ⟨hok, Or.inl ⟨hnodes, ?_⟩⟩
      exact held_eq hop hrst vm vm' live
    · exact Or.inl ⟨hok, hnodes⟩

@[simp] theorem advance_memblocks (vm : VM) (size : Nat) (r : Result) :
    (advance vm size r).memblocks = r.2.memblocks := by
  rw [advance]
  split
  · rfl
  · rfl

theorem advance_held (i : Instruction) (vm : VM) (size : Nat) (r : Result) (live : List Block) :
    held i vm (advance vm size r) live = held i vm r.2 live := by
  rw [advance]
  split
  · rfl
  · rfl

/-- **A step of a program is a call of the allocator, `RST`, or leaves the heap alone.** -/
theorem HeldStep.heaps {s s' : HeapState} (h : HeldStep s s') : Heaps s s' := by
  cases h with
  | @executed host vm vm' i live hexec h =>
      obtain ⟨handler, size, vm₁, hh, -, hrun, rfl⟩ := cpuStep_executes hexec h
      rcases handler_heaps hh hrun live with ⟨hne, -⟩ | ⟨-, hheaps⟩
      · exact absurd rfl hne
      · rw [advance_held]
        have hsame : SameHeap ⟨advance vm size (.ok, vm₁), held i vm vm₁ live⟩
            ⟨vm₁, held i vm vm₁ live⟩ := ⟨advance_memblocks _ _ _, rfl⟩
        exact hheaps.imp hsame.trans
          (Or.imp hsame.trans fun ⟨op, hop⟩ => ⟨op, hsame.trans hop⟩)
  | @refused host vm vm' status live hst h =>
      refine Or.inl ⟨?_, rfl⟩
      rcases cpuStep_cases h with ⟨-, hsame⟩ | ⟨i, hexec⟩
      · exact congrArg VM.memblocks hsame
      · obtain ⟨handler, size, vm₁, hh, -, hrun, rfl⟩ := cpuStep_executes hexec h
        rcases handler_heaps hh hrun live with ⟨-, hnodes⟩ | ⟨hok, -⟩
        · exact (advance_memblocks _ _ _).trans hnodes
        · exact absurd hok hst

/-! ## Runs -/

/-- The heap of a program that runs is the heap after some calls. -/
theorem HeldRun.history {s : HeapState} (h : HeldRun s) : ∃ ops, SameHeap s (heapRun ops) := by
  obtain ⟨bin, start, status, vm₀, hload, hrun⟩ := h
  induction hrun with
  | refl =>
      obtain ⟨m, pc, rfl⟩ := loadProgram_eq hload
      exact ⟨[], rfl, rfl⟩
  | tail _ hstep ih =>
      obtain ⟨ops, hops⟩ := ih
      rcases hstep.heaps with hsame | hinit | ⟨op, hop⟩
      · exact ⟨ops, hsame.trans hops⟩
      · exact ⟨[], hinit⟩
      · exact ⟨ops ++ [op], hop.trans (heapRun_concat ops op ▸ hops.apply op)⟩

/-- **At every point of every run of every program, the nodes tile the heap and the
blocks that the program holds are disjoint blocks in it, under the stack.** -/
theorem held_blocks_disjoint (s : HeapState) (h : HeldRun s) :
    (∃ ops, s.vm.memblocks = (heapRun ops).vm.memblocks ∧ s.live = (heapRun ops).live) ∧
      TilesHeap s.vm.memblocks ∧ s.live.Pairwise (fun b c => Disjoint b.bytes c.bytes) ∧
      ∀ b ∈ s.live, HEAP_BASE ≤ b.addr.toNat ∧ b.addr.toNat + b.size.toNat ≤ STACK_BASE ∧
        b.addr.toNat + b.size.toNat ≤ s.vm.sp.toNat := by
  obtain ⟨ops, hnodes, hlive⟩ := h.history
  have hinv := heapInv_run ops
  refine ⟨⟨ops, hnodes, hlive⟩, hnodes ▸ hinv.tiles, hlive ▸ hinv.disjoint, fun b hb => ?_⟩
  obtain ⟨hlo, hhi⟩ := hinv.inside (hlive ▸ hb)
  exact ⟨hlo, hhi, hhi.trans h.reachable.stackAligned.base⟩

/-- `PUSH 16`, `LD R0, 10`, `TRAP`. -/
def oneMalloc : Binary where
  headers := ⟨0, 0, 24, 0⟩
  bytecode := [15, 1, 0, 16, 0, 0, 0, 0, 0, 0, 0, 13, 1, 0, 10, 0, 0, 0, 0, 0, 0, 0, 30, 0]
  data := []

/-- It holds the first sixteen bytes of the heap in the end. -/
theorem held_blocks_disjoint_malloc : ∃ s : HeapState, s.live = [⟨1280, 16⟩] ∧
    (∃ ops, s.vm.memblocks = (heapRun ops).vm.memblocks ∧ s.live = (heapRun ops).live) ∧
      TilesHeap s.vm.memblocks ∧ s.live.Pairwise (fun b c => Disjoint b.bytes c.bytes) ∧
      ∀ b ∈ s.live, HEAP_BASE ≤ b.addr.toNat ∧ b.addr.toNat + b.size.toNat ≤ STACK_BASE ∧
        b.addr.toNat + b.size.toNat ≤ s.vm.sp.toNat := by
  have hpush : Executes default (machineAfter oneMalloc 0) ⟨.push, .imm, 0, 0, 16⟩ :=
    ⟨by decide, ⟨11, by decide, rfl⟩, _, rfl⟩
  have hld : Executes default (machineAfter oneMalloc 1) ⟨.ld, .imm, 0, 0, 10⟩ :=
    ⟨by decide, ⟨11, by decide, rfl⟩, _, rfl⟩
  have htrap : Executes default (machineAfter oneMalloc 2) ⟨.trap, .none, 0, 0, 0⟩ :=
    ⟨by decide, ⟨2, by decide, rfl⟩, _, rfl⟩
  have h₁ : HeldStep ⟨machineAfter oneMalloc 0, []⟩ ⟨machineAfter oneMalloc 1, []⟩ :=
    .executed hpush rfl
  have h₂ : HeldStep ⟨machineAfter oneMalloc 1, []⟩ ⟨machineAfter oneMalloc 2, []⟩ :=
    .executed hld rfl
  have h₃ : HeldStep ⟨machineAfter oneMalloc 2, []⟩
      ⟨machineAfter oneMalloc 3, [⟨1280, 16⟩]⟩ := .executed htrap rfl
  exact ⟨⟨machineAfter oneMalloc 3, [⟨1280, 16⟩]⟩, rfl, held_blocks_disjoint _
    ⟨oneMalloc, 0, .ok, _, rfl, ((Relation.ReflTransGen.single h₁).tail h₂).tail h₃⟩⟩

end BSVM
