/-
# `BSVM.Requests` — the guest memory that a system call hands on

A handler pops its arguments and gives a range of guest memory, or the start of a
string, to a library function.  What it tests first, if anything:

    WRITE_FILE, MEMCPY, OPEN_FILE, PRINT_STR    nothing
    READ_FILE                                   the start of the range
    READ_STR, MEMSET, DUMP_MEM                  the sum of start and size, which wraps

`request_iff` says of every handler that it is safe with an argument missing, when
its test refuses, and when what is asked for lies in the array.
-/
import BSVM.Trap

namespace BSVM

variable {host : Host} {vm : VM}

/-! ## What is asked for -/

/-- What the library functions are given: `n` bytes from `lo`, or the string at `lo`. -/
inductive MemoryRequest where
  | range (lo n : Nat)
  | string (lo : Nat)

/-- It lies in the array. -/
def MemoryRequest.inside (m : Memory) : MemoryRequest → Prop
  | range lo n => n = 0 ∨ lo + n ≤ MEM_SIZE
  | string lo => ∃ k : Fin MEM_SIZE, lo ≤ k ∧ m k = 0

/-- The arguments that the handler at `id` pops. -/
def argCount : Nat → Nat
  | 0 | 1 | 12 | 13 => 3
  | 8 | 16 => 2
  | 3 | 4 | 5 | 6 | 9 | 10 | 11 => 1
  | _ => 0

/-- `fgets` takes its size as an `int`. -/
def requests (vm : VM) : Nat → List MemoryRequest
  | 0 | 1 => [.range (vm.stackWord 1).toNat (vm.stackWord 2).toNat]
  | 3 | 6 => [.string (vm.stackWord 0).toNat]
  | 8 => [.range (vm.stackWord 0).toNat ((vm.stackWord 1).setWidth 32).toInt.toNat]
  | 12 => [.range (vm.stackWord 0).toNat (vm.stackWord 2).toNat]
  | 13 => [.range (vm.stackWord 1).toNat (vm.stackWord 2).toNat,
           .range (vm.stackWord 0).toNat (vm.stackWord 2).toNat]
  | 16 => [.range (vm.stackWord 0).toNat (vm.stackWord 1).toNat]
  | _ => []

/-- The arguments are on the stack. -/
def HasArgs (vm : VM) (id : Nat) : Prop :=
  vm.sp.toNat + 8 * argCount id ≤ MEM_SIZE

/-- The handler's own test refuses them. -/
def Refuses (vm : VM) : Nat → Prop
  | 1 => (vm.stackWord 1).toNat < HEAP_BASE ∨ STACK_BASE ≤ (vm.stackWord 1).toNat
  | 8 => (vm.stackWord 0).toNat < HEAP_BASE ∨
      STACK_BASE ≤ (vm.stackWord 0 + vm.stackWord 1).toNat
  | 12 => (vm.stackWord 0).toNat < HEAP_BASE ∨ MEM_SIZE ≤ (vm.stackWord 0 + vm.stackWord 2).toNat
  | 16 => MEM_SIZE < (vm.stackWord 0 + vm.stackWord 1).toNat
  | _ => False

/-- Everything that is asked for lies in the array. -/
def RequestFits (vm : VM) (id : Nat) : Prop :=
  ∀ r ∈ requests vm id, r.inside vm.memory

/-- The answer is an error, with the memory as it was. -/
def Declined (vm : VM) (x : Exec Result) : Prop :=
  ∃ status vm', x = .ok (status, vm') ∧ status ≠ .ok ∧ vm'.memory = vm.memory

/-- No access is outside the array, and a request that is not inside it is declined. -/
def SafeCall (vm : VM) (id : Nat) (x : Exec Result) : Prop :=
  (∃ status vm', x = .ok (status, vm')) ∧ (¬ RequestFits vm id → Declined vm x)

/-! ## Arguments -/

theorem withPop_arg {k : VM → Word → Exec Result} (h : vm.sp.toNat + 8 ≤ MEM_SIZE) :
    withPop vm k = k (vm.popped 0) (vm.stackWord 0) := by
  rw [withPop_eq, if_neg (by omega), if_pos h]

theorem withPop_missing {k : VM → Word → Exec Result} (h : ¬ vm.sp.toNat + 8 ≤ MEM_SIZE) :
    Declined vm (withPop vm k) := by
  rw [withPop_eq]
  split
  · exact ⟨_, _, rfl, nofun, rfl⟩
  · exact ⟨_, _, rfl, nofun, rfl⟩

/-- One argument, then the rest. -/
theorem withPop_declined {k : VM → Word → Exec Result}
    (h : vm.sp.toNat + 8 ≤ MEM_SIZE → Declined (vm.popped 0) (k (vm.popped 0) (vm.stackWord 0))) :
    Declined vm (withPop vm k) := by
  by_cases hsp : vm.sp.toNat + 8 ≤ MEM_SIZE
  · rw [withPop_arg hsp]
    exact h hsp
  · exact withPop_missing hsp

section
variable {k₁ : VM → Word → Exec Result} {k₂ : VM → Word → Word → Exec Result}
  {k₃ : VM → Word → Word → Word → Exec Result}

theorem missing₂ (h : ¬ vm.sp.toNat + 16 ≤ MEM_SIZE) :
    Declined vm (withPop vm fun vm a => withPop vm fun vm b => k₂ vm a b) := by
  refine withPop_declined fun hsp => withPop_missing ?_
  rw [popped_sp hsp]
  omega

theorem missing₃ (h : ¬ vm.sp.toNat + 24 ≤ MEM_SIZE) :
    Declined vm (withPop vm fun vm a => withPop vm fun vm b => withPop vm fun vm c =>
      k₃ vm a b c) := by
  refine withPop_declined fun hsp => missing₂ ?_
  rw [popped_sp hsp]
  omega

theorem args₂ (h : vm.sp.toNat + 16 ≤ MEM_SIZE) :
    (withPop vm fun vm a => withPop vm fun vm b => k₂ vm a b)
      = k₂ ((vm.popped 0).popped 0) (vm.stackWord 0) (vm.stackWord 1) := by
  have hsp : vm.sp.toNat + 8 ≤ MEM_SIZE := by omega
  rw [withPop_arg hsp, withPop_arg (by rw [popped_sp hsp]; omega), popped_stackWord hsp]

theorem args₃ (h : vm.sp.toNat + 24 ≤ MEM_SIZE) :
    (withPop vm fun vm a => withPop vm fun vm b => withPop vm fun vm c => k₃ vm a b c)
      = k₃ (((vm.popped 0).popped 0).popped 0) (vm.stackWord 0) (vm.stackWord 1)
          (vm.stackWord 2) := by
  have hsp : vm.sp.toNat + 8 ≤ MEM_SIZE := by omega
  have hrest : (vm.popped 0).sp.toNat + 16 ≤ MEM_SIZE := by
    rw [popped_sp hsp]
    omega
  rw [withPop_arg hsp, args₂ hrest, popped_stackWord hsp, popped_stackWord hsp]

end

/-! ## The two accesses -/

theorem inMemory_inside {m : Memory} {lo n : Nat} (h : (MemoryRequest.range lo n).inside m) :
    inMemory lo n = .ok () :=
  if_pos h

theorem inMemory_outside {m : Memory} {lo n : Nat} (h : ¬ (MemoryRequest.range lo n).inside m) :
    inMemory lo n = .error .memory :=
  if_neg h

theorem cString_any (vm : VM) (lo : Nat) :
    (List.finRange MEM_SIZE).any (fun k => lo ≤ k && vm.memory k = 0) = true ↔
      (MemoryRequest.string lo).inside vm.memory := by
  rw [List.any_eq_true]
  constructor
  · rintro ⟨k, -, hk⟩
    rw [Bool.and_eq_true, decide_eq_true_iff, decide_eq_true_iff] at hk
    exact ⟨k, hk⟩
  · rintro ⟨k, hk⟩
    refine ⟨k, List.mem_finRange k, ?_⟩
    rw [Bool.and_eq_true, decide_eq_true_iff, decide_eq_true_iff]
    exact hk

theorem cString_inside (vm : VM) {lo : Nat} (h : (MemoryRequest.string lo).inside vm.memory) :
    cString vm lo = .ok () :=
  if_pos ((cString_any vm lo).mpr h)

theorem cString_outside (vm : VM) {lo : Nat} (h : ¬ (MemoryRequest.string lo).inside vm.memory) :
    cString vm lo = .error .memory :=
  if_neg (mt (cString_any vm lo).mp h)

theorem answer_ok (vm : VM) (v : Word) : ∃ status vm', answer vm v = .ok (status, vm') := by
  rw [answer, VM.setReg_lt (k := 0) (by decide)]
  exact ⟨_, _, rfl⟩

/-- What a library function stores is not longer than what it was given. -/
theorem fill_taken {m : Memory} {lo n : Nat} (h : (MemoryRequest.range lo n).inside m) (vm : VM)
    (bytes : List Byte) (f : Nat → Byte) : ∃ vm', vm.fill lo (bytes.take n).length f = .ok vm' := by
  have hle : (bytes.take n).length ≤ n := by
    rw [List.length_take]
    exact Nat.min_le_left ..
  have hin : (MemoryRequest.range lo (bytes.take n).length).inside m := by
    rcases h with h | h
    · exact .inl (by omega)
    · exact .inr (by omega)
  rw [VM.fill, inMemory_inside hin]
  exact ⟨_, rfl⟩

/-! ## The handlers -/

/-- The four cases of a handler. -/
theorem safeCall_iff {id : Nat} {x : Exec Result} (hmissing : ¬ HasArgs vm id → Declined vm x)
    (hrefused : HasArgs vm id → Refuses vm id → Declined vm x)
    (hinside : HasArgs vm id → ¬ Refuses vm id → RequestFits vm id →
      ∃ status vm', x = .ok (status, vm'))
    (houtside : HasArgs vm id → ¬ Refuses vm id → ¬ RequestFits vm id → x = .error .memory) :
    SafeCall vm id x ↔ ¬ HasArgs vm id ∨ Refuses vm id ∨ RequestFits vm id := by
  have hdeclined : Declined vm x → SafeCall vm id x := by
    rintro ⟨status, vm', hx, hdecl⟩
    exact ⟨⟨status, vm', hx⟩, fun _ => ⟨status, vm', hx, hdecl⟩⟩
  by_cases hargs : HasArgs vm id
  · by_cases href : Refuses vm id
    · exact ⟨fun _ => .inr (.inl href), fun _ => hdeclined (hrefused hargs href)⟩
    · by_cases hfits : RequestFits vm id
      · refine ⟨fun _ => .inr (.inr hfits), fun _ => ⟨hinside hargs href hfits, ?_⟩⟩
        exact fun hnot => absurd hfits hnot
      · refine ⟨fun hsafe => ?_, fun h => ?_⟩
        · obtain ⟨⟨status, vm', hx⟩, -⟩ := hsafe
          rw [houtside hargs href hfits] at hx
          cases hx
        · rcases h with h | h | h
          · exact absurd hargs h
          · exact absurd h href
          · exact absurd h hfits
  · exact ⟨fun _ => .inl hargs, fun _ => hdeclined (hmissing hargs)⟩

/-- A handler that tests what it has popped. -/
theorem tested_safe {id : Nat} {x y : Exec Result} {c : Prop} [Decidable c] {status : VmError}
    {vm₁ : VM} (hmissing : ¬ HasArgs vm id → Declined vm x)
    (hx : HasArgs vm id → x = if c then .ok (status, vm₁) else y) (hc : Refuses vm id ↔ c)
    (hstatus : status ≠ .ok) (hmem : vm₁.memory = vm.memory)
    (hinside : RequestFits vm id → ∃ status vm', y = .ok (status, vm'))
    (houtside : ¬ RequestFits vm id → y = .error .memory) :
    SafeCall vm id x ↔ ¬ HasArgs vm id ∨ Refuses vm id ∨ RequestFits vm id := by
  refine safeCall_iff hmissing (fun hargs href => ?_) (fun hargs href hfits => ?_)
    fun hargs href hnot => ?_
  · exact ⟨status, vm₁, (hx hargs).trans (if_pos (hc.mp href)), hstatus, hmem⟩
  · rw [hx hargs, if_neg (mt hc.mpr href)]
    exact hinside hfits
  · rw [hx hargs, if_neg (mt hc.mpr href)]
    exact houtside hnot

/-- A handler that hands on one string, and does not test it. -/
theorem string_safe {id : Nat} (hcount : argCount id = 1) (href : ¬ Refuses vm id)
    (hid : requests vm id = [.string (vm.stackWord 0).toNat]) (v : Word) :
    SafeCall vm id (withPop vm fun vm r0 => do
        cString vm r0.toNat
        answer vm v) ↔
      ¬ HasArgs vm id ∨ Refuses vm id ∨ RequestFits vm id := by
  have hargs_iff : HasArgs vm id ↔ vm.sp.toNat + 8 ≤ MEM_SIZE := by rw [HasArgs, hcount]
  have hfits_iff : RequestFits vm id ↔
      (MemoryRequest.string (vm.stackWord 0).toNat).inside (vm.popped 0).memory := by
    rw [RequestFits, hid]
    exact List.forall_mem_singleton
  refine safeCall_iff (fun h => withPop_missing (mt hargs_iff.mpr h)) (fun _ h => absurd h href)
    (fun hargs _ hfits => ?_) fun hargs _ hnot => ?_
  · rw [withPop_arg (hargs_iff.mp hargs), cString_inside _ (hfits_iff.mp hfits), Except.ok_bind]
    exact answer_ok ..
  · rw [withPop_arg (hargs_iff.mp hargs), cString_outside _ (mt hfits_iff.mpr hnot)]
    rfl

theorem writeFile_safe :
    SafeCall vm 0 (syscallWRITE_FILE host vm) ↔
      ¬ HasArgs vm 0 ∨ Refuses vm 0 ∨ RequestFits vm 0 := by
  refine safeCall_iff (fun h => missing₃ h) (fun _ h => h.elim) (fun hargs _ hfits => ?_)
    fun hargs _ hnot => ?_
  · rw [syscallWRITE_FILE, args₃ hargs, inMemory_inside (List.forall_mem_singleton.mp hfits),
      Except.ok_bind]
    exact answer_ok ..
  · rw [syscallWRITE_FILE, args₃ hargs, inMemory_outside (mt List.forall_mem_singleton.mpr hnot)]
    rfl

/-- The third argument is popped behind the test. -/
theorem readFile_args (host : Host) (hargs : HasArgs vm 1) (href : ¬ Refuses vm 1) :
    syscallREAD_FILE host vm = (do
      inMemory (vm.stackWord 1).toNat (vm.stackWord 2).toNat
      let bytes := host.bytes.take (vm.stackWord 2).toNat
      let vm ← (((vm.popped 0).popped 0).popped 0).fill (vm.stackWord 1).toNat bytes.length
        fun k => bytes.getD k 0
      answer vm host.ret) := by
  have hroom : vm.sp.toNat + 24 ≤ MEM_SIZE := hargs
  have h₁ : vm.sp.toNat + 8 ≤ MEM_SIZE := by omega
  have h₂ : (vm.popped 0).sp.toNat + 8 ≤ MEM_SIZE := by
    rw [popped_sp h₁]
    omega
  have h₃ : ((vm.popped 0).popped 0).sp.toNat + 8 ≤ MEM_SIZE := by
    rw [popped_sp h₂, popped_sp h₁]
    exact hroom
  rw [syscallREAD_FILE, withPop_arg h₁, withPop_arg h₂, popped_stackWord h₁]
  refine (if_neg href).trans ?_
  rw [withPop_arg h₃, popped_stackWord h₂, popped_stackWord h₁]

theorem readFile_safe :
    SafeCall vm 1 (syscallREAD_FILE host vm) ↔
      ¬ HasArgs vm 1 ∨ Refuses vm 1 ∨ RequestFits vm 1 := by
  -- the test comes before the third argument is popped
  have htest : Refuses vm 1 ∨ ¬ HasArgs vm 1 → Declined vm (syscallREAD_FILE host vm) := by
    intro h
    refine withPop_declined fun h₁ => withPop_declined fun h₂ => ?_
    rw [popped_stackWord h₁]
    dsimp only
    split
    · exact ⟨_, _, rfl, nofun, rfl⟩
    · next hheap =>
        refine withPop_missing fun h₃ => ?_
        rcases h with h | h
        · exact hheap h
        · refine h ?_
          rw [popped_sp h₂, popped_sp h₁] at h₃
          exact h₃
  refine safeCall_iff (fun h => htest (.inr h)) (fun _ h => htest (.inl h))
    (fun hargs href hfits => ?_) fun hargs href hnot => ?_
  · have hin := List.forall_mem_singleton.mp hfits
    obtain ⟨vm', hfill⟩ := fill_taken hin (((vm.popped 0).popped 0).popped 0) host.bytes _
    rw [readFile_args host hargs href, inMemory_inside hin, Except.ok_bind]
    dsimp only
    rw [hfill, Except.ok_bind]
    exact answer_ok ..
  · rw [readFile_args host hargs href, inMemory_outside (mt List.forall_mem_singleton.mpr hnot)]
    rfl

theorem openFile_safe :
    SafeCall vm 3 (syscallOPEN_FILE host vm) ↔
      ¬ HasArgs vm 3 ∨ Refuses vm 3 ∨ RequestFits vm 3 :=
  string_safe rfl id rfl _

theorem printStr_safe :
    SafeCall vm 6 (syscallPRINT_STR vm) ↔
      ¬ HasArgs vm 6 ∨ Refuses vm 6 ∨ RequestFits vm 6 :=
  string_safe rfl id rfl _

theorem readStr_safe :
    SafeCall vm 8 (syscallREAD_STR host vm) ↔
      ¬ HasArgs vm 8 ∨ Refuses vm 8 ∨ RequestFits vm 8 := by
  refine tested_safe (fun h => missing₂ h) (fun hargs => args₂ hargs) Iff.rfl (by decide) rfl
    (fun hfits => ?_) fun hnot => ?_
  · have hin := List.forall_mem_singleton.mp hfits
    obtain ⟨vm', hfill⟩ := fill_taken hin ((vm.popped 0).popped 0) host.bytes _
    dsimp only
    rw [inMemory_inside hin, Except.ok_bind, hfill, Except.ok_bind]
    exact answer_ok ..
  · dsimp only
    rw [inMemory_outside (mt List.forall_mem_singleton.mpr hnot)]
    rfl

theorem memset_safe :
    SafeCall vm 12 (syscallMEMSET vm) ↔
      ¬ HasArgs vm 12 ∨ Refuses vm 12 ∨ RequestFits vm 12 := by
  refine tested_safe (fun h => missing₃ h) (fun hargs => args₃ hargs) Iff.rfl (by decide) rfl
    (fun hfits => ?_) fun hnot => ?_
  · rw [VM.fill, inMemory_inside (List.forall_mem_singleton.mp hfits), Except.ok_bind,
      Except.pure_eq, Except.ok_bind]
    exact answer_ok ..
  · rw [VM.fill, inMemory_outside (mt List.forall_mem_singleton.mpr hnot)]
    rfl

/-- `memcpy` reads the one range and stores in the other, in either case. -/
theorem memcpy_range (host : Host) (vm : VM) (dst src n : Nat) :
    ∃ f, vm.memcpy host dst src n = (do
      inMemory src n
      vm.fill dst n f) := by
  by_cases hdisj : dst + n ≤ src ∨ src + n ≤ dst
  · refine ⟨fun k => byteAt vm.memory (src + k), ?_⟩
    rw [VM.memcpy, if_pos hdisj]
  · refine ⟨host.overlap, ?_⟩
    rw [VM.memcpy, if_neg hdisj]

theorem memcpy_outside (host : Host) (hargs : HasArgs vm 13) (hnot : ¬ RequestFits vm 13) :
    syscallMEMCPY host vm = .error .memory := by
  obtain ⟨f, hcopy⟩ := memcpy_range host (((vm.popped 0).popped 0).popped 0)
    (vm.stackWord 0).toNat (vm.stackWord 1).toNat (vm.stackWord 2).toNat
  rw [syscallMEMCPY, args₃ hargs, hcopy]
  by_cases hsrc : (MemoryRequest.range (vm.stackWord 1).toNat (vm.stackWord 2).toNat).inside
      vm.memory
  · have hdst : ¬ (MemoryRequest.range (vm.stackWord 0).toNat (vm.stackWord 2).toNat).inside
        vm.memory := by
      intro hdst
      exact hnot (List.forall_mem_cons.mpr ⟨hsrc, List.forall_mem_singleton.mpr hdst⟩)
    rw [inMemory_inside hsrc, Except.ok_bind, VM.fill, inMemory_outside hdst]
    rfl
  · rw [inMemory_outside hsrc]
    rfl

theorem memcpy_safe :
    SafeCall vm 13 (syscallMEMCPY host vm) ↔
      ¬ HasArgs vm 13 ∨ Refuses vm 13 ∨ RequestFits vm 13 := by
  obtain ⟨f, hcopy⟩ := memcpy_range host (((vm.popped 0).popped 0).popped 0)
    (vm.stackWord 0).toNat (vm.stackWord 1).toNat (vm.stackWord 2).toNat
  refine safeCall_iff (fun h => missing₃ h) (fun _ h => h.elim) (fun hargs _ hfits => ?_)
    fun hargs _ hnot => memcpy_outside host hargs hnot
  have hsrc := hfits _ (List.mem_cons_self ..)
  have hdst := hfits _ (List.mem_cons_of_mem _ (List.mem_cons_self ..))
  rw [syscallMEMCPY, args₃ hargs, hcopy, inMemory_inside hsrc, Except.ok_bind, VM.fill,
    inMemory_inside hdst, Except.ok_bind, Except.pure_eq, Except.ok_bind]
  exact answer_ok ..

theorem dumpMem_safe :
    SafeCall vm 16 (syscallDUMP_MEM vm) ↔
      ¬ HasArgs vm 16 ∨ Refuses vm 16 ∨ RequestFits vm 16 := by
  refine tested_safe (fun h => missing₂ h) (fun hargs => args₂ hargs) Iff.rfl (by decide) rfl
    (fun hfits => ?_) fun hnot => ?_
  · rw [inMemory_inside (List.forall_mem_singleton.mp hfits)]
    exact ⟨_, _, rfl⟩
  · rw [inMemory_outside (mt List.forall_mem_singleton.mpr hnot)]
    rfl

/-- A handler that asks for nothing. -/
theorem idle_safe {id : Nat} {x : Exec Result} (hid : requests vm id = [])
    (h : ∃ status vm', x = .ok (status, vm')) :
    SafeCall vm id x ↔ ¬ HasArgs vm id ∨ Refuses vm id ∨ RequestFits vm id := by
  have hfits : RequestFits vm id := by
    rw [RequestFits, hid]
    exact fun _ hr => absurd hr List.not_mem_nil
  exact ⟨fun _ => .inr (.inr hfits), fun _ => ⟨h, fun hnot => absurd hfits hnot⟩⟩

theorem withPop_ok {k : VM → Word → Exec Result}
    (h : ∀ vm r0, ∃ status vm', k vm r0 = .ok (status, vm')) :
    ∃ status vm', withPop vm k = .ok (status, vm') := by
  rw [withPop_eq]
  split
  · exact ⟨_, _, rfl⟩
  · split
    · exact h _ _
    · exact ⟨_, _, rfl⟩

theorem malloc_ok (host : Host) (vm : VM) :
    ∃ status vm', syscallMALLOC host vm = .ok (status, vm') := by
  refine withPop_ok fun vm size => ?_
  obtain ⟨status, ptr, vm₁⟩ := vmAlloc vm size host.ptr
  dsimp only
  rw [VM.setReg_lt (k := 0) (by decide)]
  exact ⟨_, _, rfl⟩

theorem free_ok (vm : VM) : ∃ status vm', syscallFREE vm = .ok (status, vm') := by
  refine withPop_ok fun vm ptr => ?_
  obtain ⟨status, vm'⟩ := vmFree vm ptr
  exact ⟨status, vm', rfl⟩

/-- **A system call stays in guest memory** exactly when an argument is missing, its
own test refuses, or what it asks for lies in the array. -/
theorem request_iff {id : Nat} {handler : SysCall} (hh : dispatchSyscalls host id = some handler)
    (vm : VM) :
    SafeCall vm id (handler vm) ↔ ¬ HasArgs vm id ∨ Refuses vm id ∨ RequestFits vm id := by
  unfold dispatchSyscalls at hh
  split at hh <;> cases hh
  · exact writeFile_safe
  · exact readFile_safe
  · exact openFile_safe
  · exact idle_safe rfl (withPop_ok fun _ _ => answer_ok ..)
  · exact idle_safe rfl (withPop_ok fun _ _ => answer_ok ..)
  · exact printStr_safe
  · exact idle_safe rfl (answer_ok ..)
  · exact readStr_safe
  · exact idle_safe rfl (withPop_ok fun _ _ => ⟨_, _, rfl⟩)
  · exact idle_safe rfl (malloc_ok host vm)
  · exact idle_safe rfl (free_ok vm)
  · exact memset_safe
  · exact memcpy_safe
  · exact idle_safe rfl ⟨_, _, rfl⟩
  · exact idle_safe rfl ⟨_, _, rfl⟩
  · exact dumpMem_safe

/-- `MEMSET` with 16 bytes at the start of the heap. -/
theorem memset_sixteen :
    let m := writeWord (writeWord (fun _ => 0) 2024 1280) 2040 16
    let vm := { initVM with sp := 2024, memory := m }
    HasArgs vm 12 ∧ ¬ Refuses vm 12 ∧ SafeCall vm 12 (syscallMEMSET vm) := by
  intro m vm
  have hptr : vm.stackWord 0 = 1280 := by
    show readWord m 2024 = _
    rw [readWord_writeWord_of_disjoint _ (by decide), readWord_writeWord _ (by decide)]
  have hsize : vm.stackWord 2 = 16 := readWord_writeWord _ (by decide)
  have hargs : HasArgs vm 12 := by
    show 2024 + 24 ≤ MEM_SIZE
    decide
  have href : ¬ Refuses vm 12 := by
    rw [Refuses, hptr, hsize]
    decide
  refine ⟨hargs, href, (@request_iff default 12 _ rfl vm).mpr (.inr (.inr ?_))⟩
  refine List.forall_mem_singleton.mpr (.inr ?_)
  rw [hptr, hsize]
  decide

/-- `MEMSET` with 1280 and 2^64 - 1280: their sum is 0. -/
theorem memset_wraps :
    let m := writeWord (writeWord (fun _ => 0) 2024 1280) 2040 (-1280)
    let vm := { initVM with sp := 2024, memory := m }
    syscallMEMSET vm = .error .memory ∧ ¬ SafeCall vm 12 (syscallMEMSET vm) := by
  intro m vm
  have hptr : vm.stackWord 0 = 1280 := by
    show readWord m 2024 = _
    rw [readWord_writeWord_of_disjoint _ (by decide), readWord_writeWord _ (by decide)]
  have hsize : vm.stackWord 2 = -1280 := readWord_writeWord _ (by decide)
  have hargs : HasArgs vm 12 := by
    show 2024 + 24 ≤ MEM_SIZE
    decide
  have href : ¬ Refuses vm 12 := by
    rw [Refuses, hptr, hsize]
    decide
  have hnot : ¬ RequestFits vm 12 := by
    intro hfits
    have hin := List.forall_mem_singleton.mp hfits
    rw [hptr, hsize] at hin
    rcases hin with hin | hin
    · exact absurd hin (by decide)
    · exact absurd hin (by decide)
  have hsafe : ¬ SafeCall vm 12 (syscallMEMSET vm) := by
    rw [memset_safe]
    exact fun h => h.elim (fun h => h hargs) fun h => h.elim href hnot
  refine ⟨?_, hsafe⟩
  rw [Refuses] at href
  rw [syscallMEMSET, args₃ hargs, if_neg href, VM.fill,
    inMemory_outside (mt List.forall_mem_singleton.mpr hnot)]
  rfl

/-! ## The table -/

/-- `VM_UNKNOWN_SYSCALL` comes from `TRAP` itself. -/
abbrev Known (r : Result) : Prop := r.1 ≠ .unknownSyscall

theorem withPop_known {k : VM → Word → Exec Result} (h : ∀ vm r0, Returns (k vm r0) Known) :
    Returns (withPop vm k) Known := by
  rw [withPop_eq]
  exact Returns.guard nofun fun _ => Returns.ite_iff.mpr ⟨fun _ => h _ _, fun _ =>
    Returns.ok_iff.mpr nofun⟩

theorem answer_known (vm : VM) (v : Word) : Returns (answer vm v) Known :=
  Returns.bind fun _ => Returns.ok_iff.mpr nofun

theorem malloc_known (host : Host) (vm : VM) : Returns (syscallMALLOC host vm) Known := by
  refine withPop_known fun vm size => ?_
  have hstatus : (vmAlloc vm size host.ptr).1 ≠ .unknownSyscall := by
    rw [vmAlloc]
    intro h
    split at h <;> cases h
  exact Returns.bind fun _ => Returns.ok_iff.mpr hstatus

theorem free_known (vm : VM) : Returns (syscallFREE vm) Known := by
  refine withPop_known fun vm ptr => Returns.ok_iff.mpr ?_
  show (vmFree vm ptr).1 ≠ _
  rw [vmFree]
  intro h
  split at h
  · cases h
  · split at h <;> cases h

theorem syscall_known {id : Nat} {handler : SysCall}
    (hh : dispatchSyscalls host id = some handler) (vm : VM) : Returns (handler vm) Known := by
  have hanswer : ∀ {x : Exec Unit} (vm : VM) (v : Word),
      Returns (x >>= fun _ => answer vm v) Known :=
    fun vm v => Returns.bind fun _ => answer_known vm v
  unfold dispatchSyscalls at hh
  split at hh <;> cases hh
  · exact withPop_known fun _ _ => withPop_known fun _ _ => withPop_known fun _ _ => hanswer _ _
  · refine withPop_known fun _ _ => withPop_known fun _ _ => Returns.guard nofun fun _ => ?_
    exact withPop_known fun _ _ => Returns.bind fun _ => Returns.bind fun _ => answer_known _ _
  · exact withPop_known fun _ _ => hanswer _ _
  · exact withPop_known fun _ _ => answer_known _ _
  · exact withPop_known fun _ _ => answer_known _ _
  · exact withPop_known fun _ _ => hanswer _ _
  · exact answer_known _ _
  · refine withPop_known fun _ _ => withPop_known fun _ _ => Returns.guard nofun fun _ => ?_
    exact Returns.bind fun _ => Returns.bind fun _ => answer_known _ _
  · exact withPop_known fun _ _ => Returns.ok_iff.mpr nofun
  · exact malloc_known host vm
  · exact free_known vm
  · refine withPop_known fun _ _ => withPop_known fun _ _ => withPop_known fun _ _ => ?_
    exact Returns.guard nofun fun _ => Returns.bind fun _ => answer_known _ _
  · refine withPop_known fun _ _ => withPop_known fun _ _ => withPop_known fun _ _ => ?_
    exact Returns.bind fun _ => answer_known _ _
  · exact Returns.ok_iff.mpr nofun
  · exact Returns.ok_iff.mpr nofun
  · refine withPop_known fun _ _ => withPop_known fun _ _ => Returns.guard nofun fun _ => ?_
    exact Returns.bind fun _ => Returns.ok_iff.mpr nofun

/-- `TRAP` runs the handler whose number is in `R0`, and answers every other value. -/
def TrapsById (host : Host) (vm : VM) (i : Instruction) : Prop :=
  instrTRAP host vm i
    = (dispatchSyscalls host (vm.reg 0).toNat).elim (.ok (.unknownSyscall, vm)) fun handler =>
        handler vm

/-- `dispatchSyscalls[id]` is `NULL`. -/
theorem dispatch_none_iff (host : Host) (id : Nat) :
    dispatchSyscalls host id = none ↔ id = 2 ∨ 16 < id := by
  unfold dispatchSyscalls
  constructor
  · intro h
    split at h <;> cases h
    simp only [imp_false] at *
    omega
  · intro h
    split <;> first | omega | rfl

/-- The low half of `R0` as an index, if it is one. -/
theorem syscallId_inside (r0 : Word) :
    ¬ (syscallId r0 < 0 ∨ 32 ≤ syscallId r0) ↔ r0.toNat % 2 ^ 32 < 32 := by
  rw [syscallId, BitVec.toInt_eq_toNat_cond, BitVec.toNat_setWidth]
  split <;> omega

theorem syscallId_toNat {r0 : Word} (h : r0.toNat % 2 ^ 32 < 32) :
    (syscallId r0).toNat = r0.toNat % 2 ^ 32 := by
  rw [syscallId, BitVec.toInt_eq_toNat_cond, BitVec.toNat_setWidth]
  split <;> omega

theorem instrTRAP_inside (host : Host) (vm : VM) (i : Instruction)
    (h : (vm.reg 0).toNat % 2 ^ 32 < 32) :
    instrTRAP host vm i = (dispatchSyscalls host ((vm.reg 0).toNat % 2 ^ 32)).elim
      (.ok (.unknownSyscall, vm)) fun handler => handler vm := by
  rw [instrTRAP, VM.getReg_reg (k := 0) (by decide), Except.ok_bind,
    if_neg ((syscallId_inside _).mpr h), syscallId_toNat h]
  cases dispatchSyscalls host ((vm.reg 0).toNat % 2 ^ 32) <;> rfl

theorem instrTRAP_outside (host : Host) (vm : VM) (i : Instruction)
    (h : ¬ (vm.reg 0).toNat % 2 ^ 32 < 32) : instrTRAP host vm i = .error .table := by
  rw [instrTRAP, VM.getReg_reg (k := 0) (by decide), Except.ok_bind,
    if_pos (not_not.mp (mt (syscallId_inside _).mp h))]

/-- **`TRAP` goes by the number in `R0`** exactly when its low half is an index of the
table and, unless that entry is `NULL`, all of it. -/
theorem trap_iff (host : Host) (vm : VM) (i : Instruction) :
    TrapsById host vm i ↔ (vm.reg 0).toNat % 2 ^ 32 < 32 ∧
      ((vm.reg 0).toNat < 32 ∨ (vm.reg 0).toNat % 2 ^ 32 = 2 ∨
        16 < (vm.reg 0).toNat % 2 ^ 32) := by
  have hunknown : ¬ (vm.reg 0).toNat < 32 → dispatchSyscalls host (vm.reg 0).toNat = none :=
    fun h => (dispatch_none_iff host _).mpr (.inr (by omega))
  rw [TrapsById, ← dispatch_none_iff host]
  by_cases hid : (vm.reg 0).toNat % 2 ^ 32 < 32
  · rw [instrTRAP_inside host vm i hid]
    by_cases hlt : (vm.reg 0).toNat < 32
    · rw [Nat.mod_eq_of_lt (Nat.lt_trans hlt (by decide))]
      exact ⟨fun _ => ⟨hlt, .inl hlt⟩, fun _ => rfl⟩
    · rw [hunknown hlt]
      cases hh : dispatchSyscalls host ((vm.reg 0).toNat % 2 ^ 32) with
      | none => exact ⟨fun _ => ⟨hid, .inr rfl⟩, fun _ => rfl⟩
      | some handler =>
        constructor
        · intro h
          exact absurd rfl (syscall_known hh vm _ h)
        · rintro ⟨-, h | h⟩
          · exact absurd h hlt
          · cases h
  · rw [instrTRAP_outside host vm i hid, hunknown fun hlt => hid (by omega)]
    exact ⟨(fun h => nomatch h), fun h => absurd h.1 hid⟩

/-- `R0` is -1: the handler is read from in front of the table.  `R0` is 2^32 + 14: the
registers are dumped. -/
theorem trap_past_table :
    let vm := { initVM with registers := fun _ => -1 }
    let vm' := { initVM with registers := fun _ => 4294967310 }
    instrTRAP default vm zeroInstr = .error .table ∧ ¬ TrapsById default vm zeroInstr ∧
      instrTRAP default vm' zeroInstr = .ok (.ok, vm') ∧ ¬ TrapsById default vm' zeroInstr := by
  intro vm vm'
  have hrun : instrTRAP default vm zeroInstr = .error .table :=
    instrTRAP_outside default vm zeroInstr (by decide)
  have hrun' : instrTRAP default vm' zeroInstr = .ok (.ok, vm') := by
    have hid : (vm'.reg 0).toNat % 2 ^ 32 = 14 := by decide
    rw [instrTRAP_inside default vm' zeroInstr (by rw [hid]; decide), hid]
    rfl
  refine ⟨hrun, fun h => ?_, hrun', fun h => ?_⟩
  · rw [TrapsById, hrun] at h
    cases h
  · rw [TrapsById, hrun'] at h
    cases h

end BSVM
