/-
# `BSVM.Preservation` — the image of a listing does what the listing does

`cpu_step` on the image and a step of the listing go side by side (`Tracks`): the
code is what was loaded, `pc` is the address of the place, and the rest of the two
machines is the same.  What makes a step of one the step of the other:

    decoding     the bytes at `pc` are the instruction of the node
    the handler  is the same, on the same machine
    control      the label is the address it was given, and what is behind an
                 instruction begins where it ends

`listing_preserved` follows by the rule for two loops.  Three bytes are left free at
the end of the code segment, since `cpu_step` finds the last instruction truncated
otherwise.
-/
import BSVM.Lib.TwoRuns
import BSVM.VmRun
import BSVM.Meaning

namespace BSVM

variable {host : Host} {vm vm' : VM} {i : Instruction}

/-! ## Where a handler leaves `pc` -/

/-- `pc` moves only with a transfer that succeeds, and then to its target. -/
structure Controls (vm : VM) (i : Instruction) (r : Result) : Prop where
  stays : r.1 ≠ .ok ∨ transfers vm i = false → r.2.pc = vm.pc
  goes : r.1 = .ok → transfers vm i = true →
    r.2.pc = targetWord vm i ∧ ¬ refusesTarget i (targetWord vm i)

theorem Controls.stayed {r : Result} (ht : transfers vm i = false) (hpc : r.2.pc = vm.pc) :
    Controls vm i r where
  stays _ := hpc
  goes _ h := absurd (ht.symm.trans h) nofun

theorem TransferOutcome.controls {status : VmError} (ht : transfers vm i = true)
    (h : TransferOutcome vm i status vm') : Controls vm i (status, vm') := by
  cases h with
  | stopped hst => exact ⟨fun _ => rfl, fun hok => absurd hok hst⟩
  | refused => exact ⟨fun _ => rfl, nofun⟩
  | unpushed => exact ⟨fun _ => rfl, nofun⟩
  | taken _ hr hpc =>
      refine ⟨?_, fun _ _ => ⟨hpc, hr⟩⟩
      rintro (hst | hno)
      · exact absurd rfl hst
      · exact absurd (ht.symm.trans hno) nofun

theorem FasOutcome.pc {status : VmError} (h : FasOutcome vm i status vm') : vm'.pc = vm.pc := by
  cases h with
  | refused => rfl
  | set => rfl
  | loaded => rfl

theorem instrTRAP_pc : Returns (instrTRAP host vm i) (KeepsPc vm) := by
  intro r hr
  rcases instrTRAP_cases hr with ⟨-, hcopy⟩ | ⟨-, ht⟩
  · rcases memcpy_cases hcopy with ⟨-, ht, -⟩ | hc
    · exact ht.pc
    · exact hc.pc
  · exact ht.pc

theorem handler_controls {handler : InstrHandler}
    (hh : getHandler host i.opcode i.mode = some handler) :
    Returns (handler vm i) (Controls vm i) := by
  intro r hr
  cases ht : transfers vm i with
  | true =>
      have hout : TransferOutcome vm i r.1 r.2 := transfer_outcome hh ht r hr
      exact hout.controls ht
  | false =>
      refine .stayed ht ?_
      have hno : ¬ transfers vm i = true := Bool.not_eq_true _ ▸ ht
      by_cases htransfer : i.opcode.isTransfer
      · rw [(transfer_skipped htransfer hh hno hr).1]
      · -- no transfer at all: a system call, FAS, or an operation that goes straight on
        simp only [OpCode.isTransfer, not_or] at htransfer
        obtain ⟨hcond, hjmp, hcall, hrtn⟩ := htransfer
        have hrst : i.opcode ≠ .rst := by
          intro hop
          simp [transfers, hop, OpCode.condition?] at ht
        have hjump : i.opcode.isJump = false := by
          simp [OpCode.isJump, hjmp, not_not.mp hcond]
        by_cases htrap : i.opcode = .trap
        · rw [htrap] at hh
          cases hm : i.mode <;> rw [hm] at hh <;> cases hh
          exact instrTRAP_pc r hr
        · by_cases hfas : i.opcode = .fas
          · rw [hfas] at hh
            have hout : FasOutcome vm i r.1 r.2 := fas_outcome hh r hr
            exact hout.pc
          · exact straight_pc hh hjump hcall hrtn hrst htrap hfas r hr

/-! ## The machine's side -/

/-- A step at an instruction that is found complete. -/
theorem cpuStep_at {handler : InstrHandler} {size : Nat} (hpc : vm.pc.toNat < DATA_BASE)
    (hfetch : fetch host vm = .ok (size, i)) (hsize : modeSize i.mode = .ok size)
    (hh : getHandler host i.opcode i.mode = some handler) :
    cpuStep host vm = (handler vm i).map fun r => (r.1, advance vm size r) := by
  rw [cpuStep, if_neg (Nat.not_le.mpr hpc), hfetch]
  simp only [Except.ok_bind, hsize, ne_eq, not_true, if_false, hh]
  cases handler vm i with
  | error f => rfl
  | ok r =>
      obtain ⟨status, vm'⟩ := r
      show (if status = .ok ∧ vm'.pc = vm.pc then _ else _) = _
      simp only [Except.map, advance]
      split
      · rfl
      · rfl

section
variable {status₁ status₂ : AsmError} {irList : IRList} {ass₁ ass₂ : Assembler} {vm₀ : VM}

/-- The sizes of the two segments. -/
theorem Loaded.data_size (h : Loaded status₁ status₂ irList ass₁ ass₂ vm₀) :
    (layoutOf irList.nodes).data < HEAP_BASE - DATA_BASE := by
  obtain ⟨bin, hbin, hload⟩ := h.load
  obtain ⟨-, hdata, data, -, hbinary⟩ := binary_eq h.first h.second
  obtain rfl := Except.ok.inj (hbinary.symm.trans hbin)
  rw [loadProgram] at hload
  split at hload
  · cases hload
  · split at hload
    · cases hload
    · next hfits =>
        rw [← hdata]
        exact Nat.not_le.mp hfits

/-- Behind the code the bytes are zero. -/
theorem Loaded.zero_behind (h : Loaded status₁ status₂ irList ass₁ ass₂ vm₀)
    (hsame : SameCode vm₀ vm) {k : Nat} (hk : (layoutOf irList.nodes).text ≤ k)
    (hdata : k < DATA_BASE) : byteAt vm.memory k = 0 := by
  obtain ⟨bin, hbin, hload⟩ := h.load
  obtain ⟨hcode, -, data, -, hbinary⟩ := binary_eq h.first h.second
  obtain rfl := Except.ok.inj (hbinary.symm.trans hbin)
  have hmem : k < MEM_SIZE := by
    simp only [DATA_BASE, MEM_SIZE] at hdata ⊢
    omega
  rw [byteAt_lt hmem, hsame ⟨k, hmem⟩ hdata, loadProgram_ok hload]
  dsimp only
  rw [overlay_outside (Or.inl hdata), overlay_outside (Or.inr ?_)]
  · rfl
  · rw [hcode]
    exact (Nat.zero_add _).trans_le hk

/-- A step behind the code, with three bytes to decode from. -/
theorem Loaded.step_behind (h : Loaded status₁ status₂ irList ass₁ ass₂ vm₀)
    (hsame : SameCode vm₀ vm) (hpc : vm.pc.toNat = (layoutOf irList.nodes).text)
    (hroom : (layoutOf irList.nodes).text + 3 ≤ DATA_BASE) (host : Host) :
    cpuStep host vm = .ok (.unknownInstr, vm) := by
  have hpc' : vm.pc.toNat < DATA_BASE := by omega
  have hfetch : fetch host vm = .ok (2, { host.instr with opcode := .add, mode := .none }) := by
    rw [fetch_eq, if_neg (by omega), h.zero_behind hsame hpc.ge hpc',
      h.zero_behind hsame (by omega) (by omega)]
    rfl
  rw [cpuStep, if_neg (Nat.not_le.mpr hpc'), hfetch]
  rfl

/-- A label denotes the address of its place, which is above the code when it
stands between data. -/
theorem Loaded.label_address (h : Loaded status₁ status₂ irList ass₁ ass₂ vm₀) {x : Ident} {m : Nat}
    (hplace : labelPlace irList.nodes x = some m) : m ≤ irList.nodes.length ∧
      ∃ addr : Word, (layoutOf irList.nodes).address x = some addr ∧
        if (layoutOf (irList.nodes.take m)).sect = .data then DATA_BASE ≤ addr.toNat
        else addr = addressAt irList.nodes m := by
  obtain ⟨pre, line, name, y, post, hsplit, rfl, hy, hname⟩ := labelPlace_some hplace
  have haddr := address_of_label h.first hsplit (y := x) hy hname
  refine ⟨by simp [hsplit], _, haddr, ?_⟩
  have hdata := h.data_size
  have hle := (layoutOf_le hsplit).data
  rw [addressAt_length hsplit, hsplit, List.take_left, Layout.here, Layout.place]
  split
  · rw [BitVec.toNat_ofNat]
    simp only [HEAP_BASE, DATA_BASE] at hdata ⊢
    omega
  · rfl

/-- The run begins at the address of the place where the listing's run does. -/
theorem Loaded.pc_eq (h : Loaded status₁ status₂ irList ass₁ ass₂ vm₀) {n : Nat}
    (hstart : startPlace irList.nodes = some n) :
    n ≤ irList.nodes.length ∧ vm₀.pc = addressAt irList.nodes n := by
  obtain ⟨bin, hbin, hload⟩ := h.load
  obtain ⟨-, -, data, -, hbinary⟩ := binary_eq h.first h.second
  obtain rfl := Except.ok.inj (hbinary.symm.trans hbin)
  obtain ⟨s, -, hat, rfl⟩ := secondPass_end h.first h.second
  have hpc : vm₀.pc = s.ass.headers.entryPoint := by rw [loadProgram_ok hload]
  rw [startPlace] at hstart
  split at hstart
  · next hentry =>
      cases hstart
      refine ⟨Nat.zero_le _, ?_⟩
      rw [hpc, hat.noEntry hentry, (firstPass_result h.first).entryPoint]
      rfl
  · next x hentry =>
      obtain ⟨hplace, hsect⟩ := Option.filter_eq_some_iff.mp hstart
      obtain ⟨hle, addr, haddr, hat'⟩ := h.label_address hplace
      rw [if_neg (by simpa using hsect)] at hat'
      obtain rfl := Option.some.inj (haddr.symm.trans (hat.entry x hentry))
      exact ⟨hle, hpc.trans hat'⟩

/-! ## Side by side -/

/-- The machine is where the listing is. -/
structure Tracks (irList : IRList) (vm₀ : VM) (s : ListingState) (vm : VM) : Prop where
  place : s.place ≤ irList.nodes.length
  pc : vm.pc = addressAt irList.nodes s.place
  data : vm.data = s.data
  code : SameCode vm₀ vm

theorem comparesSigned_imm (hop : i.opcode.isJump = true ∨ i.opcode = .call) (hm : i.mode = .imm) :
    comparesSigned i = false := by
  obtain ⟨opcode, mode, a, b, args⟩ := i
  dsimp only at hop hm
  subst hm
  rcases hop with hop | rfl
  · cases opcode <;> cases hop <;> rfl
  · rfl

/-- The label that is an operand of a transfer is its one operand, and the immediate
of a jump or a call. -/
theorem denote_label {env : Ident → Option Word} {op : OpCode} {x : Ident} {b : Operand}
    (hi : denote env op (.ident x) b = some i) (ht : transfers vm i = true) :
    (i.opcode.isJump = true ∨ i.opcode = .call) ∧ i.mode = .imm ∧ env x = some i.args := by
  have hopcode := denote_opcode hi
  obtain ⟨mode, word, hmode, hword, rfl⟩ := denote_iff.mp hi
  obtain ⟨hcount, himm⟩ : getArgsCount op = 1 ∧ mode = .imm := by
    rcases instrMode_cases hmode with ⟨-, ha, -⟩ | ⟨hn, -, hm⟩ | ⟨-, ⟨r, ha⟩, -⟩
    · cases ha
    · exact ⟨hn, (Option.some.inj hm).symm⟩
    · cases ha
  rw [if_neg (by rw [hcount]; decide)] at hword
  refine ⟨?_, himm, hword⟩
  dsimp only
  rw [transfers] at ht
  split at ht
  · next j hcond =>
      left
      dsimp only at hcond
      rw [OpCode.isJump, hcond]
      exact Bool.or_true _
  · rcases of_decide_eq_true ht with hjmp | hcall | hrtn | hrst
    · left
      rw [show op = .jmp from hjmp]
      rfl
    · exact Or.inr hcall
    · rw [show op = .rtn from hrtn] at hcount
      cases hcount
    · rw [show op = .rst from hrst] at hcount
      cases hcount

/-- A label that a transfer has as operand is where it goes. -/
theorem Loaded.transfer_label (h : Loaded status₁ status₂ irList ass₁ ass₂ vm₀) {op : OpCode}
    {x : Ident} {b : Operand} {m : Nat}
    (hi : denote (layoutOf irList.nodes).address op (.ident x) b = some i)
    (ht : transfers vm i = true) (hr : ¬ refusesTarget i (targetWord vm i))
    (hplace : labelPlace irList.nodes x = some m) :
    m ≤ irList.nodes.length ∧ targetWord vm i = addressAt irList.nodes m := by
  obtain ⟨hle, addr, haddr, hat⟩ := h.label_address hplace
  obtain ⟨hop, hm, hword⟩ := denote_label hi ht
  obtain rfl := Option.some.inj (haddr.symm.trans hword)
  rw [target_imm hop hm] at hr ⊢
  refine ⟨hle, ?_⟩
  split at hat
  · -- a label between data is refused: the comparison is unsigned
    rw [refusesTarget, comparesSigned_imm hop hm] at hr
    exact absurd hat (by simpa using hr)
  · exact hat

/-- Where control goes, `pc` does. -/
theorem Loaded.control_pc (h : Loaded status₁ status₂ irList ass₁ ass₂ vm₀) {n m size : Nat}
    {op : OpCode} {a b : Operand} {status : VmError} (hn : n + 1 ≤ irList.nodes.length)
    (hpc : vm.pc = addressAt irList.nodes n)
    (hnext : addressAt irList.nodes (n + 1) = vm.pc + BitVec.ofNat 64 size)
    (hi : denote (layoutOf irList.nodes).address op a b = some i)
    (hc : Controls vm i (status, vm'))
    (hm : control irList.nodes n a i status vm vm' = .ok m) :
    m ≤ irList.nodes.length ∧ (advance vm size (status, vm')).pc = addressAt irList.nodes m := by
  rw [control] at hm
  split at hm
  · next hst =>
      cases hm
      refine ⟨Nat.le_of_succ_le hn, ?_⟩
      rw [advance, if_neg fun hok => hst hok.1, ← hpc]
      exact hc.stays (Or.inl hst)
  · next hst =>
      have hok : status = .ok := not_not.mp hst
      split at hm
      · next ht =>
          cases hm
          have hkeep : vm'.pc = vm.pc := hc.stays (Or.inr ht)
          refine ⟨hn, ?_⟩
          rw [advance, if_pos ⟨hok, hkeep⟩, hnext]
          exact congrArg (· + _) hkeep
      · next ht =>
          obtain ⟨hgo, hr⟩ := hc.goes hok (by simpa using ht)
          split at hm
          · cases hm
          · next hmoves =>
              rw [advance, if_neg fun hsame => hmoves hsame.2]
              split at hm
              · cases hm
              · next m' hplace =>
                  cases hm
                  dsimp only at hgo ⊢
                  rw [hgo] at hplace ⊢
                  unfold transferPlace at hplace
                  split at hplace
                  · exact h.transfer_label hi (by simpa using ht) hr hplace
                  · obtain ⟨hle, hat⟩ := placeAt_some hplace
                    exact ⟨hle, hat.symm⟩

/-- What a step of the two has to keep. -/
abbrev StepsAlike (irList : IRList) (vm₀ : VM) (x : VmError × ListingState) (y : Result) : Prop :=
  y.1 = x.1 ∧ Tracks irList vm₀ x.2 y.2

/-- One instruction. -/
theorem Loaded.step_instr (h : Loaded status₁ status₂ irList ass₁ ass₂ vm₀)
    (hroom : (layoutOf irList.nodes).text + 3 ≤ DATA_BASE) (hsame : SameCode vm₀ vm)
    {pre post : List IRNode} {line : Word} {op : OpCode} {a b : Operand}
    (hsplit : irList.nodes = pre ++ ⟨line, .instr op a b⟩ :: post)
    (hpc : vm.pc = addressAt irList.nodes pre.length) (host : Host) :
    ∃ i size handler, denote (layoutOf irList.nodes).address op a b = some i ∧
      getHandler host i.opcode i.mode = some handler ∧
      addressAt irList.nodes (pre.length + 1) = vm.pc + BitVec.ofNat 64 size ∧
      cpuStep (host.withInstr zeroInstr) vm =
        (handler vm i).map fun r => (r.1, advance vm size r) := by
  obtain ⟨i, size, hi⟩ := instr_placed h.first h.second hsplit
  have htext := (layoutOf_le hsplit).text
  have hlt := irList.text_lt
  have hfits := hi.fits
  have haddr : vm.pc = BitVec.ofNat 64 (layoutOf pre).text :=
    hpc.trans (addressAt_length hsplit)
  have hpc' : vm.pc.toNat = (layoutOf pre).text := by
    rw [haddr, BitVec.toNat_ofNat]
    exact Nat.mod_eq_of_lt (by omega)
  have henc := h.encodedAt hi hsame hpc'
  have hsize := hi.sized
  have hfetch : fetch (host.withInstr zeroInstr) vm = .ok (size, i) := by
    rw [henc.fetch_eq (denote_canonical hi.denotes), if_pos (Or.inr (by omega))]
  obtain ⟨handler, hh⟩ : ∃ handler, getHandler host i.opcode i.mode = some handler :=
    Option.isSome_iff_exists.mp ((hasHandler_host _ _ host).trans hi.handled)
  refine ⟨i, size, handler, hi.denotes, hh, ?_, ?_⟩
  · have hnext : irList.nodes = (pre ++ [⟨line, .instr op a b⟩]) ++ post :=
      hsplit.trans (List.append_cons _ _ _)
    have hlen : (pre ++ [(⟨line, .instr op a b⟩ : IRNode)]).length = pre.length + 1 := by simp
    rw [← hlen, addressAt_length hnext, layoutOf_concat, haddr, ← BitVec.ofNat_add,
      ← instrSize_eq (denote_mode hi.denotes) hsize]
    rfl
  · exact cpuStep_at (by have := henc.room; omega) hfetch hsize
      ((getHandler_withInstr host zeroInstr _ _).trans hh)

theorem Tracks.step (h : Loaded status₁ status₂ irList ass₁ ass₂ vm₀)
    (hroom : (layoutOf irList.nodes).text + 3 ≤ DATA_BASE) {s : ListingState}
    (hat : Tracks irList vm₀ s vm) (host : Host) :
    Lockstep Trouble.givesUp (StepsAlike irList vm₀) (listingStep irList.nodes host s)
      ((cpuStep (host.withInstr zeroInstr) vm).mapError .fault) := by
  rw [listingStep]
  split
  · next hnone =>
      -- the end of the list is the end of the code
      have htext := nextInstr_none hat.place hnone
      have hpc : vm.pc.toNat = (layoutOf irList.nodes).text := by
        rw [hat.pc, addressAt, htext, BitVec.toNat_ofNat]
        exact Nat.mod_eq_of_lt irList.text_lt
      rw [h.step_behind hat.code hpc hroom]
      exact .ok ⟨rfl, hat⟩
  · next n op a b hsome =>
      obtain ⟨pre, line, post, hsplit, rfl, -, haddr⟩ := nextInstr_some hat.place hsome
      have hpc : vm.pc = addressAt irList.nodes pre.length := hat.pc.trans haddr.symm
      have hvm : s.data.withPc (addressAt irList.nodes pre.length) = vm := by
        rw [← hat.data, ← hpc, withPc_data]
      obtain ⟨i, size, handler, hi, hh, hnext, hstep⟩ :=
        h.step_instr hroom hat.code hsplit hpc host
      rw [hi, hstep]
      dsimp only
      rw [hvm, execute_handler hh]
      cases hrun : handler vm i with
      | error f => exact Lockstep.error (Trouble.fault f)
      | ok r =>
          obtain ⟨status, vm'⟩ := r
          dsimp only [Except.mapError, Except.map, Except.ok_bind]
          by_cases hcode : SameCode vm vm'
          · rw [if_pos hcode]
            cases hcontrol : control irList.nodes pre.length a i status vm vm' with
            | error e =>
                obtain ⟨-, -, ⟨rfl, -⟩ | ⟨rfl, -⟩⟩ := control_error hcontrol
                · exact .stop trivial
                · exact .stop trivial
            | ok m =>
                have hn : pre.length + 1 ≤ irList.nodes.length := by simp [hsplit]
                obtain ⟨hle, hm⟩ :=
                  h.control_pc hn hpc hnext hi (handler_controls hh _ hrun) hcontrol
                refine .ok ⟨rfl, hle, hm, data_advance vm size _, ?_⟩
                intro k hk
                rw [advance_memory]
                exact (hcode k hk).trans (hat.code k hk)
          · rw [if_neg hcode]
            exact .stop trivial

/-! ## Runs -/

/-- The machine, with `struct Instruction` zero before each cycle. -/
def zeroed (hosts : Nat → Host) (k : Nat) : Host :=
  (hosts k).withInstr zeroInstr

/-- The machine as a loop over the errors of the listing. -/
def machineLoop : Loop Host Trouble VmError VM :=
  (vmLoop.comap (·.withInstr zeroInstr)).mapError .fault

theorem machineLoop_run (hosts : Nat → Host) (fuel : Nat) (vm : VM) :
    machineLoop.run hosts fuel 0 vm =
      (vmRun (zeroed hosts) fuel vm).map (Except.mapError Trouble.fault) := by
  rw [machineLoop, Loop.run_mapError, Loop.run_comap]
  rfl

theorem Tracks.machine {s : ListingState} (hat : Tracks irList vm₀ s vm) :
    vm = s.machine irList.nodes := by
  rw [ListingState.machine, ← hat.data, ← hat.pc, withPc_data]

theorem Tracks.runs (h : Loaded status₁ status₂ irList ass₁ ass₂ vm₀)
    (hroom : (layoutOf irList.nodes).text + 3 ≤ DATA_BASE) {s : ListingState}
    (hat : Tracks irList vm₀ s vm) (hosts : Nat → Host) (fuel : Nat) :
    Loop.Related Trouble.givesUp (fun status s status' vm => StepsAlike irList vm₀ (status, s)
      (status', vm)) (listingRun irList.nodes hosts fuel s) (machineLoop.run hosts fuel 0 vm) := by
  refine Loop.run_related (R := Tracks irList vm₀) (fun host s vm hat => ?_) hat
  refine (hat.step h hroom host).mono ?_
  rintro ⟨status, s'⟩ ⟨status', vm'⟩ ⟨rfl, hat'⟩
  refine ⟨⟨rfl, hat'⟩, ?_, fun _ => hat'⟩
  have hrunning : vm'.running = s'.data.running := by rw [← hat'.data]; rfl
  show (decide _ && _) = (decide _ && _)
  rw [hrunning]

theorem Loaded.runs (h : Loaded status₁ status₂ irList ass₁ ass₂ vm₀)
    (hroom : (layoutOf irList.nodes).text + 3 ≤ DATA_BASE) {n : Nat}
    (hstart : startPlace irList.nodes = some n) (hosts : Nat → Host) (fuel : Nat) :
    (∃ e, e.givesUp ∧ listingRun irList.nodes hosts fuel ⟨n, vm₀.data⟩ = some (.error e)) ∨
      (vmRun (zeroed hosts) fuel vm₀).map (Except.mapError Trouble.fault) =
        (listingRun irList.nodes hosts fuel ⟨n, vm₀.data⟩).map
          (Except.map fun r => (r.1, r.2.1, r.2.2.machine irList.nodes)) := by
  obtain ⟨hle, hpc⟩ := h.pc_eq hstart
  have hat : Tracks irList vm₀ ⟨n, vm₀.data⟩ vm₀ := ⟨hle, hpc, rfl, .refl vm₀⟩
  have hrel := hat.runs h hroom hosts fuel
  rw [machineLoop_run] at hrel
  generalize listingRun irList.nodes hosts fuel ⟨n, vm₀.data⟩ = x at hrel ⊢
  generalize (vmRun (zeroed hosts) fuel vm₀).map (Except.mapError Trouble.fault) = y at hrel ⊢
  cases hrel with
  | stop he => exact Or.inl ⟨_, he, rfl⟩
  | running => exact Or.inr rfl
  | error e => exact Or.inr rfl
  | ok hQ =>
      obtain ⟨hstatus, hat'⟩ := hQ
      dsimp only at hstatus hat'
      subst hstatus
      rw [hat'.machine]
      exact Or.inr rfl

end

/-- **The image of a listing runs as the listing does**, as long as the listing says
what is to be done. -/
theorem listing_preserved (status₁ status₂ : AsmError) (irList : IRList) (ass₁ ass₂ : Assembler)
    (vm₀ : VM) (hosts : Nat → Host) (fuel n : Nat) :
    Loaded status₁ status₂ irList ass₁ ass₂ vm₀ → (layoutOf irList.nodes).text + 3 ≤ DATA_BASE →
      startPlace irList.nodes = some n →
      let listing := listingRun irList.nodes hosts fuel ⟨n, vm₀.data⟩
      (∃ e, e.givesUp ∧ listing = some (.error e)) ∨
        (vmRun (zeroed hosts) fuel vm₀).map (Except.mapError Trouble.fault) =
          listing.map (Except.map fun r => (r.1, r.2.1, r.2.2.machine irList.nodes)) := by
  intro h hroom hstart
  exact h.runs hroom hstart hosts fuel

/-- A call, and the way back to the instruction behind it. -/
def callAndBack : IRList where
  nodes := [⟨1, .dir .text .none⟩, ⟨2, .instr .call (.ident ⟨[102, 0], 0, 2⟩) .none⟩,
    ⟨3, .instr .halt .none .none⟩, ⟨4, .label (.ident ⟨[102, 0], 0, 2⟩)⟩,
    ⟨5, .instr .rtn .none .none⟩]
  fits := by decide

theorem listing_preserved_call : ∃ ass₁ ass₂ vm₀, Loaded .ok .ok callAndBack ass₁ ass₂ vm₀ ∧
    ∀ hosts fuel,
      let listing := listingRun callAndBack.nodes hosts fuel ⟨0, vm₀.data⟩
      (∃ e, e.givesUp ∧ listing = some (.error e)) ∨
        (vmRun (zeroed hosts) fuel vm₀).map (Except.mapError Trouble.fault) =
          listing.map (Except.map fun r => (r.1, r.2.1, r.2.2.machine callAndBack.nodes)) := by
  obtain ⟨ass₁, ass₂, vm₀, h⟩ :
      ∃ ass₁ ass₂ vm₀, Loaded .ok .ok callAndBack ass₁ ass₂ vm₀ :=
    ⟨_, _, _, rfl, rfl, _, rfl, rfl⟩
  exact ⟨ass₁, ass₂, vm₀, h, fun hosts fuel =>
    listing_preserved .ok .ok callAndBack ass₁ ass₂ vm₀ hosts fuel 0 h (by decide) rfl⟩

end BSVM
