/-
# `BSVM.Annotated` — listings with assertions

The inductive-assertion method for listings, and what it says of the machine.  An
`Annotation` says of each place what holds there, how many instructions there can
still be, and how the run may end; it is `Verified` when each instruction of the
listing keeps to it.  No address and no byte of code occurs in that: the obligations
are about places and `VmData`.

`Verified.ends` carries them to the image: `vm_run` ends, with no fault of the host,
and as the annotation says.
-/
import BSVM.CodeSegment
import BSVM.LabelRuns
import BSVM.Sums

namespace BSVM

variable {status₁ status₂ : AsmError} {irList : IRList} {ass₁ ass₂ : Assembler} {vm₀ : VM}
  {nodes : List IRNode} {host : Host} {s : ListingState}

structure Annotation where
  holds : Nat → VmData → Prop
  rank : Nat → VmData → Nat
  final : VmError → VmData → Prop

/-- What an instruction may answer: the run goes on where the next assertion holds,
with less to do, or it ends as it may. -/
structure Annotation.Allows (A : Annotation) (s : ListingState) (status : VmError)
    (s' : ListingState) : Prop where
  next : status = .ok → s'.data.running = true →
    A.holds s'.place s'.data ∧ A.rank s'.place s'.data < A.rank s.place s.data
  last : status ≠ .ok ∨ s'.data.running = false → A.final status s'.data

/-- From every state that the assertions allow, on every host. -/
def Verified (nodes : List IRNode) (A : Annotation) : Prop :=
  ∀ host (s : ListingState), s.place ≤ nodes.length → A.holds s.place s.data →
    ∃ status s', listingStep nodes host s = .ok (status, s') ∧ A.Allows s status s'

/-! ## Runs -/

variable {A : Annotation}

/-- The run of the listing. -/
theorem Verified.run (hA : Verified nodes A) (hle : s.place ≤ nodes.length)
    (hs : A.holds s.place s.data) (hosts : Nat → Host) {fuel : Nat}
    (hfuel : A.rank s.place s.data < fuel) :
    ∃ cycle status s', listingRun nodes hosts fuel s = some (.ok (cycle, status, s')) ∧
      A.final status s'.data := by
  refine Loop.run_total (Q := fun status (s : ListingState) => A.final status s.data)
    (P := fun s : ListingState => s.place ≤ nodes.length ∧ A.holds s.place s.data)
    (R := fun s : ListingState => A.rank s.place s.data) ?_ ⟨hle, hs⟩ hfuel
  rintro host s ⟨hle, hs⟩
  obtain ⟨status, s', hstep, hallows⟩ := hA host s hle hs
  refine ⟨status, s', hstep, fun hgo => ?_, fun hgo => hallows.last ?_⟩
  · obtain ⟨hok, hrunning⟩ := Bool.and_eq_true_iff.mp hgo
    obtain ⟨hnext, hrank⟩ := hallows.next (of_decide_eq_true hok) hrunning
    exact ⟨⟨listingStep_place hle hstep, hnext⟩, hrank⟩
  · rcases Bool.and_eq_false_iff.mp hgo with hstatus | hrunning
    · exact Or.inl (of_decide_eq_false hstatus)
    · exact Or.inr hrunning

/-- `vm_run` does with the image what the annotation of the listing says: it ends
within as many cycles as the rank allows, with no fault, and in a final state. -/
theorem Verified.ends {n : Nat} (hA : Verified irList.nodes A)
    (h : Loaded status₁ status₂ irList ass₁ ass₂ vm₀)
    (hroom : (layoutOf irList.nodes).text + 3 ≤ DATA_BASE)
    (hstart : startPlace irList.nodes = some n) (hholds : A.holds n vm₀.data)
    (hosts : Nat → Host) : ∃ cycle status vm,
      vmRun (zeroed hosts) (A.rank n vm₀.data + 1) vm₀ = some (.ok (cycle, status, vm)) ∧
        A.final status vm.data := by
  obtain ⟨cycle, status, s, hrun, hfinal⟩ := hA.run (s := ⟨n, vm₀.data⟩) (h.pc_eq hstart).1 hholds
    hosts (Nat.lt_succ_self _)
  dsimp only at hrun
  rcases h.runs hroom hstart hosts (A.rank n vm₀.data + 1) with ⟨e, -, herr⟩ | hsame
  · cases hrun.symm.trans herr
  · rw [hrun] at hsame
    cases hvm : vmRun (zeroed hosts) (A.rank n vm₀.data + 1) vm₀ with
    | none =>
        rw [hvm] at hsame
        cases hsame
    | some r =>
        rw [hvm] at hsame
        cases r with
        | error f => cases hsame
        | ok r =>
            cases hsame
            exact ⟨cycle, status, _, rfl, hfinal⟩

/-! ## A loop -/

/-- A step at an instruction that leaves the memory alone. -/
theorem listingStep_at {n m : Nat} {op : OpCode} {a b : Operand} {i : Instruction} {vm' : VM}
    {data : VmData} {status : VmError} (hnext : nextInstr nodes s.place = some (n, op, a, b))
    (hi : denote (layoutOf nodes).address op a b = some i)
    (hrun : execute host (s.data.withPc (addressAt nodes n)) i = .ok (status, vm'))
    (hdata : vm'.data = data) (hmem : data.memory = s.data.memory)
    (hm : control nodes n a i status (s.data.withPc (addressAt nodes n)) vm' = .ok m) :
    listingStep nodes host s = .ok (status, { place := m, data := data }) := by
  subst hdata
  have hsame : SameCode (s.data.withPc (addressAt nodes n)) vm' := fun k _ => congrFun hmem k
  rw [listingStep, hnext]
  dsimp only
  rw [hi]
  dsimp only
  rw [hrun]
  dsimp only [Except.mapError, Except.ok_bind]
  rw [if_pos hsame, hm]
  rfl

/-- `R0` from 3 to 0. -/
def countdown : IRList where
  nodes := [⟨1, .dir .text .none⟩, ⟨2, .instr .ld (.reg 0) (.value 3)⟩,
    ⟨3, .label (.ident ⟨[120, 0], 0, 2⟩)⟩, ⟨4, .instr .sub (.reg 0) (.value 1)⟩,
    ⟨5, .instr .jne (.ident ⟨[120, 0], 0, 2⟩) .none⟩, ⟨6, .instr .halt .none .none⟩]
  fits := by decide

/-- At the loop's head `R0` counts the rounds; behind `SUB` the flag Z says whether
it is zero. -/
def countdownHolds : Nat → VmData → Prop
  | 0, _ => True
  | 2, s => 0 < (s.registers 0).toNat ∧ (s.registers 0).toNat ≤ 3
  | 4, s => (s.registers 0).toNat ≤ 2 ∧ (s.sr &&& M_ZERO ≠ 0 ↔ s.registers 0 = 0)
  | 5, s => s.registers 0 = 0
  | _, _ => False

def countdownRank : Nat → VmData → Nat
  | 0, _ => 8
  | 2, s => 2 * (s.registers 0).toNat + 1
  | 4, s => 2 * (s.registers 0).toNat + 2
  | _, _ => 0

def countdownA : Annotation where
  holds n s := s.running = true ∧ countdownHolds n s
  rank := countdownRank
  final status s := status = .ok ∧ s.running = false ∧ s.registers 0 = 0

/-- The instructions of the loop. -/
theorem countdown_ld (data : VmData) : listingStep countdown.nodes host ⟨0, data⟩ =
    .ok (.ok, ⟨2, { data with registers := Function.update data.registers 0 3 }⟩) := by
  have hrun : execute host (data.withPc (addressAt countdown.nodes 1)) ⟨.ld, .imm, 0, 0, 3⟩ =
      .ok (.ok, { data.withPc (addressAt countdown.nodes 1) with
        registers := Function.update data.registers 0 3 }) := rfl
  exact listingStep_at rfl rfl hrun rfl rfl rfl

theorem countdown_sub (host : Host) (data : VmData) : ∃ vm' : VM,
    listingStep countdown.nodes host ⟨2, data⟩ = .ok (.ok, ⟨4, vm'.data⟩) ∧
      vm'.running = data.running ∧ vm'.registers 0 = data.registers 0 - 1 ∧
      (vm'.sr &&& M_ZERO ≠ 0 ↔ data.registers 0 = 1) := by
  let vm := data.withPc (addressAt countdown.nodes 3)
  have hrun : execute host vm ⟨.sub, .imm, 0, 0, 1⟩ =
      .ok (.ok, vm.subtracted 0 (data.registers 0) 1) :=
    bodySUB_eq (a := 0) (by decide) rfl 1
  have hreg : (vm.subtracted 0 (data.registers 0) 1).registers 0 = data.registers 0 - 1 :=
    Function.update_self (0 : Fin N_REG) _ data.registers
  exact ⟨_, listingStep_at rfl rfl hrun rfl rfl rfl, rfl, hreg,
    (subtracted_flags vm 0 (data.registers 0) 1).zero⟩

theorem countdown_jne (data : VmData) : listingStep countdown.nodes host ⟨4, data⟩ =
    .ok (.ok, ⟨if data.sr &&& M_ZERO = 0 then 2 else 5, data⟩) := by
  let vm := data.withPc (addressAt countdown.nodes 4)
  let i : Instruction := ⟨.jne, .imm, 0, 0, 11⟩
  have hi : denote (layoutOf countdown.nodes).address .jne (.ident ⟨[120, 0], 0, 2⟩) .none =
      some i := rfl
  have hrun : execute host vm i = .ok (.ok, if isZ vm then vm else { vm with pc := 11 }) := by
    show skipIf isZ jump vm i = _
    rw [skipIf]
    split
    · rfl
    · rfl
  have hskips : transfers vm i = !isZ vm := rfl
  have hz : isZ vm = decide (data.sr &&& M_ZERO ≠ 0) := rfl
  by_cases hzero : data.sr &&& M_ZERO = 0
  · rw [hz, decide_eq_false (not_not.mpr hzero)] at hskips hrun
    rw [if_pos hzero]
    refine listingStep_at rfl hi hrun rfl rfl ?_
    show control _ 4 _ i _ vm _ = _
    rw [control, hskips]
    rfl
  · rw [hz, decide_eq_true hzero] at hskips hrun
    rw [if_neg hzero]
    refine listingStep_at rfl hi hrun rfl rfl ?_
    show control _ 4 _ i _ vm _ = _
    rw [control, hskips]
    rfl

theorem countdown_halt (data : VmData) : listingStep countdown.nodes host ⟨5, data⟩ =
    .ok (.ok, ⟨6, { data with running := false }⟩) := by
  have hrun : execute host (data.withPc (addressAt countdown.nodes 5)) ⟨.halt, .none, 0, 0, 0⟩ =
      .ok (.ok, { data.withPc (addressAt countdown.nodes 5) with running := false }) := rfl
  exact listingStep_at rfl rfl hrun rfl rfl rfl

theorem countdown_verified : Verified countdown.nodes countdownA := by
  rintro host ⟨place, data⟩ - ⟨hrunning, hholds⟩
  dsimp only at hrunning hholds
  have hgoes : ¬ (VmError.ok ≠ .ok ∨ data.running = false) := by simp [hrunning]
  unfold countdownHolds at hholds
  split at hholds
  · refine ⟨_, _, countdown_ld data, fun _ _ => ⟨⟨hrunning, ?_⟩, ?_⟩, fun hst => absurd hst hgoes⟩
    · show 0 < (3 : Word).toNat ∧ (3 : Word).toNat ≤ 3
      decide
    · show 2 * (3 : Word).toNat + 1 < 8
      decide
  · next hzero =>
      obtain ⟨hlo, hhi⟩ := hholds
      obtain ⟨vm', hstep, hrunning', hreg, hflag⟩ := countdown_sub host data
      have hone : (data.registers 0 - 1).toNat = (data.registers 0).toNat - 1 := by
        bv_omega
      refine ⟨_, _, hstep, fun _ _ => ⟨⟨hrunning'.trans hrunning, ?_⟩, ?_⟩, fun hst => ?_⟩
      · show (vm'.registers 0).toNat ≤ 2 ∧ (vm'.sr &&& M_ZERO ≠ 0 ↔ vm'.registers 0 = 0)
        rw [hflag, hreg, hone]
        exact ⟨by omega, (sub_eq_zero_iff _ _).symm⟩
      · show 2 * (vm'.registers 0).toNat + 2 < 2 * (data.registers 0).toNat + 1
        rw [hreg, hone]
        omega
      · exact absurd (hst.imp id hrunning'.symm.trans) hgoes
  · obtain ⟨hhi, hflag⟩ := hholds
    refine ⟨_, _, countdown_jne data, fun _ _ => ?_, fun hst => absurd hst hgoes⟩
    by_cases hzero : data.sr &&& M_ZERO = 0
    · rw [if_pos hzero]
      have hpos : data.registers 0 ≠ 0 := fun h => hflag.mpr h hzero
      have hpos' : 0 < (data.registers 0).toNat := by bv_omega
      exact ⟨⟨hrunning, hpos', Nat.le_succ_of_le hhi⟩, Nat.lt_succ_self _⟩
    · rw [if_neg hzero]
      exact ⟨⟨hrunning, hflag.mp hzero⟩, Nat.succ_pos _⟩
  · exact ⟨_, _, countdown_halt data, nofun, fun _ => ⟨rfl, rfl, hholds⟩⟩
  · exact hholds.elim

end BSVM
