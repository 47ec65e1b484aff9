/-
# `BSVM.Meaning` — what a listing does when it is run

A run of the listing itself: there is no `pc`, and no code in memory that is looked
at.  The state is a place in the list and the machine without `pc`; a jump goes to the
node of its label, and the instruction that is executed is the one that the node
denotes.

    nothing behind the place    VM_UNKNOWN_INSTR
    an error                    the place stays
    a transfer                  the label's place, or the place at the address that
                                was popped or read
    otherwise                   the next place

The listing does not say what becomes of a run that changes its own code, that goes
where no instruction begins, or that goes to the instruction it is at: `Trouble`.
-/
import BSVM.Lib.Loop
import BSVM.ControlFlow

namespace BSVM

/-! ## The machine without `pc` -/

/-- There is an `R0`. -/
instance : NeZero N_REG := ⟨Nat.succ_ne_zero 1⟩

structure VmData where
  registers : Fin N_REG → Word
  sp : Word
  sr : Byte
  memory : Memory
  running : Bool
  memblocks : List MemNode

def VM.data (vm : VM) : VmData where
  registers := vm.registers
  sp := vm.sp
  sr := vm.sr
  memory := vm.memory
  running := vm.running
  memblocks := vm.memblocks

def VmData.withPc (s : VmData) (pc : Word) : VM where
  registers := s.registers
  sp := s.sp
  pc := pc
  sr := s.sr
  memory := s.memory
  running := s.running
  memblocks := s.memblocks

@[simp] theorem data_withPc (s : VmData) (pc : Word) : (s.withPc pc).data = s :=
  rfl

@[simp] theorem withPc_data (vm : VM) : vm.data.withPc vm.pc = vm :=
  rfl

@[simp] theorem withPc_pc (s : VmData) (pc : Word) : (s.withPc pc).pc = pc :=
  rfl

theorem data_advance (vm : VM) (size : Nat) (r : Result) :
    (advance vm size r).data = r.2.data := by
  rw [advance]
  split
  · rfl
  · rfl

/-! ## Places -/

/-- The address of a place, which is the number of nodes in front of it. -/
def addressAt (nodes : List IRNode) (n : Nat) : Word :=
  BitVec.ofNat 64 (layoutOf (nodes.take n)).text

/-- The first instruction, the places being counted from `n`. -/
def firstInstr : Nat → List IRNode → Option (Nat × OpCode × Operand × Operand)
  | _, [] => none
  | n, node :: nodes =>
      match node.body with
      | .instr op a b => some (n, op, a, b)
      | _ => firstInstr (n + 1) nodes

/-- The instruction that is next at a place, and where it stands. -/
def nextInstr (nodes : List IRNode) (n : Nat) : Option (Nat × OpCode × Operand × Operand) :=
  firstInstr n (nodes.drop n)

/-- The node is the label of that name. -/
def IRBody.names (x : Ident) : IRBody → Bool
  | .label name =>
      match name.asIdent with
      | .ok y => cName x.str == cName y.str
      | .error _ => false
  | _ => false

def labelPlace (nodes : List IRNode) (x : Ident) : Option Nat :=
  nodes.findIdx? fun node => node.body.names x

/-- The first place that has an address. -/
def placeAt (nodes : List IRNode) (addr : Word) : Option Nat :=
  (List.range (nodes.length + 1)).find? fun n => addressAt nodes n = addr

/-- Where a transfer goes: to its label, if it has one as operand. -/
def transferPlace (nodes : List IRNode) (a : Operand) (target : Word) : Option Nat :=
  match a with
  | .ident x => labelPlace nodes x
  | _ => placeAt nodes target

/-- Where a run begins: at the label of the entry directive, if it stands between
instructions, and at the first node without one. -/
def startPlace (nodes : List IRNode) : Option Nat :=
  match (layoutOf nodes).entry with
  | none => some 0
  | some x => (labelPlace nodes x).filter fun n => (layoutOf (nodes.take n)).sect ≠ .data

/-! ## Steps -/

/-- Why a run of the listing is given up. -/
inductive Trouble where
  /-- the host program stops having a defined state -/
  | fault (f : Fault)
  /-- the node denotes nothing -/
  | unassembled
  /-- a byte of the code was changed -/
  | rewritten
  /-- control goes where no place is -/
  | astray
  /-- control goes to the instruction that it comes from -/
  | onSpot
  deriving DecidableEq, Repr

/-- What is not a fault of the host. -/
def Trouble.givesUp : Trouble → Prop
  | .fault _ => False
  | _ => True

structure ListingState where
  place : Nat
  data : VmData

instance (vm vm' : VM) : Decidable (SameCode vm vm') :=
  inferInstanceAs (Decidable (∀ k : Fin MEM_SIZE, (k : Nat) < DATA_BASE → _))

/-- Where control goes behind an instruction at place `n` that has left `vm'`. -/
def control (nodes : List IRNode) (n : Nat) (a : Operand) (i : Instruction) (status : VmError)
    (vm vm' : VM) : Except Trouble Nat :=
  if status ≠ .ok then .ok n
  else if transfers vm i = false then .ok (n + 1)
  else if vm'.pc = vm.pc then .error .onSpot
  else
    match transferPlace nodes a vm'.pc with
    | none => .error .astray
    | some m => .ok m

/-- One instruction of the listing. -/
def listingStep (nodes : List IRNode) (host : Host) (s : ListingState) :
    Except Trouble (VmError × ListingState) :=
  match nextInstr nodes s.place with
  | none => .ok (.unknownInstr, s)
  | some (n, op, a, b) =>
      match denote (layoutOf nodes).address op a b with
      | none => .error .unassembled
      | some i => do
          let vm := s.data.withPc (addressAt nodes n)
          let (status, vm') ← (execute host vm i).mapError .fault
          if SameCode vm vm' then do
            let m ← control nodes n a i status vm vm'
            return (status, { place := m, data := vm'.data })
          else .error .rewritten

/-- The run of a listing. -/
def listingLoop (nodes : List IRNode) : Loop Host Trouble VmError ListingState where
  step := listingStep nodes
  goesOn status s := status = .ok && s.data.running

/-- The listing from a place on, if it ends within `fuel` instructions. -/
def listingRun (nodes : List IRNode) (hosts : Nat → Host) (fuel : Nat) (s : ListingState) :
    Option (Except Trouble (Nat × VmError × ListingState)) :=
  (listingLoop nodes).run hosts fuel 0 s

/-- The machine at a place. -/
def ListingState.machine (nodes : List IRNode) (s : ListingState) : VM :=
  s.data.withPc (addressAt nodes s.place)

/-! ## Where the places are -/

variable {nodes pre post : List IRNode} {n m : Nat} {op : OpCode} {a b : Operand} {x : Ident}

/-- The place behind `pre`. -/
theorem addressAt_length (h : nodes = pre ++ post) :
    addressAt nodes pre.length = BitVec.ofNat 64 (layoutOf pre).text := by
  rw [addressAt, h, List.take_left]

/-- Nodes that add nothing to the text do not move its end. -/
theorem text_after_other (L : Layout) {node : IRNode} (h : node.body.emits ≠ .text) :
    (L.after node).text = L.text :=
  place_after (nofun : Section.text ≠ .undefined) h

theorem emits_ne_text {node : IRNode} (h : ∀ op a b, node.body ≠ .instr op a b) :
    node.body.emits ≠ .text := by
  obtain ⟨line, body⟩ := node
  cases body with
  | label name => exact nofun
  | dir type operand => cases type <;> exact nofun
  | instr op a b => exact absurd rfl (h op a b)

/-- What the search for an instruction finds, and that it passes over no code. -/
theorem firstInstr_some (pre : List IRNode) {rest : List IRNode}
    (h : firstInstr pre.length rest = some (m, op, a, b)) :
    ∃ mid line post, rest = mid ++ ⟨line, .instr op a b⟩ :: post ∧ m = (pre ++ mid).length ∧
      (layoutOf (pre ++ mid)).text = (layoutOf pre).text := by
  induction rest generalizing pre with
  | nil => cases h
  | cons node rest ih =>
      rw [firstInstr] at h
      split at h
      · next op' a' b' hbody =>
          obtain ⟨line, body⟩ := node
          dsimp only at hbody
          cases h
          exact ⟨[], line, rest, by rw [hbody]; rfl, by simp, by simp⟩
      · next hbody =>
          have hlen : (pre ++ [node]).length = pre.length + 1 := by simp
          rw [← hlen] at h
          obtain ⟨mid, line, post, rfl, rfl, htext⟩ := ih _ h
          refine ⟨node :: mid, line, post, rfl, by simp, ?_⟩
          rw [List.append_cons, htext, layoutOf_concat]
          exact text_after_other _ (emits_ne_text hbody)

theorem firstInstr_none (pre : List IRNode) {rest : List IRNode}
    (h : firstInstr pre.length rest = none) :
    (layoutOf (pre ++ rest)).text = (layoutOf pre).text := by
  induction rest generalizing pre with
  | nil => simp
  | cons node rest ih =>
      rw [firstInstr] at h
      split at h
      · cases h
      · next hbody =>
          have hlen : (pre ++ [node]).length = pre.length + 1 := by simp
          rw [← hlen] at h
          rw [List.append_cons, ih _ h, layoutOf_concat]
          exact text_after_other _ (emits_ne_text hbody)

/-- The next instruction of a place has the address of the place. -/
theorem nextInstr_some (hn : n ≤ nodes.length) (h : nextInstr nodes n = some (m, op, a, b)) :
    ∃ pre line post, nodes = pre ++ ⟨line, .instr op a b⟩ :: post ∧ m = pre.length ∧ n ≤ m ∧
      addressAt nodes m = addressAt nodes n := by
  have hlen : (nodes.take n).length = n := List.length_take_of_le hn
  rw [nextInstr] at h
  nth_rewrite 1 [← hlen] at h
  obtain ⟨mid, line, post, hrest, rfl, htext⟩ := firstInstr_some _ h
  have hsplit : nodes = (nodes.take n ++ mid) ++ ⟨line, .instr op a b⟩ :: post := by
    rw [List.append_assoc, ← hrest, List.take_append_drop]
  refine ⟨_, line, post, hsplit, rfl, ?_, by rw [addressAt_length hsplit, htext, addressAt]⟩
  rw [List.length_append, hlen]
  exact Nat.le_add_right _ _

theorem nextInstr_none (hn : n ≤ nodes.length) (h : nextInstr nodes n = none) :
    (layoutOf (nodes.take n)).text = (layoutOf nodes).text := by
  have hlen : (nodes.take n).length = n := List.length_take_of_le hn
  rw [nextInstr] at h
  nth_rewrite 1 [← hlen] at h
  have htext := firstInstr_none _ h
  rw [List.take_append_drop] at htext
  exact htext.symm

theorem placeAt_some {addr : Word} (h : placeAt nodes addr = some m) :
    m ≤ nodes.length ∧ addressAt nodes m = addr := by
  have hmem := List.mem_of_find?_eq_some h
  have hat := List.find?_some h
  exact ⟨Nat.le_of_lt_succ (List.mem_range.mp hmem), by simpa using hat⟩

theorem names_label_iff {body : IRBody} :
    body.names x = true ↔ ∃ name y, body = .label name ∧ name.asIdent = .ok y ∧
      cName x.str = cName y.str := by
  cases body with
  | label name =>
      rw [IRBody.names]
      cases hy : name.asIdent with
      | ok y =>
          constructor
          · exact fun h => ⟨name, y, rfl, hy, by simpa using h⟩
          · rintro ⟨name', y', hbody, hy', hname⟩
            cases hbody
            obtain rfl := Except.ok.inj (hy.symm.trans hy')
            simpa using hname
      | error e =>
          constructor
          · exact fun h => absurd h (by simp)
          · rintro ⟨name', y', hbody, hy', -⟩
            cases hbody
            exact absurd (hy.symm.trans hy') nofun
  | dir type operand => exact ⟨nofun, fun ⟨_, _, h, _⟩ => nomatch h⟩
  | instr op a b => exact ⟨nofun, fun ⟨_, _, h, _⟩ => nomatch h⟩

/-- The node that a label is found at. -/
theorem labelPlace_some (h : labelPlace nodes x = some m) :
    ∃ pre line name y post, nodes = pre ++ ⟨line, .label name⟩ :: post ∧ m = pre.length ∧
      name.asIdent = .ok y ∧ cName x.str = cName y.str := by
  obtain ⟨hlt, hnames, -⟩ := List.findIdx?_eq_some_iff_getElem.mp h
  obtain ⟨name, y, hbody, hy, hname⟩ := names_label_iff.mp hnames
  have hsplit : nodes = nodes.take m ++ nodes[m] :: nodes.drop (m + 1) := by
    rw [← List.drop_eq_getElem_cons hlt, List.take_append_drop]
  refine ⟨nodes.take m, nodes[m].line, name, y, nodes.drop (m + 1), ?_, ?_, hy, hname⟩
  · rw [← hbody]
    exact hsplit
  · rw [List.length_take_of_le hlt.le]

/-! ## What a step can do -/

/-- The instruction that a step executes, and the machine it is executed on. -/
structure Executing (nodes : List IRNode) (s : ListingState) (n : Nat) (a : Operand)
    (i : Instruction) (vm : VM) : Prop where
  node : ∃ pre line b post, nodes = pre ++ ⟨line, .instr i.opcode a b⟩ :: post ∧ n = pre.length ∧
    denote (layoutOf nodes).address i.opcode a b = some i
  place : s.place ≤ n
  machine : vm = s.data.withPc (addressAt nodes n)

inductive StepResult (nodes : List IRNode) (host : Host) (s : ListingState) :
    Except Trouble (VmError × ListingState) → Prop
  | ended : nextInstr nodes s.place = none → StepResult nodes host s (.ok (.unknownInstr, s))
  | unassembled {pre post : List IRNode} {line : Word} {op : OpCode} {a b : Operand} :
      nodes = pre ++ ⟨line, .instr op a b⟩ :: post →
      denote (layoutOf nodes).address op a b = none → StepResult nodes host s (.error .unassembled)
  | fault {n : Nat} {a : Operand} {i : Instruction} {vm : VM} {f : Fault} :
      Executing nodes s n a i vm → execute host vm i = .error f →
      StepResult nodes host s (.error (.fault f))
  | rewritten {n : Nat} {a : Operand} {i : Instruction} {vm vm' : VM} {status : VmError} :
      Executing nodes s n a i vm → execute host vm i = .ok (status, vm') → ¬ SameCode vm vm' →
      StepResult nodes host s (.error .rewritten)
  | lost {n : Nat} {a : Operand} {i : Instruction} {vm vm' : VM} {status : VmError} {e : Trouble} :
      Executing nodes s n a i vm → execute host vm i = .ok (status, vm') → SameCode vm vm' →
      control nodes n a i status vm vm' = .error e → StepResult nodes host s (.error e)
  | went {n m : Nat} {a : Operand} {i : Instruction} {vm vm' : VM} {status : VmError} :
      Executing nodes s n a i vm → execute host vm i = .ok (status, vm') → SameCode vm vm' →
      control nodes n a i status vm vm' = .ok m →
      StepResult nodes host s (.ok (status, { place := m, data := vm'.data }))

/-- There is nothing else. -/
theorem listingStep_result (host : Host) {s : ListingState} (hle : s.place ≤ nodes.length) :
    StepResult nodes host s (listingStep nodes host s) := by
  rw [listingStep]
  split
  · next hnone => exact .ended hnone
  · next n op a b hsome =>
      obtain ⟨pre, line, post, hsplit, rfl, hplace, -⟩ := nextInstr_some hle hsome
      cases hi : denote (layoutOf nodes).address op a b with
      | none => exact .unassembled hsplit hi
      | some i =>
          obtain rfl := denote_opcode hi
          have hx : Executing nodes s pre.length a i (s.data.withPc (addressAt nodes pre.length)) :=
            ⟨⟨pre, line, b, post, hsplit, rfl, hi⟩, hplace, rfl⟩
          dsimp only
          generalize s.data.withPc (addressAt nodes pre.length) = vm at hx ⊢
          cases hrun : execute host vm i with
          | error f => exact .fault hx hrun
          | ok r =>
              obtain ⟨status, vm'⟩ := r
              dsimp only [Except.mapError, Except.ok_bind]
              split
              · next hsame =>
                  cases hc : control nodes pre.length a i status vm vm' with
                  | error e => exact .lost hx hrun hsame hc
                  | ok m => exact .went hx hrun hsame hc
              · next hsame => exact .rewritten hx hrun hsame

/-- What `control` answers. -/
theorem control_error {i : Instruction} {status : VmError} {vm vm' : VM} {e : Trouble}
    (h : control nodes n a i status vm vm' = .error e) :
    status = .ok ∧ transfers vm i = true ∧
      (e = .onSpot ∧ vm'.pc = vm.pc ∨ e = .astray ∧ transferPlace nodes a vm'.pc = none) := by
  rw [control] at h
  split at h
  · cases h
  · next hst =>
      split at h
      · cases h
      · next ht =>
          refine ⟨not_not.mp hst, by simpa using ht, ?_⟩
          split at h
          · next hpc =>
              cases h
              exact Or.inl ⟨rfl, hpc⟩
          · split at h
            · next hnone =>
                cases h
                exact Or.inr ⟨rfl, hnone⟩
            · cases h

theorem control_ok {i : Instruction} {status : VmError} {vm vm' : VM}
    (h : control nodes n a i status vm vm' = .ok m) :
    status ≠ .ok ∧ m = n ∨ status = .ok ∧ transfers vm i = false ∧ m = n + 1 ∨
      status = .ok ∧ transfers vm i = true ∧ vm'.pc ≠ vm.pc ∧
        transferPlace nodes a vm'.pc = some m := by
  rw [control] at h
  split at h
  · next hst =>
      cases h
      exact Or.inl ⟨hst, rfl⟩
  · next hst =>
      split at h
      · next ht =>
          cases h
          exact Or.inr (Or.inl ⟨not_not.mp hst, ht, rfl⟩)
      · next ht =>
          split at h
          · cases h
          · next hpc =>
              split at h
              · cases h
              · next m' hplace =>
                  cases h
                  exact Or.inr (Or.inr ⟨not_not.mp hst, by simpa using ht, hpc, hplace⟩)

theorem transferPlace_le {target : Word} (h : transferPlace nodes a target = some m) :
    m ≤ nodes.length := by
  unfold transferPlace at h
  split at h
  · obtain ⟨pre, line, name, y, post, hsplit, rfl, -⟩ := labelPlace_some h
    simp [hsplit]
  · exact (placeAt_some h).1

/-- A step stays in the list. -/
theorem listingStep_place {host : Host} {s s' : ListingState} {status : VmError}
    (hle : s.place ≤ nodes.length) (h : listingStep nodes host s = .ok (status, s')) :
    s'.place ≤ nodes.length := by
  have hres := listingStep_result host hle
  rw [h] at hres
  cases hres with
  | ended => exact hle
  | @went n m a i vm vm' _ hx hrun hsame hc =>
      obtain ⟨pre, line, b, post, hsplit, rfl, -⟩ := hx.node
      have hn : pre.length + 1 ≤ nodes.length := by simp [hsplit]
      rcases control_ok hc with ⟨-, rfl⟩ | ⟨-, -, rfl⟩ | ⟨-, -, -, hplace⟩
      · exact Nat.le_of_succ_le hn
      · exact hn
      · exact transferPlace_le hplace

end BSVM
