/-
# `BSVM.LabelRuns` — listings that jump to labels only run without trouble

`LabelOnly` leaves no instruction that could change the code or take control
elsewhere than to a label, and `MovesOn` no transfer to itself.  Then a run of the
listing is never given up, and the machine's run is the listing's.

When every label stands behind the jumps to it the place grows with every
instruction, so `vm_run` ends.
-/
import BSVM.Preservation

namespace BSVM

variable {status₁ status₂ : AsmError} {irList : IRList} {ass₁ ass₂ : Assembler} {vm₀ : VM}
  {host : Host} {s s' : ListingState} {x : Ident}

/-- No jump and no call goes to its own address. -/
def MovesOn (nodes : List IRNode) : Prop :=
  ∀ pre line op x b post, nodes = pre ++ ⟨line, .instr op (.ident x) b⟩ :: post →
    op.isJump = true ∨ op = .call →
    (layoutOf nodes).address x ≠ some (addressAt nodes pre.length)

/-- The labels of jumps and calls stand behind them. -/
def Forward (nodes : List IRNode) : Prop :=
  ∀ pre line op x b post, nodes = pre ++ ⟨line, .instr op (.ident x) b⟩ :: post →
    op.isJump = true ∨ op = .call → ∃ m, labelPlace nodes x = some m ∧ pre.length < m

/-! ## Labels -/

theorem TextLabel.place (hx : TextLabel irList x) : ∃ m, labelPlace irList.nodes x = some m := by
  obtain ⟨pre, line, name, y, post, hsplit, hy, hname, -⟩ := hx
  refine Option.ne_none_iff_exists'.mp fun hnone => ?_
  have hno := List.findIdx?_eq_none_iff.mp hnone ⟨line, .label name⟩ (by simp [hsplit])
  have hyes : (IRBody.label name).names x = true :=
    names_label_iff.mpr ⟨name, y, rfl, hy, hname.symm⟩
  exact absurd (hno.symm.trans hyes) nofun

/-- The entry of the layout is that of an entry directive. -/
theorem entry_mem (h : assemblerFirstPass status₁ .zero irList = .ok (.ok, ass₁))
    (hentry : (layoutOf irList.nodes).entry = some x) :
    ∃ line, ⟨line, .dir .entry (.ident x)⟩ ∈ irList.nodes := by
  by_cases hnode : ∃ node ∈ irList.nodes, ∃ operand, node.body = .dir .entry operand
  · obtain ⟨⟨line, body⟩, hmem, operand, rfl⟩ := hnode
    obtain ⟨pre, post, hsplit⟩ := List.append_of_mem hmem
    obtain ⟨_, _, -, -, hstep⟩ := firstPass_node h hsplit
    cases hstep with
    | data hform => cases hform
    | entry =>
        obtain rfl := Option.some.inj (hentry.symm.trans (entry_of_mem h hmem))
        exact ⟨line, hmem⟩
  · have hno := entry_none fun node hmem operand hbody => hnode ⟨node, hmem, operand, hbody⟩
    exact absurd (hno.symm.trans hentry) nofun

theorem Boundary.le {nodes : List IRNode} {n : Nat} (h : Boundary nodes n) :
    n ≤ (layoutOf nodes).text := by
  rcases h with ⟨pre, line, op, a, b, post, hsplit, rfl⟩ | rfl
  · exact (layoutOf_le hsplit).text
  · exact Nat.le_refl _

/-- The run of a program whose entry is a text label has a place to begin at. -/
theorem LabelOnly.start (hlabel : LabelOnly irList)
    (h : Loaded status₁ status₂ irList ass₁ ass₂ vm₀) :
    ∃ n, startPlace irList.nodes = some n := by
  rw [startPlace]
  split
  · exact ⟨0, rfl⟩
  · next x hentry =>
      obtain ⟨line, hmem⟩ := entry_mem h.first hentry
      have hx := hlabel.entry line x hmem
      obtain ⟨m, hm⟩ := hx.place
      obtain ⟨-, addr, haddr, hat⟩ := h.label_address hm
      obtain ⟨addr', haddr', hbound⟩ := hx.boundary h.first
      obtain rfl := Option.some.inj (haddr.symm.trans haddr')
      refine ⟨m, Option.filter_eq_some_iff.mpr ⟨hm, ?_⟩⟩
      split at hat
      · have htext := h.code.1
        have hle := hbound.le
        omega
      · next hsect => simpa using hsect

/-! ## No trouble -/

/-- An instruction of such a listing. -/
theorem LabelOnly.others_of (hlabel : LabelOnly irList) {n : Nat} {a : Operand} {i : Instruction}
    {vm : VM} (hx : Executing irList.nodes s n a i vm) :
    i.opcode ≠ .rtn ∧ i.opcode ≠ .rst ∧ i.opcode ≠ .trap ∧ i.opcode ≠ .fas := by
  obtain ⟨pre, line, b, post, hsplit, -, -⟩ := hx.node
  exact hlabel.others line i.opcode a b (by simp [hsplit])

/-- A transfer of such a listing has a text label. -/
theorem LabelOnly.target_of (hlabel : LabelOnly irList) {n : Nat} {a : Operand} {i : Instruction}
    {vm : VM} (hx : Executing irList.nodes s n a i vm) (ht : transfers vm i = true) :
    (i.opcode.isJump = true ∨ i.opcode = .call) ∧ ∃ x, a = .ident x ∧ TextLabel irList x := by
  obtain ⟨hrtn, hrst, -, -⟩ := hlabel.others_of hx
  obtain ⟨pre, line, b, post, hsplit, -, -⟩ := hx.node
  have hop : i.opcode.isJump = true ∨ i.opcode = .call := by
    rw [transfers] at ht
    split at ht
    · next j hcond => exact Or.inl (by simp [OpCode.isJump, hcond])
    · rcases of_decide_eq_true ht with hjmp | hcall | hop | hop
      · exact Or.inl (by simp [OpCode.isJump, hjmp])
      · exact Or.inr hcall
      · exact absurd hop hrtn
      · exact absurd hop hrst
  obtain ⟨x, ha, -, hlab⟩ := hlabel.targets line i.opcode a b (by simp [hsplit]) hop
  exact ⟨hop, x, ha, hlab⟩

theorem execute_controls {i : Instruction} {vm vm' : VM} {status : VmError}
    (hrun : execute host vm i = .ok (status, vm')) : Controls vm i (status, vm') := by
  rw [execute] at hrun
  split at hrun
  · cases hrun
    refine ⟨fun _ => rfl, fun h => ?_⟩
    cases h
  · next handler hh => exact handler_controls hh _ hrun

/-- The run of the listing is not given up. -/
theorem LabelOnly.untroubled (h : Loaded status₁ status₂ irList ass₁ ass₂ vm₀)
    (hlabel : LabelOnly irList) (hmoves : MovesOn irList.nodes)
    (hle : s.place ≤ irList.nodes.length) {e : Trouble}
    (herr : listingStep irList.nodes host s = .error e) : ∃ f, e = .fault f := by
  have hres := listingStep_result host hle
  rw [herr] at hres
  cases hres with
  | unassembled hsplit hnone =>
      obtain ⟨i, size, hi⟩ := instr_placed h.first h.second hsplit
      cases hnone.symm.trans hi.denotes
  | fault => exact ⟨_, rfl⟩
  | rewritten hx hrun hcode =>
      obtain ⟨-, hrst, htrap, hfas⟩ := hlabel.others_of hx
      rw [execute] at hrun
      split at hrun
      · cases hrun
        exact absurd (.refl _) hcode
      · next handler hh =>
          exact absurd ((handler_effective hh _ _ hrun).sameCode hfas htrap hrst) hcode
  | @lost n a i vm vm' status _ hx hrun hsame hc =>
      obtain ⟨rfl, ht, hwhy⟩ := control_error hc
      obtain ⟨hop, x, rfl, hlab⟩ := hlabel.target_of hx ht
      obtain ⟨pre, line, b, post, hsplit, rfl, hi⟩ := hx.node
      obtain ⟨-, hm, hword⟩ := denote_label hi ht
      rcases hwhy with ⟨-, hpc⟩ | ⟨-, hnone⟩
      · have hgo := ((execute_controls hrun).goes rfl ht).1
        have haddr : i.args = addressAt irList.nodes pre.length := by
          rw [← target_imm hop hm, ← hgo, hpc, hx.machine]
          rfl
        exact absurd (hword.trans (congrArg some haddr)) (hmoves pre line _ x b post hsplit hop)
      · obtain ⟨m, hplace⟩ := hlab.place
        cases hplace.symm.trans hnone

theorem LabelOnly.runs (h : Loaded status₁ status₂ irList ass₁ ass₂ vm₀)
    (hroom : (layoutOf irList.nodes).text + 3 ≤ DATA_BASE) (hlabel : LabelOnly irList)
    (hmoves : MovesOn irList.nodes) {n : Nat} (hstart : startPlace irList.nodes = some n)
    (hosts : Nat → Host) (fuel : Nat) :
    (vmRun (zeroed hosts) fuel vm₀).map (Except.mapError Trouble.fault) =
      (listingRun irList.nodes hosts fuel ⟨n, vm₀.data⟩).map
        (Except.map fun r => (r.1, r.2.1, r.2.2.machine irList.nodes)) := by
  rcases h.runs hroom hstart hosts fuel with ⟨e, he, hrun⟩ | hsame
  · have hfault : ∃ f, e = .fault f :=
      Loop.run_fails (P := fun s : ListingState => s.place ≤ irList.nodes.length)
        (E := fun e => ∃ f, e = .fault f)
        (fun _ _ _ _ hle hstep _ => listingStep_place hle hstep)
        (fun _ _ _ hle herr => hlabel.untroubled h hmoves hle herr) (h.pc_eq hstart).1 hrun
    obtain ⟨f, rfl⟩ := hfault
    exact he.elim
  · exact hsame

/-- **A listing that jumps to labels only, and never to where it is, is what its image
does.** -/
theorem label_only_preserved (status₁ status₂ : AsmError) (irList : IRList) (ass₁ ass₂ : Assembler)
    (vm₀ : VM) :
    Loaded status₁ status₂ irList ass₁ ass₂ vm₀ → (layoutOf irList.nodes).text + 3 ≤ DATA_BASE →
      LabelOnly irList → MovesOn irList.nodes →
      ∃ n, startPlace irList.nodes = some n ∧ ∀ hosts fuel,
        (vmRun (zeroed hosts) fuel vm₀).map (Except.mapError Trouble.fault) =
          (listingRun irList.nodes hosts fuel ⟨n, vm₀.data⟩).map
            (Except.map fun r => (r.1, r.2.1, r.2.2.machine irList.nodes)) := by
  intro h hroom hlabel hmoves
  obtain ⟨n, hstart⟩ := hlabel.start h
  exact ⟨n, hstart, hlabel.runs h hroom hmoves hstart⟩

/-- A label ahead has another address. -/
theorem Forward.movesOn (h : Loaded status₁ status₂ irList ass₁ ass₂ vm₀)
    (hforward : Forward irList.nodes) : MovesOn irList.nodes := by
  intro pre line op x b post hsplit hop haddr
  obtain ⟨k, hk, hlt⟩ := hforward pre line op x b post hsplit hop
  obtain ⟨hle, addr, haddr', hat⟩ := h.label_address hk
  obtain rfl := Option.some.inj (haddr'.symm.trans haddr)
  obtain ⟨i, size, hi⟩ := instr_placed h.first h.second hsplit
  have htext := h.code.1
  have hfits := hi.fits
  have hsize := two_le_size hi.sized
  have hsmall : (addressAt irList.nodes pre.length).toNat = (layoutOf pre).text := by
    rw [addressAt_length hsplit, BitVec.toNat_ofNat]
    exact Nat.mod_eq_of_lt (by simp only [DATA_BASE] at htext; omega)
  split at hat
  · omega
  · -- the code in front of the label goes on behind the instruction
    have hsplit' : irList.nodes = (pre ++ [⟨line, .instr op (.ident x) b⟩]) ++ post :=
      hsplit.trans (List.append_cons _ _ _)
    have hbehind :
        (pre ++ [(⟨line, .instr op (.ident x) b⟩ : IRNode)]) <+: irList.nodes.take k := by
      rw [List.prefix_take_iff, hsplit']
      exact ⟨List.prefix_append _ _, by rw [List.length_append]; exact hlt⟩
    obtain ⟨rest, hrest⟩ := hbehind
    have hgrow := (layoutOf_le hrest.symm).text
    rw [layoutOf_concat] at hgrow
    have hafter : ((layoutOf pre).after ⟨line, .instr op (.ident x) b⟩).text =
        (layoutOf pre).text + size := by
      rw [← instrSize_eq (denote_mode hi.denotes) hi.sized]
      rfl
    have hwhole := (layoutOf_le (List.take_append_drop k irList.nodes).symm).text
    have hk' := congrArg BitVec.toNat hat
    rw [hsmall, addressAt, BitVec.toNat_ofNat, Nat.mod_eq_of_lt (by
      simp only [DATA_BASE] at htext; omega)] at hk'
    omega

/-- A jump over nothing, and the end. -/
def jumpAhead : IRList where
  nodes := [⟨1, .dir .text .none⟩, ⟨2, .instr .jmp (.ident ⟨[120, 0], 0, 2⟩) .none⟩,
    ⟨3, .label (.ident ⟨[120, 0], 0, 2⟩)⟩, ⟨4, .instr .halt .none .none⟩]
  fits := by decide

theorem jumpAhead_labelOnly : LabelOnly jumpAhead := by
  have hx : TextLabel jumpAhead ⟨[120, 0], 0, 2⟩ :=
    ⟨jumpAhead.nodes.take 2, _, _, _, jumpAhead.nodes.drop 3, rfl, rfl, rfl, rfl⟩
  constructor
  · intro line x hmem
    simp [jumpAhead] at hmem
  · intro line op a b hmem hop
    simp [jumpAhead] at hmem
    rcases hmem with ⟨-, rfl, rfl, rfl⟩ | ⟨-, rfl, -, -⟩
    · exact ⟨_, rfl, rfl, hx⟩
    · rcases hop with hop | hop <;> cases hop
  · intro line op a b hmem
    simp [jumpAhead] at hmem
    rcases hmem with ⟨-, rfl, -⟩ | ⟨-, rfl, -⟩
    all_goals decide

theorem jumpAhead_forward : Forward jumpAhead.nodes := by
  intro pre line op x b post hsplit hop
  -- the one instruction with an operand is the second node
  have hone : pre = [⟨1, .dir .text .none⟩] ∧ x = ⟨[120, 0], 0, 2⟩ := by
    rcases pre with _ | ⟨n₁, _ | ⟨n₂, _ | ⟨n₃, _ | ⟨n₄, rest⟩⟩⟩⟩
    all_goals simp [jumpAhead] at hsplit
    obtain ⟨rfl, ⟨-, -, rfl, -⟩, -⟩ := hsplit
    exact ⟨rfl, rfl⟩
  obtain ⟨rfl, rfl⟩ := hone
  exact ⟨2, rfl, by decide⟩

theorem jumpAhead_loaded : ∃ ass₁ ass₂ vm₀, Loaded .ok .ok jumpAhead ass₁ ass₂ vm₀ :=
  ⟨_, _, _, rfl, rfl, _, rfl, rfl⟩

theorem label_only_preserved_jump : ∃ ass₁ ass₂ vm₀, Loaded .ok .ok jumpAhead ass₁ ass₂ vm₀ ∧
    ∃ n, startPlace jumpAhead.nodes = some n ∧ ∀ hosts fuel,
      (vmRun (zeroed hosts) fuel vm₀).map (Except.mapError Trouble.fault) =
        (listingRun jumpAhead.nodes hosts fuel ⟨n, vm₀.data⟩).map
          (Except.map fun r => (r.1, r.2.1, r.2.2.machine jumpAhead.nodes)) := by
  obtain ⟨ass₁, ass₂, vm₀, h⟩ := jumpAhead_loaded
  exact ⟨ass₁, ass₂, vm₀, h, label_only_preserved .ok .ok jumpAhead ass₁ ass₂ vm₀ h (by decide)
    jumpAhead_labelOnly (jumpAhead_forward.movesOn h)⟩

/-! ## Jumps ahead -/

/-- Every instruction that goes on goes ahead. -/
theorem Forward.ahead (hlabel : LabelOnly irList) (hforward : Forward irList.nodes)
    (hle : s.place ≤ irList.nodes.length)
    (hstep : listingStep irList.nodes host s = .ok (.ok, s')) : s.place < s'.place := by
  have hres := listingStep_result host hle
  rw [hstep] at hres
  cases hres with
  | @went n m a i vm vm' _ hx hrun hsame hc =>
      have hplace := hx.place
      rcases control_ok hc with ⟨hst, -⟩ | ⟨-, -, rfl⟩ | ⟨-, ht, -, hgo⟩
      · exact absurd rfl hst
      · exact Nat.lt_succ_of_le hplace
      · obtain ⟨hop, x, rfl, -⟩ := hlabel.target_of hx ht
        obtain ⟨pre, line, b, post, hsplit, rfl, -⟩ := hx.node
        obtain ⟨k, hk, hlt⟩ := hforward pre line _ x b post hsplit hop
        obtain rfl := Option.some.inj (hk.symm.trans hgo)
        exact hplace.trans_lt hlt

/-- **A listing whose jumps all go ahead ends after at most as many instructions as it
has nodes.** -/
theorem forward_ends (status₁ status₂ : AsmError) (irList : IRList) (ass₁ ass₂ : Assembler)
    (vm₀ : VM) (hosts : Nat → Host) :
    Loaded status₁ status₂ irList ass₁ ass₂ vm₀ → (layoutOf irList.nodes).text + 3 ≤ DATA_BASE →
      LabelOnly irList → Forward irList.nodes →
      ∃ r, vmRun (zeroed hosts) (irList.nodes.length + 1) vm₀ = some r := by
  intro h hroom hlabel hforward
  obtain ⟨n, hstart⟩ := hlabel.start h
  have hrun : ∃ r,
      listingRun irList.nodes hosts (irList.nodes.length + 1) ⟨n, vm₀.data⟩ = some r := by
    refine Loop.run_returns (P := fun s : ListingState => s.place ≤ irList.nodes.length)
      (R := fun s => irList.nodes.length - s.place) ?_ (h.pc_eq hstart).1 (by omega)
    intro host s status s' hle hstep hgo
    have hok : status = .ok := by
      have hgo' := (Bool.and_eq_true_iff.mp hgo).1
      exact of_decide_eq_true hgo'
    subst hok
    have hle' := listingStep_place hle hstep
    have hlt := hforward.ahead hlabel hle hstep
    exact ⟨hle', by omega⟩
  obtain ⟨r, hr⟩ := hrun
  have hsame := hlabel.runs h hroom (hforward.movesOn h) hstart hosts (irList.nodes.length + 1)
  rw [hr] at hsame
  cases hvm : vmRun (zeroed hosts) (irList.nodes.length + 1) vm₀ with
  | none =>
      rw [hvm] at hsame
      cases hsame
  | some r' => exact ⟨r', rfl⟩

theorem forward_ends_jump : ∃ ass₁ ass₂ vm₀, Loaded .ok .ok jumpAhead ass₁ ass₂ vm₀ ∧
    ∃ r, vmRun (zeroed fun _ => default) 5 vm₀ = some r := by
  obtain ⟨ass₁, ass₂, vm₀, h⟩ := jumpAhead_loaded
  exact ⟨ass₁, ass₂, vm₀, h, forward_ends .ok .ok jumpAhead ass₁ ass₂ vm₀ (fun _ => default) h
    (by decide) jumpAhead_labelOnly jumpAhead_forward⟩

end BSVM
