/-
# `BSVM.Toolchain` — `main_bsm` and `main_bsvm`, from the source to the exit code

`mainBsm` is what the assembler writes for a file, `mainBsvm` how the machine ends on
one.  Between the two stands `imageOf`, the binary that a listing is, and `imageVM`,
the machine that it is loaded into:

    mainBsm_written   a written source is assembled if both passes accept its
                      listing, and then to its image
    mainBsvm_written  its file is refused, overruns an array, or is run
    toolchain_preserves   the run is that of the listing

What is printed on the way, and what is freed, has no effect on these.
-/
import Mathlib.Algebra.Order.BigOperators.Group.List
import Mathlib.Algebra.Order.Ring.Nat
import BSVM.Annotated
import BSVM.BinaryFile
import BSVM.Sections
import BSVM.SourceFile
import BSVM.UndefinedLabels

namespace BSVM

/-! ## `errorToString` -/

/-- What `memcpy` is given: the text and the number of bytes. -/
def errorCopy : VmError → String × Nat
  | .ok => ("VM OK", 6)
  | .divZero => ("Division par zero", 18)
  | .instrPriv => ("Instruction privilégiée", 26)
  | .instrTrap => ("Instruction TRAP", 17)
  | .illMemAccess => ("Accès mémoire illégal", 25)
  | .illRegister => ("Registre invalide", 18)
  | .stackUnderflow => ("Stack Underflow", 16)
  | .stackOverflow => ("Stack Overflow", 15)
  | .invalidJmp => ("Jump hors du segment de code", 29)
  | .codeLoadOutOfBounds => ("Espace du segment code insuffisant", 35)
  | .dataLoadOutOfBounds => ("Espace du segment data insuffisant", 35)
  | .invalidExecutionAddress => ("PC pointe hors du segment de code", 34)
  | .truncatedInstr => ("Instruction tronquée", 22)
  | .unknownInstr => ("Instruction indéfinie", 23)
  | .unknownSyscall => ("Syscall indéfini", 18)
  | .heapOutOfMemory => ("Heap is out of memory", 22)
  | .memAlreadyFree => ("Memory if already free", 23)
  | .outOfTheHeap => ("Address points out of the heap", 31)
  | .freeOutOfTheHeap => ("Tried to free memory out of the heap", 37)

def errorToString (status : VmError) : String :=
  (errorCopy status).1

/-! ## The two programs -/

theorem fits_of_few {nodes : List IRNode} (h : nodes.length ≤ 128) :
    nodes.length * sizeofIRNode < 2 ^ 64 := by
  rw [sizeofIRNode]
  omega

/-- `main` of `main_bsm.c`: the file that is written.  The statuses are what the two
passes find in their locals. -/
def mainBsm (host : ParserHost) (status₁ status₂ : AsmError) (calls : Calls)
    (file : Option (List Byte)) (closes : Bool) : Exec (List Byte) :=
  match h : parser host file closes with
  | .error f => .error f
  | .ok nodes => do
      let irList : IRList := { nodes := nodes, fits := fits_of_few (parser_few h) }
      let (status, ass) ← assemblerFirstPass status₁ .zero irList
      if status ≠ .ok then .error .exit
      else do
        let (status, ass) ← assemblerSecondPass status₂ ass irList
        if status ≠ .ok then .error .exit
        else do
          let bin ← ass.binary
          writeBinaryFile calls bin

/-- How `main_bsvm` ends: with a message, or with `Exit code : %d`. -/
inductive Termination where
  | failed (message : String)
  | exited (code : Int)
  deriving DecidableEq, Repr

/-- The end of `main`, `(int8_t) vm.registers[0]` being the code. -/
def ending (status : VmError) (s : VmData) : Termination :=
  if status ≠ .ok then .failed (errorToString status)
  else .exited ((s.registers 0).setWidth 8).toInt

/-- `main` of `main_bsvm.c`, if the machine stops within `fuel` cycles. -/
def mainBsvm (calls : Calls) (hosts : Nat → Host) (fuel : Nat) (file : List Byte) :
    Option (Exec Termination) :=
  let loaded : Exec Result := do
    let t ← readBinaryFile calls file mainBinary.headers
    let bin ← mainBinary.receive t
    loadProgram initVM bin 0
  match loaded with
  | .error f => some (.error f)
  | .ok (status, vm) =>
      if status ≠ .ok then some (.ok (.failed (errorToString status)))
      else (vmRun hosts fuel vm).map (Except.map fun r => ending r.2.1 r.2.2.data)

/-! ## The image of a listing -/

/-- What the assembler makes of a listing. -/
def imageOf (nodes : List IRNode) : Binary where
  headers :=
    { magicNumber := MAGIC_NUMBER
      entryPoint := ((layoutOf nodes).entry.bind (layoutOf nodes).address).getD 0
      codeSize := BitVec.ofNat 64 (layoutOf nodes).text
      dataSize := BitVec.ofNat 64 (layoutOf nodes).data }
  bytecode := codeOf (layoutOf nodes).address nodes
  data := storedOf (layoutOf nodes).address nodes

/-- The machine that it is loaded into. -/
def imageVM (nodes : List IRNode) : VM :=
  { initVM with
    memory := overlay
      (overlay initVM.memory 0 (layoutOf nodes).text fun k => (imageOf nodes).bytecode.getD k 0)
      DATA_BASE (layoutOf nodes).data fun k => (imageOf nodes).data.getD k 0
    pc := (imageOf nodes).headers.entryPoint }

/-- The file of a binary. -/
def Binary.file (binary : Binary) : List Byte :=
  binary.headers.bytes ++ binary.bytecode ++ binary.data

section
variable {status₁ status₂ : AsmError} {irList : IRList} {ass₁ ass₂ : Assembler}

theorem binary_image (h₁ : assemblerFirstPass status₁ .zero irList = .ok (.ok, ass₁))
    (h₂ : assemblerSecondPass status₂ ass₁ irList = .ok (.ok, ass₂)) :
    ass₂.binary = .ok (imageOf irList.nodes) := by
  rw [binary_stored h₁ h₂, headers_eq h₁ h₂]
  rfl

/-- The arrays of an image have the sizes of its header. -/
structure Sized (nodes : List IRNode) : Prop where
  text : (layoutOf nodes).text < 2 ^ 64
  data : (layoutOf nodes).data < 2 ^ 64
  code : (codeOf (layoutOf nodes).address nodes).length = (layoutOf nodes).text
  stored : (storedOf (layoutOf nodes).address nodes).length = (layoutOf nodes).data

theorem sized (h₁ : assemblerFirstPass status₁ .zero irList = .ok (.ok, ass₁))
    (h₂ : assemblerSecondPass status₂ ass₁ irList = .ok (.ok, ass₂)) : Sized irList.nodes := by
  obtain ⟨s, -, hat, -⟩ := secondPass_end h₁ h₂
  obtain ⟨-, -, data, hlen, hbinary⟩ := binary_eq h₁ h₂
  rw [binary_stored h₁ h₂] at hbinary
  cases hbinary
  exact ⟨irList.text_lt, data_lt h₁ h₂, hat.codeLength, hlen⟩

end

/-- The file of an image is what is written. -/
theorem write_image {nodes : List IRNode} (h : Sized nodes) {calls : Calls} {file : List Byte} :
    writeBinaryFile calls (imageOf nodes) = .ok file ↔
      calls.Succeed ∧ file = (imageOf nodes).file := by
  have hcode : (imageOf nodes).headers.codeSize.toNat = (imageOf nodes).bytecode.length :=
    (Nat.mod_eq_of_lt h.text).trans h.code.symm
  have hdata : (imageOf nodes).headers.dataSize.toNat = (imageOf nodes).data.length :=
    (Nat.mod_eq_of_lt h.data).trans h.stored.symm
  have hwrite : calls.Succeed →
      writeBinaryFile calls (imageOf nodes) = .ok (imageOf nodes).file := by
    intro hcalls
    rw [writeBinaryFile_ok hcalls hcode.le hdata.le, hcode, hdata, List.take_length,
      List.take_length]
    rfl
  constructor
  · intro hfile
    have hcalls : calls.Succeed := by
      rw [writeBinaryFile] at hfile
      obtain ⟨hopen, hfile⟩ := chk_bind.mp hfile
      obtain ⟨h0, hfile⟩ := chk_bind.mp hfile
      obtain ⟨h1, hfile⟩ := chk_bind.mp hfile
      obtain ⟨_, -, hfile⟩ := Except.bind_eq_ok.mp hfile
      obtain ⟨h2, hfile⟩ := chk_bind.mp hfile
      obtain ⟨_, -, hfile⟩ := Except.bind_eq_ok.mp hfile
      obtain ⟨hclose, -⟩ := chk_bind.mp hfile
      refine ⟨hopen, fun n hn => ?_, hclose⟩
      obtain rfl | rfl | rfl : n = 0 ∨ n = 1 ∨ n = 2 := by omega
      · exact h0
      · exact h1
      · exact h2
    exact ⟨hcalls, Except.ok.inj (hfile.symm.trans (hwrite hcalls))⟩
  · rintro ⟨hcalls, rfl⟩
    exact hwrite hcalls

/-! ## Assembling -/

/-- The listings that both passes accept. -/
structure WithinLimits (status₁ status₂ : AsmError) (nodes : List IRNode) : Prop where
  first : Arranged status₁ nodes
  second : Arranged status₂ nodes
  defined : Defined nodes

theorem passes_iff {status₁ status₂ : AsmError} {irList : IRList} (hbuilt : Built irList.nodes) :
    (∃ ass₁ ass₂, assemblerFirstPass status₁ .zero irList = .ok (.ok, ass₁) ∧
      assemblerSecondPass status₂ ass₁ irList = .ok (.ok, ass₂)) ↔
      WithinLimits status₁ status₂ irList.nodes := by
  have huses : ∀ {status}, Arranged status irList.nodes → ∀ node ∈ irList.nodes,
      node.body.uses = node.body.ref?.toList := by
    intro status harranged node hnode
    obtain ⟨pre, post, hsplit⟩ := List.append_of_mem hnode
    exact uses_eq (harranged.admits hsplit)
  constructor
  · rintro ⟨ass₁, ass₂, h₁, h₂⟩
    have hfirst := firstPass_ok_iff.mp ⟨ass₁, h₁⟩
    obtain ⟨-, hsecond, hresolved⟩ := (secondPass_ok_iff h₁).mp ⟨ass₂, h₂⟩
    refine ⟨hfirst, hsecond, fun node hnode x hx => ?_⟩
    rw [huses hfirst node hnode, Option.mem_toList] at hx
    obtain ⟨addr, haddr⟩ := (hresolved node hnode).found x hx
    obtain ⟨r, hr, hlabel⟩ := lookup_iff hbuilt h₁ ((hbuilt.legible node hnode).ref hx)
    cases haddr.symm.trans hr
    exact hlabel.mp rfl
  · rintro ⟨hfirst, hsecond, hdefined⟩
    obtain ⟨ass₁, h₁⟩ := firstPass_ok_iff.mpr hfirst
    have hresolved : ∀ node ∈ irList.nodes, Resolved ass₁.symtable node.body := by
      intro node hnode
      refine ⟨fun x hx => ?_, (hbuilt.legible node hnode).stocked⟩
      obtain ⟨r, hr, hlabel⟩ := lookup_iff hbuilt h₁ ((hbuilt.legible node hnode).ref hx)
      have huse : x ∈ node.body.uses := by
        rw [huses hfirst node hnode]
        exact Option.mem_toList.mpr hx
      obtain ⟨addr, rfl⟩ := Option.isSome_iff_exists.mp (hlabel.mpr (hdefined node hnode x huse))
      exact ⟨addr, hr⟩
    obtain ⟨ass₂, h₂⟩ := (secondPass_ok_iff h₁).mpr ⟨data_lt_of_built hbuilt, hsecond, hresolved⟩
    exact ⟨ass₁, ass₂, h₁, h₂⟩

/-- `main_bsm` on a file that is parsed to the list. -/
theorem mainBsm_parsed {host : ParserHost} {status₁ status₂ : AsmError} {calls : Calls}
    {source : Option (List Byte)} {closes : Bool} {irList : IRList}
    (hparse : parser host source closes = .ok irList.nodes) :
    mainBsm host status₁ status₂ calls source closes = (do
      let (status, ass) ← assemblerFirstPass status₁ .zero irList
      if status ≠ .ok then .error .exit
      else do
        let (status, ass) ← assemblerSecondPass status₂ ass irList
        if status ≠ .ok then .error .exit
        else do
          let bin ← ass.binary
          writeBinaryFile calls bin) := by
  rw [mainBsm]
  split
  · next f h => cases h.symm.trans hparse
  · next nodes h =>
      have hlist : ({ nodes := nodes, fits := fits_of_few (parser_few h) } : IRList) = irList :=
        IRList.ext (Except.ok.inj (h.symm.trans hparse))
      dsimp only
      rw [hlist]

/-- It writes the image of the list, if both passes accept it. -/
theorem mainBsm_iff {host : ParserHost} {status₁ status₂ : AsmError} {calls : Calls}
    {source : Option (List Byte)} {closes : Bool} {irList : IRList}
    (hparse : parser host source closes = .ok irList.nodes) {file : List Byte} :
    mainBsm host status₁ status₂ calls source closes = .ok file ↔
      (∃ ass₁ ass₂, assemblerFirstPass status₁ .zero irList = .ok (.ok, ass₁) ∧
        assemblerSecondPass status₂ ass₁ irList = .ok (.ok, ass₂)) ∧
      calls.Succeed ∧ file = (imageOf irList.nodes).file := by
  rw [mainBsm_parsed hparse]
  constructor
  · intro hfile
    obtain ⟨⟨r₁, ass₁⟩, h₁, hfile⟩ := Except.bind_eq_ok.mp hfile
    obtain ⟨hr₁, hfile⟩ := exit_or.mp hfile
    obtain ⟨⟨r₂, ass₂⟩, h₂, hfile⟩ := Except.bind_eq_ok.mp hfile
    obtain ⟨hr₂, hfile⟩ := exit_or.mp hfile
    obtain rfl : r₁ = .ok := not_not.mp hr₁
    obtain rfl : r₂ = .ok := not_not.mp hr₂
    dsimp only at hfile
    rw [if_neg hr₂, binary_image h₁ h₂, Except.ok_bind] at hfile
    exact ⟨⟨ass₁, ass₂, h₁, h₂⟩, (write_image (sized h₁ h₂)).mp hfile⟩
  · rintro ⟨⟨ass₁, ass₂, h₁, h₂⟩, hwritten⟩
    rw [h₁, Except.ok_bind]
    dsimp only
    rw [if_neg (not_not.mpr rfl), h₂, Except.ok_bind]
    dsimp only
    rw [if_neg (not_not.mpr rfl), binary_image h₁ h₂, Except.ok_bind]
    exact (write_image (sized h₁ h₂)).mpr hwritten

/-! ## Written files -/

/-- A token of a line is shorter than the line. -/
theorem Renders.text_lt {toks : List Token} {text : List Byte} (h : Renders toks text) :
    ∀ tok ∈ toks, tok.text.length < text.length := by
  induction h with
  | newline | comment => exact fun tok hmem => absurd hmem List.not_mem_nil
  | token blanks tok toks c line _ _ _ ih =>
      intro tok' hmem
      simp only [List.length_append, List.length_cons] at ih ⊢
      rcases List.mem_cons.mp hmem with rfl | hmem
      · omega
      · have hlt := ih tok' hmem
        omega

/-- A node comes from a line. -/
theorem listed_mem {host : ParserHost} {k : Word} {lines : List SourceLine} {node : IRNode}
    (h : node ∈ listed host k lines) : ∃ (k' : Word) (source : Source) (text : List Byte),
      Renders source.tokens text ∧ text.length < INSTR_LEN ∧
      node = { line := k' + 1, body := source.body (host.ptr k') } := by
  induction lines generalizing k with
  | nil => exact absurd h List.not_mem_nil
  | cons line lines ih =>
      rw [listed_cons, List.mem_append] at h
      rcases h with h | h
      · obtain ⟨source, text, hrenders, hfits⟩ := line
        cases source with
        | none => exact absurd h List.not_mem_nil
        | some source => exact ⟨k, source, text, hrenders, hfits, List.mem_singleton.mp h⟩
      · exact ih h

/-- A line is the line of its node. -/
theorem Source.fromLine (source : Source) {text : List Byte} (h : Renders source.tokens text)
    (ptr : Nat → Word) (k : Word) : FromLine { line := k + 1, body := source.body ptr } := by
  obtain ⟨l, hrun, hend⟩ := h.reading source.sounds [] k
  let slot : Slot := { a := .none, b := .none }
  have ha : slot.a.Legible := trivial
  have hb : slot.b.Legible := trivial
  let lexer : Lexer := ⟨[], k⟩
  have hparse : parseLine ptr (text ++ nul :: []) (some slot) lexer =
      .ok (.ok { line := k + 1, body := source.body ptr }) := parseLine_tokens source hrun hend
  exact .mk ha hb hparse

theorem Source.footprint_le (source : Source) {text : List Byte} (h : Renders source.tokens text)
    (ptr : Nat → Word) : (source.body ptr).footprint ≤ sizeofIRNode + text.length := by
  cases source with
  | dir type arg =>
      cases arg with
      | string x =>
          have hlt := h.text_lt (.string x.text) (by simp [Source.tokens, SourceArg.tokens])
          simp only [Token.text, List.length_append, List.length_cons] at hlt
          show sizeofIRNode + (x.text ++ [nul]).length ≤ _
          rw [List.length_append]
          exact Nat.add_le_add_left (by simp only [List.length_singleton]; omega) _
      | _ => exact Nat.le_add_right _ _
  | _ => exact Nat.le_add_right _ _

theorem footprint_sum_le {nodes : List IRNode} {n : Nat}
    (h : ∀ node ∈ nodes, node.body.footprint ≤ n) :
    (nodes.map fun node => node.body.footprint).sum ≤ nodes.length * n := by
  have hle : ∀ m ∈ nodes.map fun node => node.body.footprint, m ≤ n := by
    intro m hm
    obtain ⟨node, hnode, rfl⟩ := List.mem_map.mp hm
    exact h node hnode
  have hsum := List.sum_le_card_nsmul _ _ hle
  rwa [List.length_map, Nat.nsmul_eq_mul] at hsum

theorem listed_footprint_le {host : ParserHost} {k : Word} {lines : List SourceLine}
    (hfew : (listed host k lines).length ≤ 128) :
    ((listed host k lines).map fun node => node.body.footprint).sum ≤
      128 * (sizeofIRNode + INSTR_LEN) := by
  have hle : ∀ node ∈ listed host k lines, node.body.footprint ≤ sizeofIRNode + INSTR_LEN := by
    intro node hnode
    obtain ⟨k', source, text, hrenders, hfits, rfl⟩ := listed_mem hnode
    exact (source.footprint_le hrenders _).trans (Nat.add_le_add_left hfits.le _)
  exact (footprint_sum_le hle).trans (Nat.mul_le_mul_right _ hfew)

theorem listed_built {host : ParserHost} {k : Word} {lines : List SourceLine}
    (hfew : (listed host k lines).length ≤ 128) : Built (listed host k lines) where
  lines node hnode := by
    obtain ⟨k', source, text, hrenders, -, rfl⟩ := listed_mem hnode
    exact source.fromLine hrenders _ k'
  resident := lt_of_le_of_lt (listed_footprint_le hfew) (by decide)

/-- The data of a file is far from the end of the address space. -/
theorem listed_data_le {host : ParserHost} {k : Word} {lines : List SourceLine}
    (hfew : (listed host k lines).length ≤ 128) :
    (layoutOf (listed host k lines)).data ≤ 128 * (sizeofIRNode + INSTR_LEN) := by
  have hle := data_foldl_le (listed_built hfew).legible .start
  rw [show Layout.start.data = 0 from rfl, Nat.zero_add] at hle
  exact hle.trans (listed_footprint_le hfew)

theorem mainBsm_lost {host : ParserHost} {lines : List SourceLine}
    (hmany : ¬ (listed host 0 lines.dropLast).length < 128) (status₁ status₂ : AsmError)
    (calls : Calls) :
    mainBsm host status₁ status₂ calls (some (written lines)) true = .error .table := by
  rw [mainBsm]
  split
  · next f h =>
      cases h.symm.trans (parser_lost hmany)
      rfl
  · next nodes h => cases h.symm.trans (parser_lost hmany)

/-- **What the assembler writes for a written file**: its image, if both passes accept
the listing, and otherwise nothing. -/
theorem mainBsm_written (host : ParserHost) (status₁ status₂ : AsmError) (calls : Calls)
    (lines : List SourceLine) (file : List Byte) :
    mainBsm host status₁ status₂ calls (some (written lines)) true = .ok file ↔
      (listed host 0 lines.dropLast).length < 128 ∧
      WithinLimits status₁ status₂ (listed host 0 lines) ∧ calls.Succeed ∧
      file = (imageOf (listed host 0 lines)).file := by
  by_cases hfew : (listed host 0 lines.dropLast).length < 128
  · have hparse := parser_written hfew
    have hlen := parser_few hparse
    let irList : IRList := { nodes := listed host 0 lines, fits := fits_of_few hlen }
    have hpasses := @passes_iff status₁ status₂ irList (listed_built hlen)
    rw [@mainBsm_iff host status₁ status₂ calls _ true irList hparse file, hpasses]
    exact ⟨fun h => ⟨hfew, h⟩, fun h => h.2⟩
  · refine ⟨fun hfile => ?_, fun hfile => absurd hfile.1 hfew⟩
    rw [mainBsm_lost hfew] at hfile
    cases hfile

/-! ## Running an image -/

/-- A file is refused by exiting. -/
theorem readBinaryFile_error {calls : Calls} {file : List Byte} {headers : BinaryHeader}
    {f : Fault} (h : readBinaryFile calls file headers = .error f) : f = .exit := by
  have hchk : ∀ {fails : Bool} {x : Exec FileRead}, (x = .error f → f = .exit) →
      (chk fails >>= fun _ => x) = .error f → f = .exit := by
    intro fails x hx hf
    cases fails with
    | false => exact hx hf
    | true =>
        cases hf
        rfl
  rw [readBinaryFile] at h
  refine hchk (hchk fun h => ?_) h
  dsimp only at h
  split at h
  · cases h
    rfl
  · split at h
    · cases h
      rfl
    · split at h
      · cases h
        rfl
      · refine hchk (fun h => hchk (fun h => hchk (fun h => ?_) h) h) h
        cases h

section
variable {nodes : List IRNode} {calls : Calls}

/-- An image is read back, if its sizes are accepted. -/
theorem read_image (h : Sized nodes) (hcalls : calls.Succeed)
    (hacc : (imageOf nodes).headers.Accepted) :
    readBinaryFile calls (imageOf nodes).file mainBinary.headers = .ok {
      headers := (imageOf nodes).headers
      bytecode := (imageOf nodes).bytecode
      data := (imageOf nodes).data } := by
  have hcode : (imageOf nodes).headers.codeSize.toNat = (imageOf nodes).bytecode.length :=
    (Nat.mod_eq_of_lt h.text).trans h.code.symm
  have hdata : (imageOf nodes).headers.dataSize.toNat = (imageOf nodes).data.length :=
    (Nat.mod_eq_of_lt h.data).trans h.stored.symm
  have hannounced := announced_bytes (imageOf nodes).headers
    ((imageOf nodes).bytecode ++ (imageOf nodes).data)
  rw [← List.append_assoc] at hannounced
  refine readBinaryFile_ok_iff.mpr ⟨hcalls, hannounced.symm ▸ hacc, ?_⟩
  rw [Binary.file, hannounced, List.append_assoc, ← headerBytes_length (imageOf nodes).headers,
    List.drop_left, hcode, List.take_left, List.drop_left, hdata, List.take_length]

/-- An overlay depends on the bytes that it lays over. -/
theorem overlay_congr {m : Memory} {lo n : Nat} {f g : Nat → Byte} (h : ∀ k < n, f k = g k) :
    overlay m lo n f = overlay m lo n g := by
  funext k
  by_cases hk : lo ≤ k ∧ (k : Nat) < lo + n
  · rw [overlay_inside hk.1 hk.2, overlay_inside hk.1 hk.2]
    exact h _ (by omega)
  · rw [overlay_outside (by omega), overlay_outside (by omega)]

theorem getD_append_left (l l' : List Byte) {k n : Nat} (hn : n = l.length) (hk : k < n) :
    (l ++ l').getD k 0 = l.getD k 0 := by
  rw [List.getD_eq_getElem?_getD, List.getD_eq_getElem?_getD,
    List.getElem?_append_left (hn ▸ hk)]

/-- It is loaded, whatever the arrays hold behind it. -/
theorem load_image (h : Sized nodes) (htext : (layoutOf nodes).text < DATA_BASE)
    (hdata : (layoutOf nodes).data < HEAP_BASE - DATA_BASE) (bytecode data : List Byte) :
    loadProgram initVM {
      headers := (imageOf nodes).headers
      bytecode := (imageOf nodes).bytecode ++ bytecode
      data := (imageOf nodes).data ++ data } 0 = .ok (.ok, imageVM nodes) := by
  have hcode : (imageOf nodes).headers.codeSize.toNat = (layoutOf nodes).text :=
    Nat.mod_eq_of_lt h.text
  have hsize : (imageOf nodes).headers.dataSize.toNat = (layoutOf nodes).data :=
    Nat.mod_eq_of_lt h.data
  have hlen : (layoutOf nodes).text = (imageOf nodes).bytecode.length := h.code.symm
  have hlen' : (layoutOf nodes).data = (imageOf nodes).data.length := h.stored.symm
  obtain ⟨vm, hload⟩ := @loadProgram_fits initVM {
      headers := (imageOf nodes).headers
      bytecode := (imageOf nodes).bytecode ++ bytecode
      data := (imageOf nodes).data ++ data } (hcode ▸ htext) (hsize ▸ hdata)
    (by
      dsimp only
      rw [hcode, hlen, List.length_append]
      exact Nat.le_add_right _ _)
    (by
      dsimp only
      rw [hsize, hlen', List.length_append]
      exact Nat.le_add_right _ _)
  rw [hload, loadProgram_ok hload]
  dsimp only
  rw [hcode, hsize, overlay_congr fun k hk => getD_append_left _ data hlen' hk,
    overlay_congr fun k hk => getD_append_left _ bytecode hlen hk]
  rfl

theorem header_sizes (h : Sized nodes) :
    (imageOf nodes).headers.codeSize.toNat = (layoutOf nodes).text ∧
      (imageOf nodes).headers.dataSize.toNat = (layoutOf nodes).data :=
  ⟨Nat.mod_eq_of_lt h.text, Nat.mod_eq_of_lt h.data⟩

/-- An image whose header is in order. -/
theorem mainBsvm_accepted (h : Sized nodes) (hcalls : calls.Succeed) (hosts : Nat → Host)
    (fuel : Nat) (htext : (layoutOf nodes).text < DATA_BASE)
    (hdata : (layoutOf nodes).data < 2 ^ 64 - (STACK_BASE - DATA_BASE)) :
    mainBsvm calls hosts fuel (imageOf nodes).file =
      if STACK_BASE - DATA_BASE < (layoutOf nodes).data then some (.error .table)
      else if HEAP_BASE - DATA_BASE ≤ (layoutOf nodes).data then
        some (.ok (.failed (errorToString .dataLoadOutOfBounds)))
      else (vmRun hosts fuel (imageVM nodes)).map
        (Except.map fun r => ending r.2.1 r.2.2.data) := by
  obtain ⟨hcode, hsize⟩ := header_sizes h
  have hlen : (imageOf nodes).bytecode.length = (layoutOf nodes).text := h.code
  have hlen' : (imageOf nodes).data.length = (layoutOf nodes).data := h.stored
  have hroom : mainBinary.bytecode.length = DATA_BASE := List.length_replicate
  have hroom' : mainBinary.data.length = STACK_BASE - DATA_BASE := List.length_replicate
  rw [mainBsvm, read_image h hcalls ⟨rfl, hcode ▸ htext, hsize ▸ hdata⟩, Except.ok_bind,
    Binary.receive]
  dsimp only
  rw [hlen, hlen', hroom, hroom']
  by_cases hover : STACK_BASE - DATA_BASE < (layoutOf nodes).data
  · rw [if_pos hover, if_neg fun hfits => absurd hfits.2 (Nat.not_le.mpr hover)]
    rfl
  · rw [if_neg hover, if_pos ⟨htext.le, Nat.not_lt.mp hover⟩, Except.ok_bind]
    by_cases hlarge : HEAP_BASE - DATA_BASE ≤ (layoutOf nodes).data
    · rw [if_pos hlarge, loadProgram, start_zero]
      dsimp only
      rw [hcode, hsize, if_neg (Nat.not_le.mpr htext), if_pos hlarge]
      rfl
    · rw [if_neg hlarge, load_image h htext (Nat.not_le.mp hlarge)]
      rfl

theorem mainBsvm_run (h : Sized nodes) (hcalls : calls.Succeed) (hosts : Nat → Host)
    (fuel : Nat) (htext : (layoutOf nodes).text < DATA_BASE)
    (hdata : (layoutOf nodes).data < HEAP_BASE - DATA_BASE) :
    mainBsvm calls hosts fuel (imageOf nodes).file =
      (vmRun hosts fuel (imageVM nodes)).map (Except.map fun r => ending r.2.1 r.2.2.data) := by
  simp only [HEAP_BASE, DATA_BASE] at hdata
  rw [mainBsvm_accepted h hcalls hosts fuel htext, if_neg, if_neg]
  · simp only [HEAP_BASE, DATA_BASE]
    omega
  · simp only [STACK_BASE, DATA_BASE]
    omega
  · simp only [STACK_BASE, DATA_BASE]
    omega

/-- An image with too much code. -/
theorem mainBsvm_refused (h : Sized nodes) (hosts : Nat → Host) (fuel : Nat)
    (htext : DATA_BASE ≤ (layoutOf nodes).text) :
    mainBsvm calls hosts fuel (imageOf nodes).file = some (.error .exit) := by
  rw [mainBsvm]
  cases hread : readBinaryFile calls (imageOf nodes).file mainBinary.headers with
  | error f =>
      obtain rfl := readBinaryFile_error hread
      rfl
  | ok t =>
      have hannounced := announced_bytes (imageOf nodes).headers
        ((imageOf nodes).bytecode ++ (imageOf nodes).data)
      rw [← List.append_assoc] at hannounced
      have hcode := (readBinaryFile_ok_iff.mp hread).2.1.code
      rw [Binary.file, hannounced, (header_sizes h).1] at hcode
      exact absurd htext (Nat.not_le.mpr hcode)

end

/-! ## From the source to the exit code -/

section
variable {host : ParserHost} {status₁ status₂ : AsmError} {calls : Calls}
  {lines : List SourceLine} {file : List Byte}

/-- What stands behind a file that was written. -/
theorem mainBsm_passes
    (h : mainBsm host status₁ status₂ calls (some (written lines)) true = .ok file) :
    ∃ irList : IRList, irList.nodes = listed host 0 lines ∧
      (listed host 0 lines).length ≤ 128 ∧ file = (imageOf irList.nodes).file ∧
      ∃ ass₁ ass₂, assemblerFirstPass status₁ .zero irList = .ok (.ok, ass₁) ∧
        assemblerSecondPass status₂ ass₁ irList = .ok (.ok, ass₂) := by
  by_cases hfew : (listed host 0 lines.dropLast).length < 128
  · have hparse := parser_written hfew
    let irList : IRList := { nodes := listed host 0 lines, fits := fits_of_few (parser_few hparse) }
    obtain ⟨hpasses, -, hfile⟩ :=
      (@mainBsm_iff host status₁ status₂ calls _ true irList hparse file).mp h
    exact ⟨irList, rfl, parser_few hparse, hfile, hpasses⟩
  · rw [mainBsm] at h
    split at h
    · cases h
    · next nodes hparse => cases hparse.symm.trans (parser_lost hfew)

/-- The image is loaded. -/
theorem loaded_image {irList : IRList} {ass₁ ass₂ : Assembler}
    (h₁ : assemblerFirstPass status₁ .zero irList = .ok (.ok, ass₁))
    (h₂ : assemblerSecondPass status₂ ass₁ irList = .ok (.ok, ass₂))
    (htext : (layoutOf irList.nodes).text < DATA_BASE)
    (hdata : (layoutOf irList.nodes).data < HEAP_BASE - DATA_BASE) :
    Loaded status₁ status₂ irList ass₁ ass₂ (imageVM irList.nodes) := by
  refine ⟨h₁, h₂, _, binary_image h₁ h₂, ?_⟩
  have hload := load_image (sized h₁ h₂) htext hdata [] []
  rw [List.append_nil, List.append_nil] at hload
  exact hload

end

/-- **How the machine ends on a file that the assembler wrote**: the file is refused, or
it overruns an array of `main`, or the machine refuses it, or it is run. -/
theorem mainBsvm_written (host : ParserHost) (status₁ status₂ : AsmError) (calls calls' : Calls)
    (lines : List SourceLine) (file : List Byte) (hosts : Nat → Host) (fuel : Nat) :
    let nodes := listed host 0 lines
    mainBsm host status₁ status₂ calls (some (written lines)) true = .ok file → calls'.Succeed →
      mainBsvm calls' hosts fuel file =
        if DATA_BASE ≤ (layoutOf nodes).text then some (.error .exit)
        else if STACK_BASE - DATA_BASE < (layoutOf nodes).data then some (.error .table)
        else if HEAP_BASE - DATA_BASE ≤ (layoutOf nodes).data then
          some (.ok (.failed (errorToString .dataLoadOutOfBounds)))
        else (vmRun hosts fuel (imageVM nodes)).map
          (Except.map fun r => ending r.2.1 r.2.2.data) := by
  intro nodes hmain hcalls
  obtain ⟨irList, hnodes, hfew, rfl, ass₁, ass₂, h₁, h₂⟩ := mainBsm_passes hmain
  have hdata : (layoutOf nodes).data ≤ 128 * (sizeofIRNode + INSTR_LEN) := listed_data_le hfew
  rw [← show irList.nodes = nodes from hnodes] at hdata ⊢
  split
  · next htext => exact mainBsvm_refused (sized h₁ h₂) hosts fuel htext
  · next htext =>
      refine mainBsvm_accepted (sized h₁ h₂) hcalls hosts fuel (Nat.not_le.mp htext)
        (lt_of_le_of_lt hdata ?_)
      decide

/-- **The whole way.**  What `main_bsvm` does with the file that `main_bsm` wrote is what
the listing of the source does, as long as the listing says what is to be done. -/
theorem toolchain_preserves (host : ParserHost) (status₁ status₂ : AsmError) (calls calls' : Calls)
    (lines : List SourceLine) (file : List Byte) (hosts : Nat → Host) (fuel n : Nat) :
    let nodes := listed host 0 lines
    mainBsm host status₁ status₂ calls (some (written lines)) true = .ok file → calls'.Succeed →
      (layoutOf nodes).text + 3 ≤ DATA_BASE → (layoutOf nodes).data < HEAP_BASE - DATA_BASE →
      startPlace nodes = some n →
      let listing := listingRun nodes hosts fuel ⟨n, (imageVM nodes).data⟩
      (∃ e, e.givesUp ∧ listing = some (.error e)) ∨
        (mainBsvm calls' (zeroed hosts) fuel file).map (Except.mapError Trouble.fault) =
          listing.map (Except.map fun r => ending r.2.1 r.2.2.data) := by
  intro nodes hmain hcalls htext hdata hstart
  obtain ⟨irList, hnodes, -, rfl, ass₁, ass₂, h₁, h₂⟩ := mainBsm_passes hmain
  rw [← show irList.nodes = nodes from hnodes] at htext hdata hstart ⊢
  have htext' : (layoutOf irList.nodes).text < DATA_BASE := by omega
  rw [mainBsvm_run (sized h₁ h₂) hcalls (zeroed hosts) fuel htext' hdata]
  refine ((loaded_image h₁ h₂ htext' hdata).runs htext hstart hosts fuel).imp id fun hsame => ?_
  -- the machine of the listing ends as its data does
  generalize listingRun irList.nodes hosts fuel ⟨n, (imageVM irList.nodes).data⟩ = x at hsame ⊢
  generalize vmRun (zeroed hosts) fuel (imageVM irList.nodes) = y at hsame ⊢
  rcases x with _ | x | x
  · rcases y with _ | y | y
    · rfl
    · cases hsame
    · cases hsame
  · rcases y with _ | y | y
    · cases hsame
    · cases hsame
      rfl
    · cases hsame
  · rcases y with _ | y | ⟨cycle, status, vm⟩
    · cases hsame
    · cases hsame
    · cases hsame
      rfl

/-- **A source whose listing is verified exits as its annotation says.** -/
theorem verified_source_ends (host : ParserHost) (status₁ status₂ : AsmError)
    (calls calls' : Calls) (lines : List SourceLine) (file : List Byte) (n : Nat)
    (A : Annotation) :
    let nodes := listed host 0 lines
    mainBsm host status₁ status₂ calls (some (written lines)) true = .ok file → calls'.Succeed →
      (layoutOf nodes).text + 3 ≤ DATA_BASE → (layoutOf nodes).data < HEAP_BASE - DATA_BASE →
      startPlace nodes = some n → Verified nodes A → A.holds n (imageVM nodes).data →
      ∀ hosts, ∃ status s, A.final status s ∧
        mainBsvm calls' (zeroed hosts) (A.rank n (imageVM nodes).data + 1) file =
          some (.ok (ending status s)) := by
  intro nodes hmain hcalls htext hdata hstart hA hholds hosts
  obtain ⟨irList, hnodes, -, rfl, ass₁, ass₂, h₁, h₂⟩ := mainBsm_passes hmain
  rw [← show irList.nodes = nodes from hnodes] at htext hdata hstart hA hholds ⊢
  have htext' : (layoutOf irList.nodes).text < DATA_BASE := by omega
  obtain ⟨cycle, status, vm, hrun, hfinal⟩ :=
    hA.ends (loaded_image h₁ h₂ htext' hdata) htext hstart hholds hosts
  refine ⟨status, vm.data, hfinal, ?_⟩
  rw [mainBsvm_run (sized h₁ h₂) hcalls (zeroed hosts) _ htext' hdata, hrun]
  rfl

/-! ## A source -/

/-- A line with a blank in front of each token. -/
def SourceLine.plain (source : Source) (h : (spaced source.tokens).length < INSTR_LEN) :
    SourceLine where
  source := some source
  text := spaced source.tokens
  renders := renders_spaced _
  fits := h

def nameX : Name where
  text := [chr 'x']
  isName := ⟨rfl, List.forall_mem_nil _⟩

/-- The source of `countdown`. -/
def countdownLines : List SourceLine :=
  [.plain (.dir .text .none) (by decide),
    .plain (.instr2 .ld 0 (.value ⟨3, by decide⟩)) (by decide),
    .plain (.label nameX) (by decide),
    .plain (.instr2 .sub 0 (.value ⟨1, by decide⟩)) (by decide),
    .plain (.instr1 .jne (.ident nameX)) (by decide),
    .plain (.instr0 .halt) (by decide)]

/-- A host whose `malloc` always returns the same. -/
def oneBlock : ParserHost where
  ptr := fun _ _ => 0
  fresh := fun _ => zeroNode

theorem countdown_listed : listed oneBlock 0 countdownLines = countdown.nodes := by
  decide

theorem countdown_assembled : ∃ file,
    mainBsm oneBlock .ok .ok noFailure (some (written countdownLines)) true = .ok file := by
  have hparse : parser oneBlock (some (written countdownLines)) true = .ok countdown.nodes :=
    countdown_listed ▸ parser_written (by decide)
  exact ⟨_, (mainBsm_iff hparse).mpr ⟨⟨_, _, rfl, rfl⟩, noFailure_succeed, rfl⟩⟩

theorem mainBsvm_written_countdown : ∃ file,
    mainBsm oneBlock .ok .ok noFailure (some (written countdownLines)) true = .ok file ∧
      ∀ hosts fuel, mainBsvm noFailure hosts fuel file =
        (vmRun hosts fuel (imageVM (listed oneBlock 0 countdownLines))).map
          (Except.map fun r => ending r.2.1 r.2.2.data) := by
  obtain ⟨file, hfile⟩ := countdown_assembled
  exact ⟨file, hfile, fun hosts fuel =>
    mainBsvm_written oneBlock .ok .ok noFailure noFailure countdownLines file hosts fuel hfile
      noFailure_succeed⟩

theorem toolchain_preserves_countdown : ∃ file,
    mainBsm oneBlock .ok .ok noFailure (some (written countdownLines)) true = .ok file ∧
      ∀ hosts fuel,
        let listing := listingRun (listed oneBlock 0 countdownLines) hosts fuel
          ⟨0, (imageVM (listed oneBlock 0 countdownLines)).data⟩
        (∃ e, e.givesUp ∧ listing = some (.error e)) ∨
          (mainBsvm noFailure (zeroed hosts) fuel file).map (Except.mapError Trouble.fault) =
            listing.map (Except.map fun r => ending r.2.1 r.2.2.data) := by
  obtain ⟨file, hfile⟩ := countdown_assembled
  exact ⟨file, hfile, fun hosts fuel =>
    toolchain_preserves oneBlock .ok .ok noFailure noFailure countdownLines file hosts fuel 0 hfile
      noFailure_succeed (by decide) (by decide) rfl⟩

theorem verified_source_ends_countdown : ∃ file,
    mainBsm oneBlock .ok .ok noFailure (some (written countdownLines)) true = .ok file ∧
      ∀ hosts, ∃ status s, (status = .ok ∧ s.running = false ∧ s.registers 0 = 0) ∧
        mainBsvm noFailure (zeroed hosts) 9 file = some (.ok (ending status s)) := by
  obtain ⟨file, hfile⟩ := countdown_assembled
  exact ⟨file, hfile, verified_source_ends oneBlock .ok .ok noFailure noFailure countdownLines file
    0 countdownA hfile noFailure_succeed (by decide) (by decide) rfl
    (countdown_listed ▸ countdown_verified) ⟨rfl, trivial⟩⟩

end BSVM
