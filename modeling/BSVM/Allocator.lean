/-
# `BSVM.Allocator` — `allocator.c`

The heap is the list of `MemNode`s.  `vm_alloc` takes the first node that is
free and large enough, cuts the request off its front and inserts what is
left as a free node behind it, also when nothing is left.  `vm_free` takes
the first node that begins at the address, free or not, marks it free and
joins it with the node behind it when that one is free.

The two `while` loops are recursions on the list (`allocNodes`, `freeNodes`).
`allocNodes_eq_some` and `freeNodes_eq_some` say once what a successful call
does to the list; every property of the heap is derived from these two.
-/
import Mathlib.Tactic.Common
import BSVM.State

namespace BSVM

/-! ## The two walks over the list -/

/-- The walk and the insertion of `vm_alloc`. -/
def allocNodes (size : Word) : List MemNode → Option (Word × List MemNode)
  | [] => none
  | node :: suiv =>
      if node.size.toNat < size.toNat ∨ ¬ node.free then
        (allocNodes size suiv).map fun (addr, nodes) => (addr, node :: nodes)
      else
        some (node.begin,
          { node with size := size, free := false } ::
          { begin := node.begin + size, size := node.size - size, free := true } :: suiv)

/-- `node`, just marked free, in front of `suiv`: joined with the next node
when that one is free. -/
def mergeNext (node : MemNode) : List MemNode → List MemNode
  | [] => [{ node with free := true }]
  | next :: suiv =>
      if next.free then { node with free := true, size := node.size + next.size } :: suiv
      else { node with free := true } :: next :: suiv

/-- The walk and the merge of `vm_free`. -/
def freeNodes (addr : Word) : List MemNode → Option (List MemNode)
  | [] => none
  | node :: suiv =>
      if addr ≠ node.begin then (freeNodes addr suiv).map (node :: ·)
      else some (mergeNext node suiv)

/-! ## `vm_alloc` and `vm_free` -/

/-- `addr` is what the caller's variable holds before the call; the second
component is what it holds afterwards. -/
def vmAlloc (vm : VM) (size addr : Word) : VmError × Word × VM :=
  match allocNodes size vm.memblocks with
  | none => (.heapOutOfMemory, addr, vm)
  | some (begin, nodes) => (.ok, begin, { vm with memblocks := nodes })

def vmFree (vm : VM) (addr : Word) : Result :=
  if addr.toNat < HEAP_BASE ∨ STACK_BASE ≤ addr.toNat then (.freeOutOfTheHeap, vm)
  else
    match freeNodes addr vm.memblocks with
    | none => (.memAlreadyFree, vm)
    | some nodes => (.ok, { vm with memblocks := nodes })

/-! ## What the walks find -/

/-- The node `vm_alloc` is looking for. -/
def MemNode.Fits (node : MemNode) (size : Word) : Prop :=
  size.toNat ≤ node.size.toNat ∧ node.free = true

/-- The two nodes a fitting node is cut into. -/
def MemNode.taken (node : MemNode) (size : Word) : MemNode :=
  { node with size := size, free := false }

def MemNode.rest (node : MemNode) (size : Word) : MemNode :=
  { begin := node.begin + size, size := node.size - size, free := true }

theorem MemNode.not_fits_iff {node : MemNode} {size : Word} :
    ¬ node.Fits size ↔ node.size.toNat < size.toNat ∨ ¬ node.free := by
  rw [MemNode.Fits, not_and_or, Nat.not_le]

theorem allocNodes_eq_some {size addr : Word} {nodes nodes' : List MemNode} :
    allocNodes size nodes = some (addr, nodes') →
      ∃ pre node post, nodes = pre ++ node :: post ∧ (∀ m ∈ pre, ¬ m.Fits size) ∧
        node.Fits size ∧ addr = node.begin ∧
        nodes' = pre ++ node.taken size :: node.rest size :: post := by
  induction nodes generalizing nodes' with
  | nil => exact nofun
  | cons node suiv ih =>
      intro h
      rw [allocNodes] at h
      split at h
      · next hskip =>
          obtain ⟨⟨addr', nodes''⟩, htail, heq⟩ := Option.map_eq_some_iff.mp h
          cases heq
          obtain ⟨pre, m, post, rfl, hpre, hm, haddr, rfl⟩ := ih htail
          refine ⟨node :: pre, m, post, rfl, ?_, hm, haddr, rfl⟩
          exact List.forall_mem_cons.mpr ⟨MemNode.not_fits_iff.mpr hskip, hpre⟩
      · next htake =>
          cases h
          have hfits : node.Fits size :=
            Classical.byContradiction fun hn => htake (MemNode.not_fits_iff.mp hn)
          exact ⟨[], node, suiv, rfl, nofun, hfits, rfl, rfl⟩

theorem allocNodes_eq_none {size : Word} {nodes : List MemNode} :
    allocNodes size nodes = none ↔ ∀ m ∈ nodes, ¬ m.Fits size := by
  induction nodes with
  | nil => exact ⟨fun _ => nofun, fun _ => rfl⟩
  | cons node suiv ih =>
      rw [allocNodes, List.forall_mem_cons, ← ih, MemNode.not_fits_iff]
      split
      · next hskip =>
          rw [Option.map_eq_none_iff]
          exact ⟨fun h => ⟨hskip, h⟩, fun h => h.2⟩
      · next htake => exact ⟨nofun, fun h => absurd h.1 htake⟩

theorem freeNodes_eq_some {addr : Word} {nodes nodes' : List MemNode} :
    freeNodes addr nodes = some nodes' →
      ∃ pre node post, nodes = pre ++ node :: post ∧ (∀ m ∈ pre, m.begin ≠ addr) ∧
        node.begin = addr ∧ nodes' = pre ++ mergeNext node post := by
  induction nodes generalizing nodes' with
  | nil => exact nofun
  | cons node suiv ih =>
      intro h
      rw [freeNodes] at h
      split at h
      · next hskip =>
          obtain ⟨nodes'', htail, rfl⟩ := Option.map_eq_some_iff.mp h
          obtain ⟨pre, m, post, rfl, hpre, hm, rfl⟩ := ih htail
          refine ⟨node :: pre, m, post, rfl, ?_, hm, rfl⟩
          exact List.forall_mem_cons.mpr ⟨Ne.symm hskip, hpre⟩
      · next htake =>
          cases h
          exact ⟨[], node, suiv, rfl, nofun, (not_not.mp htake).symm, rfl⟩

theorem freeNodes_eq_none {addr : Word} {nodes : List MemNode} :
    freeNodes addr nodes = none ↔ ∀ m ∈ nodes, m.begin ≠ addr := by
  induction nodes with
  | nil => exact ⟨fun _ => nofun, fun _ => rfl⟩
  | cons node suiv ih =>
      rw [freeNodes, List.forall_mem_cons, ← ih]
      split
      · next hskip =>
          rw [Option.map_eq_none_iff]
          exact ⟨fun h => ⟨Ne.symm hskip, h⟩, fun h => h.2⟩
      · next htake => exact ⟨nofun, fun h => absurd h.1.symm htake⟩

end BSVM
