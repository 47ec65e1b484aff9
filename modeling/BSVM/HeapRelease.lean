/-
# `BSVM.HeapRelease` — what `vm_free` gives back

`vm_free` acts on the first node that begins at the address.  Nodes of size
zero begin where their neighbour begins: `vm_alloc` leaves one behind every
exact fit, and a request for zero bytes makes one.  So the first node at a
live block's address need not be that block.

    vmFree_releases_iff   a live block is released exactly when the first
                          node at its address is not an empty one
    vmFree_rejects_iff    an address that names no live block is refused
                          exactly when no node begins there; whether that
                          node is free already is not looked at
-/
import BSVM.Heap

namespace BSVM

open Tiling

variable {nodes pre post : List MemNode} {node : MemNode} {size addr : Word}

/-! ## The bytes in free nodes -/

def freeBytes (nodes : List MemNode) : Nat :=
  ((nodes.filter (fun m => m.free)).map (fun m => m.size.toNat)).sum

theorem freeBytes_append {xs ys : List MemNode} :
    freeBytes (xs ++ ys) = freeBytes xs + freeBytes ys := by
  simp [freeBytes]

theorem freeBytes_cons_free {xs : List MemNode} (h : node.free = true) :
    freeBytes (node :: xs) = node.size.toNat + freeBytes xs := by
  simp [freeBytes, h]

theorem freeBytes_cons_used {xs : List MemNode} (h : node.free = false) :
    freeBytes (node :: xs) = freeBytes xs := by
  simp [freeBytes, h]

theorem next_size_le {next : MemNode} {suiv : List MemNode}
    (h : TilesHeap (pre ++ node :: next :: suiv)) :
    node.size.toNat + next.size.toNat ≤ STACK_BASE := by
  have h₁ := (List.pairwise_append.mp (Tiles.pairwise h)).2.1
  have h₂ := (List.pairwise_cons.mp h₁).1 next List.mem_cons_self
  have h₃ := h.bounds (m := next) (by simp)
  simp at h₂ h₃ ⊢
  omega

theorem freeBytes_mergeNext (h : TilesHeap (pre ++ node :: post)) :
    freeBytes (mergeNext node post) = node.size.toNat + freeBytes post := by
  cases post with
  | nil => rfl
  | cons next suiv =>
      rw [mergeNext]
      split
      · next hfree =>
          rw [freeBytes_cons_free rfl, freeBytes_cons_free hfree]
          show (node.size + next.size).toNat + _ = _
          rw [toNat_size_add (next_size_le h), Nat.add_assoc]
      · rw [freeBytes_cons_free rfl]

/-- Freeing a node adds its size to the free bytes, unless it was free. -/
theorem freeBytes_free (h : TilesHeap (pre ++ node :: post)) :
    freeBytes (pre ++ mergeNext node post) =
      freeBytes (pre ++ node :: post) + if node.free then 0 else node.size.toNat := by
  rw [freeBytes_append, freeBytes_append, freeBytes_mergeNext h]
  cases hf : node.free with
  | true =>
      rw [freeBytes_cons_free hf]
      simp
  | false =>
      rw [freeBytes_cons_used hf]
      simp
      omega

/-- The head of a merge is free and covers the node. -/
theorem mergeNext_covers (h : TilesHeap (pre ++ node :: post)) :
    ∃ m ∈ mergeNext node post, m.free = true ∧ m.begin = node.begin ∧
      node.size.toNat ≤ m.size.toNat := by
  cases post with
  | nil => exact ⟨_, List.mem_cons_self, rfl, rfl, Nat.le_refl _⟩
  | cons next suiv =>
      rw [mergeNext]
      split
      · refine ⟨_, List.mem_cons_self, rfl, rfl, ?_⟩
        show _ ≤ (node.size + next.size).toNat
        rw [toNat_size_add (next_size_le h)]
        exact Nat.le_add_right _ _
      · exact ⟨_, List.mem_cons_self, rfl, rfl, Nat.le_refl _⟩

/-! ## Releasing a live block -/

/-- The node `vm_free` acts on. -/
def firstAt (nodes : List MemNode) (addr : Word) : Option MemNode :=
  nodes.find? (fun m => m.begin = addr)

theorem firstAt_eq (hpre : ∀ m ∈ pre, m.begin ≠ addr) (hnode : node.begin = addr) :
    firstAt (pre ++ node :: post) addr = some node := by
  have hnone : pre.find? (fun m => m.begin = addr) = none :=
    List.find?_eq_none.mpr fun m hm => by simpa using hpre m hm
  rw [firstAt, List.find?_append, hnone, List.find?_cons_of_pos (by simpa using hnode)]
  rfl

/-- `vm_free` at a block's address succeeds, its bytes are in free nodes
afterwards, and there are as many more free bytes as the block has. -/
def Releases (vm : VM) (b : Block) : Prop :=
  (vmFree vm b.addr).1 = .ok ∧
    (∀ x ∈ b.bytes, ∃ m ∈ (vmFree vm b.addr).2.memblocks, m.free = true ∧ x ∈ m.block.bytes) ∧
    freeBytes (vmFree vm b.addr).2.memblocks = freeBytes vm.memblocks + b.size.toNat

/-- Of the nodes that begin at one address only the last is not empty. -/
theorem eq_of_begin_eq (h : TilesHeap (pre ++ node :: post)) {m : MemNode}
    (hm : m ∈ pre ++ node :: post) (hpre : ∀ k ∈ pre, k.begin ≠ addr) (hnode : node.begin = addr)
    (hbegin : m.begin = addr) (hsize : 0 < node.size.toNat) : m = node := by
  rcases List.mem_append.mp hm with hm | hm
  · exact absurd hbegin (hpre m hm)
  · rcases List.mem_cons.mp hm with rfl | hm
    · rfl
    · have h₁ := (List.pairwise_append.mp (Tiles.pairwise h)).2.1
      have h₂ := (List.pairwise_cons.mp h₁).1 m hm
      rw [MemNode.lo, MemNode.lo, hbegin, hnode] at h₂
      exact absurd h₂ (by simp; omega)

/-- **A live block is released exactly when the first node at its address
has a size.** -/
theorem vmFree_releases_iff (ops : List HeapOp) (b : Block) (hb : b ∈ (heapRun ops).live)
    (hsize : 0 < b.size.toNat) :
    Releases (heapRun ops).vm b ↔
      ∀ m, firstAt (heapRun ops).vm.memblocks b.addr = some m → 0 < m.size.toNat := by
  have hinv := heapInv_run ops
  obtain ⟨u, hu, hused, rfl⟩ := hinv.node_of_live hb
  have hin := hinv.inside hb
  have htiles := hinv.tiles
  generalize (heapRun ops).vm = vm at *
  rcases vmFree_cases vm u.begin with ⟨-, -, pre, node, post, hnodes, hpre, hnode, heq⟩ | ⟨-, h⟩ |
    ⟨-, h⟩
  · rw [hnodes] at htiles hu
    simp only [Releases, MemNode.block, heq, hnodes, firstAt_eq hpre hnode, Option.some.injEq,
      forall_eq', freeBytes_free htiles, true_and]
    constructor
    · -- an empty node adds nothing to the free bytes
      rintro ⟨-, hgrow⟩
      refine Nat.pos_of_ne_zero fun hzero => ?_
      simp [hzero, MemNode.block] at hgrow hsize
      omega
    · intro hpos
      obtain rfl := eq_of_begin_eq htiles hu hpre hnode rfl hpos
      refine ⟨fun x hx => ?_, by simp [hused]⟩
      obtain ⟨m, hm, hfree, hbegin, hle⟩ := mergeNext_covers htiles
      refine ⟨m, List.mem_append_right _ hm, hfree, ?_⟩
      simp [Block.bytes, hbegin] at hx ⊢
      omega
  · simp [MemNode.block] at hin hsize h
    omega
  · exact absurd rfl (h u hu)

/-- Four calls with no request of zero bytes: the exact fit of the last one
leaves an empty node in front of the second block. -/
def shadowedOps : List HeapOp := [.alloc 16, .alloc 16, .free 1280, .alloc 16]

theorem shadowed_not_released :
    ⟨1296, 16⟩ ∈ (heapRun shadowedOps).live ∧
      (vmFree (heapRun shadowedOps).vm 1296).1 = .ok ∧
      freeBytes (vmFree (heapRun shadowedOps).vm 1296).2.memblocks =
        freeBytes (heapRun shadowedOps).vm.memblocks ∧
      ¬ Releases (heapRun shadowedOps).vm ⟨1296, 16⟩ := by
  have hsame : freeBytes (vmFree (heapRun shadowedOps).vm 1296).2.memblocks =
      freeBytes (heapRun shadowedOps).vm.memblocks := by decide
  refine ⟨by decide, by decide, hsame, fun h => ?_⟩
  have hgrow := h.2.2
  rw [hsame] at hgrow
  exact absurd hgrow (by decide)

/-- The second block of a heap that never shrank is released. -/
theorem vmFree_releases_second :
    Releases (heapRun [.alloc 16, .alloc 16]).vm ⟨1296, 16⟩ :=
  (vmFree_releases_iff [.alloc 16, .alloc 16] ⟨1296, 16⟩ (by decide) (by decide)).mpr fun m hm => by
    have h : firstAt (heapRun [.alloc 16, .alloc 16]).vm.memblocks 1296 =
        some ⟨1296, 16, false⟩ := by
      decide
    obtain rfl := Option.some.inj (h.symm.trans hm)
    decide

/-! ## Refusing an address -/

/-- `vm_free` returns one of its two errors and leaves the list alone. -/
def Rejects (vm : VM) (addr : Word) : Prop :=
  ((vmFree vm addr).1 = .freeOutOfTheHeap ∨ (vmFree vm addr).1 = .memAlreadyFree) ∧
    (vmFree vm addr).2.memblocks = vm.memblocks

/-- **An address is refused exactly when it is outside the heap or no node
begins there**, so among those that name no live block the ones with a node
of their own are accepted. -/
theorem vmFree_rejects_iff (ops : List HeapOp) (addr : Word) :
    Rejects (heapRun ops).vm addr ↔
      addr.toNat < HEAP_BASE ∨ STACK_BASE ≤ addr.toNat ∨
        ∀ m ∈ (heapRun ops).vm.memblocks, m.begin ≠ addr := by
  generalize (heapRun ops).vm = vm
  rcases vmFree_cases vm addr with ⟨h₁, h₂, pre, node, post, hnodes, -, hnode, heq⟩ | ⟨heq, h⟩ |
    ⟨heq, h⟩
  · constructor
    · rintro ⟨herr, -⟩
      rw [heq] at herr
      exact absurd herr (by rintro (h | h) <;> cases h)
    · rintro (h | h | h)
      · exact absurd h (Nat.not_lt.mpr h₁)
      · exact absurd h (Nat.not_le.mpr h₂)
      · exact absurd hnode (h node (by rw [hnodes]; simp))
  · simp only [Rejects, heq, true_or, true_and, true_iff]
    exact h.elim Or.inl fun h => Or.inr (Or.inl h)
  · simp only [Rejects, heq, or_true, true_and, true_iff]
    exact Or.inr (Or.inr h)

/-- A block freed twice: the second call returns `VM_OK`. -/
theorem double_free_accepted :
    (heapRun [.alloc 16, .free 1280]).live = [] ∧
      (vmFree (heapRun [.alloc 16, .free 1280]).vm 1280).1 = .ok ∧
      ¬ Rejects (heapRun [.alloc 16, .free 1280]).vm 1280 := by
  have hok : (vmFree (heapRun [.alloc 16, .free 1280]).vm 1280).1 = .ok := by decide
  refine ⟨by decide, hok, fun h => ?_⟩
  have herr := h.1
  rw [hok] at herr
  exact absurd herr (by decide)

end BSVM
