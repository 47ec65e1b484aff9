/-
# `BSVM.Heap` — the heap over any sequence of `vm_alloc` and `vm_free` calls

A history is a list of calls; `heapRun` runs it from `initVM` and keeps the
blocks handed out and not given back, which the program itself does not
record.

    tiling      the nodes fill [HEAP_BASE, STACK_BASE) in order
    blocks      the live blocks are among the used nodes, each its own node

Both are kept by every call (`HeapInv.apply`), whatever its argument.  The
second is a statement about sub-permutations and not about sets: after
zero-size requests several nodes begin at one address.

`blocks_disjoint` reads the two together: live blocks never share a byte.
-/
import Mathlib.Data.List.Induction
import Mathlib.Data.List.Perm.Subperm
import Mathlib.Order.CompletePartialOrder
import Mathlib.Order.Interval.Set.Disjoint
import Mathlib.Algebra.Order.Group.Nat
import BSVM.Lib.Tiling
import BSVM.Allocator

namespace BSVM

open Tiling

/-! ## Histories -/

/-- A block handed out by `vm_alloc`. -/
structure Block where
  addr : Word
  size : Word
  deriving DecidableEq, Repr

/-- The addresses a block covers. -/
def Block.bytes (b : Block) : Set Nat :=
  Set.Ico b.addr.toNat (b.addr.toNat + b.size.toNat)

/-- One call. -/
inductive HeapOp where
  | alloc (size : Word)
  | free (addr : Word)
  deriving DecidableEq, Repr

/-- The machine, and the blocks for which no `vm_free` has returned `VM_OK`
since `vm_alloc` handed them out. -/
structure HeapState where
  vm : VM
  live : List Block

def HeapOp.apply (s : HeapState) : HeapOp → HeapState
  | .alloc size =>
      match vmAlloc s.vm size 0 with
      | (.ok, addr, vm) => ⟨vm, ⟨addr, size⟩ :: s.live⟩
      | (_, _, vm) => ⟨vm, s.live⟩
  | .free addr =>
      match vmFree s.vm addr with
      | (.ok, vm) => ⟨vm, s.live.filter (fun b => b.addr ≠ addr)⟩
      | (_, vm) => ⟨vm, s.live⟩

def heapRun (ops : List HeapOp) : HeapState :=
  ops.foldl HeapOp.apply ⟨initVM, []⟩

theorem heapRun_concat (ops : List HeapOp) (op : HeapOp) :
    heapRun (ops ++ [op]) = op.apply (heapRun ops) := by
  rw [heapRun, List.foldl_append]
  rfl

/-- What holds at the start and is kept by every call holds after every
history. -/
theorem heapRun_induction {P : HeapState → Prop} (h₀ : P ⟨initVM, []⟩)
    (hstep : ∀ s op, P s → P (HeapOp.apply s op)) (ops : List HeapOp) : P (heapRun ops) := by
  induction ops using List.reverseRecOn with
  | nil => exact h₀
  | append_singleton ops op ih => exact heapRun_concat ops op ▸ hstep _ op ih

/-! ## What a call does to the state -/

theorem apply_alloc_cases (s : HeapState) (size : Word) :
    (∃ pre node post, s.vm.memblocks = pre ++ node :: post ∧ node.Fits size ∧
      HeapOp.apply s (.alloc size) =
        ⟨{ s.vm with memblocks := pre ++ node.taken size :: node.rest size :: post },
          ⟨node.begin, size⟩ :: s.live⟩) ∨
    HeapOp.apply s (.alloc size) = s := by
  cases h : allocNodes size s.vm.memblocks with
  | none => exact Or.inr (by simp only [HeapOp.apply, vmAlloc, h])
  | some r =>
      obtain ⟨addr, nodes'⟩ := r
      obtain ⟨pre, node, post, hnodes, -, hfits, rfl, rfl⟩ := allocNodes_eq_some h
      exact Or.inl ⟨pre, node, post, hnodes, hfits, by simp only [HeapOp.apply, vmAlloc, h]⟩

/-- `vm_free` finds the first node at an address inside the heap, or returns
an error and changes nothing. -/
theorem vmFree_cases (vm : VM) (addr : Word) :
    (HEAP_BASE ≤ addr.toNat ∧ addr.toNat < STACK_BASE ∧
      ∃ pre node post, vm.memblocks = pre ++ node :: post ∧ (∀ m ∈ pre, m.begin ≠ addr) ∧
        node.begin = addr ∧
        vmFree vm addr = (.ok, { vm with memblocks := pre ++ mergeNext node post })) ∨
    (vmFree vm addr = (.freeOutOfTheHeap, vm) ∧
      (addr.toNat < HEAP_BASE ∨ STACK_BASE ≤ addr.toNat)) ∨
    (vmFree vm addr = (.memAlreadyFree, vm) ∧ ∀ m ∈ vm.memblocks, m.begin ≠ addr) := by
  by_cases hrange : addr.toNat < HEAP_BASE ∨ STACK_BASE ≤ addr.toNat
  · exact Or.inr (Or.inl ⟨if_pos hrange, hrange⟩)
  · cases h : freeNodes addr vm.memblocks with
    | none =>
        exact Or.inr (Or.inr ⟨by simp only [vmFree, if_neg hrange, h], freeNodes_eq_none.mp h⟩)
    | some nodes' =>
        obtain ⟨pre, node, post, hnodes, hpre, hnode, rfl⟩ := freeNodes_eq_some h
        obtain ⟨h₁, h₂⟩ := not_or.mp hrange
        exact Or.inl ⟨Nat.le_of_not_lt h₁, Nat.lt_of_not_le h₂, pre, node, post, hnodes, hpre,
          hnode, by simp only [vmFree, if_neg hrange, h]⟩

theorem apply_free_cases (s : HeapState) (addr : Word) :
    (∃ pre node post, s.vm.memblocks = pre ++ node :: post ∧ (∀ m ∈ pre, m.begin ≠ addr) ∧
      node.begin = addr ∧ (vmFree s.vm addr).1 = .ok ∧
      HeapOp.apply s (.free addr) =
        ⟨{ s.vm with memblocks := pre ++ mergeNext node post },
          s.live.filter (fun b => b.addr ≠ addr)⟩) ∨
    ((vmFree s.vm addr).1 ≠ .ok ∧ HeapOp.apply s (.free addr) = s) := by
  rcases vmFree_cases s.vm addr with ⟨-, -, pre, node, post, hnodes, hpre, hnode, h⟩ | ⟨h, -⟩ |
    ⟨h, -⟩
  · exact Or.inl ⟨pre, node, post, hnodes, hpre, hnode, by rw [h],
      by simp only [HeapOp.apply, h]⟩
  · exact Or.inr ⟨by rw [h]; exact nofun, by simp only [HeapOp.apply, h]⟩
  · exact Or.inr ⟨by rw [h]; exact nofun, by simp only [HeapOp.apply, h]⟩

/-! ## The tiling -/

@[simp] abbrev MemNode.lo (m : MemNode) : Nat := m.begin.toNat
@[simp] abbrev MemNode.len (m : MemNode) : Nat := m.size.toNat

/-- The nodes fill `[HEAP_BASE, STACK_BASE)` in order. -/
def TilesHeap (nodes : List MemNode) : Prop :=
  Tiles MemNode.lo MemNode.len nodes HEAP_BASE STACK_BASE

variable {nodes pre post : List MemNode} {node : MemNode} {size addr : Word}

theorem TilesHeap.bounds (h : TilesHeap nodes) {m : MemNode} (hm : m ∈ nodes) :
    HEAP_BASE ≤ m.lo ∧ m.lo + m.len ≤ STACK_BASE :=
  Tiles.bounds h hm

/-- Sizes inside the heap add up without wrapping. -/
theorem toNat_size_add {m n : MemNode}
    (h : m.size.toNat + n.size.toNat ≤ STACK_BASE) :
    (m.size + n.size).toNat = m.size.toNat + n.size.toNat := by
  rw [BitVec.toNat_add]
  simp at h
  omega

theorem rest_begin (h : node.begin.toNat + node.size.toNat ≤ STACK_BASE) (hfits : node.Fits size) :
    (node.rest size).begin.toNat = node.begin.toNat + size.toNat := by
  have := hfits.1
  show (node.begin + size).toNat = _
  rw [BitVec.toNat_add]
  simp at h
  omega

theorem rest_size (hfits : node.Fits size) :
    size.toNat + (node.rest size).size.toNat = node.size.toNat := by
  have h₁ := hfits.1
  have h₂ := node.size.isLt
  show size.toNat + (node.size - size).toNat = _
  rw [BitVec.toNat_sub]
  omega

/-- Cutting a node keeps the interval that the nodes around it fill. -/
theorem tiles_alloc {a b : Nat} (hb : b ≤ STACK_BASE)
    (h : Tiles MemNode.lo MemNode.len (pre ++ node :: post) a b) (hfits : node.Fits size) :
    Tiles MemNode.lo MemNode.len (pre ++ node.taken size :: node.rest size :: post) a b := by
  have hnode := Tiles.bounds h (x := node) (by simp)
  refine Tiles.replace (u := [node]) (v := [node.taken size, node.rest size]) h fun c d => ?_
  exact (tiles_cut (x := node) (y := node.taken size) (z := node.rest size) rfl
    (rest_begin (hnode.2.trans hb) hfits) (rest_size hfits)).mp

/-- So does joining a node with the next one, and marking it free. -/
theorem tiles_free {a b : Nat} (hb : b ≤ STACK_BASE)
    (h : Tiles MemNode.lo MemNode.len (pre ++ node :: post) a b) :
    Tiles MemNode.lo MemNode.len (pre ++ mergeNext node post) a b := by
  have hmark : ∀ c d, Tiles MemNode.lo MemNode.len [node] c d →
      Tiles MemNode.lo MemNode.len [{ node with free := true }] c d := fun _ _ h => h
  cases post with
  | nil => exact Tiles.replace (u := [node]) (r := []) h hmark
  | cons next suiv =>
      rw [mergeNext]
      split
      · refine Tiles.replace (u := [node, next])
          (v := [{ node with free := true, size := node.size + next.size }]) h fun c d => ?_
        rintro ⟨hc, hnext, hd⟩
        have hn := Tiles.bounds h (x := next) (by simp)
        have hsum := toNat_size_add (m := node) (n := next) (by simp at hnext hn hb ⊢; omega)
        refine (tiles_cut (x := { node with free := true, size := node.size + next.size })
          (y := node) (z := next) rfl ?_ hsum.symm).mpr ⟨hc, hnext, hd⟩
        exact hnext.trans (congrArg (· + node.len) hc.symm)
      · exact Tiles.replace (u := [node]) h hmark

theorem TilesHeap.alloc (h : TilesHeap (pre ++ node :: post)) (hfits : node.Fits size) :
    TilesHeap (pre ++ node.taken size :: node.rest size :: post) :=
  tiles_alloc (Nat.le_refl _) h hfits

theorem TilesHeap.free (h : TilesHeap (pre ++ node :: post)) :
    TilesHeap (pre ++ mergeNext node post) :=
  tiles_free (Nat.le_refl _) h

/-! ## The live blocks

Every live block is a used node, and no two of them are the same node. -/

def MemNode.block (m : MemNode) : Block := ⟨m.begin, m.size⟩

/-- The blocks of the nodes that are not free, in address order. -/
def usedBlocks (nodes : List MemNode) : List Block :=
  (nodes.filter (fun m => !m.free)).map MemNode.block

theorem usedBlocks_append {xs ys : List MemNode} :
    usedBlocks (xs ++ ys) = usedBlocks xs ++ usedBlocks ys := by
  simp [usedBlocks]

theorem usedBlocks_cons_free {xs : List MemNode} (h : node.free = true) :
    usedBlocks (node :: xs) = usedBlocks xs := by
  simp [usedBlocks, h]

theorem usedBlocks_cons_used {xs : List MemNode} (h : node.free = false) :
    usedBlocks (node :: xs) = node.block :: usedBlocks xs := by
  simp [usedBlocks, h]

theorem mem_usedBlocks {b : Block} :
    b ∈ usedBlocks nodes ↔ ∃ m ∈ nodes, m.free = false ∧ m.block = b := by
  simp [usedBlocks, and_assoc]

theorem usedBlocks_mergeNext : usedBlocks (mergeNext node post) = usedBlocks post := by
  cases post with
  | nil => rfl
  | cons next suiv =>
      rw [mergeNext]
      split
      · next hfree => rw [usedBlocks_cons_free rfl, usedBlocks_cons_free hfree]
      · rw [usedBlocks_cons_free rfl]

theorem usedBlocks_alloc (hfits : node.Fits size) :
    (usedBlocks (pre ++ node.taken size :: node.rest size :: post)).Perm
      (⟨node.begin, size⟩ :: usedBlocks (pre ++ node :: post)) := by
  rw [usedBlocks_append, usedBlocks_append, usedBlocks_cons_used rfl, usedBlocks_cons_free rfl,
    usedBlocks_cons_free hfits.2]
  exact List.perm_middle

/-- A free takes away at most blocks at its own address. -/
theorem usedBlocks_free (hnode : node.begin = addr) :
    (usedBlocks (pre ++ node :: post)).filter (fun b => b.addr ≠ addr) =
      (usedBlocks (pre ++ mergeNext node post)).filter (fun b => b.addr ≠ addr) := by
  rw [usedBlocks_append, usedBlocks_append, usedBlocks_mergeNext]
  cases h : node.free with
  | true => rw [usedBlocks_cons_free h]
  | false =>
      rw [usedBlocks_cons_used h, List.filter_append, List.filter_append,
        List.filter_cons_of_neg (by simp [MemNode.block, hnode])]

/-! ## The invariant -/

structure HeapInv (s : HeapState) : Prop where
  tiles : TilesHeap s.vm.memblocks
  live : s.live.Subperm (usedBlocks s.vm.memblocks)

theorem heapInv_init : HeapInv ⟨initVM, []⟩ where
  tiles := ⟨rfl, rfl⟩
  live := List.nil_subperm

theorem HeapInv.apply {s : HeapState} (h : HeapInv s) (op : HeapOp) :
    HeapInv (HeapOp.apply s op) := by
  obtain ⟨htiles, hlive⟩ := h
  cases op with
  | alloc size =>
      rcases apply_alloc_cases s size with ⟨pre, node, post, hnodes, hfits, heq⟩ | heq
      · rw [hnodes] at htiles hlive
        rw [heq]
        exact ⟨htiles.alloc hfits,
          ((List.subperm_cons _).mpr hlive).trans (usedBlocks_alloc hfits).symm.subperm⟩
      · rw [heq]
        exact ⟨htiles, hlive⟩
  | free addr =>
      rcases apply_free_cases s addr with ⟨pre, node, post, hnodes, -, hnode, -, heq⟩ | ⟨-, heq⟩
      · rw [hnodes] at htiles hlive
        rw [heq]
        refine ⟨htiles.free, ?_⟩
        -- the surviving live blocks are used nodes away from `addr`, which a free keeps
        have hfilter := List.Subperm.filter (fun b : Block => b.addr ≠ addr) hlive
        rw [usedBlocks_free hnode] at hfilter
        exact hfilter.trans List.filter_sublist.subperm
      · rw [heq]
        exact ⟨htiles, hlive⟩

theorem heapInv_run (ops : List HeapOp) : HeapInv (heapRun ops) :=
  heapRun_induction heapInv_init (fun _ op h => h.apply op) ops

/-- A live block is a used node of the list. -/
theorem HeapInv.node_of_live {s : HeapState} (h : HeapInv s) {b : Block} (hb : b ∈ s.live) :
    ∃ m ∈ s.vm.memblocks, m.free = false ∧ m.block = b :=
  mem_usedBlocks.mp (h.live.subset hb)

/-! ## Disjointness -/

theorem disjoint_bytes {b c : Block} (h : b.addr.toNat + b.size.toNat ≤ c.addr.toNat) :
    Disjoint b.bytes c.bytes :=
  Set.disjoint_left.mpr fun _ hx hy => absurd (Nat.lt_of_lt_of_le hx.2 h) (Nat.not_lt.mpr hy.1)

theorem usedBlocks_disjoint (h : TilesHeap nodes) :
    (usedBlocks nodes).Pairwise (fun b c => Disjoint b.bytes c.bytes) := by
  have hpair := (Tiles.pairwise h).sublist (List.filter_sublist (p := fun m => !m.free))
  exact List.Pairwise.map MemNode.block (fun _ _ => disjoint_bytes) hpair

theorem HeapInv.disjoint {s : HeapState} (h : HeapInv s) :
    s.live.Pairwise (fun b c => Disjoint b.bytes c.bytes) := by
  obtain ⟨l, hperm, hsub⟩ := h.live
  exact ((usedBlocks_disjoint h.tiles).sublist hsub).perm hperm fun hd => hd.symm

theorem HeapInv.inside {s : HeapState} (h : HeapInv s) {b : Block} (hb : b ∈ s.live) :
    HEAP_BASE ≤ b.addr.toNat ∧ b.addr.toNat + b.size.toNat ≤ STACK_BASE := by
  obtain ⟨m, hm, -, rfl⟩ := h.node_of_live hb
  exact h.tiles.bounds hm

/-- **After any calls the nodes tile the heap and the live blocks are
disjoint blocks inside it.** -/
theorem blocks_disjoint (ops : List HeapOp) :
    let nodes := (heapRun ops).vm.memblocks
    let live := (heapRun ops).live
    nodes.head?.map (fun m => m.begin.toNat) = some HEAP_BASE ∧
      nodes.IsChain (fun m n => m.begin.toNat + m.size.toNat = n.begin.toNat) ∧
      (nodes.map (fun m => m.size.toNat)).sum = STACK_BASE - HEAP_BASE ∧
      live.Pairwise (fun b c => Disjoint b.bytes c.bytes) ∧
      ∀ b ∈ live, HEAP_BASE ≤ b.addr.toNat ∧ b.addr.toNat + b.size.toNat ≤ STACK_BASE := by
  intro nodes live
  have hinv := heapInv_run ops
  obtain ⟨hhead, hchain, hsum⟩ := tiles_iff.mp hinv.tiles
  refine ⟨?_, hchain, ?_, hinv.disjoint, fun b hb => hinv.inside hb⟩
  · cases h : nodes with
    | nil =>
        -- an empty list would add up to nothing
        rw [show (heapRun ops).vm.memblocks = [] from h] at hsum
        exact absurd hsum (by decide)
    | cons m suiv =>
        exact congrArg some (hhead m (by rw [show (heapRun ops).vm.memblocks = _ from h]; rfl))
  · exact Nat.eq_sub_of_add_eq' hsum

end BSVM
