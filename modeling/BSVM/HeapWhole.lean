/-
# `BSVM.HeapWhole` — when the freed heap is one block again

`vm_free` joins a node with the one behind it and never with the one in
front.  So it matters what is behind a used node when it is freed:

    a free node    the list stays a stack of used nodes under one free node,
                   and is whole once every block is gone (`Stacked`)
    a used node    the list falls into two parts, the first ending in a free
                   node: every later cut leaves a free node at that end, so
                   nothing used is freed next to the border (`Parted`)

`heap_whole_iff_forward` puts the two together.
-/
import BSVM.HeapRelease

namespace BSVM

open Tiling

variable {nodes pre post : List MemNode} {node : MemNode} {size addr : Word}

/-! ## Which nodes are freed -/

/-- The first node at `addr`, if it is used, has a free node behind it. -/
def joinsNext (addr : Word) : List MemNode → Bool
  | [] => true
  | node :: suiv =>
      if addr ≠ node.begin then joinsNext addr suiv
      else node.free || (suiv.head?.map MemNode.free).getD false

theorem joinsNext_eq (hpre : ∀ m ∈ pre, m.begin ≠ addr) (hnode : node.begin = addr) :
    joinsNext addr (pre ++ node :: post) =
      (node.free || (post.head?.map MemNode.free).getD false) := by
  induction pre with
  | nil => exact if_neg (by simp [hnode])
  | cons m pre ih =>
      obtain ⟨hm, hpre⟩ := List.forall_mem_cons.mp hpre
      exact (if_pos (Ne.symm hm)).trans (ih hpre)

/-- Every `vm_free` of the history that succeeds on a used node has a free
node behind that node to join it with, in the state it is made in. -/
def ForwardFrom (s : HeapState) : List HeapOp → Prop
  | [] => True
  | .alloc size :: ops => ForwardFrom (HeapOp.apply s (.alloc size)) ops
  | .free addr :: ops =>
      ((vmFree s.vm addr).1 = .ok → joinsNext addr s.vm.memblocks = true) ∧
        ForwardFrom (HeapOp.apply s (.free addr)) ops

/-- Every request of the history is positive, and every `vm_free` that
succeeds finds a used node. -/
def SoundFrom (s : HeapState) : List HeapOp → Prop
  | [] => True
  | .alloc size :: ops => 0 < size.toNat ∧ SoundFrom (HeapOp.apply s (.alloc size)) ops
  | .free addr :: ops =>
      ((vmFree s.vm addr).1 = .ok →
          ∀ m, firstAt s.vm.memblocks addr = some m → m.free = false) ∧
        SoundFrom (HeapOp.apply s (.free addr)) ops

/-! ## A stack of used nodes -/

/-- Used nodes under one free node, every used node being a live block. -/
structure Stacked (s : HeapState) : Prop where
  shape : ∃ used last, s.vm.memblocks = used ++ [last] ∧ (∀ m ∈ used, m.free = false) ∧
    last.free = true
  live : usedBlocks s.vm.memblocks ⊆ s.live

theorem stacked_init : Stacked ⟨initVM, []⟩ where
  shape := ⟨[], _, rfl, nofun, rfl⟩
  live := fun _ h => by cases h

/-- In a stack the free node is the last one. -/
theorem Stacked.eq_last {s : HeapState} (h : Stacked s)
    (hnodes : s.vm.memblocks = pre ++ node :: post) (hfree : node.free = true) :
    post = [] ∧ ∀ m ∈ pre, m.free = false := by
  obtain ⟨used, last, hshape, hused, -⟩ := h.shape
  rw [hshape] at hnodes
  rcases List.append_eq_append_iff.mp hnodes with ⟨as, rfl, has⟩ | ⟨bs, rfl, hbs⟩
  · cases as with
    | nil =>
        cases has
        exact ⟨rfl, by simpa using hused⟩
    | cons a as =>
        have hlen := congrArg List.length has
        simp at hlen
  · cases bs with
    | nil =>
        cases hbs
        exact ⟨rfl, by simpa using hused⟩
    | cons b bs =>
        cases hbs
        exact absurd hfree (by simp [hused node (by simp)])

theorem Stacked.apply_alloc {s : HeapState} (h : Stacked s) (size : Word) :
    Stacked (HeapOp.apply s (.alloc size)) := by
  rcases apply_alloc_cases s size with ⟨pre, node, post, hnodes, hfits, heq⟩ | heq
  · obtain ⟨rfl, hpre⟩ := h.eq_last hnodes hfits.2
    rw [heq]
    constructor
    · refine ⟨pre ++ [node.taken size], node.rest size, by simp, ?_, rfl⟩
      exact List.forall_mem_append.mpr ⟨hpre, by simp [MemNode.taken]⟩
    · have hlive := h.live
      rw [hnodes] at hlive
      exact fun b hb => List.cons_subset_cons _ hlive ((usedBlocks_alloc hfits).subset hb)
  · rw [heq]
    exact h

theorem Stacked.apply_free {s : HeapState} (h : Stacked s) (addr : Word)
    (hfwd : (vmFree s.vm addr).1 = .ok → joinsNext addr s.vm.memblocks = true) :
    Stacked (HeapOp.apply s (.free addr)) := by
  rcases apply_free_cases s addr with ⟨pre, node, post, hnodes, hpre, hnode, hok, heq⟩ | ⟨-, heq⟩
  · have hlive := h.live
    rw [heq]
    rw [hnodes] at hlive
    -- what survives in the list begins elsewhere, so it survives among the live blocks
    have haway : usedBlocks post = [] → usedBlocks (pre ++ mergeNext node post) ⊆
        s.live.filter (fun b => b.addr ≠ addr) := by
      intro hpost b hb
      rw [usedBlocks_append, usedBlocks_mergeNext, hpost, List.append_nil] at hb
      obtain ⟨m, hm, hused, rfl⟩ := mem_usedBlocks.mp hb
      refine List.mem_filter.mpr ⟨hlive ?_, decide_eq_true (hpre m hm)⟩
      exact mem_usedBlocks.mpr ⟨m, List.mem_append_left _ hm, hused, rfl⟩
    cases hfree : node.free with
    | true =>
        obtain ⟨rfl, hused⟩ := h.eq_last hnodes hfree
        exact ⟨⟨pre, _, rfl, hused, rfl⟩, haway rfl⟩
    | false =>
        have hjoin := hfwd hok
        rw [hnodes, joinsNext_eq hpre hnode, hfree, Bool.false_or] at hjoin
        obtain ⟨next, suiv, rfl⟩ : ∃ next suiv, post = next :: suiv := by
          cases post with
          | nil => exact absurd hjoin (by decide)
          | cons next suiv => exact ⟨next, suiv, rfl⟩
        have hnext : next.free = true := hjoin
        have hsplit : s.vm.memblocks = (pre ++ [node]) ++ next :: suiv := by simp [hnodes]
        obtain ⟨rfl, hused⟩ := h.eq_last hsplit hnext
        rw [List.forall_mem_append] at hused
        refine ⟨⟨pre, { node with free := true, size := node.size + next.size }, ?_, hused.1, rfl⟩,
          haway (usedBlocks_cons_free hnext)⟩
        simp [mergeNext, hnext]
  · rw [heq]
    exact h

theorem Stacked.run {s : HeapState} (h : Stacked s) :
    ∀ {ops : List HeapOp}, ForwardFrom s ops → Stacked (ops.foldl HeapOp.apply s)
  | [], _ => h
  | .alloc size :: _, hfwd => (h.apply_alloc size).run hfwd
  | .free addr :: _, hfwd => (h.apply_free addr hfwd.1).run hfwd.2
termination_by ops => ops.length


/-- A stack whose used nodes are all empty has one node with all the bytes. -/
theorem Stacked.last_size {s : HeapState} (h : Stacked s) (htiles : TilesHeap s.vm.memblocks)
    (hempty : ∀ b ∈ s.live, b.size = 0) :
    ∃ m ∈ s.vm.memblocks, m.free = true ∧ m.size.toNat = STACK_BASE - HEAP_BASE := by
  obtain ⟨used, last, hnodes, hused, hlast⟩ := h.shape
  refine ⟨last, by simp [hnodes], hlast, ?_⟩
  have hzero : ∀ m ∈ used, m.len = 0 := by
    intro m hm
    have hb : m.block ∈ usedBlocks s.vm.memblocks :=
      mem_usedBlocks.mpr ⟨m, by simp [hnodes, hm], hused m hm, rfl⟩
    have hsize : m.size = 0 := hempty m.block (h.live hb)
    simp [hsize]
  have hsum := Tiles.sum htiles
  have hused0 : (used.map MemNode.len).sum = 0 := by
    rw [List.map_congr_left hzero]
    simp
  rw [hnodes, List.map_append, List.sum_append, hused0] at hsum
  simp at hsum ⊢
  omega

/-! ## A parted heap -/

/-- The last node is free. -/
def EndsFree (nodes : List MemNode) : Prop :=
  ∃ front last, nodes = front ++ [last] ∧ last.free = true

theorem endsFree_singleton (h : node.free = true) : EndsFree [node] :=
  ⟨[], node, rfl, h⟩

theorem EndsFree.append_left (h : EndsFree post) (pre : List MemNode) : EndsFree (pre ++ post) := by
  obtain ⟨front, last, rfl, hlast⟩ := h
  exact ⟨pre ++ front, last, (List.append_assoc ..).symm, hlast⟩

theorem EndsFree.cons (h : EndsFree post) (node : MemNode) : EndsFree (node :: post) :=
  h.append_left [node]

/-- What is behind a node of a list that ends in a free node ends in one too. -/
theorem EndsFree.behind (h : EndsFree (pre ++ node :: post)) :
    post = [] ∧ node.free = true ∨ EndsFree post := by
  rcases List.eq_nil_or_concat post with rfl | ⟨front, last, rfl⟩
  · obtain ⟨front, last, heq, hlast⟩ := h
    obtain ⟨-, hx⟩ := List.append_inj' heq rfl
    cases hx
    exact Or.inl ⟨rfl, hlast⟩
  · obtain ⟨front', last', heq, hlast⟩ := h
    have heq' : (pre ++ node :: front) ++ [last] = front' ++ [last'] := by simpa using heq
    obtain ⟨-, hx⟩ := List.append_inj' heq' rfl
    cases hx
    exact Or.inr ⟨front, last, List.concat_eq_append .., hlast⟩

/-- A used node is not the last one. -/
theorem EndsFree.behind_used (h : EndsFree (pre ++ node :: post)) (hused : node.free = false) :
    post ≠ [] := by
  rintro rfl
  rcases h.behind with ⟨-, hfree⟩ | ⟨front, last, hnil, -⟩
  · rw [hused] at hfree
    cases hfree
  · simp at hnil

theorem EndsFree.alloc (h : EndsFree (pre ++ node :: post)) :
    EndsFree (pre ++ node.taken size :: node.rest size :: post) := by
  refine EndsFree.append_left (EndsFree.cons ?_ _) pre
  rcases h.behind with ⟨rfl, -⟩ | hpost
  · exact endsFree_singleton rfl
  · exact hpost.cons _

theorem EndsFree.mergeNext (h : EndsFree (pre ++ node :: post)) :
    EndsFree (pre ++ mergeNext node post) := by
  refine EndsFree.append_left ?_ pre
  cases post with
  | nil => exact endsFree_singleton rfl
  | cons next suiv =>
      rw [BSVM.mergeNext]
      split
      · rcases h.behind with ⟨hnil, -⟩ | hpost
        · cases hnil
        · have hfront : EndsFree ([] ++ next :: suiv) := hpost
          rcases hfront.behind with ⟨rfl, -⟩ | hsuiv
          · exact endsFree_singleton rfl
          · exact hsuiv.cons _
      · rcases h.behind with ⟨hnil, -⟩ | hpost
        · cases hnil
        · exact hpost.cons _

/-- Two parts with bytes in both, the first of which ends in a free node. -/
def Parted (nodes : List MemNode) : Prop :=
  ∃ low high c, nodes = low ++ high ∧ EndsFree low ∧
    Tiles MemNode.lo MemNode.len low HEAP_BASE c ∧
    Tiles MemNode.lo MemNode.len high c STACK_BASE ∧ HEAP_BASE < c ∧ c < STACK_BASE

/-- A node of two parts is in one of them. -/
theorem append_eq_cases {low high : List MemNode} (h : pre ++ node :: post = low ++ high) :
    (∃ front, pre = low ++ front ∧ high = front ++ node :: post) ∨
    ∃ back, low = pre ++ node :: back ∧ post = back ++ high := by
  rcases List.append_eq_append_iff.mp h with ⟨as, rfl, has⟩ | ⟨bs, rfl, hbs⟩
  · cases as with
    | nil => exact Or.inl ⟨[], by simp, has.symm⟩
    | cons a as =>
        cases has
        exact Or.inr ⟨as, rfl, rfl⟩
  · exact Or.inl ⟨bs, rfl, hbs⟩

theorem Parted.apply_alloc {s : HeapState} (h : Parted s.vm.memblocks) (size : Word) :
    Parted (HeapOp.apply s (.alloc size)).vm.memblocks := by
  rcases apply_alloc_cases s size with ⟨pre, node, post, hnodes, hfits, heq⟩ | heq
  · obtain ⟨low, high, c, hparts, hends, hlow, hhigh, hc₁, hc₂⟩ := h
    rw [heq]
    rcases append_eq_cases (hnodes.symm.trans hparts) with ⟨front, rfl, rfl⟩ | ⟨back, rfl, rfl⟩
    · exact ⟨low, _, c, List.append_assoc .., hends, hlow,
        tiles_alloc (Nat.le_refl _) hhigh hfits, hc₁, hc₂⟩
    · exact ⟨_, high, c, by simp, hends.alloc, tiles_alloc hc₂.le hlow hfits, hhigh, hc₁, hc₂⟩
  · rw [heq]
    exact h

theorem mergeNext_append (hpost : post ≠ []) (rest : List MemNode) :
    mergeNext node (post ++ rest) = mergeNext node post ++ rest := by
  cases post with
  | nil => exact absurd rfl hpost
  | cons next suiv =>
      rw [List.cons_append, mergeNext, mergeNext]
      split
      · rfl
      · rfl

theorem Parted.apply_free {s : HeapState} (h : Parted s.vm.memblocks) (addr : Word)
    (hused : (vmFree s.vm addr).1 = .ok →
      ∀ m, firstAt s.vm.memblocks addr = some m → m.free = false) :
    Parted (HeapOp.apply s (.free addr)).vm.memblocks := by
  rcases apply_free_cases s addr with ⟨pre, node, post, hnodes, hpre, hnode, hok, heq⟩ | ⟨-, heq⟩
  · obtain ⟨low, high, c, hparts, hends, hlow, hhigh, hc₁, hc₂⟩ := h
    have hfree := hused hok node (hnodes ▸ firstAt_eq hpre hnode)
    rw [heq]
    rcases append_eq_cases (hnodes.symm.trans hparts) with ⟨front, rfl, rfl⟩ | ⟨back, rfl, rfl⟩
    · exact ⟨low, _, c, List.append_assoc .., hends, hlow, tiles_free (Nat.le_refl _) hhigh,
        hc₁, hc₂⟩
    · -- the node is used, so it is not the one at the border
      have hback := hends.behind_used hfree
      refine ⟨pre ++ mergeNext node back, high, c, ?_, hends.mergeNext, tiles_free hc₂.le hlow,
        hhigh, hc₁, hc₂⟩
      rw [mergeNext_append hback, List.append_assoc]
  · rw [heq]
    exact h

theorem Parted.run {s : HeapState} (h : Parted s.vm.memblocks) :
    ∀ {ops : List HeapOp}, SoundFrom s ops → Parted (ops.foldl HeapOp.apply s).vm.memblocks
  | [], _ => h
  | .alloc size :: _, hops => (h.apply_alloc size).run hops.2
  | .free addr :: _, hops => (h.apply_free addr hops.1).run hops.2
termination_by ops => ops.length

/-- No node of a parted heap has all the bytes. -/
theorem Parted.size_lt (h : Parted nodes) {m : MemNode} (hm : m ∈ nodes) :
    m.size.toNat < STACK_BASE - HEAP_BASE := by
  obtain ⟨low, high, c, rfl, -, hlow, hhigh, hc₁, hc₂⟩ := h
  rcases List.mem_append.mp hm with hm | hm
  · have hb := Tiles.bounds hlow hm
    simp at hb hc₁ hc₂ ⊢
    omega
  · have hb := Tiles.bounds hhigh hm
    simp at hb hc₁ hc₂ ⊢
    omega

/-! ## How a heap is parted -/

/-- What histories of positive requests keep. -/
structure Packed (nodes : List MemNode) : Prop where
  tiles : TilesHeap nodes
  last : EndsFree nodes
  sizes : ∀ m ∈ nodes, m.free = false → 0 < m.size.toNat

theorem packed_init : Packed initVM.memblocks where
  tiles := (heapInv_run []).tiles
  last := endsFree_singleton rfl
  sizes := by
    intro m hm hfree
    rw [List.mem_singleton.mp hm] at hfree
    cases hfree

theorem Packed.apply_alloc {s : HeapState} (h : Packed s.vm.memblocks) (hsize : 0 < size.toNat) :
    Packed (HeapOp.apply s (.alloc size)).vm.memblocks := by
  rcases apply_alloc_cases s size with ⟨pre, node, post, hnodes, hfits, heq⟩ | heq
  · obtain ⟨htiles, hlast, hsizes⟩ := h
    rw [hnodes] at htiles hlast hsizes
    rw [heq]
    refine ⟨htiles.alloc hfits, hlast.alloc, ?_⟩
    intro m hm hfree
    rcases List.mem_append.mp hm with hm | hm
    · exact hsizes m (List.mem_append_left _ hm) hfree
    · rcases List.mem_cons.mp hm with rfl | hm
      · exact hsize
      · rcases List.mem_cons.mp hm with rfl | hm
        · cases hfree
        · exact hsizes m (by simp [hm]) hfree
  · rw [heq]
    exact h

theorem Packed.apply_free {s : HeapState} (h : Packed s.vm.memblocks) (addr : Word) :
    Packed (HeapOp.apply s (.free addr)).vm.memblocks := by
  rcases apply_free_cases s addr with ⟨pre, node, post, hnodes, -, -, -, heq⟩ | ⟨-, heq⟩
  · obtain ⟨htiles, hlast, hsizes⟩ := h
    rw [hnodes] at htiles hlast hsizes
    rw [heq]
    refine ⟨htiles.free, hlast.mergeNext, ?_⟩
    intro m hm hfree
    -- a free makes no used node, so `m` is one of the old ones
    have hblock : m.block ∈ usedBlocks (pre ++ mergeNext node post) :=
      mem_usedBlocks.mpr ⟨m, hm, hfree, rfl⟩
    rw [usedBlocks_append, usedBlocks_mergeNext, ← usedBlocks_append] at hblock
    obtain ⟨k, hk, hkfree, hkm⟩ := mem_usedBlocks.mp hblock
    have hpos := hsizes k (by
      rcases List.mem_append.mp hk with hk | hk
      · exact List.mem_append_left _ hk
      · exact List.mem_append_right _ (List.mem_cons_of_mem _ hk)) hkfree
    have hsame : k.size = m.size := congrArg Block.size hkm
    rwa [hsame] at hpos
  · rw [heq]
    exact h

/-- A used node freed in front of a used node leaves a border. -/
theorem Packed.parted {s : HeapState} (h : Packed s.vm.memblocks) (addr : Word)
    (hused : ∀ m, firstAt s.vm.memblocks addr = some m → m.free = false)
    (hok : (vmFree s.vm addr).1 = .ok) (hjoin : joinsNext addr s.vm.memblocks = false) :
    Parted (HeapOp.apply s (.free addr)).vm.memblocks := by
  rcases apply_free_cases s addr with ⟨pre, node, post, hnodes, hpre, hnode, -, heq⟩ |
    ⟨hfail, -⟩
  · obtain ⟨htiles, hlast, hsizes⟩ := h
    have hfree := hused node (hnodes ▸ firstAt_eq hpre hnode)
    rw [hnodes] at htiles hlast hsizes hjoin
    rw [joinsNext_eq hpre hnode, hfree, Bool.false_or] at hjoin
    cases post with
    | nil => exact absurd rfl (hlast.behind_used hfree)
    | cons next suiv =>
        have hnext : next.free = false := hjoin
        have hpos := hsizes node (by simp) hfree
        have hpos' := hsizes next (by simp) hnext
        obtain ⟨c, hlow, hhigh⟩ := tiles_append.mp htiles
        obtain ⟨hc, hhigh⟩ := hhigh
        have hb := Tiles.bounds hhigh (x := next) (by simp)
        rw [heq]
        refine ⟨pre ++ [{ node with free := true }], next :: suiv, c + node.len, ?_, ?_, ?_, ?_,
          ?_, ?_⟩
        · simp [mergeNext, hnext]
        · exact (endsFree_singleton rfl).append_left pre
        · exact tiles_append.mpr ⟨c, hlow, hc, rfl⟩
        · exact hhigh
        · have hle := Tiles.le hlow
          simp at hle hpos ⊢
          omega
        · simp at hb hpos' ⊢
          omega
  · exact absurd hok hfail

/-- A sound history that is not forward parts the heap for good. -/
theorem Packed.forward_or_parted {s : HeapState} (h : Packed s.vm.memblocks) :
    ∀ {ops : List HeapOp}, SoundFrom s ops →
      ForwardFrom s ops ∨ Parted (ops.foldl HeapOp.apply s).vm.memblocks
  | [], _ => Or.inl trivial
  | .alloc _ :: _, hops => (h.apply_alloc hops.1).forward_or_parted hops.2
  | .free addr :: ops, hops => by
      by_cases hjoin : (vmFree s.vm addr).1 = .ok → joinsNext addr s.vm.memblocks = true
      · rcases (h.apply_free addr).forward_or_parted hops.2 with hfwd | hparted
        · exact Or.inl ⟨hjoin, hfwd⟩
        · exact Or.inr hparted
      · obtain ⟨hok, hjoin⟩ := Classical.not_imp.mp hjoin
        have hparted := h.parted addr (hops.1 hok) hok (Bool.not_eq_true _ ▸ hjoin)
        exact Or.inr (hparted.run hops.2)
termination_by ops => ops.length

/-! ## The whole heap -/

/-- Every request that the heap could hold succeeds. -/
def Whole (vm : VM) : Prop :=
  ∀ n addr : Word, n.toNat ≤ STACK_BASE - HEAP_BASE → (vmAlloc vm n addr).1 = .ok

theorem whole_iff {vm : VM} :
    Whole vm ↔ ∃ m ∈ vm.memblocks, m.free = true ∧ STACK_BASE - HEAP_BASE ≤ m.size.toNat := by
  constructor
  · intro h
    have hok := h 256 0 (by decide)
    rw [vmAlloc] at hok
    split at hok
    · cases hok
    · next hsome =>
        obtain ⟨pre, m, post, hnodes, -, hfits, -⟩ := allocNodes_eq_some hsome
        exact ⟨m, hnodes ▸ by simp, hfits.2, hfits.1⟩
  · rintro ⟨m, hm, hfree, hsize⟩ n addr hn
    rw [vmAlloc]
    split
    · next hnone => exact absurd ⟨hn.trans hsize, hfree⟩ (allocNodes_eq_none.mp hnone m hm)
    · rfl

theorem Parted.not_whole {vm : VM} (h : Parted vm.memblocks) : ¬ Whole vm := by
  intro hwhole
  obtain ⟨m, hm, -, hsize⟩ := whole_iff.mp hwhole
  exact absurd (h.size_lt hm) (Nat.not_lt.mpr hsize)

/-- **A heap whose blocks have all been freed, each with a free node behind
it, is whole again; and a sound history makes it whole in no other way.** -/
theorem heap_whole_iff_forward (ops : List HeapOp) :
    (ForwardFrom ⟨initVM, []⟩ ops → (∀ b ∈ (heapRun ops).live, b.size = 0) →
      Whole (heapRun ops).vm) ∧
    (SoundFrom ⟨initVM, []⟩ ops → Whole (heapRun ops).vm → ForwardFrom ⟨initVM, []⟩ ops) := by
  constructor
  · intro hfwd hfreed
    obtain ⟨m, hm, hfree, hsize⟩ :=
      (stacked_init.run hfwd).last_size (heapInv_run ops).tiles hfreed
    exact whole_iff.mpr ⟨m, hm, hfree, hsize.ge⟩
  · intro hsound hwhole
    rcases packed_init.forward_or_parted hsound with hfwd | hparted
    · exact hfwd
    · exact absurd hwhole hparted.not_whole

theorem heap_whole_upper_first :
    Whole (heapRun [.alloc 16, .alloc 32, .free 1296, .free 1280]).vm ∧
      ¬ Whole (heapRun [.alloc 16, .alloc 16, .free 1280, .free 1296]).vm := by
  constructor
  · exact (heap_whole_iff_forward [.alloc 16, .alloc 32, .free 1296, .free 1280]).1
      ⟨fun _ => by decide, fun _ => by decide, trivial⟩ (by decide)
  · intro h
    have hsound : SoundFrom ⟨initVM, []⟩ [.alloc 16, .alloc 16, .free 1280, .free 1296] :=
      ⟨by decide, by decide, fun _ m hm => by cases hm; rfl, fun _ m hm => by cases hm; rfl,
        trivial⟩
    exact absurd (((heap_whole_iff_forward _).2 hsound h).1 (by decide)) (by decide)

/-- Freed in address order, two adjacent blocks stay apart. -/
theorem lower_block_first :
    (heapRun [.alloc 16, .alloc 16, .free 1280, .free 1296]).live = [] ∧
      (vmAlloc (heapRun [.alloc 16, .alloc 16, .free 1280, .free 1296]).vm 256 0).1 =
        .heapOutOfMemory := by
  decide

end BSVM
