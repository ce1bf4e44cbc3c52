import Mathlib.Data.Nat.Bitwise
import Walde.Types

namespace Walde

/-! # The slab allocator

A pool of cache nodes with a free list threaded through `free_next_`. This is
the behaviour of `allocate` and `deallocate` when no other thread moves the head
between their load and their exchange. -/

structure SlabAllocator where
  capacity : Nat
  pool : Nat → CacheNode
  freeNext : Nat → Nat
  /-- The packed word of index and tag. -/
  head : Nat
  freeCount : Nat

namespace SlabAllocator

def pack (index tag : Nat) : Nat := tag <<< 32 ||| index

def unpackIndex (packed : Nat) : Nat := packed &&& 0xFFFFFFFF

def unpackTag (packed : Nat) : Nat := packed >>> 32

/-- `none` is the exception thrown for an empty slab. -/
def new (capacity : Nat) : Option SlabAllocator :=
  if capacity = 0 then none
  else some {
    capacity
    pool := fun _ => {}
    freeNext := fun index =>
      if index < capacity - 1 then index + 1
      else if index = capacity - 1 then kInvalidIndex else 0
    head := pack 0 0
    freeCount := capacity }

def allocate (slab : SlabAllocator) : Option (Nat × SlabAllocator) :=
  let oldIndex := unpackIndex slab.head
  let oldTag := unpackTag slab.head
  if oldIndex = kInvalidIndex then some (kInvalidIndex, slab)
  else if oldIndex < slab.capacity then
    let newIndex := slab.freeNext oldIndex
    some (oldIndex, { slab with
      head := pack newIndex ((oldTag + 1) % uint32Size)
      pool := Function.update slab.pool oldIndex CacheNode.reset
      freeCount := (slab.freeCount + (uint32Size - 1)) % uint32Size })
  else none

def deallocate (index : Nat) (slab : SlabAllocator) : Option SlabAllocator :=
  if index < slab.capacity then
    let oldIndex := unpackIndex slab.head
    let oldTag := unpackTag slab.head
    some { slab with
      pool := Function.update slab.pool index CacheNode.reset
      freeNext := Function.update slab.freeNext index oldIndex
      head := pack index ((oldTag + 1) % uint32Size)
      freeCount := (slab.freeCount + 1) % uint32Size }
  else none

def node (index : Nat) (slab : SlabAllocator) : Option CacheNode :=
  if index < slab.capacity then some (slab.pool index) else none

def setNode (index : Nat) (node : CacheNode) (slab : SlabAllocator) :
    Option SlabAllocator :=
  if index < slab.capacity then
    some { slab with pool := Function.update slab.pool index node }
  else none

def available (slab : SlabAllocator) : Nat := slab.freeCount

def allocator : Foundation.Pool.Allocator SlabAllocator CacheNode where
  allocate := allocate
  release := deallocate
  read := node
  write := setNode

theorem unpackIndex_pack {index : Nat} (tag : Nat) (fits : index < uint32Size) :
    unpackIndex (pack index tag) = index := by
  have mask : (0xFFFFFFFF : Nat) = 2 ^ 32 - 1 := by decide
  have cleared : tag <<< 32 % 2 ^ 32 = 0 := by
    rw [Nat.shiftLeft_eq, Nat.mul_mod_left]
  rw [unpackIndex, pack, mask, Nat.and_two_pow_sub_one_eq_mod,
    Nat.or_mod_two_pow, cleared, Nat.zero_or]
  exact Nat.mod_eq_of_lt fits

/-! ## The free list -/

def walkFree (freeNext : Nat → Nat) : Nat → Nat → List Nat
  | 0, _ => []
  | fuel + 1, index =>
      if index = kInvalidIndex then []
      else index :: walkFree freeNext fuel (freeNext index)

def freeIndices (slab : SlabAllocator) : List Nat :=
  walkFree slab.freeNext slab.capacity (unpackIndex slab.head)

def FreeChain (freeNext : Nat → Nat) : Nat → List Nat → Prop
  | start, [] => start = kInvalidIndex
  | start, index :: rest =>
      start = index ∧ index ≠ kInvalidIndex ∧
        FreeChain freeNext (freeNext index) rest

theorem FreeChain.walkFree_eq {freeNext : Nat → Nat} {start : Nat}
    {indices : List Nat} (chain : FreeChain freeNext start indices)
    {fuel : Nat} (enough : indices.length ≤ fuel) :
    walkFree freeNext fuel start = indices := by
  induction indices generalizing start fuel with
  | nil =>
      cases fuel with
      | zero => rfl
      | succ fuel => simp [walkFree, show start = kInvalidIndex from chain]
  | cons index rest induction =>
      obtain ⟨rfl, valid, chain⟩ := chain
      cases fuel with
      | zero => simp at enough
      | succ fuel =>
          simp only [walkFree, if_neg valid]
          rw [induction chain (by simpa using enough)]

theorem FreeChain.update {freeNext : Nat → Nat} {start : Nat}
    {indices : List Nat} (chain : FreeChain freeNext start indices)
    {index : Nat} (fresh : index ∉ indices) (target : Nat) :
    FreeChain (Function.update freeNext index target) start indices := by
  induction indices generalizing start with
  | nil => exact chain
  | cons first rest induction =>
      obtain ⟨equal, valid, chain⟩ := chain
      have different : first ≠ index := by
        rintro rfl
        simp at fresh
      refine ⟨equal, valid, ?_⟩
      rw [Function.update_of_ne different]
      exact induction chain fun member => fresh (by simp [member])

structure Rep (slab : SlabAllocator)
    (contents : Foundation.Pool.Contents CacheNode) : Prop where
  capacity : contents.capacity = slab.capacity
  capacity_le : slab.capacity ≤ kInvalidIndex
  cell : contents.cell = slab.pool
  chain : FreeChain slab.freeNext (unpackIndex slab.head) contents.free
  freeCount : slab.freeCount = contents.free.length
  nodup : contents.free.Nodup
  lt : ∀ index ∈ contents.free, index < slab.capacity

theorem Rep.length_le {slab : SlabAllocator}
    {contents : Foundation.Pool.Contents CacheNode}
    (rep : Rep slab contents) : contents.free.length ≤ slab.capacity := by
  have subset : contents.free ⊆ List.range slab.capacity := fun index member =>
    List.mem_range.mpr (rep.lt index member)
  simpa using (List.subperm_of_subset rep.nodup subset).length_le

theorem Rep.freeIndices_eq {slab : SlabAllocator}
    {contents : Foundation.Pool.Contents CacheNode}
    (rep : Rep slab contents) : slab.freeIndices = contents.free :=
  rep.chain.walkFree_eq rep.length_le

theorem freeChain_range (capacity : Nat) (small : capacity ≤ kInvalidIndex)
    (freeNext : Nat → Nat)
    (step : ∀ index, index + 1 < capacity → freeNext index = index + 1)
    (last : ∀ index, index + 1 = capacity → freeNext index = kInvalidIndex)
    (count start : Nat) (total : start + count = capacity) (some : 0 < count) :
    FreeChain freeNext start (List.range' start count) := by
  induction count generalizing start with
  | zero => omega
  | succ count induction =>
      rw [List.range'_succ]
      refine ⟨rfl, by omega, ?_⟩
      cases count with
      | zero => exact last start (by omega)
      | succ count =>
          rw [step start (by omega)]
          exact induction (start + 1) (by omega) (by omega)

theorem new_rep {capacity : Nat} (positive : 0 < capacity)
    (small : capacity < uint32Size) :
    ∃ slab, new capacity = some slab ∧
      Rep slab ⟨capacity, List.range capacity, fun _ => {}⟩ := by
  have bounded : capacity ≤ kInvalidIndex := by
    simp only [uint32Size, kInvalidIndex] at *
    omega
  refine ⟨_, if_neg (by omega), ?_⟩
  constructor
  · rfl
  · exact bounded
  · rfl
  · have start : unpackIndex (pack 0 0) = 0 :=
      unpackIndex_pack 0 (by decide)
    rw [start, List.range_eq_range']
    apply freeChain_range capacity bounded
    · intro index inside
      have below : index < capacity - 1 := by omega
      simp [below]
    · intro index atEnd
      have last : index = capacity - 1 := by omega
      simp [last]
    · omega
    · exact positive
  · simp
  · exact List.nodup_range
  · simp

theorem lawful : allocator.Lawful slabLayout Rep where
  capacity_le rep := by
    rw [rep.capacity]
    exact rep.capacity_le
  free_nodup rep := rep.nodup
  free_lt rep := by
    rw [rep.capacity]
    exact rep.lt
  allocate_nil := by
    intro slab contents rep empty
    have atEnd : unpackIndex slab.head = kInvalidIndex := by
      simpa [empty, FreeChain] using rep.chain
    simp [allocator, allocate, atEnd, slabLayout]
  allocate_cons := by
    intro slab contents index rest rep free
    have chain := rep.chain
    rw [free] at chain
    obtain ⟨atIndex, valid, chain⟩ := chain
    have inside : index < slab.capacity := rep.lt index (by simp [free])
    have count := rep.freeCount
    have within := rep.length_le
    have nodup := rep.nodup
    rw [free, List.length_cons] at count within
    rw [free] at nodup
    -- the next index is read before the exchange, while the node is still free
    have nextFits : slab.freeNext index < uint32Size := by
      cases rest with
      | nil =>
          rw [show slab.freeNext index = kInvalidIndex from chain]
          decide
      | cons following rest =>
          rw [chain.1]
          have small := rep.capacity_le
          have follows := rep.lt following (by simp [free])
          simp only [kInvalidIndex, uint32Size] at *
          omega
    refine ⟨_, by
      simp only [allocator, allocate, atIndex, if_neg valid, if_pos inside]
      rfl, ?_⟩
    constructor
    · exact rep.capacity
    · exact rep.capacity_le
    · simp [rep.cell, slabLayout]
    · rw [unpackIndex_pack _ nextFits]
      exact chain
    · have small := rep.capacity_le
      simp only [count, kInvalidIndex, uint32Size] at *
      omega
    · exact (List.nodup_cons.mp nodup).2
    · intro other member
      exact rep.lt other (by simp [free, member])
  release := by
    intro slab contents index rep inside fresh
    rw [rep.capacity] at inside
    have small := rep.capacity_le
    have indexFits : index < uint32Size := by
      simp only [kInvalidIndex, uint32Size] at *
      omega
    refine ⟨_, by
      simp only [allocator, deallocate, if_pos inside]
      rfl, ?_⟩
    -- one more index fits, so the counter does not wrap
    have within : contents.free.length + 1 ≤ slab.capacity := by
      have subset : index :: contents.free ⊆ List.range slab.capacity := by
        intro other member
        rcases List.mem_cons.mp member with rfl | member
        · exact List.mem_range.mpr inside
        · exact List.mem_range.mpr (rep.lt other member)
      simpa using (List.subperm_of_subset
        (List.nodup_cons.mpr ⟨fresh, rep.nodup⟩) subset).length_le
    constructor
    · exact rep.capacity
    · exact rep.capacity_le
    · simp [rep.cell, slabLayout]
    · rw [unpackIndex_pack _ indexFits]
      refine ⟨rfl, ?_, ?_⟩
      · simp only [kInvalidIndex] at *
        omega
      · simpa using rep.chain.update fresh (unpackIndex slab.head)
    · simp only [rep.freeCount, kInvalidIndex, uint32Size,
        List.length_cons] at *
      omega
    · exact List.nodup_cons.mpr ⟨fresh, rep.nodup⟩
    · intro other member
      rcases List.mem_cons.mp member with rfl | member
      · exact inside
      · exact rep.lt other member
  read := by
    intro slab contents index rep inside _
    rw [rep.capacity] at inside
    simp [allocator, node, inside, rep.cell]
  write := by
    intro slab contents index cell rep inside _
    rw [rep.capacity] at inside
    refine ⟨_, by
      simp only [allocator, setNode, if_pos inside]
      rfl, ?_⟩
    exact ⟨rep.capacity, rep.capacity_le, by simp [rep.cell], rep.chain,
      rep.freeCount, rep.nodup, rep.lt⟩

/-! ## A slab that watches its clients

The same slab with the checks that the code does not make: a fault when a free
node is freed again, read or written. -/

def guarded : Foundation.Pool.Allocator SlabAllocator CacheNode where
  allocate := allocate
  release index slab :=
    if index ∈ slab.freeIndices then none else deallocate index slab
  read index slab := if index ∈ slab.freeIndices then none else node index slab
  write index cell slab :=
    if index ∈ slab.freeIndices then none else setNode index cell slab

theorem guarded_lawful : guarded.Lawful slabLayout Rep where
  capacity_le := lawful.capacity_le
  free_nodup := lawful.free_nodup
  free_lt := lawful.free_lt
  allocate_nil := lawful.allocate_nil
  allocate_cons := lawful.allocate_cons
  release := by
    intro slab contents index rep inside fresh
    rw [← rep.freeIndices_eq] at fresh
    simp only [guarded, if_neg fresh]
    exact lawful.release rep inside (by rwa [rep.freeIndices_eq] at fresh)
  read := by
    intro slab contents index rep inside fresh
    rw [← rep.freeIndices_eq] at fresh
    simp only [guarded, if_neg fresh]
    exact lawful.read rep inside (by rwa [rep.freeIndices_eq] at fresh)
  write := by
    intro slab contents index cell rep inside fresh
    rw [← rep.freeIndices_eq] at fresh
    simp only [guarded, if_neg fresh]
    exact lawful.write cell rep inside (by rwa [rep.freeIndices_eq] at fresh)

/-- Where the guarded slab does not fault it does what the slab does. -/
theorem guarded_refines (instr : SlabInstr)
    (state : SlabAllocator × List DemotionItem)
    (reply : Foundation.Pool.Answer instr × SlabAllocator × List DemotionItem)
    (handled : guarded.handler instr state = some reply) :
    allocator.handler instr state = some reply := by
  rcases state with ⟨slab, events⟩
  cases instr with
  | release index =>
      simp only [Foundation.Pool.Allocator.handler, guarded] at handled
      split at handled
      · simp at handled
      · exact handled
  | read index =>
      simp only [Foundation.Pool.Allocator.handler, guarded] at handled
      split at handled
      · simp at handled
      · exact handled
  | write index cell =>
      simp only [Foundation.Pool.Allocator.handler, guarded] at handled
      split at handled
      · simp at handled
      · exact handled
  | allocate => exact handled
  | emit event => exact handled
  | fault => exact handled

end SlabAllocator

end Walde
