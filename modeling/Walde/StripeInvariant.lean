import Mathlib.Algebra.BigOperators.Fin
import Walde.StripeSystem

namespace Walde.StripeSystem

open Foundation

/-! # The structure of a system between calls

The concrete reading of what a system stands for: everything here is computed
from the slab and the stripes alone. -/

variable {count : Nat}

def held (system : StripeSystem count) (i : Fin count) : List Nat :=
  system.indices i .window ++ system.indices i .probation ++
    system.indices i .protected_

structure WellFormed (capacity : Nat) (system : StripeSystem count) :
    Prop where
  /-- The index map finds the node of every listed key, and nothing else. -/
  index : ∀ i key index, (system.stripe i).indexMap.lookup key = some index ↔
    index ∈ system.held i ∧ (system.slab.pool index).key = key
  /-- The tag of a node names the list it is on. -/
  tag : ∀ i place, ∀ index ∈ system.indices i place,
    (system.slab.pool index).segment = place.segment
  /-- The links, the ends and the size of every list agree. -/
  links : ∀ i place, ((system.stripe i).lru place).Holds system.slab.pool
    (system.indices i place)
  /-- The free list ends. -/
  freeList : SlabAllocator.FreeChain system.slab.freeNext
    (SlabAllocator.unpackIndex system.slab.head) system.slab.freeIndices
  /-- Every index is free or on one list of one stripe, and there only once. -/
  cover : (system.slab.freeIndices ++
    (List.finRange count).flatMap system.held).Perm (List.range capacity)

section Shows

variable {capacity : Nat} {system : StripeSystem count}
  {views : Fin count → SlabView} {lists : Fin count → Place → List Nat}
  {policies : Fin count → Policy}

theorem Shows.cell_eq (shows' : system.Shows capacity views lists policies)
    (i : Fin count) {index : Nat} (held : index ∈ (views i).owned) :
    (views i).cell index = system.slab.pool index := by
  rcases shows'.shares with ⟨contents, rep, -, shares⟩
  rw [shares.cell_eq i index held, rep.cell]

theorem Shows.holds (shows' : system.Shows capacity views lists policies)
    (i : Fin count) (place : Place) :
    ((system.stripe i).lru place).Holds system.slab.pool (lists i place) := by
  have rep := (shows'.sim i).rep
  apply (rep.holds place).congr
  intro index member
  exact (shows'.cell_eq i (rep.lists_owned member)).symm

theorem Shows.indices (shows' : system.Shows capacity views lists policies)
    (i : Fin count) (place : Place) :
    system.indices i place = lists i place := by
  have holds := shows'.holds i place
  have walk := holds.ring.walk_next
  rw [← holds.size] at walk
  exact walk

theorem Shows.entriesAt (shows' : system.Shows capacity views lists policies)
    (i : Fin count) (place : Place) :
    system.entriesAt i place = (policies i).entriesAt place := by
  rw [StripeSystem.entriesAt, shows'.indices, (shows'.sim i).shows'.entries]
  apply List.map_congr_left
  intro index member
  have same := shows'.cell_eq i ((shows'.sim i).rep.lists_owned member)
  simp [entry, same]

theorem Shows.find (shows' : system.Shows capacity views lists policies)
    (i : Fin count) (key : Key) :
    ((system.stripe i).indexMap.lookup key).map
        (fun index => (system.slab.pool index).value) =
      (policies i).find key := by
  have sim := shows'.sim i
  cases found : (system.stripe i).indexMap.lookup key with
  | none => exact (sim.find_none found).symm
  | some index =>
      have held := ((sim.rep.index key index).mp found).1
      rw [sim.find_some found, Option.map_some, shows'.cell_eq _ held]

theorem Shows.mem_held (shows' : system.Shows capacity views lists policies)
    (i : Fin count) {index : Nat} :
    index ∈ system.held i ↔ index ∈ (views i).owned := by
  rw [(shows'.sim i).rep.owned, held, CacheStripe.Rep.mem_lists]
  simp [shows'.indices]

theorem Shows.held_nodup (shows' : system.Shows capacity views lists policies)
    (i : Fin count) : (system.held i).Nodup := by
  simp only [held, shows'.indices]
  exact (shows'.sim i).rep.lists_nodup

theorem Shows.held_length (shows' : system.Shows capacity views lists policies)
    (i : Fin count) : (system.held i).length = (system.stripe i).size := by
  have size : ∀ place, (system.indices i place).length =
      ((system.stripe i).lru place).size := by
    intro place
    rw [shows'.indices, (shows'.holds i place).size]
  simp only [held, List.length_append, size]
  rfl

theorem Shows.size_eq (shows' : system.Shows capacity views lists policies)
    (i : Fin count) : (system.stripe i).size = (policies i).size := by
  have size := (shows'.sim i).size_eq
  have window : (system.stripe i).windowLru.size = _ := size .window
  have probation : (system.stripe i).probationLru.size = _ := size .probation
  have protected_ : (system.stripe i).protectedLru.size = _ := size .protected_
  rw [CacheStripe.size, window, probation, protected_]
  simp [Policy.size, Policy.entries, Policy.entriesAt, Nat.add_assoc]

theorem Shows.wellFormed
    (shows' : system.Shows capacity views lists policies) :
    system.WellFormed capacity := by
  constructor
  · intro i key index
    rw [(shows'.sim i).rep.index, shows'.mem_held]
    constructor
    · rintro ⟨inside, same⟩
      exact ⟨inside, by rw [← shows'.cell_eq i inside, same]⟩
    · rintro ⟨inside, same⟩
      exact ⟨inside, by rw [shows'.cell_eq i inside, same]⟩
  · intro i place index member
    rw [shows'.indices] at member
    rw [← shows'.cell_eq i ((shows'.sim i).rep.lists_owned member)]
    exact (shows'.sim i).rep.tag place index member
  · intro i place
    rw [shows'.indices]
    exact shows'.holds i place
  · rcases shows'.shares with ⟨contents, rep, -, -⟩
    rw [rep.freeIndices_eq]
    exact rep.chain
  · rcases shows'.shares with ⟨contents, rep, sameCapacity, shares⟩
    rw [rep.freeIndices_eq]
    have heldNodup : ((List.finRange count).flatMap system.held).Nodup := by
      refine List.nodup_flatMap.mpr ⟨fun i _ => shows'.held_nodup i, ?_⟩
      refine (List.nodup_finRange count).imp ?_
      intro i j different index inLeft inRight
      exact different (shares.disjoint i j index
        ((shows'.mem_held i).mp inLeft) ((shows'.mem_held j).mp inRight))
    refine (List.perm_ext_iff_of_nodup (rep.nodup.append heldNodup ?_)
      List.nodup_range).mpr ?_
    · intro index inFree inHeld
      rcases List.mem_flatMap.mp inHeld with ⟨i, -, inside⟩
      exact shares.notFree i index ((shows'.mem_held i).mp inside) inFree
    · intro index
      rw [List.mem_range, ← sameCapacity, shares.cover index, List.mem_append,
        List.mem_flatMap]
      simp [shows'.mem_held]

theorem Shows.available_add
    (shows' : system.Shows capacity views lists policies) :
    system.slab.available + ∑ i, (system.stripe i).size = capacity := by
  have cover := shows'.wellFormed.cover.length_eq
  rw [List.length_append, List.length_range, List.length_flatMap] at cover
  have total : ((List.finRange count).map fun i =>
      (system.held i).length).sum = ∑ i, (system.stripe i).size := by
    simp only [shows'.held_length]
    exact (Fin.sum_univ_def _).symm
  rcases shows'.shares with ⟨contents, rep, -, -⟩
  have free : system.slab.available = system.slab.freeIndices.length := by
    rw [rep.freeIndices_eq]
    exact rep.freeCount
  omega

theorem Shows.sum_size_le
    (shows' : system.Shows capacity views lists policies) :
    ∑ i, (system.stripe i).size ≤ capacity := by
  have available := shows'.available_add
  omega

end Shows

/-- Run on a slab that faults whenever a free slot is freed, read or written,
a system never faults and ends well formed; and the run on the slab itself is
the same. -/
theorem run_wellFormed (xx : XxHash) {slabCapacity : Nat}
    (positive : 0 < slabCapacity) (fits : slabCapacity < uint32Size)
    {settings : Fin count → StripeSettings}
    (capacities : ∀ i, 3 ≤ (settings i).capacity)
    (calls : List (Fin count × CacheCall)) :
    ∃ system results system',
      StripeSystem.new slabCapacity settings = some system ∧
      system.run xx SlabAllocator.guarded calls = some (results, system') ∧
      system.run xx SlabAllocator.allocator calls = some (results, system') ∧
      system'.WellFormed slabCapacity := by
  rcases new_eq_some positive capacities with ⟨system, made⟩
  rcases (new_follows fits made).run SlabAllocator.guarded_lawful xx calls with
    ⟨marked, system', -, -, ran, views, lists, shows'⟩
  exact ⟨system, _, system', made, ran, run_of_guarded ran, shows'.wellFormed⟩

/-- Two stripes that compete for the slots of a slab too small for both. -/
theorem run_wellFormed_sample :
    ∃ system results system',
      StripeSystem.new 4 (fun _ : Fin 2 => .sample) = some system ∧
      system.run .sample SlabAllocator.guarded [(0, .put "k" "1"),
        (1, .put "w" "1"), (0, .put "x" "1"), (1, .put "bu" "1"),
        (0, .put "w" "1"), (1, .remove "w")] = some (results, system') ∧
      system.run .sample SlabAllocator.allocator [(0, .put "k" "1"),
        (1, .put "w" "1"), (0, .put "x" "1"), (1, .put "bu" "1"),
        (0, .put "w" "1"), (1, .remove "w")] = some (results, system') ∧
      system'.WellFormed 4 :=
  run_wellFormed .sample (by decide) (by decide) (fun _ => by decide) _

end Walde.StripeSystem
