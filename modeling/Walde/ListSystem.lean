import Mathlib.Data.Fin.VecNotation
import Mathlib.Data.Fintype.Pi
import Walde.Foundation.Machine
import Walde.LruList
import Walde.SlabAllocator

namespace Walde

open Foundation

/-! # Intrusive lists that share a slab -/

inductive ListCall
  | pushFront (index : Nat)
  | remove (index : Nat)
  | popBack
  | moveToFront (index : Nat)
deriving DecidableEq, Repr

namespace IntrusiveLru

/-- A call on one list. Only `pop_back` has an answer. -/
def call (lru : IntrusiveLru) :
    ListCall → SlabProgram (Option Nat × IntrusiveLru)
  | .pushFront index => do
      let lru ← lru.pushFront index
      return (none, lru)
  | .remove index => do
      let lru ← lru.remove index
      return (none, lru)
  | .popBack => do
      let (popped, lru) ← lru.popBack
      return (some popped, lru)
  | .moveToFront index => do
      let lru ← lru.moveToFront index
      return (none, lru)

/-! ## The lists only read and write nodes -/

def OnNodes : SlabInstr → Prop
  | .read _ | .write _ _ | .fault => True
  | .allocate | .release _ | .emit _ => False

theorem assert_uses (condition : Prop) [Decidable condition] :
    (SlabProgram.assert condition).Uses OnNodes := by
  rw [SlabProgram.assert]
  split
  · exact Program.uses_pure _ _
  · exact ⟨trivial, fun impossible => nomatch impossible⟩

theorem node_uses (index : Nat) : (SlabProgram.node index).Uses OnNodes :=
  Program.uses_perform trivial

theorem modifyNode_uses (index : Nat) (change : CacheNode → CacheNode) :
    (SlabProgram.modifyNode index change).Uses OnNodes :=
  (node_uses index).bind fun _ => Program.uses_perform trivial

theorem pushFront_uses (lru : IntrusiveLru) (index : Nat) :
    (lru.pushFront index).Uses OnNodes := by
  apply (assert_uses _).bind
  intro _
  apply (modifyNode_uses index _).bind
  intro _
  split
  · exact (modifyNode_uses lru.head _).bind fun _ => Program.uses_pure _ _
  · exact Program.uses_pure _ _

theorem unlinkBefore_uses (lru : IntrusiveLru) (index : Nat) :
    (lru.unlinkBefore index).Uses OnNodes := by
  apply (node_uses index).bind
  intro node
  split
  · exact (modifyNode_uses node.prev _).bind fun _ => Program.uses_pure _ _
  · exact Program.uses_pure _ _

theorem unlinkAfter_uses (lru : IntrusiveLru) (index : Nat) :
    (lru.unlinkAfter index).Uses OnNodes := by
  apply (node_uses index).bind
  intro node
  split
  · exact (modifyNode_uses node.next _).bind fun _ => Program.uses_pure _ _
  · exact Program.uses_pure _ _

theorem remove_uses (lru : IntrusiveLru) (index : Nat) :
    (lru.remove index).Uses OnNodes := by
  apply (assert_uses _).bind
  intro _
  apply (assert_uses _).bind
  intro _
  apply (unlinkBefore_uses lru index).bind
  intro middle
  apply (unlinkAfter_uses middle index).bind
  intro last
  exact (modifyNode_uses index _).bind fun _ => Program.uses_pure _ _

theorem popBack_uses (lru : IntrusiveLru) : lru.popBack.Uses OnNodes := by
  rw [popBack]
  split
  · exact Program.uses_pure _ _
  · exact (remove_uses lru lru.tail).bind fun _ => Program.uses_pure _ _

theorem moveToFront_uses (lru : IntrusiveLru) (index : Nat) :
    (lru.moveToFront index).Uses OnNodes := by
  apply (assert_uses _).bind
  intro _
  split
  · exact Program.uses_pure _ _
  · exact (remove_uses lru index).bind fun middle => pushFront_uses middle index

theorem call_uses (lru : IntrusiveLru) (call : ListCall) :
    (lru.call call).Uses OnNodes := by
  cases call with
  | pushFront index =>
      exact (pushFront_uses lru index).bind fun _ => Program.uses_pure _ _
  | remove index =>
      exact (remove_uses lru index).bind fun _ => Program.uses_pure _ _
  | popBack => exact (popBack_uses lru).bind fun _ => Program.uses_pure _ _
  | moveToFront index =>
      exact (moveToFront_uses lru index).bind fun _ => Program.uses_pure _ _

/-! ## One call on one list -/

structure Outcome (lru : IntrusiveLru) (members members' : List Nat)
    (view : SlabView) (lru' : IntrusiveLru) (view' : SlabView) : Prop where
  holds : lru'.Holds view'.cell members'
  relinked : Relinked (members ++ members') view view'
  reset : ∀ index ∈ members, index ∉ members' →
    (view'.cell index).prev = kInvalidIndex ∧
    (view'.cell index).next = kInvalidIndex
  empty : members = [] → members' = [] → lru' = lru ∧ view' = view

section Specs

variable {limit : Option Nat} {lru : IntrusiveLru} {members : List Nat}
  {view : SlabView} {index : Nat}

theorem pushFront_outcome (holds : lru.Holds view.cell members)
    (valid : index ≠ kInvalidIndex) (fresh : index ∉ members)
    (held : index ∈ view.owned) (owned : ∀ other ∈ members, other ∈ view.owned) :
    (lru.call (.pushFront index)).wp (slabSpec limit)
      (fun result view' => result.1 = none ∧
        Outcome lru members (index :: members) view result.2 view') view := by
  rw [call, Program.wp_bind]
  apply wp_weaken (pushFront_spec holds valid fresh held owned)
  intro lru' view' pushed
  refine ⟨rfl, pushed.1, ?_, ?_, by simp⟩
  · exact pushed.2.mono (List.subset_append_right _ _)
  · intro other member left
    exact absurd (List.mem_cons_of_mem index member) left

theorem remove_outcome (holds : lru.Holds view.cell members)
    (member : index ∈ members) (owned : ∀ other ∈ members, other ∈ view.owned) :
    (lru.call (.remove index)).wp (slabSpec limit)
      (fun result view' => result.1 = none ∧
        Outcome lru members (members.erase index) view result.2 view') view := by
  rw [call, Program.wp_bind]
  apply wp_weaken (remove_spec holds member owned)
  intro lru' view' removed
  refine ⟨rfl, removed.1, ?_, ?_, ?_⟩
  · exact removed.2.1.mono (List.subset_append_left _ _)
  · intro other inside left
    have same : other = index := by
      by_contra different
      exact left ((List.mem_erase_of_ne different).mpr inside)
    rw [same]
    exact removed.2.2
  · intro none
    rw [none] at member
    cases member

theorem popBack_outcome (holds : lru.Holds view.cell members)
    (owned : ∀ other ∈ members, other ∈ view.owned) :
    (lru.call .popBack).wp (slabSpec limit)
      (fun result view' =>
        result.1 = some (members.getLastD kInvalidIndex) ∧
        Outcome lru members members.dropLast view result.2 view') view := by
  rw [call, Program.wp_bind]
  rcases List.eq_nil_or_concat members with rfl | ⟨front, last, rfl⟩
  · apply wp_weaken (popBack_nil_spec holds)
    intro popped view' unchanged
    rw [unchanged.1, unchanged.2]
    exact ⟨rfl, holds, Relinked.refl _ _, by simp, fun _ _ => ⟨rfl, rfl⟩⟩
  · rw [List.concat_eq_append] at holds owned ⊢
    apply wp_weaken (popBack_concat_spec holds owned)
    intro popped view' removed
    rw [List.dropLast_concat]
    refine ⟨by simp [removed.1], removed.2.1, ?_, ?_, by simp⟩
    · exact removed.2.2.1.mono (List.subset_append_left _ _)
    · intro other inside left
      have same : other = last := by
        rcases List.mem_append.mp inside with inFront | atLast
        · exact absurd inFront left
        · exact List.mem_singleton.mp atLast
      rw [same]
      exact removed.2.2.2

theorem moveToFront_outcome (holds : lru.Holds view.cell members)
    (member : index ∈ members) (owned : ∀ other ∈ members, other ∈ view.owned) :
    (lru.call (.moveToFront index)).wp (slabSpec limit)
      (fun result view' => result.1 = none ∧
        Outcome lru members (index :: members.erase index) view result.2 view')
      view := by
  rw [call, Program.wp_bind]
  apply wp_weaken (moveToFront_spec holds member owned)
  intro lru' view' moved
  refine ⟨rfl, moved.1, ?_, ?_, by simp⟩
  · exact moved.2.mono (List.subset_append_left _ _)
  · intro other inside left
    have stays : other ∈ index :: members.erase index :=
      (List.perm_cons_erase member).subset inside
    exact absurd stays left

end Specs

end IntrusiveLru

/-! ## The lists as sequences -/

/-- The members of each list, the front first, and what a call does to them. A
call that breaks a precondition has no outcome. -/
def Sequences.step (capacity : Nat) {count : Nat} :
    Machine (Fin count → List Nat) (Fin count × ListCall) (Option Nat)
  | members, (i, .pushFront index) =>
      if index < capacity ∧ ∀ j, index ∉ members j then
        some (none, Function.update members i (index :: members i))
      else none
  | members, (i, .remove index) =>
      if index ∈ members i then
        some (none, Function.update members i ((members i).erase index))
      else none
  | members, (i, .popBack) =>
      some (some ((members i).getLastD kInvalidIndex),
        Function.update members i (members i).dropLast)
  | members, (i, .moveToFront index) =>
      if index ∈ members i then
        some (none,
          Function.update members i (index :: (members i).erase index))
      else none

/-! ## The lists on the slab -/

structure ListSystem (count : Nat) where
  slab : SlabAllocator
  list : Fin count → IntrusiveLru

namespace ListSystem

variable {count : Nat}

def new (slab : SlabAllocator) : ListSystem count where
  slab
  list := fun _ => {}

def step : Machine (ListSystem count) (Fin count × ListCall) (Option Nat)
  | system, (i, call) =>
      (((system.list i).call call).run SlabAllocator.allocator.handler
        (system.slab, [])).map fun outcome => (outcome.1.1, {
          slab := outcome.2.1
          list := Function.update system.list i outcome.1.2 })

/-- The indices met from the head until the links end. A walk that does not end
is longer than the list. -/
def forward (system : ListSystem count) (i : Fin count) : List Nat :=
  Ring.walkUntil kInvalidIndex (fun index => (system.slab.pool index).next)
    ((system.list i).size + 1) (system.list i).head

def backward (system : ListSystem count) (i : Fin count) : List Nat :=
  Ring.walkUntil kInvalidIndex (fun index => (system.slab.pool index).prev)
    ((system.list i).size + 1) (system.list i).tail

structure WellFormed (system : ListSystem count) : Prop where
  backward : ∀ i, system.backward i = (system.forward i).reverse
  forward_length : ∀ i, (system.forward i).length = (system.list i).size
  backward_length : ∀ i, (system.backward i).length = (system.list i).size
  disjoint : ∀ i j index, index ∈ system.forward i →
    index ∈ system.forward j → i = j

/-- What a call on list `i` may change. -/
structure Framed (i : Fin count) (before after : ListSystem count) : Prop where
  others : ∀ j, j ≠ i → after.list j = before.list j ∧
    ∀ index ∈ before.forward j,
      after.slab.pool index = before.slab.pool index
  outside : ∀ index, index ∉ before.forward i → index ∉ after.forward i →
    after.slab.pool index = before.slab.pool index
  payload : ∀ index,
    (after.slab.pool index).key = (before.slab.pool index).key ∧
    (after.slab.pool index).value = (before.slab.pool index).value ∧
    (after.slab.pool index).segment = (before.slab.pool index).segment
  reset : ∀ index ∈ before.forward i, index ∉ after.forward i →
    (after.slab.pool index).prev = kInvalidIndex ∧
    (after.slab.pool index).next = kInvalidIndex
  empty : before.forward i = [] → after.forward i = [] → after = before

/-- Each list holds its members, and no index is on two lists. -/
structure Shows (capacity : Nat) (system : ListSystem count)
    (members : Fin count → List Nat) : Prop where
  slab : system.slab.capacity = capacity
  holds : ∀ i, (system.list i).Holds system.slab.pool (members i)
  within : ∀ i, ∀ index ∈ members i, index < capacity
  disjoint : ∀ i j index, index ∈ members i → index ∈ members j → i = j

theorem new_shows (slab : SlabAllocator) :
    (new slab : ListSystem count).Shows slab.capacity fun _ => [] where
  slab := rfl
  holds _ := .new slab.pool
  within := by simp
  disjoint := by simp

section Shows

variable {capacity : Nat} {system : ListSystem count}
  {members : Fin count → List Nat}

theorem Shows.forward (shows' : system.Shows capacity members) (i : Fin count) :
    system.forward i = members i := by
  have holds := shows'.holds i
  have links : ∀ index, index ≠ kInvalidIndex →
      (system.slab.pool index).next =
        (system.list i).nextLink system.slab.pool index := by
    intro index valid
    rw [IntrusiveLru.nextLink, if_neg valid]
  rw [ListSystem.forward, Ring.walkUntil_congr links, holds.size]
  exact holds.ring.walkUntil_next (Nat.lt_succ_self _)

theorem Shows.backward (shows' : system.Shows capacity members)
    (i : Fin count) : system.backward i = (members i).reverse := by
  have holds := shows'.holds i
  have links : ∀ index, index ≠ kInvalidIndex →
      (system.slab.pool index).prev =
        (system.list i).prevLink system.slab.pool index := by
    intro index valid
    rw [IntrusiveLru.prevLink, if_neg valid]
  rw [ListSystem.backward, Ring.walkUntil_congr links, holds.size]
  exact holds.ring.walkUntil_prev (Nat.lt_succ_self _)

theorem Shows.wellFormed (shows' : system.Shows capacity members) :
    system.WellFormed where
  backward i := by rw [shows'.backward, shows'.forward]
  forward_length i := by rw [shows'.forward, (shows'.holds i).size]
  backward_length i := by
    rw [shows'.backward, List.length_reverse, (shows'.holds i).size]
  disjoint i j index := by
    rw [shows'.forward, shows'.forward]
    exact shows'.disjoint i j index

end Shows

/-! ## A program on the nodes of one list -/

def view (slab : SlabAllocator) : SlabView where
  owned := Finset.range slab.capacity
  cell := slab.pool
  emitted := []

def Viewed (slab : SlabAllocator) (view : SlabView)
    (concrete : SlabAllocator × List DemotionItem) : Prop :=
  view.owned = Finset.range slab.capacity ∧
    concrete.1 = { slab with pool := view.cell }

theorem handler_implements (slab : SlabAllocator) (instr : SlabInstr)
    (onNodes : IntrusiveLru.OnNodes instr)
    (post : Pool.Answer instr → SlabView → Prop) (view : SlabView)
    (concrete : SlabAllocator × List DemotionItem)
    (viewed : Viewed slab view concrete)
    (holds : slabSpec none instr post view) :
    ∃ answer view' concrete',
      SlabAllocator.allocator.handler instr concrete =
        some (answer, concrete') ∧
      Viewed slab view' concrete' ∧ post answer view' := by
  rcases concrete with ⟨now, events⟩
  obtain ⟨owned, rfl⟩ := viewed
  have inside : ∀ index ∈ view.owned, index < slab.capacity := by
    intro index held
    rwa [owned, Finset.mem_range] at held
  cases instr with
  | read index =>
      refine ⟨view.cell index, view, ({ slab with pool := view.cell }, events),
        ?_, ⟨owned, rfl⟩, holds.2⟩
      change (SlabAllocator.node index _).map _ = _
      rw [SlabAllocator.node, if_pos (inside index holds.1)]
      rfl
  | write index node =>
      refine ⟨(), view.store index node, ({ slab with
        pool := Function.update view.cell index node }, events), ?_,
        ⟨owned, rfl⟩, holds.2⟩
      change (SlabAllocator.setNode index node _).map _ = _
      rw [SlabAllocator.setNode, if_pos (inside index holds.1)]
      rfl
  | fault => exact holds.elim
  | allocate => exact onNodes.elim
  | release index => exact onNodes.elim
  | emit event => exact onNodes.elim

/-! ## Steps -/

def relink (system : ListSystem count) (i : Fin count) (lru : IntrusiveLru)
    (cell : Nat → CacheNode) : ListSystem count where
  slab := { system.slab with pool := cell }
  list := Function.update system.list i lru

section Steps

variable {capacity : Nat} {system : ListSystem count}
  {members : Fin count → List Nat} {i : Fin count} {lru : IntrusiveLru}
  {cell : Nat → CacheNode}

@[simp] theorem relink_list_self :
    (system.relink i lru cell).list i = lru := Function.update_self _ _ _

theorem relink_list_of_ne {j : Fin count} (different : j ≠ i) :
    (system.relink i lru cell).list j = system.list j :=
  Function.update_of_ne different _ _

theorem relink_self :
    system.relink i (system.list i) system.slab.pool = system := by
  rw [relink, Function.update_eq_self]

variable {changed : List Nat} {view' : SlabView}

theorem Shows.elsewhere (shows' : system.Shows capacity members)
    (outcome : (system.list i).Outcome (members i) changed (view system.slab)
      lru view')
    (apart : ∀ j, j ≠ i → ∀ index ∈ members j, index ∉ changed)
    {j : Fin count} (different : j ≠ i) {index : Nat}
    (member : index ∈ members j) :
    view'.cell index = system.slab.pool index := by
  apply outcome.relinked.frame index
  rw [List.mem_append, not_or]
  exact ⟨fun also => different (shows'.disjoint j i index member also),
    apart j different index member⟩

theorem Shows.relink (shows' : system.Shows capacity members)
    (outcome : (system.list i).Outcome (members i) changed (view system.slab)
      lru view')
    (within : ∀ index ∈ changed, index < capacity)
    (apart : ∀ j, j ≠ i → ∀ index ∈ members j, index ∉ changed) :
    (system.relink i lru view'.cell).Shows capacity
      (Function.update members i changed) where
  slab := shows'.slab
  holds j := by
    by_cases same : j = i
    · subst same
      rw [relink_list_self, Function.update_self]
      exact outcome.holds
    · rw [relink_list_of_ne same, Function.update_of_ne same]
      exact (shows'.holds j).congr fun index => shows'.elsewhere outcome apart same
  within := (Function.forall_update_iff members fun _ list =>
    ∀ index ∈ list, index < capacity).mpr ⟨within, fun j _ => shows'.within j⟩
  disjoint j k index := by
    by_cases first : j = i <;> by_cases second : k = i
    · exact fun _ _ => first.trans second.symm
    · subst first
      rw [Function.update_self, Function.update_of_ne second]
      exact fun inside member => absurd inside (apart k second index member)
    · subst second
      rw [Function.update_self, Function.update_of_ne first]
      exact fun member inside => absurd inside (apart j first index member)
    · rw [Function.update_of_ne first, Function.update_of_ne second]
      exact shows'.disjoint j k index

theorem Shows.framed (shows' : system.Shows capacity members)
    (outcome : (system.list i).Outcome (members i) changed (view system.slab)
      lru view')
    (apart : ∀ j, j ≠ i → ∀ index ∈ members j, index ∉ changed)
    (after : (system.relink i lru view'.cell).Shows capacity
      (Function.update members i changed)) :
    system.Framed i (system.relink i lru view'.cell) := by
  have relinked := outcome.relinked
  have forward := after.forward i
  rw [Function.update_self] at forward
  refine ⟨fun j different => ⟨relink_list_of_ne different, ?_⟩, ?_, ?_, ?_, ?_⟩
  · rw [shows'.forward]
    exact fun index => shows'.elsewhere outcome apart different
  · rw [forward, shows'.forward]
    intro index notBefore notAfter
    exact relinked.frame index (by simp [notBefore, notAfter])
  · exact fun index =>
      ⟨relinked.key index, relinked.value index, relinked.segment index⟩
  · rw [forward, shows'.forward]
    exact outcome.reset
  · rw [forward, shows'.forward]
    intro noneBefore noneAfter
    rcases outcome.empty noneBefore noneAfter with ⟨rfl, rfl⟩
    exact relink_self

theorem Shows.step_of_outcome (shows' : system.Shows capacity members)
    {call : ListCall} {reply : Option Nat}
    (does : ((system.list i).call call).wp (slabSpec none)
      (fun result view' => result.1 = reply ∧
        (system.list i).Outcome (members i) changed (view system.slab)
          result.2 view') (view system.slab))
    (within : ∀ index ∈ changed, index < capacity)
    (apart : ∀ j, j ≠ i → ∀ index ∈ members j, index ∉ changed) :
    ∃ after, step system (i, call) = some (reply, after) ∧
      after.Shows capacity (Function.update members i changed) ∧
      system.Framed i after := by
  have viewed : Viewed system.slab (view system.slab) (system.slab, []) :=
    ⟨rfl, rfl⟩
  rcases (IntrusiveLru.call_uses (system.list i) call).run_of_wp
      (handler_implements system.slab) viewed does with
    ⟨⟨answer, lru⟩, view', ⟨slab, events⟩, ran, ⟨-, rfl⟩, rfl, outcome⟩
  have after := shows'.relink outcome within apart
  refine ⟨system.relink i lru view'.cell, ?_, after,
    shows'.framed outcome apart after⟩
  rw [step, ran]
  rfl

/-- Each call does to its list what it does to the sequence. -/
theorem Shows.step (shows' : system.Shows capacity members)
    (fits : capacity ≤ kInvalidIndex) {call : ListCall} {reply : Option Nat}
    {members' : Fin count → List Nat}
    (stepped : Sequences.step capacity members (i, call) =
      some (reply, members')) :
    ∃ after, ListSystem.step system (i, call) = some (reply, after) ∧
      after.Shows capacity members' ∧ system.Framed i after := by
  have holds : (system.list i).Holds (view system.slab).cell (members i) :=
    shows'.holds i
  have owned : ∀ index, index < capacity → index ∈ (view system.slab).owned := by
    intro index below
    rwa [view, shows'.slab, Finset.mem_range]
  have within := shows'.within i
  have held : ∀ index ∈ members i, index ∈ (view system.slab).owned :=
    fun index member => owned index (within index member)
  have others : ∀ j, j ≠ i → ∀ index ∈ members j, index ∉ members i :=
    fun j different index member also =>
      different (shows'.disjoint j i index member also)
  cases call with
  | pushFront index =>
      rw [Sequences.step] at stepped
      split at stepped
      · rename_i accepted
        cases stepped
        refine shows'.step_of_outcome (IntrusiveLru.pushFront_outcome holds
          ?_ (accepted.2 i) (owned index accepted.1) held) ?_ ?_
        · exact Nat.ne_of_lt (accepted.1.trans_le fits)
        · exact List.forall_mem_cons.mpr ⟨accepted.1, within⟩
        · intro j different other member
          rw [List.mem_cons, not_or]
          refine ⟨?_, others j different other member⟩
          rintro rfl
          exact accepted.2 j member
      · cases stepped
  | remove index =>
      rw [Sequences.step] at stepped
      split at stepped
      · rename_i member
        cases stepped
        refine shows'.step_of_outcome
          (IntrusiveLru.remove_outcome holds member held) ?_ ?_
        · exact fun other left => within other (List.mem_of_mem_erase left)
        · exact fun j different other inside left =>
            others j different other inside (List.mem_of_mem_erase left)
      · cases stepped
  | popBack =>
      cases stepped
      refine shows'.step_of_outcome (IntrusiveLru.popBack_outcome holds held) ?_ ?_
      · exact fun other left => within other (List.mem_of_mem_dropLast left)
      · exact fun j different other inside left =>
          others j different other inside (List.mem_of_mem_dropLast left)
  | moveToFront index =>
      rw [Sequences.step] at stepped
      split at stepped
      · rename_i member
        cases stepped
        have same : ∀ other, other ∈ index :: (members i).erase index ↔
            other ∈ members i := fun other =>
          (List.perm_cons_erase member).mem_iff.symm
        refine shows'.step_of_outcome
          (IntrusiveLru.moveToFront_outcome holds member held) ?_ ?_
        · exact fun other inside => within other ((same other).mp inside)
        · exact fun j different other inside moved =>
            others j different other inside ((same other).mp moved)
      · cases stepped

end Steps

/-! ## Runs -/

section Runs

variable {capacity : Nat} {system : ListSystem count}
  {members : Fin count → List Nat}

theorem Shows.run (shows' : system.Shows capacity members)
    (fits : capacity ≤ kInvalidIndex) {calls : List (Fin count × ListCall)}
    {replies : List (Option Nat)} {members' : Fin count → List Nat}
    (ran : (Sequences.step capacity).run calls members =
      some (replies, members')) :
    ∃ after, ListSystem.step.run calls system = some (replies, after) ∧
      after.Shows capacity members' ∧ ∀ index,
        (after.slab.pool index).key = (system.slab.pool index).key ∧
        (after.slab.pool index).value = (system.slab.pool index).value ∧
        (after.slab.pool index).segment = (system.slab.pool index).segment := by
  induction calls generalizing system members replies with
  | nil =>
      cases ran
      exact ⟨system, rfl, shows', fun _ => ⟨rfl, rfl, rfl⟩⟩
  | cons head rest induction =>
      rcases Machine.run_cons_eq_some ran with
        ⟨reply, middle, others, stepped, ranRest, rfl⟩
      rcases shows'.step fits stepped with ⟨next, stepped', shows'', framed⟩
      rcases induction shows'' ranRest with ⟨after, ran', final, kept⟩
      refine ⟨after, Machine.run_cons stepped' ran', final, fun index => ?_⟩
      have first := framed.payload index
      have later := kept index
      exact ⟨later.1.trans first.1, later.2.1.trans first.2.1,
        later.2.2.trans first.2.2⟩

/-- In every run that keeps to the preconditions each list is well formed and
in both directions the sequence that it stands for, and each call leaves
everything else as it was. -/
theorem run_refines_sequences (shows' : system.Shows capacity members)
    (fits : capacity ≤ kInvalidIndex) (calls : List (Fin count × ListCall))
    {replies : List (Option Nat)} {members' : Fin count → List Nat}
    (ran : (Sequences.step capacity).run calls members =
      some (replies, members'))
    (i : Fin count) (call : ListCall) {reply : Option Nat}
    {members'' : Fin count → List Nat}
    (stepped : Sequences.step capacity members' (i, call) =
      some (reply, members'')) :
    ∃ before after,
      step.run calls system = some (replies, before) ∧
      before.WellFormed ∧ before.forward = members' ∧
      step before (i, call) = some (reply, after) ∧
      after.WellFormed ∧ after.forward = members'' ∧
      before.Framed i after := by
  rcases shows'.run fits ran with ⟨before, ran', showsBefore, -⟩
  rcases showsBefore.step fits stepped with
    ⟨after, stepped', showsAfter, framed⟩
  exact ⟨before, after, ran', showsBefore.wellFormed,
    funext showsBefore.forward, stepped', showsAfter.wellFormed,
    funext showsAfter.forward, framed⟩

/-- Two lists on a slab of three nodes. -/
theorem run_refines_sequences_sample :
    ∃ slab, SlabAllocator.new 3 = some slab ∧
      ∃ before after : ListSystem 2,
        step.run [(0, .pushFront 2), (0, .pushFront 0), (1, .pushFront 1),
          (0, .moveToFront 2), (0, .popBack)] (new slab) =
          some ([none, none, none, none, some 0], before) ∧
        before.WellFormed ∧ before.forward = ![[2], [1]] ∧
        step before (1, .remove 1) = some (none, after) ∧
        after.WellFormed ∧ after.forward = ![[2], []] ∧
        before.Framed 1 after := by
  refine ⟨_, rfl, ?_⟩
  exact run_refines_sequences (new_shows _) (by decide) _ (by decide) 1
    (.remove 1) (by decide)

end Runs

end ListSystem

end Walde
