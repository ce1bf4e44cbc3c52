import Walde.Foundation.RingList
import Walde.Types

namespace Walde

/-! # Intrusive lists on the slab -/

structure IntrusiveLru where
  head : Nat := kInvalidIndex
  tail : Nat := kInvalidIndex
  /-- Counts distinct indices below `kInvalidIndex`, so 32 bits hold it. -/
  size : Nat := 0
deriving DecidableEq, Repr

namespace IntrusiveLru

open SlabProgram

def peekBack (lru : IntrusiveLru) : Nat := lru.tail

def empty (lru : IntrusiveLru) : Bool := lru.size == 0

def pushFront (lru : IntrusiveLru) (index : Nat) : SlabProgram IntrusiveLru := do
  assert (index ≠ kInvalidIndex)
  modifyNode index fun node =>
    { node with prev := kInvalidIndex, next := lru.head }
  if lru.head ≠ kInvalidIndex then
    modifyNode lru.head fun node => { node with prev := index }
    return { lru with head := index, size := lru.size + 1 }
  else
    return { head := index, tail := index, size := lru.size + 1 }

/-- The first half of `remove`: the node before `index`, or the head, skips it. -/
def unlinkBefore (lru : IntrusiveLru) (index : Nat) :
    SlabProgram IntrusiveLru := do
  let node ← SlabProgram.node index
  if node.prev ≠ kInvalidIndex then
    modifyNode node.prev fun before => { before with next := node.next }
    return lru
  else
    return { lru with head := node.next }

/-- The second half of `remove`: the node after `index`, or the tail, skips it. -/
def unlinkAfter (lru : IntrusiveLru) (index : Nat) :
    SlabProgram IntrusiveLru := do
  let node ← SlabProgram.node index
  if node.next ≠ kInvalidIndex then
    modifyNode node.next fun after => { after with prev := node.prev }
    return lru
  else
    return { lru with tail := node.prev }

def remove (lru : IntrusiveLru) (index : Nat) : SlabProgram IntrusiveLru := do
  assert (index ≠ kInvalidIndex)
  assert (0 < lru.size)
  let lru ← lru.unlinkBefore index
  let lru ← lru.unlinkAfter index
  modifyNode index fun node =>
    { node with prev := kInvalidIndex, next := kInvalidIndex }
  return { lru with size := lru.size - 1 }

def popBack (lru : IntrusiveLru) : SlabProgram (Nat × IntrusiveLru) := do
  if lru.tail = kInvalidIndex then
    return (kInvalidIndex, lru)
  else
    let victim := lru.tail
    let lru ← lru.remove victim
    return (victim, lru)

def moveToFront (lru : IntrusiveLru) (index : Nat) :
    SlabProgram IntrusiveLru := do
  assert (index ≠ kInvalidIndex)
  if index = lru.head then
    return lru
  else
    let lru ← lru.remove index
    lru.pushFront index

/-! ## What a list stands for -/

def nextLink (lru : IntrusiveLru) (cell : Nat → CacheNode) (index : Nat) : Nat :=
  if index = kInvalidIndex then lru.head else (cell index).next

def prevLink (lru : IntrusiveLru) (cell : Nat → CacheNode) (index : Nat) : Nat :=
  if index = kInvalidIndex then lru.tail else (cell index).prev

/-- The list is well formed and its members are `members`, front first. -/
structure Holds (lru : IntrusiveLru) (cell : Nat → CacheNode)
    (members : List Nat) : Prop where
  ring : Foundation.Ring (lru.nextLink cell) (lru.prevLink cell) kInvalidIndex
    members
  size : lru.size = members.length

/-- From `view` to `view'` only links changed, and only those of `touched`. -/
structure Relinked (touched : List Nat) (view view' : SlabView) : Prop where
  owned : view'.owned = view.owned
  emitted : view'.emitted = view.emitted
  key : ∀ index, (view'.cell index).key = (view.cell index).key
  value : ∀ index, (view'.cell index).value = (view.cell index).value
  segment : ∀ index, (view'.cell index).segment = (view.cell index).segment
  frame : ∀ index, index ∉ touched → view'.cell index = view.cell index

theorem Relinked.refl (touched : List Nat) (view : SlabView) :
    Relinked touched view view :=
  ⟨rfl, rfl, fun _ => rfl, fun _ => rfl, fun _ => rfl, fun _ _ => rfl⟩

theorem Relinked.trans {touched touched' : List Nat}
    {first second third : SlabView} (left : Relinked touched first second)
    (right : Relinked touched' second third) (subset : touched' ⊆ touched) :
    Relinked touched first third where
  owned := right.owned.trans left.owned
  emitted := right.emitted.trans left.emitted
  key index := (right.key index).trans (left.key index)
  value index := (right.value index).trans (left.value index)
  segment index := (right.segment index).trans (left.segment index)
  frame index outside := (right.frame index fun member =>
    outside (subset member)).trans (left.frame index outside)

theorem Relinked.mono {touched touched' : List Nat} {view view' : SlabView}
    (relinked : Relinked touched view view') (subset : touched ⊆ touched') :
    Relinked touched' view view' :=
  { relinked with
    frame := fun index outside => relinked.frame index fun member =>
      outside (subset member) }

theorem Relinked.store {touched : List Nat} (view : SlabView) {index : Nat}
    (inside : index ∈ touched) {node : CacheNode}
    (key : node.key = (view.cell index).key)
    (value : node.value = (view.cell index).value)
    (segment : node.segment = (view.cell index).segment) :
    Relinked touched view (view.store index node) where
  owned := rfl
  emitted := rfl
  key other := by by_cases equal : other = index <;> simp [equal, key]
  value other := by by_cases equal : other = index <;> simp [equal, value]
  segment other := by by_cases equal : other = index <;> simp [equal, segment]
  frame other outside := by
    have different : other ≠ index := by
      rintro rfl
      exact outside inside
    simp [different]

theorem Relinked.thenStore {touched : List Nat} {first second : SlabView}
    (relinked : Relinked touched first second) {index : Nat}
    (inside : index ∈ touched) {node : CacheNode}
    (key : node.key = (second.cell index).key)
    (value : node.value = (second.cell index).value)
    (segment : node.segment = (second.cell index).segment) :
    Relinked touched first (second.store index node) :=
  relinked.trans (Relinked.store second inside key value segment)
    (List.Subset.refl _)

namespace Holds

variable {lru : IntrusiveLru} {cell cell' : Nat → CacheNode}
  {members : List Nat}

theorem nodup (holds : lru.Holds cell members) : members.Nodup :=
  holds.ring.members_nodup

theorem ne_invalid (holds : lru.Holds cell members) {index : Nat}
    (member : index ∈ members) : index ≠ kInvalidIndex := by
  rintro rfl
  exact holds.ring.sentinel_notMem member

theorem new (cell : Nat → CacheNode) : ({} : IntrusiveLru).Holds cell [] :=
  ⟨.nil rfl rfl, rfl⟩

theorem congr (holds : lru.Holds cell members)
    (same : ∀ index ∈ members, cell' index = cell index) :
    lru.Holds cell' members := by
  refine ⟨holds.ring.congr ?_ ?_, holds.size⟩
  · intro index member
    unfold nextLink
    split
    · rfl
    · rename_i valid
      rw [same index ((List.mem_cons.mp member).resolve_left valid)]
  · intro index member
    unfold prevLink
    split
    · rfl
    · rename_i valid
      rw [same index ((List.mem_cons.mp member).resolve_left valid)]

theorem congr_links (holds : lru.Holds cell members)
    (same : ∀ index ∈ members, (cell' index).next = (cell index).next ∧
      (cell' index).prev = (cell index).prev) :
    lru.Holds cell' members := by
  refine ⟨holds.ring.congr ?_ ?_, holds.size⟩
  · intro index member
    unfold nextLink
    split
    · rfl
    · rename_i valid
      exact (same index ((List.mem_cons.mp member).resolve_left valid)).1
  · intro index member
    unfold prevLink
    split
    · rfl
    · rename_i valid
      exact (same index ((List.mem_cons.mp member).resolve_left valid)).2

theorem head_eq (holds : lru.Holds cell members) :
    lru.head = members.headD kInvalidIndex := by
  simpa [nextLink] using holds.ring.next_sentinel

theorem tail_eq (holds : lru.Holds cell members) :
    lru.tail = members.getLastD kInvalidIndex := by
  simpa [prevLink] using holds.ring.prev_sentinel

theorem head_mem (holds : lru.Holds cell members)
    (valid : lru.head ≠ kInvalidIndex) : lru.head ∈ members := by
  have member := holds.ring.next_sentinel_mem
  simpa [nextLink, valid] using member

theorem empty_iff (holds : lru.Holds cell members) :
    lru.empty = true ↔ members = [] := by
  simp [empty, holds.size]

theorem tail_invalid_iff (holds : lru.Holds cell members) :
    lru.tail = kInvalidIndex ↔ members = [] := by
  simpa [prevLink] using holds.ring.prev_sentinel_eq_iff

end Holds

/-! ## The operations act on the members as list operations -/

section Specs

variable {limit : Option Nat} {lru : IntrusiveLru} {members : List Nat}
  {view : SlabView} {index : Nat}

theorem pushFront_spec (holds : lru.Holds view.cell members)
    (valid : index ≠ kInvalidIndex) (fresh : index ∉ members)
    (held : index ∈ view.owned) (owned : ∀ other ∈ members, other ∈ view.owned) :
    (lru.pushFront index).wp (slabSpec limit)
      (fun lru' view' => lru'.Holds view'.cell (index :: members) ∧
        Relinked (index :: members) view view') view := by
  have outside : index ∉ kInvalidIndex :: members := by simp [valid, fresh]
  simp only [pushFront, Foundation.Program.wp_bind, wp_assert, wp_modifyNode]
  refine ⟨valid, held, ?_⟩
  have headNext : lru.nextLink view.cell kInvalidIndex = lru.head := by
    simp [nextLink]
  split
  · rename_i headValid
    have headMem := holds.head_mem headValid
    have headOther : lru.head ≠ index := by
      intro equal
      exact fresh (equal ▸ headMem)
    simp only [Foundation.Program.wp_bind, wp_modifyNode,
      Foundation.Program.wp_pure]
    refine ⟨owned _ headMem, ⟨?_, by simp [holds.size]⟩, ?_⟩
    · apply holds.ring.pushFront outside
      · simp [nextLink, valid, Function.update, Ne.symm headOther]
      · simp [prevLink, valid, Function.update, Ne.symm headOther]
      · simp [nextLink]
      · simp [headNext, prevLink, headValid]
      · intro other member
        have different : other ≠ index := by
          rintro rfl
          exact fresh member
        have otherValid := holds.ne_invalid member
        by_cases atHead : other = lru.head <;>
          simp [nextLink, Function.update, different, otherValid, atHead,
            headOther, headValid]
      · intro other member notHead
        rw [headNext] at notHead
        by_cases otherValid : other = kInvalidIndex
        · simp [prevLink, otherValid]
        · have inside := (List.mem_cons.mp member).resolve_left otherValid
          have different : other ≠ index := by
            rintro rfl
            exact fresh inside
          simp [prevLink, Function.update, different, otherValid, notHead]
    · refine Relinked.thenStore ?_ (List.mem_cons_of_mem _ headMem) rfl rfl rfl
      exact Relinked.store view (by simp) rfl rfl rfl
  · rename_i headInvalid
    have headEqual : lru.head = kInvalidIndex := by simpa using headInvalid
    have membersNil : members = [] := by
      rw [← holds.ring.next_sentinel_eq_iff, headNext]
      exact headEqual
    subst membersNil
    simp only [Foundation.Program.wp_pure]
    refine ⟨⟨?_, by simp [holds.size]⟩, Relinked.store view (by simp) rfl rfl rfl⟩
    apply holds.ring.pushFront outside
    · simp [nextLink, valid]
    · simp [prevLink, valid]
    · simp [nextLink]
    · simp [headNext, headEqual, prevLink]
    · simp
    · simp [headNext, headEqual]

theorem unlinkBefore_spec (holds : lru.Holds view.cell members)
    (member : index ∈ members) (owned : ∀ other ∈ members, other ∈ view.owned) :
    (lru.unlinkBefore index).wp (slabSpec limit)
      (fun lru' view' => Relinked members view view' ∧
        lru'.size = lru.size ∧
        lru'.nextLink view'.cell = Function.update (lru.nextLink view.cell)
          (lru.prevLink view.cell index) (lru.nextLink view.cell index) ∧
        lru'.prevLink view'.cell = lru.prevLink view.cell) view := by
  have valid := holds.ne_invalid member
  have prevIndex : lru.prevLink view.cell index = (view.cell index).prev := by
    simp [prevLink, valid]
  have nextIndex : lru.nextLink view.cell index = (view.cell index).next := by
    simp [nextLink, valid]
  have prevMem := holds.ring.prev_mem member
  rw [prevIndex] at prevMem
  simp only [unlinkBefore, Foundation.Program.wp_bind, wp_node, prevIndex,
    nextIndex]
  refine ⟨owned _ member, ?_⟩
  split
  · rename_i prevValid
    have prevMem := (List.mem_cons.mp prevMem).resolve_left prevValid
    simp only [Foundation.Program.wp_bind, wp_modifyNode,
      Foundation.Program.wp_pure]
    refine ⟨owned _ prevMem, Relinked.store _ prevMem rfl rfl rfl, trivial,
      ?_, ?_⟩
    · funext other
      by_cases equal : other = (view.cell index).prev
      · simp [nextLink, equal, prevValid]
      · simp [nextLink, equal]
    · funext other
      by_cases equal : other = (view.cell index).prev <;>
        simp [prevLink, equal]
  · rename_i prevInvalid
    have prevEqual : (view.cell index).prev = kInvalidIndex := by
      simpa using prevInvalid
    rw [prevEqual]
    refine ⟨Relinked.refl _ _, rfl, ?_, rfl⟩
    funext other
    by_cases equal : other = kInvalidIndex <;> simp [nextLink, equal]

theorem unlinkAfter_spec {successor : Nat}
    (member : index ∈ members) (valid : ∀ other ∈ members, other ≠ kInvalidIndex)
    (owned : ∀ other ∈ members, other ∈ view.owned)
    (nextIndex : lru.nextLink view.cell index = successor)
    (nextMem : successor ∈ kInvalidIndex :: members) :
    (lru.unlinkAfter index).wp (slabSpec limit)
      (fun lru' view' => Relinked members view view' ∧
        lru'.size = lru.size ∧
        lru'.nextLink view'.cell = lru.nextLink view.cell ∧
        lru'.prevLink view'.cell = Function.update (lru.prevLink view.cell)
          successor (lru.prevLink view.cell index)) view := by
  have indexValid := valid index member
  have prevIndex : lru.prevLink view.cell index = (view.cell index).prev := by
    simp [prevLink, indexValid]
  have nextCell : (view.cell index).next = successor := by
    simpa [nextLink, indexValid] using nextIndex
  simp only [unlinkAfter, Foundation.Program.wp_bind, wp_node, prevIndex,
    nextCell]
  refine ⟨owned _ member, ?_⟩
  split
  · rename_i nextValid
    have nextMem := (List.mem_cons.mp nextMem).resolve_left nextValid
    simp only [Foundation.Program.wp_bind, wp_modifyNode,
      Foundation.Program.wp_pure]
    refine ⟨owned _ nextMem, Relinked.store _ nextMem rfl rfl rfl, trivial,
      ?_, ?_⟩
    · funext other
      by_cases equal : other = successor <;> simp [nextLink, equal]
    · funext other
      by_cases equal : other = successor
      · simp [prevLink, equal, nextValid]
      · simp [prevLink, equal]
  · rename_i nextInvalid
    have nextEqual : successor = kInvalidIndex := by simpa using nextInvalid
    rw [nextEqual]
    refine ⟨Relinked.refl _ _, rfl, rfl, ?_⟩
    funext other
    by_cases equal : other = kInvalidIndex <;> simp [prevLink, equal]

theorem remove_spec (holds : lru.Holds view.cell members)
    (member : index ∈ members) (owned : ∀ other ∈ members, other ∈ view.owned) :
    (lru.remove index).wp (slabSpec limit)
      (fun lru' view' => lru'.Holds view'.cell (members.erase index) ∧
        Relinked members view view' ∧
        (view'.cell index).prev = kInvalidIndex ∧
        (view'.cell index).next = kInvalidIndex) view := by
  have valid := holds.ne_invalid member
  have positive : 0 < lru.size := by
    rw [holds.size]
    exact List.length_pos_of_mem member
  simp only [remove, Foundation.Program.wp_bind, wp_assert]
  refine ⟨valid, positive, wp_weaken (unlinkBefore_spec holds member owned) ?_⟩
  rintro middle viewMiddle ⟨before, sizeMiddle, nextMiddle, prevMiddle⟩
  -- a ring never links an element to itself
  have notSelf := holds.ring.prev_ne_self member
  have nextIndex : middle.nextLink viewMiddle.cell index =
      lru.nextLink view.cell index := by
    rw [nextMiddle, Function.update_of_ne (Ne.symm notSelf)]
  rw [Foundation.Program.wp_bind]
  refine wp_weaken (unlinkAfter_spec member (fun _ => holds.ne_invalid)
    (fun other inside => before.owned ▸ owned other inside) nextIndex
    (holds.ring.next_mem member)) ?_
  rintro last viewLast ⟨after, sizeLast, nextLast, prevLast⟩
  have relinked := before.trans after (List.Subset.refl _)
  simp only [Foundation.Program.wp_bind, wp_modifyNode,
    Foundation.Program.wp_pure]
  -- clearing the links of `index` itself shows nowhere else
  have cleared : ∀ (node : CacheNode) other, other ≠ index →
      (nextLink { last with size := last.size - 1 }
        (Function.update viewLast.cell index node) other =
          last.nextLink viewLast.cell other) ∧
      (prevLink { last with size := last.size - 1 }
        (Function.update viewLast.cell index node) other =
          last.prevLink viewLast.cell other) := by
    intro node other different
    simp [nextLink, prevLink, different]
  refine ⟨relinked.owned ▸ owned _ member, ⟨?_, ?_⟩, ?_, by simp, by simp⟩
  · rw [nextMiddle] at nextLast
    rw [prevMiddle] at prevLast
    apply holds.ring.unlink member
    · simp [(cleared _ _ notSelf).1, nextLast]
    · simp [(cleared _ _ (holds.ring.next_ne_self member)).2, prevLast]
    · intro other _ different notBefore
      simp [(cleared _ _ different).1, nextLast, notBefore]
    · intro other _ different notAfter
      simp [(cleared _ _ different).2, prevLast, notAfter]
  · simp [sizeLast, sizeMiddle, holds.size, List.length_erase_of_mem member]
  · exact relinked.thenStore member rfl rfl rfl

theorem popBack_nil_spec (holds : lru.Holds view.cell []) :
    lru.popBack.wp (slabSpec limit)
      (fun popped view' => popped = (kInvalidIndex, lru) ∧ view' = view)
      view := by
  have atEnd := holds.tail_invalid_iff.mpr rfl
  simp only [popBack, if_pos atEnd, Foundation.Program.wp_pure, and_self]

theorem popBack_concat_spec {front : List Nat} {last : Nat}
    (holds : lru.Holds view.cell (front ++ [last]))
    (owned : ∀ other ∈ front ++ [last], other ∈ view.owned) :
    lru.popBack.wp (slabSpec limit)
      (fun popped view' => popped.1 = last ∧
        popped.2.Holds view'.cell front ∧
        Relinked (front ++ [last]) view view' ∧
        (view'.cell last).prev = kInvalidIndex ∧
        (view'.cell last).next = kInvalidIndex) view := by
  have nonempty : lru.tail ≠ kInvalidIndex := by
    rw [Ne, holds.tail_invalid_iff]
    simp
  have tailEqual : lru.tail = last := by simp [holds.tail_eq]
  have notFront : last ∉ front := by
    have apart := (List.nodup_append.mp holds.nodup).2.2
    intro member
    exact apart last member last (by simp) rfl
  have erased : (front ++ [last]).erase last = front := by
    rw [List.erase_append_right _ notFront]
    simp
  have member : last ∈ front ++ [last] := by simp
  rw [popBack, if_neg nonempty, Foundation.Program.wp_bind, tailEqual]
  refine wp_weaken (remove_spec holds member owned) ?_
  intro lru' view' removed
  rw [erased] at removed
  exact ⟨rfl, removed⟩

theorem moveToFront_spec (holds : lru.Holds view.cell members)
    (member : index ∈ members) (owned : ∀ other ∈ members, other ∈ view.owned) :
    (lru.moveToFront index).wp (slabSpec limit)
      (fun lru' view' =>
        lru'.Holds view'.cell (index :: members.erase index) ∧
        Relinked members view view') view := by
  have valid := holds.ne_invalid member
  simp only [moveToFront, Foundation.Program.wp_bind, wp_assert]
  refine ⟨valid, ?_⟩
  split
  · rename_i atHead
    have unmoved : index :: members.erase index = members := by
      cases members with
      | nil => simp at member
      | cons first rest =>
          have headEqual := holds.head_eq
          simp only [List.headD_cons] at headEqual
          simp [atHead, headEqual]
    rw [unmoved]
    exact ⟨holds, Relinked.refl _ _⟩
  · rw [Foundation.Program.wp_bind]
    refine wp_weaken (remove_spec holds member owned) ?_
    rintro middle viewMiddle ⟨removed, relinked, -, -⟩
    have notLeft : index ∉ members.erase index := fun left =>
      (List.Nodup.mem_erase_iff holds.nodup).mp left |>.1 rfl
    refine wp_weaken (pushFront_spec removed valid notLeft
      (relinked.owned ▸ owned _ member)
      (fun other inside => relinked.owned ▸ owned other
        (List.mem_of_mem_erase inside))) ?_
    rintro last viewLast ⟨pushed, further⟩
    refine ⟨pushed, relinked.trans further ?_⟩
    intro other inside
    rcases List.mem_cons.mp inside with rfl | inside
    · exact member
    · exact List.mem_of_mem_erase inside

end Specs

end IntrusiveLru

end Walde
