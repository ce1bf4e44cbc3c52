import Walde.FreeCount

namespace Walde.SlabThreads

open Foundation SlabAllocator

/-! # The free list among threads

Between a load of `head_` and the exchange, other threads take slots, use them
and give them back. The tag of the head tells: it counts the exchanges. -/

section Tags

theorem unpackTag_pack {index tag : Nat} (fits : index < uint32Size) :
    unpackTag (pack index tag) = tag := by
  have low : index >>> 32 = 0 := by
    rw [Nat.shiftRight_eq_div_pow]
    exact Nat.div_eq_of_lt fits
  rw [unpackTag, pack, Nat.shiftRight_or_distrib, low, Nat.or_zero,
    Nat.shiftLeft_shiftRight]

end Tags

variable {Thread : Type}

/-! ## The invariant -/

/-- What a thread knows of the word that it last read from `head_`. -/
structure Read (state : SlabThreads Thread) (thread : Thread) (old : Nat) :
    Prop where
  past : state.readAt thread ≤ state.exchanges
  tag : unpackTag old = state.readAt thread % uint32Size
  inRange : unpackIndex old = kInvalidIndex ∨
    unpackIndex old < state.slab.capacity
  /-- Without an exchange since, it is still there. -/
  current : state.readAt thread = state.exchanges → state.slab.head = old

def Known (state : SlabThreads Thread) (thread : Thread) : Prop :=
  match state.point thread with
  | .reading old => state.Read thread old
  | .exchanging old new => state.Read thread old ∧
      (state.readAt thread = state.exchanges →
        new = state.slab.freeNext (unpackIndex old))
  | .returning index =>
      index = kInvalidIndex → state.lastFree thread = []
  | .linking _ old => state.Read thread old
  | .publishing index old => state.Read thread old ∧
      state.slab.freeNext index = unpackIndex old
  | _ => True

/-- The free list is `free`, and every index is free or in the hands of exactly
one thread. -/
structure Sound [Fintype Thread] (capacity : Nat) (free : List Nat)
    (state : SlabThreads Thread) : Prop where
  total : state.slab.capacity = capacity
  bounded : capacity ≤ kInvalidIndex
  valid : state.Valid
  chain : FreeChain state.slab.freeNext (unpackIndex state.slab.head) free
  tag : unpackTag state.slab.head = state.exchanges % uint32Size
  cover : (free : Multiset Nat) +
    ∑ thread, (state.owned thread : Multiset Nat) = Multiset.range capacity
  known : ∀ thread, state.Known thread

section Sound

variable [Fintype Thread] [DecidableEq Thread] {capacity : Nat}
  {free : List Nat} {state after : SlabThreads Thread} {thread : Thread}

omit [DecidableEq Thread] in
theorem Sound.whole_nodup (sound : Sound capacity free state) :
    ((free : Multiset Nat) +
      ∑ thread, (state.owned thread : Multiset Nat)).Nodup := by
  rw [sound.cover]
  exact Multiset.nodup_range capacity

omit [DecidableEq Thread] in
theorem Sound.free_nodup (sound : Sound capacity free state) : free.Nodup :=
  Multiset.coe_nodup.mp (Multiset.nodup_add.mp sound.whole_nodup).1

omit [DecidableEq Thread] in
theorem Sound.mem_iff (sound : Sound capacity free state) {index : Nat} :
    index < capacity ↔
      index ∈ free ∨ ∃ thread, index ∈ state.owned thread := by
  have whole := congrArg (index ∈ ·) sound.cover
  simp only [Multiset.mem_add, Multiset.mem_coe, Multiset.mem_sum,
    Finset.mem_univ, true_and, Multiset.mem_range] at whole
  exact iff_of_eq whole.symm

omit [DecidableEq Thread] in
theorem Sound.free_lt (sound : Sound capacity free state) {index : Nat}
    (member : index ∈ free) : index < capacity :=
  sound.mem_iff.mpr (.inl member)

omit [DecidableEq Thread] in
theorem Sound.owned_lt (sound : Sound capacity free state) {index : Nat}
    (owned : index ∈ state.owned thread) : index < capacity :=
  sound.mem_iff.mpr (.inr ⟨thread, owned⟩)

omit [DecidableEq Thread] in
theorem Sound.owned_notFree (sound : Sound capacity free state) {index : Nat}
    (owned : index ∈ state.owned thread) : index ∉ free := by
  intro member
  have apart := (Multiset.nodup_add.mp sound.whole_nodup).2.2
  exact Multiset.disjoint_left.mp apart (Multiset.mem_coe.mpr member)
    (Multiset.mem_sum.mpr ⟨thread, Finset.mem_univ _, owned⟩)

theorem Sound.owner_unique (sound : Sound capacity free state)
    {other : Thread} {index : Nat} (owned : index ∈ state.owned thread)
    (alsoOwned : index ∈ state.owned other) : thread = other :=
  part_unique (Multiset.nodup_add.mp sound.whole_nodup).2.1 owned alsoOwned

theorem Sound.owned_nodup (sound : Sound capacity free state)
    (thread : Thread) : (state.owned thread).Nodup :=
  Multiset.coe_nodup.mp
    (part_nodup (Multiset.nodup_add.mp sound.whole_nodup).2.1 thread)

omit [DecidableEq Thread] in
theorem Sound.freeIndices_eq (sound : Sound capacity free state) :
    state.slab.freeIndices = free := by
  apply sound.chain.walkFree_eq
  have subset : free ⊆ List.range state.slab.capacity := fun index member =>
    List.mem_range.mpr (sound.total ▸ sound.free_lt member)
  simpa using (List.subperm_of_subset sound.free_nodup subset).length_le

omit [DecidableEq Thread] in
theorem Sound.head_inRange (sound : Sound capacity free state) :
    unpackIndex state.slab.head = kInvalidIndex ∨
      unpackIndex state.slab.head < state.slab.capacity := by
  have chain := sound.chain
  cases free with
  | nil => exact .inl chain
  | cons index rest =>
      right
      rw [chain.1, sound.total]
      exact sound.free_lt List.mem_cons_self

omit [DecidableEq Thread] in
theorem Sound.free_nil (sound : Sound capacity free state)
    (atEnd : unpackIndex state.slab.head = kInvalidIndex) : free = [] := by
  have chain := sound.chain
  cases free with
  | nil => rfl
  | cons index rest => exact absurd (chain.1.symm.trans atEnd) chain.2.1

omit [Fintype Thread] [DecidableEq Thread] in
theorem lt_uint32Size {index : Nat} (bounded : capacity ≤ kInvalidIndex)
    (inside : index < capacity) : index < uint32Size := by
  simp only [kInvalidIndex, uint32Size] at *
  omega

end Sound

/-! ## What the other threads know -/

section Frame

variable {state after : SlabThreads Thread} {other : Thread}

def Since (state after : SlabThreads Thread) : Prop :=
  after.exchanges = state.exchanges ∧ after.slab.head = state.slab.head ∧
      after.slab.freeNext (unpackIndex state.slab.head) =
        state.slab.freeNext (unpackIndex state.slab.head) ∨
    state.exchanges < after.exchanges

theorem Read.frame {old : Nat} (read : state.Read other old)
    (readAt : after.readAt other = state.readAt other)
    (capacity : after.slab.capacity = state.slab.capacity)
    (since : Since state after) : after.Read other old := by
  refine ⟨?_, by rw [readAt, read.tag], by rw [capacity]; exact read.inRange, ?_⟩
  · rw [readAt]
    rcases since with ⟨same, -⟩ | later
    · rw [same]
      exact read.past
    · exact read.past.trans later.le
  · intro now
    rw [readAt] at now
    rcases since with ⟨same, head, -⟩ | later
    · rw [head]
      exact read.current (now.trans same)
    · exact absurd read.past (Nat.not_le_of_lt (now ▸ later))

/-- A thread that does not move keeps what it knows, if nobody writes the
`free_next_` of its index. -/
theorem Known.frame (known : state.Known other)
    (point : after.point other = state.point other)
    (readAt : after.readAt other = state.readAt other)
    (lastFree : after.lastFree other = state.lastFree other)
    (capacity : after.slab.capacity = state.slab.capacity)
    (since : Since state after)
    (own : ∀ index ∈ (state.point other).inHand,
      after.slab.freeNext index = state.slab.freeNext index) :
    after.Known other := by
  unfold Known at known ⊢
  rw [point]
  cases here : state.point other with
  | reading old =>
      rw [here] at known
      exact known.frame readAt capacity since
  | exchanging old new =>
      rw [here] at known
      refine ⟨known.1.frame readAt capacity since, fun now => ?_⟩
      rw [readAt] at now
      rcases since with ⟨same, head, next⟩ | later
      · rw [← known.1.current (now.trans same), next,
          known.1.current (now.trans same)]
        exact known.2 (now.trans same)
      · exact absurd known.1.past (Nat.not_le_of_lt (now ▸ later))
  | returning index =>
      rw [here] at known
      simp only
      rw [lastFree]
      exact known
  | linking index old =>
      rw [here] at known
      exact known.frame readAt capacity since
  | publishing index old =>
      rw [here] at known own
      refine ⟨known.1.frame readAt capacity since, ?_⟩
      rw [own index List.mem_cons_self]
      exact known.2
  | _ => trivial

end Frame

/-! ## The steps -/

section Steps

variable [DecidableEq Thread] {capacity : Nat} {free : List Nat}
  {state : SlabThreads Thread} {thread : Thread}
  {outcome : SlabPoint.Outcome}

theorem stepped_exchanges (exchange : outcome.access = .exchange) :
    (state.stepped thread outcome).exchanges = state.exchanges + 1 :=
  if_pos exchange

theorem stepped_exchanges_of_ne (noExchange : outcome.access ≠ .exchange) :
    (state.stepped thread outcome).exchanges = state.exchanges :=
  if_neg noExchange

theorem stepped_readAt_of_ne {other : Thread} (different : other ≠ thread) :
    (state.stepped thread outcome).readAt other = state.readAt other := by
  unfold stepped
  simp only
  split
  · rw [Function.update_of_ne different]
  · rfl

theorem stepped_lastFree_of_ne {other : Thread} (different : other ≠ thread) :
    (state.stepped thread outcome).lastFree other = state.lastFree other := by
  unfold stepped
  simp only
  split
  · rw [Function.update_of_ne different]
  · rfl

theorem stepped_point_of_ne {other : Thread} (different : other ≠ thread) :
    (state.stepped thread outcome).point other = state.point other :=
  Function.update_of_ne different _ _

theorem stepped_owned_of_ne {other : Thread} (different : other ≠ thread) :
    (state.stepped thread outcome).owned other = state.owned other := by
  rw [owned, owned, stepped_point_of_ne different]
  rfl

theorem stepped_owned_self : (state.stepped thread outcome).owned thread =
    state.held thread ++ outcome.point.inHand := by
  simp [owned, stepped]

variable [Fintype Thread]

theorem Sound.known_stepped (sound : Sound capacity free state)
    (sameCapacity : outcome.slab.capacity = state.slab.capacity)
    (since : Since state (state.stepped thread outcome))
    (own : ∀ other, other ≠ thread → ∀ index ∈ (state.point other).inHand,
      outcome.slab.freeNext index = state.slab.freeNext index)
    (here : (state.stepped thread outcome).Known thread) (other : Thread) :
    (state.stepped thread outcome).Known other := by
  by_cases same : other = thread
  · rw [same]
    exact here
  · exact (sound.known other).frame (stepped_point_of_ne same)
      (stepped_readAt_of_ne same) (stepped_lastFree_of_ne same) sameCapacity
      since (own other same)

theorem Sound.quiet (sound : Sound capacity free state)
    (sameCapacity : outcome.slab.capacity = state.slab.capacity)
    (head : outcome.slab.head = state.slab.head)
    (next : outcome.slab.freeNext = state.slab.freeNext)
    (noExchange : outcome.access ≠ .exchange)
    (inHand : outcome.point.inHand = (state.point thread).inHand)
    (valid : outcome.point.Valid)
    (known : (state.stepped thread outcome).Known thread) :
    Sound capacity free (state.stepped thread outcome) where
  total := sameCapacity.trans sound.total
  bounded := sound.bounded
  valid := ⟨sound.valid.update thread valid⟩
  chain := by
    change FreeChain outcome.slab.freeNext (unpackIndex outcome.slab.head) free
    rw [head, next]
    exact sound.chain
  tag := by
    rw [stepped_exchanges_of_ne noExchange]
    exact (congrArg unpackTag head).trans sound.tag
  cover := by
    rw [← sound.cover]
    congr 1
    apply sum_keep (i := thread)
    · rw [stepped_owned_self, inHand, owned]
    · intro other different
      rw [stepped_owned_of_ne different]
  known := sound.known_stepped sameCapacity
    (.inl ⟨stepped_exchanges_of_ne noExchange, head, congrFun next _⟩)
    (fun _ _ index _ => congrFun next index) known

theorem Sound.read_now (sound : Sound capacity free state)
    (access : outcome.access = .load) (slab : outcome.slab = state.slab) :
    (state.stepped thread outcome).Read thread state.slab.head := by
  have readAt : (state.stepped thread outcome).readAt thread =
      state.exchanges := by
    simp [stepped, access]
  have exchanges : (state.stepped thread outcome).exchanges =
      state.exchanges := stepped_exchanges_of_ne (by simp [access])
  refine ⟨by rw [readAt, exchanges], by rw [readAt, sound.tag], ?_, fun _ => ?_⟩
  · change _ ∨ _ < outcome.slab.capacity
    rw [slab]
    exact sound.head_inRange
  · change outcome.slab.head = _
    rw [slab]

theorem Sound.loads (sound : Sound capacity free state)
    (inHand : (state.point thread).inHand = []) :
    Sound capacity free (state.stepped thread
      ⟨state.slab, SlabPoint.loaded state.slab.head, .load⟩) := by
  by_cases atEnd : unpackIndex state.slab.head = kInvalidIndex
  · rw [SlabPoint.loaded, if_pos atEnd]
    refine sound.quiet rfl rfl rfl (by simp) ?_ trivial ?_
    · rw [inHand]
      simp [SlabPoint.inHand]
    · have lastFree : state.slab.freeIndices = [] := by
        rw [sound.freeIndices_eq, sound.free_nil atEnd]
      simp [Known, stepped, lastFree]
  · rw [SlabPoint.loaded, if_neg atEnd]
    refine sound.quiet rfl rfl rfl (by simp) inHand.symm atEnd ?_
    have read := @Sound.read_now _ _ _ _ _ thread
      ⟨state.slab, .reading state.slab.head, .load⟩ _ sound rfl rfl
    simpa [Known, stepped] using read

theorem Sound.loadsFor (sound : Sound capacity free state) {index : Nat}
    (inHand : (state.point thread).inHand = [index]) :
    Sound capacity free (state.stepped thread
      ⟨state.slab, .linking index state.slab.head, .load⟩) := by
  refine sound.quiet rfl rfl rfl (by simp) inHand.symm trivial ?_
  have read := @Sound.read_now _ _ _ _ _ thread
    ⟨state.slab, .linking index state.slab.head, .load⟩ _ sound rfl rfl
  simpa [Known, stepped] using read

omit [DecidableEq Thread] in
/-- The head still has the tag that the thread has read, so no exchange was made
since. -/
theorem Sound.unchanged (sound : Sound capacity free state) {old : Nat}
    (read : state.Read thread old) (head : state.slab.head = old)
    (recent : state.exchanges < state.readAt thread + uint32Size) :
    state.readAt thread = state.exchanges := by
  have tags : state.exchanges % uint32Size =
      state.readAt thread % uint32Size := by
    rw [← sound.tag, ← read.tag, head]
  have past := read.past
  simp only [uint32Size] at tags recent
  omega

theorem succ_tag {tag exchanges : Nat} (same : tag = exchanges % uint32Size) :
    (tag + 1) % uint32Size = (exchanges + 1) % uint32Size := by
  rw [same, Nat.mod_add_mod]

theorem Sound.takes (sound : Sound capacity free state) {old new : Nat}
    (point : state.point thread = .exchanging old new)
    (head : state.slab.head = old)
    (recent : state.exchanges < state.readAt thread + uint32Size) :
    ∃ rest, Sound capacity rest (state.stepped thread
      ⟨state.slab.storeHead (pack new ((unpackTag old + 1) % uint32Size)),
        .resetting (unpackIndex old), .exchange⟩) := by
  have known := sound.known thread
  have valid := sound.valid.point thread
  rw [Known, point] at known
  rw [point] at valid
  have now := sound.unchanged known.1 head recent
  obtain rfl : new = state.slab.freeNext (unpackIndex old) := known.2 now
  have chain := sound.chain
  rw [head] at chain
  rcases free with _ | ⟨index, rest⟩
  · exact absurd chain valid
  obtain ⟨rfl, -, chain⟩ := chain
  have fits : state.slab.freeNext (unpackIndex old) < uint32Size := by
    rcases rest with _ | ⟨following, rest⟩
    · rw [show state.slab.freeNext (unpackIndex old) = _ from chain]
      decide
    · rw [chain.1]
      exact lt_uint32Size sound.bounded (sound.free_lt (by simp))
  refine ⟨rest, sound.total, sound.bounded, ⟨sound.valid.update thread valid⟩,
    ?_, ?_, ?_, ?_⟩
  · change FreeChain state.slab.freeNext (unpackIndex (pack _ _)) rest
    rw [unpackIndex_pack _ fits]
    exact chain
  · change unpackTag (pack _ _) = _
    rw [unpackTag_pack fits, stepped_exchanges rfl]
    exact succ_tag (head ▸ sound.tag)
  · have gained : ∑ other, ((state.stepped thread
        ⟨state.slab.storeHead (pack (state.slab.freeNext (unpackIndex old))
            ((unpackTag old + 1) % uint32Size)),
          .resetting (unpackIndex old), .exchange⟩).owned other :
            Multiset Nat) =
        ∑ other, (state.owned other : Multiset Nat) + {unpackIndex old} := by
      apply sum_gain (i := thread)
      · rw [stepped_owned_self, owned, point]
        simp [SlabPoint.inHand]
        rfl
      · intro other different
        rw [stepped_owned_of_ne different]
    rw [gained, ← sound.cover, ← Multiset.cons_coe, ← Multiset.singleton_add]
    ac_rfl
  · apply sound.known_stepped rfl
    · right
      simp [stepped]
    · exact fun _ _ _ _ => rfl
    · simp [Known, stepped]

theorem Sound.publishes (sound : Sound capacity free state) {index old : Nat}
    (point : state.point thread = .publishing index old)
    (head : state.slab.head = old) :
    Sound capacity (index :: free) (state.stepped thread
      ⟨state.slab.storeHead (pack index ((unpackTag old + 1) % uint32Size)),
        .counting, .exchange⟩) := by
  have known := sound.known thread
  rw [Known, point] at known
  have inHand : index ∈ state.owned thread := by
    simp [owned, point, SlabPoint.inHand]
  have inside := sound.owned_lt inHand
  have fits := lt_uint32Size sound.bounded inside
  refine ⟨sound.total, sound.bounded, ⟨sound.valid.update thread trivial⟩,
    ?_, ?_, ?_, ?_⟩
  · change FreeChain state.slab.freeNext (unpackIndex (pack _ _)) _
    rw [unpackIndex_pack _ fits]
    refine ⟨rfl, ?_, ?_⟩
    · exact Nat.ne_of_lt (Nat.lt_of_lt_of_le inside sound.bounded)
    · rw [known.2, ← head]
      exact sound.chain
  · change unpackTag (pack _ _) = _
    rw [unpackTag_pack fits, stepped_exchanges rfl]
    exact succ_tag (head ▸ sound.tag)
  · have lost : ∑ other, (state.owned other : Multiset Nat) =
        ∑ other, ((state.stepped thread
          ⟨state.slab.storeHead (pack index ((unpackTag old + 1) % uint32Size)),
            .counting, .exchange⟩).owned other : Multiset Nat) + {index} := by
      apply sum_gain (i := thread)
      · rw [stepped_owned_self, owned, point]
        simp [SlabPoint.inHand]
        rfl
      · intro other different
        rw [stepped_owned_of_ne different]
    rw [← sound.cover, lost, ← Multiset.cons_coe, ← Multiset.singleton_add]
    ac_rfl
  · apply sound.known_stepped rfl
    · right
      simp [stepped]
    · exact fun _ _ _ _ => rfl
    · simp [Known, stepped]

theorem Sound.links (sound : Sound capacity free state) {index old : Nat}
    (point : state.point thread = .linking index old) :
    Sound capacity free (state.stepped thread
      ⟨state.slab.storeNext index (unpackIndex old), .publishing index old,
        .none⟩) := by
  have known := sound.known thread
  rw [Known, point] at known
  have inHand : index ∈ state.owned thread := by
    simp [owned, point, SlabPoint.inHand]
  have fresh := sound.owned_notFree inHand
  have notHead : unpackIndex state.slab.head ≠ index := by
    have inside := sound.owned_lt inHand
    have chain := sound.chain
    intro same
    rcases free with _ | ⟨first, rest⟩
    · have atEnd : index = kInvalidIndex := same.symm.trans chain
      exact absurd sound.bounded (by omega)
    · exact fresh (same ▸ chain.1 ▸ List.mem_cons_self)
  refine ⟨sound.total, sound.bounded, ⟨sound.valid.update thread trivial⟩,
    sound.chain.update fresh _, ?_, ?_, ?_⟩
  · exact sound.tag
  · rw [← sound.cover]
    congr 1
    apply sum_keep (i := thread)
    · rw [stepped_owned_self, owned, point]
      rfl
    · intro other different
      rw [stepped_owned_of_ne different]
  · apply sound.known_stepped rfl
    · left
      exact ⟨rfl, rfl, Function.update_of_ne notHead _ _⟩
    · intro other different wanted own
      apply Function.update_of_ne
      rintro rfl
      exact different
        (sound.owner_unique (List.mem_append_right _ own) inHand)
    · have read : (state.stepped thread ⟨state.slab.storeNext index
          (unpackIndex old), .publishing index old, .none⟩).Read thread old :=
        ⟨known.past, known.tag, known.inRange, known.current⟩
      simpa [Known, stepped] using read

/-- A step of a thread does not fault, and keeps every index in one place. -/
theorem Sound.step (sound : Sound capacity free state) (spurious : Bool)
    (recent : (state.point thread).isExchange = true →
      state.exchanges < state.readAt thread + uint32Size)
    (ran : (state.point thread).step state.slab spurious = some outcome) :
    ∃ free', Sound capacity free' (state.stepped thread outcome) := by
  have known := sound.known thread
  rw [Known] at known
  have valid := sound.valid.point thread
  rcases SlabPoint.step_counted valid ran with ⟨-, valid', sameCapacity⟩
  cases point : state.point thread with
  | idle =>
      rw [point] at ran
      cases ran
  | loading =>
      rw [point] at ran
      cases ran
      exact ⟨free, sound.loads (by rw [point]; rfl)⟩
  | reading old =>
      rw [point] at ran known valid
      simp only [SlabPoint.step] at ran
      split at ran
      · cases ran
        have read : (state.stepped thread ⟨state.slab, .exchanging old
            (state.slab.freeNext (unpackIndex old)), .none⟩).Read thread old :=
          ⟨known.past, known.tag, known.inRange, known.current⟩
        refine ⟨free, sound.quiet rfl rfl rfl (by simp) ?_ valid ?_⟩
        · rw [point]
          rfl
        · simpa [Known, stepped] using read
      · cases ran
  | exchanging old new =>
      rw [point] at ran recent
      simp only [SlabPoint.step] at ran
      split at ran
      · rename_i success
        cases ran
        rcases sound.takes point success.1 (recent rfl) with ⟨rest, sound'⟩
        exact ⟨rest, sound'⟩
      · cases ran
        exact ⟨free, sound.loads (by rw [point]; rfl)⟩
  | resetting index =>
      rw [point] at ran
      cases ran
      refine ⟨free, sound.quiet sameCapacity (state.slab.resetNode_head _)
        (funext (state.slab.resetNode_freeNext _)) (by simp) ?_ valid' ?_⟩
      · rw [point]
        rfl
      · simp [Known, stepped]
  | uncounting index =>
      rw [point] at ran valid
      cases ran
      refine ⟨free, sound.quiet sameCapacity (state.slab.addFree_head _)
        (funext (state.slab.addFree_freeNext _)) (by simp) ?_ valid' ?_⟩
      · rw [point]
        exact if_neg valid
      · simpa [Known, stepped] using fun atEnd => absurd atEnd valid
  | returning index =>
      rw [point] at ran
      cases ran
  | clearing index =>
      rw [point] at ran
      simp only [SlabPoint.step] at ran
      split at ran
      · cases ran
        refine ⟨free, sound.quiet sameCapacity (state.slab.resetNode_head _)
          (funext (state.slab.resetNode_freeNext _)) (by simp) ?_ valid' ?_⟩
        · rw [point]
          rfl
        · simp [Known, stepped]
      · cases ran
  | loadingFor index =>
      rw [point] at ran
      cases ran
      exact ⟨free, sound.loadsFor (by rw [point]; rfl)⟩
  | linking index old =>
      rw [point] at ran
      cases ran
      exact ⟨free, sound.links point⟩
  | publishing index old =>
      rw [point] at ran
      simp only [SlabPoint.step] at ran
      split at ran
      · rename_i success
        cases ran
        exact ⟨_, sound.publishes point success.1⟩
      · cases ran
        exact ⟨free, sound.loadsFor (by rw [point]; rfl)⟩
  | counting =>
      rw [point] at ran
      cases ran
      refine ⟨free, sound.quiet sameCapacity (state.slab.addFree_head _)
        (funext (state.slab.addFree_freeNext _)) (by simp) ?_ valid' ?_⟩
      · rw [point]
        rfl
      · simp [Known, stepped]

omit [DecidableEq Thread] in
theorem Sound.no_fault (sound : Sound capacity free state)
    (thread : Thread) (spurious : Bool) : (state.point thread = .idle ∨
        ∃ index, state.point thread = .returning index) ∨
      ∃ outcome, (state.point thread).step state.slab spurious =
        some outcome := by
  have known := sound.known thread
  have valid := sound.valid.point thread
  rw [Known] at known
  cases point : state.point thread with
  | idle => exact .inl (.inl rfl)
  | returning index => exact .inl (.inr ⟨index, rfl⟩)
  | reading old =>
      rw [point] at known valid
      have inside := known.inRange.resolve_left valid
      exact .inr ⟨_, if_pos inside⟩
  | clearing index =>
      have inside : index < state.slab.capacity := by
        rw [sound.total]
        apply @Sound.owned_lt _ _ _ _ _ thread sound
        simp [owned, point, SlabPoint.inHand]
      exact .inr ⟨_, if_pos inside⟩
  | exchanging old new =>
      right
      simp only [SlabPoint.step]
      split
      · exact ⟨_, rfl⟩
      · exact ⟨_, rfl⟩
  | publishing index old =>
      right
      simp only [SlabPoint.step]
      split
      · exact ⟨_, rfl⟩
      · exact ⟨_, rfl⟩
  | _ => exact .inr ⟨_, rfl⟩

omit [DecidableEq Thread] in
theorem Sound.between (sound : Sound capacity free state)
    {point : Thread → SlabPoint} {held : Thread → List Nat}
    (owners : ∑ other, (owned { state with point, held } other :
        Multiset Nat) = ∑ other, (state.owned other : Multiset Nat))
    (valid : ∀ other, (point other).Valid)
    (known : ∀ other, point other = state.point other ∨
      Known { state with point, held } other) :
    Sound capacity free { state with point, held } where
  total := sound.total
  bounded := sound.bounded
  valid := ⟨valid⟩
  chain := sound.chain
  tag := sound.tag
  cover := by
    rw [owners]
    exact sound.cover
  known := by
    intro other
    rcases known other with same | known
    · exact (sound.known other).frame same rfl rfl rfl
        (.inl ⟨rfl, rfl, rfl⟩) fun _ _ => rfl
    · exact known

theorem Sound.turns (sound : Sound capacity free state) (thread : Thread)
    {point : SlabPoint} {held : Thread → List Nat}
    (others : ∀ other, other ≠ thread → held other = state.held other)
    (owns : (held thread ++ point.inHand).Perm (state.owned thread))
    (valid : point.Valid)
    (known : Known { state with
      point := Function.update state.point thread point, held } thread) :
    Sound capacity free { state with
      point := Function.update state.point thread point, held } := by
  apply sound.between
  · apply sum_keep (i := thread)
    · simp only [owned, Function.update_self]
      exact Multiset.coe_eq_coe.mpr owns
    · intro other different
      simp only [owned, Function.update_of_ne different,
        others other different]
  · exact sound.valid.update thread valid
  · intro other
    by_cases same : other = thread
    · subst same
      exact .inr known
    · exact .inl (Function.update_of_ne same _ _)

end Steps

/-! ## Whole runs -/

/-- Fewer than 2^32 exchanges were made since the load of a thread that is about
to exchange. -/
def Recent (state : SlabThreads Thread) : SlabMove Thread → Prop
  | .step thread _ => (state.point thread).isExchange = true →
      state.exchanges < state.readAt thread + uint32Size
  | _ => True

instance (state : SlabThreads Thread) :
    (move : SlabMove Thread) → Decidable (Recent state move)
  | .step thread _ => inferInstanceAs (Decidable
      ((state.point thread).isExchange = true →
        state.exchanges < state.readAt thread + uint32Size))
  | .allocate _ => .isTrue trivial
  | .deallocate _ _ => .isTrue trivial
  | .leave _ => .isTrue trivial
  | .handOver _ _ _ => .isTrue trivial

section Runs

variable [Fintype Thread] [DecidableEq Thread] {capacity : Nat}
  {free : List Nat} {state after : SlabThreads Thread}

omit [DecidableEq Thread] in
theorem Sound.start {slab : SlabAllocator} (fits : capacity < uint32Size)
    (made : SlabAllocator.new capacity = some slab) :
    Sound capacity (List.range capacity)
      (.start slab : SlabThreads Thread) := by
  have positive : 0 < capacity := by
    by_contra none
    simp [SlabAllocator.new, Nat.eq_zero_of_not_pos none] at made
  rcases SlabAllocator.new_rep positive fits with ⟨_, made', rep⟩
  rw [made] at made'
  cases made'
  have total : slab.capacity = capacity := rep.capacity.symm
  refine ⟨total, total ▸ rep.capacity_le, ⟨fun _ => trivial⟩, rep.chain, ?_, ?_,
    fun _ => trivial⟩
  · unfold SlabAllocator.new at made
    rw [if_neg (Nat.ne_of_gt positive)] at made
    cases made
    exact (unpackTag_pack (by decide)).trans (Nat.zero_mod _).symm
  · simp [owned, SlabThreads.start, SlabPoint.inHand]
    rfl

theorem Sound.move (sound : Sound capacity free state)
    {move : SlabMove Thread} (recent : Recent state move)
    {reply : Option Nat} (ran : machine state move = some (reply, after)) :
    ∃ free', Sound capacity free' after := by
  cases moved ran with
  | @allocate thread idle =>
      refine ⟨free, sound.turns thread (fun _ _ => rfl) ?_ trivial
        (by simp [Known])⟩
      rw [owned, idle]
      exact List.Perm.refl _
  | @deallocate thread index idle held =>
      refine ⟨free, sound.turns thread
        (fun _ different => Function.update_of_ne different _ _) ?_ trivial
        (by simp [Known])⟩
      rw [owned, idle, Function.update_self]
      have moved := (List.perm_cons_erase held).symm
      simpa [SlabPoint.inHand] using
        (List.perm_append_singleton _ _).trans moved
  | @step thread spurious outcome stepped =>
      exact sound.step spurious recent stepped
  | @leave thread index returning =>
      refine ⟨free, sound.turns thread ?_ ?_ trivial (by simp [Known])⟩
      · intro other different
        split
        · rfl
        · exact Function.update_of_ne different _ _
      · rw [owned, returning]
        by_cases none : index = kInvalidIndex
        · simp [SlabPoint.inHand, none]
        · simpa [SlabPoint.inHand, none] using
            (List.perm_append_singleton index (state.held thread)).symm
  | @handOver sender receiver index held =>
      refine ⟨free, @Sound.between _ _ _ _ _ sound state.point _ ?_
        sound.valid.point fun _ => .inl rfl⟩
      apply sum_pass {index} fun (other : Thread) (had : List Nat) =>
        ((had ++ (state.point other).inHand : List Nat) : Multiset Nat)
      · rw [← Multiset.coe_singleton, Multiset.coe_add]
        apply Multiset.coe_eq_coe.mpr
        have moved := (List.perm_cons_erase held).append_right
          (state.point sender).inHand
        exact moved.trans (List.perm_append_singleton _ _).symm
      · intro had
        rw [← Multiset.coe_singleton, Multiset.coe_add]
        apply Multiset.coe_eq_coe.mpr
        exact (List.perm_append_singleton _ _).symm

/-- What the free list and the threads that use it may rely on. -/
structure Safe (capacity : Nat) (state : SlabThreads Thread) : Prop where
  /-- The free list comes to its end, -/
  chain : FreeChain state.slab.freeNext (unpackIndex state.slab.head)
    state.slab.freeIndices
  /-- meets no index twice, -/
  nodup : state.slab.freeIndices.Nodup
  /-- and stays within the slab. -/
  inRange : ∀ index ∈ state.slab.freeIndices, index < capacity
  holder : ∀ thread other index, index ∈ state.owned thread →
    index ∈ state.owned other → thread = other
  once : ∀ thread, (state.owned thread).Nodup
  notFree : ∀ thread, ∀ index ∈ state.owned thread,
    index ∉ state.slab.freeIndices
  /-- `allocate` gives up only after it has read the head of an empty list. -/
  gaveUp : ∀ thread, state.point thread = .returning kInvalidIndex →
    state.lastFree thread = []
  /-- The next step of a thread inside an operation does not fault. -/
  faultless : ∀ thread spurious, state.point thread = .idle ∨
    (∃ index, state.point thread = .returning index) ∨
    ∃ outcome, machine state (.step thread spurious) = some outcome
  atRest : (∀ thread, state.point thread = .idle) →
    (∀ index, index ∈ state.slab.freeIndices ↔
      index < capacity ∧ ∀ thread, index ∉ state.held thread) ∧
    state.slab.available = state.slab.freeIndices.length

omit [DecidableEq Thread] in
theorem Sound.available_eq (sound : Sound capacity free state)
    (congruent : Congruent capacity state)
    (idle : ∀ thread, state.point thread = .idle) :
    state.slab.available = free.length := by
  have owned : ∀ thread, state.outstanding thread =
      Multiset.card (state.owned thread : Multiset Nat) := by
    intro thread
    simp [outstanding, SlabThreads.owned, idle thread, SlabPoint.outstanding,
      SlabPoint.inHand]
  have total := congrArg Multiset.card sound.cover
  rw [Multiset.card_add, Multiset.card_sum, Multiset.card_range,
    Multiset.coe_card] at total
  have taken : free.length + state.taken = capacity := by
    rw [← total, SlabThreads.taken]
    simp only [owned]
  have small := congruent.count_lt
  have equal := congruent.congruent
  have bounded := sound.bounded
  simp only [SlabAllocator.available, uint32Size, kInvalidIndex] at *
  omega

theorem Sound.safe (sound : Sound capacity free state)
    (congruent : Congruent capacity state) : Safe capacity state := by
  have free := sound.freeIndices_eq
  refine ⟨?_, ?_, ?_, fun _ _ _ => sound.owner_unique, sound.owned_nodup, ?_, ?_,
    ?_, ?_⟩
  · rw [free]
    exact sound.chain
  · rw [free]
    exact sound.free_nodup
  · rw [free]
    exact fun _ => sound.free_lt
  · rw [free]
    exact fun _ _ => sound.owned_notFree
  · intro thread point
    have known := sound.known thread
    rw [Known, point] at known
    exact known rfl
  · intro thread spurious
    rcases sound.no_fault thread spurious with
      (idle | returning) | ⟨outcome, stepped⟩
    · exact .inl idle
    · exact .inr (.inl returning)
    · exact .inr (.inr ⟨_, by rw [machine, stepped]; rfl⟩)
  · intro idle
    rw [free]
    refine ⟨fun index => ?_, sound.available_eq congruent idle⟩
    have own : ∀ thread, state.owned thread = state.held thread := by
      intro thread
      simp [owned, idle thread, SlabPoint.inHand]
    rw [sound.mem_iff]
    constructor
    · intro member
      refine ⟨.inl member, fun thread held => ?_⟩
      exact sound.owned_notFree (own thread ▸ held) member
    · rintro ⟨member | ⟨thread, owned⟩, nobody⟩
      · exact member
      · exact absurd (own thread ▸ owned) (nobody thread)

/-- The free list is safe in every run in which no thread comes to its exchange
2^32 exchanges after its load. -/
theorem safe_of_recent {slab : SlabAllocator}
    (made : SlabAllocator.new capacity = some slab)
    (fits : capacity < uint32Size) (moves : List (SlabMove Thread))
    {replies : List (Option Nat)}
    (ran : machine.run moves (.start slab) = some (replies, state))
    (recent : machine.Along Recent moves (.start slab)) :
    Safe capacity state := by
  have step : ∀ (state : SlabThreads Thread) move reply after,
      ((∃ free, Sound capacity free state) ∧ Congruent capacity state) →
      Recent state move → machine state move = some (reply, after) →
      (∃ free, Sound capacity free after) ∧ Congruent capacity after := by
    intro state move reply after kept recent ran
    rcases kept with ⟨⟨free, sound⟩, congruent⟩
    exact ⟨sound.move recent ran, congruent.move ran⟩
  have initial : (∃ free, Sound capacity free
      (.start slab : SlabThreads Thread)) ∧
      Congruent capacity (.start slab : SlabThreads Thread) :=
    ⟨⟨_, .start fits made⟩, (Balanced.start made).congruent fits⟩
  rcases Machine.run_preserves step initial recent ran with
    ⟨⟨free, sound⟩, congruent⟩
  exact sound.safe congruent

end Runs

/-- Between the load and the exchange of one thread, another one takes both
slots and gives the first one back. -/
def recycled : List (SlabMove Bool) :=
  [.allocate false, .step false false, .step false false,
    .allocate true, .step true false, .step true false, .step true false,
    .step true false, .step true false, .leave true,
    .allocate true, .step true false, .step true false, .step true false,
    .step true false, .step true false, .leave true,
    .deallocate true 0, .step true false, .step true false, .step true false,
    .step true true, .step true false, .step true false, .step true false,
    .step false false]

/-- The head has the index that the first thread has read, but not its tag. -/
theorem safe_of_recent_sample :
    ∃ slab replies state, SlabAllocator.new 2 = some slab ∧
      machine.run recycled (.start slab) = some (replies, state) ∧
      state.point false = .reading (pack 0 3) ∧ Safe 2 state := by
  have ran : ((SlabAllocator.new 2).bind fun slab =>
      (machine.run recycled (.start slab)).map fun outcome =>
        outcome.2.point false) = some (.reading (pack 0 3)) := by
    decide +kernel
  have recent : ∀ slab ∈ SlabAllocator.new 2,
      machine.Along Recent recycled (.start slab) := by
    decide +kernel
  rcases Option.bind_eq_some_iff.mp ran with ⟨slab, made, ran⟩
  rcases Option.map_eq_some_iff.mp ran with ⟨⟨replies, state⟩, ran, point⟩
  exact ⟨slab, replies, state, made, ran, point,
    safe_of_recent made (by decide) _ ran (recent slab made)⟩

end Walde.SlabThreads
