import Walde.Policy

namespace Walde

open Foundation

/-! # What the slab nodes of a stripe stand for

Between two steps of an operation a node that the stripe holds is on one of the
three lists or, while it moves, in limbo. -/

def Place.segment : Place → Segment
  | .window => .window
  | .probation => .probation
  | .protected_ => .protected_

theorem Place.segment_injective : Function.Injective Place.segment := by
  intro left right equal
  cases left <;> cases right <;> first | rfl | cases equal

def entry (cell : Nat → CacheNode) (index : Nat) : Entry :=
  ((cell index).key, (cell index).value)

theorem IntrusiveLru.Relinked.entry_eq {touched : List Nat}
    {view view' : SlabView} (relinked : IntrusiveLru.Relinked touched view view') :
    entry view'.cell = entry view.cell := by
  funext index
  simp [entry, relinked.key, relinked.value]

namespace CacheStripe

def lru (stripe : CacheStripe) : Place → IntrusiveLru
  | .window => stripe.windowLru
  | .probation => stripe.probationLru
  | .protected_ => stripe.protectedLru

def setLru (stripe : CacheStripe) (place : Place) (lru : IntrusiveLru) :
    CacheStripe :=
  match place with
  | .window => { stripe with windowLru := lru }
  | .probation => { stripe with probationLru := lru }
  | .protected_ => { stripe with protectedLru := lru }

section SetLru

variable (stripe : CacheStripe) (place : Place) (lru : IntrusiveLru)

@[simp] theorem lru_setLru :
    (stripe.setLru place lru).lru = Function.update stripe.lru place lru := by
  funext other
  cases place <;> cases other <;> rfl

@[simp] theorem setLru_config :
    (stripe.setLru place lru).config = stripe.config := by cases place <;> rfl
@[simp] theorem setLru_indexMap :
    (stripe.setLru place lru).indexMap = stripe.indexMap := by
  cases place <;> rfl
@[simp] theorem setLru_cms :
    (stripe.setLru place lru).cms = stripe.cms := by cases place <;> rfl
@[simp] theorem setLru_opsSinceDecay :
    (stripe.setLru place lru).opsSinceDecay = stripe.opsSinceDecay := by
  cases place <;> rfl
@[simp] theorem setLru_stats :
    (stripe.setLru place lru).stats = stripe.stats := by cases place <;> rfl
@[simp] theorem setLru_demotionQueue :
    (stripe.setLru place lru).demotionQueue = stripe.demotionQueue := by
  cases place <;> rfl

end SetLru

/-- The stripe holds exactly the nodes on its lists and in limbo, each list is
well formed and carries its tag, and the index map finds every held node by its
key and nothing else. -/
structure Rep (stripe : CacheStripe) (view : SlabView)
    (lists : Place → List Nat) (limbo : List Nat) : Prop where
  holds : ∀ place, (stripe.lru place).Holds view.cell (lists place)
  tag : ∀ place, ∀ index ∈ lists place,
    (view.cell index).segment = place.segment
  owned : ∀ index, index ∈ view.owned ↔
    index ∈ limbo ∨ ∃ place, index ∈ lists place
  limbo_nodup : limbo.Nodup
  limbo_valid : ∀ index ∈ limbo, index ≠ kInvalidIndex
  apart : ∀ index ∈ limbo, ∀ place, index ∉ lists place
  index : ∀ key index, stripe.indexMap.lookup key = some index ↔
    index ∈ view.owned ∧ (view.cell index).key = key

namespace Rep

variable {stripe : CacheStripe} {view view' : SlabView}
  {lists : Place → List Nat} {limbo : List Nat} {place : Place} {idx : Nat}

theorem lists_owned (rep : stripe.Rep view lists limbo) {place : Place}
    {index : Nat} (member : index ∈ lists place) : index ∈ view.owned :=
  (rep.owned index).mpr (.inr ⟨place, member⟩)

theorem limbo_owned (rep : stripe.Rep view lists limbo) {index : Nat}
    (member : index ∈ limbo) : index ∈ view.owned :=
  (rep.owned index).mpr (.inl member)

theorem place_unique (rep : stripe.Rep view lists limbo) {left right : Place}
    {index : Nat} (inLeft : index ∈ lists left)
    (inRight : index ∈ lists right) : left = right :=
  Place.segment_injective
    ((rep.tag left index inLeft).symm.trans (rep.tag right index inRight))

theorem lists_nodup (rep : stripe.Rep view lists limbo) :
    (lists .window ++ lists .probation ++ lists .protected_).Nodup := by
  have apart : ∀ left right, left ≠ right →
      List.Disjoint (lists left) (lists right) :=
    fun _ _ different _ inLeft inRight =>
      different (rep.place_unique inLeft inRight)
  refine ((rep.holds .window).nodup.append (rep.holds .probation).nodup
    (apart _ _ (by simp))).append (rep.holds .protected_).nodup ?_
  exact List.disjoint_append_left.mpr
    ⟨apart _ _ (by simp), apart _ _ (by simp)⟩

theorem mem_lists {lists : Place → List Nat} {index : Nat} :
    index ∈ lists .window ++ lists .probation ++ lists .protected_ ↔
      ∃ place, index ∈ lists place := by
  simp only [List.mem_append]
  constructor
  · rintro ((member | member) | member)
    · exact ⟨_, member⟩
    · exact ⟨_, member⟩
    · exact ⟨_, member⟩
  · rintro ⟨place, member⟩
    cases place <;> simp [member]

theorem key_injective (rep : stripe.Rep view lists limbo) {left right : Nat}
    (inLeft : left ∈ view.owned) (inRight : right ∈ view.owned)
    (same : (view.cell left).key = (view.cell right).key) : left = right := by
  have first := (rep.index _ left).mpr ⟨inLeft, same⟩
  have second := (rep.index _ right).mpr ⟨inRight, rfl⟩
  exact Option.some.inj (first.symm.trans second)

theorem lookup_eq (rep : stripe.Rep view lists limbo) {index : Nat}
    (held : index ∈ view.owned) :
    stripe.indexMap.lookup (view.cell index).key = some index :=
  (rep.index _ index).mpr ⟨held, rfl⟩

theorem of_same {other : CacheStripe} (rep : stripe.Rep view lists limbo)
    (lru : other.lru = stripe.lru) (indexMap : other.indexMap = stripe.indexMap) :
    other.Rep view lists limbo := by
  constructor
  · rw [lru]
    exact rep.holds
  · exact rep.tag
  · exact rep.owned
  · exact rep.limbo_nodup
  · exact rep.limbo_valid
  · exact rep.apart
  · rw [indexMap]
    exact rep.index

/-! ## Moves between the lists and limbo -/

theorem holds_setLru (rep : stripe.Rep view lists limbo) {lru : IntrusiveLru}
    {members : List Nat} (holds : lru.Holds view'.cell members)
    (elsewhere : ∀ other, other ≠ place → ∀ index ∈ lists other,
      view'.cell index = view.cell index) (other : Place) :
    ((stripe.setLru place lru).lru other).Holds view'.cell
      (Function.update lists place members other) := by
  rw [lru_setLru]
  by_cases same : other = place
  · subst same
    simpa using holds
  · rw [Function.update_of_ne same, Function.update_of_ne same]
    exact (rep.holds other).congr (elsewhere other same)

theorem relink (rep : stripe.Rep view lists limbo) (place : Place)
    (moved : List Nat) {lru : IntrusiveLru} {members : List Nat}
    (holds : lru.Holds view'.cell members)
    (relinked : IntrusiveLru.Relinked (lists place) view view')
    (perm : (moved ++ members).Perm (lists place)) :
    (stripe.setLru place lru).Rep view'
      (Function.update lists place members) (moved ++ limbo) := by
  have nodup : (moved ++ members).Nodup :=
    perm.nodup_iff.mpr (rep.holds place).nodup
  have movedMem : ∀ index ∈ moved, index ∈ lists place := fun index member =>
    perm.subset (List.mem_append_left _ member)
  have memberMem : ∀ index ∈ members, index ∈ lists place :=
    fun index member => perm.subset (List.mem_append_right _ member)
  have listsMem : ∀ other index,
      index ∈ Function.update lists place members other →
      index ∈ lists other :=
    (Function.forall_update_iff lists fun other list =>
      ∀ index, index ∈ list → index ∈ lists other).mpr
      ⟨memberMem, fun _ _ _ => id⟩
  constructor
  · apply rep.holds_setLru holds
    intro other different index member
    exact relinked.frame index fun inPlace =>
      different (rep.place_unique member inPlace)
  · intro other index member
    rw [relinked.segment]
    exact rep.tag other index (listsMem other index member)
  · intro index
    rw [relinked.owned, rep.owned]
    constructor
    · rintro (inLimbo | ⟨other, member⟩)
      · exact .inl (List.mem_append_right _ inLimbo)
      · by_cases same : other = place
        · subst same
          rcases List.mem_append.mp (perm.symm.subset member) with left | stays
          · exact .inl (List.mem_append_left _ left)
          · exact .inr ⟨other, by simpa using stays⟩
        · exact .inr ⟨other, by simpa [Function.update_of_ne same] using member⟩
    · rintro (inLimbo | ⟨other, member⟩)
      · rcases List.mem_append.mp inLimbo with left | inLimbo
        · exact .inr ⟨place, movedMem index left⟩
        · exact .inl inLimbo
      · exact .inr ⟨other, listsMem other index member⟩
  · refine List.nodup_append.mpr
      ⟨(List.nodup_append.mp nodup).1, rep.limbo_nodup, ?_⟩
    rintro index left other inLimbo rfl
    exact rep.apart index inLimbo place (movedMem index left)
  · intro index member
    rcases List.mem_append.mp member with left | inLimbo
    · exact (rep.holds place).ne_invalid (movedMem index left)
    · exact rep.limbo_valid index inLimbo
  · intro index member other inList
    rcases List.mem_append.mp member with left | inLimbo
    · have same := rep.place_unique (listsMem other index inList)
        (movedMem index left)
      subst same
      rw [Function.update_self] at inList
      exact (List.nodup_append.mp nodup).2.2 index left index inList rfl
    · exact rep.apart index inLimbo other (listsMem other index inList)
  · intro key index
    rw [setLru_indexMap, relinked.owned, relinked.key]
    exact rep.index key index

theorem insertFront (rep : stripe.Rep view lists (idx :: limbo))
    {lru : IntrusiveLru} (tagged : (view.cell idx).segment = place.segment)
    (holds : lru.Holds view'.cell (idx :: lists place))
    (relinked : IntrusiveLru.Relinked (idx :: lists place) view view') :
    (stripe.setLru place lru).Rep view'
      (Function.update lists place (idx :: lists place)) limbo := by
  have fresh := rep.apart idx (by simp)
  have nodup := List.nodup_cons.mp rep.limbo_nodup
  have listsMem : ∀ other index,
      index ∈ Function.update lists place (idx :: lists place) other ↔
      (other = place ∧ index = idx) ∨ index ∈ lists other := by
    intro other index
    by_cases same : other = place
    · subst same
      simp
    · simp [same]
  constructor
  · apply rep.holds_setLru holds
    intro other different index member
    apply relinked.frame index
    intro touched
    rcases List.mem_cons.mp touched with rfl | inPlace
    · exact fresh other member
    · exact different (rep.place_unique member inPlace)
  · intro other index member
    rw [relinked.segment]
    rcases (listsMem other index).mp member with ⟨rfl, rfl⟩ | member
    · exact tagged
    · exact rep.tag other index member
  · intro index
    rw [relinked.owned, rep.owned]
    simp only [listsMem, List.mem_cons]
    constructor
    · rintro ((rfl | inLimbo) | ⟨other, member⟩)
      · exact .inr ⟨place, .inl ⟨rfl, rfl⟩⟩
      · exact .inl inLimbo
      · exact .inr ⟨other, .inr member⟩
    · rintro (inLimbo | ⟨other, ⟨-, rfl⟩ | member⟩)
      · exact .inl (.inr inLimbo)
      · exact .inl (.inl rfl)
      · exact .inr ⟨other, member⟩
  · exact nodup.2
  · exact fun index member => rep.limbo_valid index (by simp [member])
  · intro index member other inList
    rcases (listsMem other index).mp inList with ⟨-, rfl⟩ | inList
    · exact nodup.1 member
    · exact rep.apart index (by simp [member]) other inList
  · intro key index
    rw [setLru_indexMap, relinked.owned, relinked.key]
    exact rep.index key index

theorem store (rep : stripe.Rep view lists limbo) {node : CacheNode}
    (key : node.key = (view.cell idx).key)
    (listed : ∀ place, idx ∈ lists place →
      node.next = (view.cell idx).next ∧ node.prev = (view.cell idx).prev ∧
      node.segment = (view.cell idx).segment) :
    stripe.Rep (view.store idx node) lists limbo := by
  constructor
  · intro place
    apply (rep.holds place).congr_links
    intro index member
    by_cases same : index = idx
    · subst same
      have kept := listed place member
      simp [kept.1, kept.2.1]
    · simp [same]
  · intro place index member
    by_cases same : index = idx
    · subst same
      simpa [(listed place member).2.2] using rep.tag place index member
    · simpa [same] using rep.tag place index member
  · exact rep.owned
  · exact rep.limbo_nodup
  · exact rep.limbo_valid
  · exact rep.apart
  · intro other index
    by_cases same : index = idx
    · subst same
      simpa [key] using rep.index other index
    · simpa [same] using rep.index other index

theorem of_cells (rep : stripe.Rep view lists limbo)
    (unlisted : ∀ place, idx ∉ lists place)
    (cells : ∀ index, index ≠ idx → view'.cell index = view.cell index) :
    (∀ place, (stripe.lru place).Holds view'.cell (lists place)) ∧
      ∀ place, ∀ index ∈ lists place,
        (view'.cell index).segment = place.segment := by
  have same : ∀ place, ∀ index ∈ lists place,
      view'.cell index = view.cell index := by
    intro place index member
    apply cells
    rintro rfl
    exact unlisted place member
  constructor
  · intro place
    exact (rep.holds place).congr (same place)
  · intro place index member
    rw [same place index member]
    exact rep.tag place index member

theorem discard (rep : stripe.Rep view lists (idx :: limbo))
    (owned : view'.owned = view.owned.erase idx)
    (cells : ∀ index, index ≠ idx → view'.cell index = view.cell index) :
    CacheStripe.Rep
      { stripe with
        indexMap := stripe.indexMap.erase (view.cell idx).key }
      view' lists limbo := by
  have fresh := rep.apart idx (by simp)
  have nodup := List.nodup_cons.mp rep.limbo_nodup
  have listedNe : ∀ place index, index ∈ lists place → index ≠ idx := by
    rintro place index member rfl
    exact fresh place member
  have listed := rep.of_cells fresh cells
  constructor
  · exact listed.1
  · exact listed.2
  · intro index
    rw [owned, Finset.mem_erase, rep.owned]
    constructor
    · rintro ⟨different, inLimbo | listed⟩
      · exact .inl ((List.mem_cons.mp inLimbo).resolve_left different)
      · exact .inr listed
    · rintro (inLimbo | ⟨place, member⟩)
      · refine ⟨?_, .inl (by simp [inLimbo])⟩
        rintro rfl
        exact nodup.1 inLimbo
      · exact ⟨listedNe place index member, .inr ⟨place, member⟩⟩
  · exact nodup.2
  · exact fun index member => rep.limbo_valid index (by simp [member])
  · exact fun index member => rep.apart index (by simp [member])
  · intro key index
    have idxHeld : idx ∈ view.owned := rep.limbo_owned (by simp)
    rw [owned, Finset.mem_erase]
    by_cases sameKey : key = (view.cell idx).key
    · subst sameKey
      rw [AList.lookup_erase]
      constructor
      · simp
      · rintro ⟨⟨different, held⟩, keyEqual⟩
        rw [cells index different] at keyEqual
        exact absurd (rep.key_injective held idxHeld keyEqual) different
    · rw [AList.lookup_erase_ne sameKey, rep.index]
      constructor
      · rintro ⟨held, keyEqual⟩
        have different : index ≠ idx := by
          rintro rfl
          exact sameKey keyEqual.symm
        exact ⟨⟨different, held⟩, by rw [cells index different, keyEqual]⟩
      · rintro ⟨⟨different, held⟩, keyEqual⟩
        exact ⟨held, by rw [← cells index different, keyEqual]⟩

theorem adopt (rep : stripe.Rep view lists limbo) (valid : idx ≠ kInvalidIndex)
    (fresh : idx ∉ view.owned)
    (absent : stripe.indexMap.lookup (view'.cell idx).key = none)
    (owned : view'.owned = insert idx view.owned)
    (cells : ∀ index, index ≠ idx → view'.cell index = view.cell index) :
    CacheStripe.Rep
      { stripe with
        indexMap := stripe.indexMap.insert (view'.cell idx).key idx }
      view' lists (idx :: limbo) := by
  have notListed : ∀ place, idx ∉ lists place := fun place member =>
    fresh (rep.lists_owned member)
  have listed := rep.of_cells notListed cells
  constructor
  · exact listed.1
  · exact listed.2
  · intro index
    rw [owned, Finset.mem_insert, rep.owned, List.mem_cons, or_assoc]
  · exact List.nodup_cons.mpr
      ⟨fun member => fresh (rep.limbo_owned member), rep.limbo_nodup⟩
  · intro index member
    rcases List.mem_cons.mp member with rfl | member
    · exact valid
    · exact rep.limbo_valid index member
  · intro index member place
    rcases List.mem_cons.mp member with rfl | member
    · exact notListed place
    · exact rep.apart index member place
  · intro key index
    rw [owned, Finset.mem_insert]
    by_cases sameKey : key = (view'.cell idx).key
    · subst sameKey
      rw [AList.lookup_insert, Option.some.injEq]
      constructor
      · rintro rfl
        exact ⟨.inl rfl, rfl⟩
      · rintro ⟨rfl | held, keyEqual⟩
        · rfl
        · by_contra different
          rw [cells index (Ne.symm different)] at keyEqual
          have present := rep.lookup_eq held
          rw [keyEqual, absent] at present
          cases present
    · rw [AList.lookup_insert_ne sameKey, rep.index]
      constructor
      · rintro ⟨held, keyEqual⟩
        have different : index ≠ idx := by
          rintro rfl
          exact fresh held
        exact ⟨.inr held, by rw [cells index different, keyEqual]⟩
      · rintro ⟨rfl | held, keyEqual⟩
        · exact absurd keyEqual.symm sameKey
        · have different : index ≠ idx := by
            rintro rfl
            exact fresh held
          exact ⟨held, by rw [← cells index different, keyEqual]⟩

theorem new {capacity : Nat} {windowPct probationPct : Percentage}
    {demotionQueue : Bool} {stripe : CacheStripe}
    (made : CacheStripe.new capacity windowPct probationPct demotionQueue =
      some stripe) (view : SlabView) (empty : view.owned = ∅) :
    stripe.Rep view (fun _ => []) [] := by
  unfold CacheStripe.new at made
  split at made
  · cases made
    constructor
    · intro place
      cases place <;> exact IntrusiveLru.Holds.new _
    · simp
    · simp [empty]
    · exact .nil
    · simp
    · simp
    · simp [empty]
  · simp at made

end Rep

end CacheStripe

end Walde
