import Walde.PolicyInvariant
import Walde.StripeRep

namespace Walde

open Foundation

/-! # The stripe follows the policy

Every operation of a stripe, run on the nodes it holds, does to them what the
policy does to its three lists. -/

namespace Policy

def setEntries (policy : Policy) (place : Place) (entries : List Entry) :
    Policy :=
  match place with
  | .window => { policy with window := entries }
  | .probation => { policy with probation := entries }
  | .protected_ => { policy with protected_ := entries }

theorem entriesAt_setEntries (policy : Policy) (place : Place)
    (entries : List Entry) :
    (policy.setEntries place entries).entriesAt =
      Function.update policy.entriesAt place entries := by
  funext other
  cases place <;> cases other <;> rfl

end Policy

/-! ## Entries of lists without repeated keys -/

section Entries

variable {cell : Nat → CacheNode} {members : List Nat} {idx : Nat}

theorem without_map (nodup : members.Nodup)
    (unique : ∀ other ∈ members, (cell other).key = (cell idx).key →
      other = idx) :
    Policy.without (cell idx).key (members.map (entry cell)) =
      (members.erase idx).map (entry cell) := by
  rw [Policy.without, List.filter_map, nodup.erase_eq_filter]
  congr 1
  apply List.filter_congr
  intro other member
  by_cases same : other = idx
  · simp [same, entry]
  · have different : (cell other).key ≠ (cell idx).key := fun equal =>
      same (unique other member equal)
    simp [same, different, entry]

theorem named_map (member : idx ∈ members) (nodup : members.Nodup)
    (unique : ∀ other ∈ members, (cell other).key = (cell idx).key →
      other = idx) :
    Policy.named (cell idx).key (members.map (entry cell)) =
      [entry cell idx] := by
  have single : members.filter (fun other => other = idx) = [idx] := by
    rw [List.filter_eq, List.count_eq_one_of_mem nodup member]
    rfl
  rw [Policy.named, List.filter_map, ← List.map_singleton, ← single]
  congr 1
  apply List.filter_congr
  intro other inMembers
  by_cases same : other = idx
  · simp [same, entry]
  · have different : (cell other).key ≠ (cell idx).key := fun equal =>
      same (unique other inMembers equal)
    simp [same, different, entry]

end Entries

namespace CacheStripe

structure Shows (stripe : CacheStripe) (cell : Nat → CacheNode)
    (lists : Place → List Nat) (policy : Policy) : Prop where
  config : policy.config = stripe.config
  entries : ∀ place, policy.entriesAt place = (lists place).map (entry cell)
  table : stripe.cms.Shows policy.table
  depth : stripe.cms.depth = 4
  width : stripe.cms.width = 512
  puts : policy.putsSinceDecay = stripe.opsSinceDecay
  stats : policy.stats = stripe.stats
  queue : policy.queueAttached = stripe.demotionQueue

structure Sim (stripe : CacheStripe) (view : SlabView)
    (lists : Place → List Nat) (limbo : List Nat) (policy : Policy) :
    Prop where
  rep : stripe.Rep view lists limbo
  shows' : stripe.Shows view.cell lists policy

/-- No node changed hands, key or value, and nothing was emitted. -/
structure Kept (view view' : SlabView) : Prop where
  owned : view'.owned = view.owned
  emitted : view'.emitted = view.emitted
  entry : entry view'.cell = entry view.cell

theorem Kept.refl (view : SlabView) : Kept view view := ⟨rfl, rfl, rfl⟩

theorem Kept.trans {first second third : SlabView} (left : Kept first second)
    (right : Kept second third) : Kept first third :=
  ⟨right.owned.trans left.owned, right.emitted.trans left.emitted,
    right.entry.trans left.entry⟩

theorem Kept.key {view view' : SlabView} (kept : Kept view view')
    (index : Nat) : (view'.cell index).key = (view.cell index).key :=
  congrArg Prod.fst (congrFun kept.entry index)

theorem Kept.value {view view' : SlabView} (kept : Kept view view')
    (index : Nat) : (view'.cell index).value = (view.cell index).value :=
  congrArg Prod.snd (congrFun kept.entry index)

theorem kept_of_relinked {touched : List Nat} {view view' : SlabView}
    (relinked : IntrusiveLru.Relinked touched view view') : Kept view view' :=
  ⟨relinked.owned, relinked.emitted, relinked.entry_eq⟩

section Moves

variable {limit : Option Nat} {stripe : CacheStripe} {view view' : SlabView}
  {lists : Place → List Nat} {limbo : List Nat} {policy : Policy}
  {place : Place} {idx : Nat}

theorem Shows.setLru (shows' : stripe.Shows view.cell lists policy)
    (same : entry view'.cell = entry view.cell) (place : Place)
    (lru : IntrusiveLru) {members : List Nat} {entries : List Entry}
    (listed : entries = members.map (entry view.cell)) :
    (stripe.setLru place lru).Shows view'.cell
      (Function.update lists place members) (policy.setEntries place entries) := by
  have fixed : (policy.setEntries place entries).config = policy.config ∧
      (policy.setEntries place entries).table = policy.table ∧
      (policy.setEntries place entries).putsSinceDecay =
        policy.putsSinceDecay ∧
      (policy.setEntries place entries).stats = policy.stats ∧
      (policy.setEntries place entries).queueAttached =
        policy.queueAttached := by
    cases place <;> exact ⟨rfl, rfl, rfl, rfl, rfl⟩
  constructor
  · simpa [fixed] using shows'.config
  · intro other
    rw [Policy.entriesAt_setEntries, same]
    by_cases equal : other = place
    · subst equal
      simpa using listed
    · simpa [equal] using shows'.entries other
  · simpa [fixed] using shows'.table
  · simpa using shows'.depth
  · simpa using shows'.width
  · simpa [fixed] using shows'.puts
  · simpa [fixed] using shows'.stats
  · simpa [fixed] using shows'.queue

theorem Rep.unique (rep : stripe.Rep view lists limbo)
    (held : idx ∈ view.owned) (place : Place) :
    ∀ other ∈ lists place, (view.cell other).key = (view.cell idx).key →
      other = idx :=
  fun _ member same => rep.key_injective (rep.lists_owned member) held same

theorem pushFront_sim (sim : stripe.Sim view lists (idx :: limbo) policy)
    (place : Place) (limit : Option Nat)
    (tagged : (view.cell idx).segment = place.segment) :
    ((stripe.lru place).pushFront idx).wp (slabSpec limit)
      (fun lru view' => (stripe.setLru place lru).Sim view'
          (Function.update lists place (idx :: lists place)) limbo
          (policy.setEntries place
            (entry view.cell idx :: policy.entriesAt place)) ∧
        Kept view view') view := by
  have rep := sim.rep
  refine wp_weaken (IntrusiveLru.pushFront_spec (rep.holds place)
    (rep.limbo_valid idx (by simp)) (rep.apart idx (by simp) place)
    (rep.limbo_owned (by simp)) (fun _ => rep.lists_owned)) ?_
  rintro lru view' ⟨holds, relinked⟩
  refine ⟨⟨rep.insertFront tagged holds relinked, ?_⟩,
    kept_of_relinked relinked⟩
  apply sim.shows'.setLru relinked.entry_eq
  simp [sim.shows'.entries]

theorem remove_sim (sim : stripe.Sim view lists limbo policy)
    (member : idx ∈ lists place) (limit : Option Nat) :
    ((stripe.lru place).remove idx).wp (slabSpec limit)
      (fun lru view' => (stripe.setLru place lru).Sim view'
          (Function.update lists place ((lists place).erase idx))
          (idx :: limbo)
          (policy.setEntries place
            (Policy.without (view.cell idx).key (policy.entriesAt place))) ∧
        Kept view view') view := by
  have rep := sim.rep
  refine wp_weaken (IntrusiveLru.remove_spec (rep.holds place) member
    (fun _ => rep.lists_owned)) ?_
  rintro lru view' ⟨holds, relinked, -, -⟩
  refine ⟨⟨?_, ?_⟩, kept_of_relinked relinked⟩
  · exact rep.relink place [idx] holds relinked
      (List.perm_cons_erase member).symm
  · apply sim.shows'.setLru relinked.entry_eq
    rw [sim.shows'.entries]
    exact without_map (rep.holds place).nodup
      (rep.unique (rep.lists_owned member) place)

theorem popBack_sim (sim : stripe.Sim view lists limbo policy)
    {front : List Nat} {last : Nat} (shape : lists place = front ++ [last]) :
    (stripe.lru place).popBack.wp (slabSpec limit)
      (fun popped view' => popped.1 = last ∧
        (stripe.setLru place popped.2).Sim view'
          (Function.update lists place front) (last :: limbo)
          (policy.setEntries place (policy.entriesAt place).dropLast) ∧
        Kept view view') view := by
  have rep := sim.rep
  have holds := rep.holds place
  rw [shape] at holds
  refine wp_weaken (IntrusiveLru.popBack_concat_spec holds
    (fun other inside => rep.lists_owned (shape.symm ▸ inside))) ?_
  rintro popped view' ⟨poppedLast, holds, relinked, -, -⟩
  rw [← shape] at relinked
  refine ⟨poppedLast, ⟨?_, ?_⟩, kept_of_relinked relinked⟩
  · apply rep.relink place [last] holds relinked
    rw [shape]
    exact List.perm_append_comm
  · apply sim.shows'.setLru relinked.entry_eq
    simp [sim.shows'.entries, shape]

theorem moveToFront_sim (sim : stripe.Sim view lists limbo policy)
    (member : idx ∈ lists place) (limit : Option Nat) :
    ((stripe.lru place).moveToFront idx).wp (slabSpec limit)
      (fun lru view' => (stripe.setLru place lru).Sim view'
          (Function.update lists place (idx :: (lists place).erase idx)) limbo
          (policy.setEntries place
            (Policy.moveToFront (view.cell idx).key
              (policy.entriesAt place))) ∧
        Kept view view') view := by
  have rep := sim.rep
  refine wp_weaken (IntrusiveLru.moveToFront_spec (rep.holds place) member
    (fun _ => rep.lists_owned)) ?_
  rintro lru view' ⟨holds, relinked⟩
  refine ⟨⟨?_, ?_⟩, kept_of_relinked relinked⟩
  · exact rep.relink place [] holds relinked
      (List.perm_cons_erase member).symm
  · apply sim.shows'.setLru relinked.entry_eq
    have unique := rep.unique (rep.lists_owned member) place
    rw [Policy.moveToFront, sim.shows'.entries,
      named_map member (rep.holds place).nodup unique,
      without_map (rep.holds place).nodup unique]
    rfl

theorem Sim.size_eq (sim : stripe.Sim view lists limbo policy)
    (place : Place) :
    (stripe.lru place).size = (policy.entriesAt place).length := by
  rw [(sim.rep.holds place).size, sim.shows'.entries, List.length_map]

theorem Sim.retag (sim : stripe.Sim view lists limbo policy)
    (member : idx ∈ limbo) (segment : Segment) :
    stripe.Sim (view.store idx { view.cell idx with segment }) lists limbo
        policy ∧
      Kept view (view.store idx { view.cell idx with segment }) := by
  have kept : Kept view (view.store idx { view.cell idx with segment }) := by
    refine ⟨rfl, rfl, ?_⟩
    funext index
    by_cases same : index = idx <;> simp [entry, same]
  refine ⟨⟨?_, ?_⟩, kept⟩
  · exact sim.rep.store rfl fun place listed =>
      absurd listed (sim.rep.apart idx member place)
  · exact { sim.shows' with
      entries := fun place => by rw [kept.entry, sim.shows'.entries] }

end Moves

theorem Sim.new {capacity : Nat} {windowPct probationPct : Percentage}
    {demotionQueue : Bool} {stripe : CacheStripe}
    (made : CacheStripe.new capacity windowPct probationPct demotionQueue =
      some stripe) (view : SlabView) (empty : view.owned = ∅) :
    stripe.Sim view (fun _ => []) []
      (.new (.new capacity windowPct probationPct) demotionQueue) := by
  refine ⟨.new made view empty, ?_⟩
  unfold CacheStripe.new at made
  split at made
  · cases made
    refine ⟨rfl, ?_, ?_, rfl, rfl, rfl, rfl, rfl⟩
    · intro place
      cases place <;> rfl
    · exact CountMinSketch.shows_new 4 512 (by decide) (by decide)
  · simp at made

theorem Sim.silence {stripe : CacheStripe} {view : SlabView}
    {lists : Place → List Nat} {limbo : List Nat} {policy : Policy}
    (sim : stripe.Sim view lists limbo policy) :
    stripe.Sim view.silence lists limbo policy :=
  ⟨⟨sim.rep.holds, sim.rep.tag, sim.rep.owned, sim.rep.limbo_nodup,
    sim.rep.limbo_valid, sim.rep.apart, sim.rep.index⟩, sim.shows'⟩

/-! ## Promotion -/

section Promotion

variable {limit : Option Nat} {stripe : CacheStripe} {view : SlabView}
  {lists : Place → List Nat} {limbo : List Nat} {policy : Policy} {idx : Nat}

theorem makeRoomInProtected_sim (sim : stripe.Sim view lists limbo policy) :
    stripe.makeRoomInProtected.wp (slabSpec limit)
      (fun stripe' view' => ∃ lists',
        stripe'.Sim view' lists' limbo policy.makeRoom ∧ Kept view view')
      view := by
  have size : stripe.protectedLru.size = policy.protected_.length :=
    sim.size_eq .protected_
  have entries : policy.protected_ =
      (lists .protected_).map (entry view.cell) :=
    sim.shows'.entries .protected_
  have full : stripe.config.protectedCapacity ≤ stripe.protectedLru.size ↔
      policy.config.protectedCapacity ≤ policy.protected_.length := by
    rw [sim.shows'.config, size]
  unfold makeRoomInProtected Policy.makeRoom
  by_cases guard : stripe.config.protectedCapacity ≤ stripe.protectedLru.size
  · rw [if_pos guard, if_pos (full.mp guard), Program.wp_bind]
    rcases List.eq_nil_or_concat (lists .protected_) with empty | ⟨front, last, shape⟩
    · have holds := sim.rep.holds .protected_
      rw [empty] at holds
      refine wp_weaken (IntrusiveLru.popBack_nil_spec holds) ?_
      rintro popped view' ⟨rfl, rfl⟩
      have noneLeft : policy.protected_.getLast? = none := by
        rw [entries, empty]
        rfl
      simp only [ne_eq, not_true_eq_false, if_false, noneLeft]
      exact ⟨lists, sim, Kept.refl _⟩
    · rw [List.concat_eq_append] at shape
      refine wp_weaken (popBack_sim sim shape) ?_
      rintro ⟨demotedIdx, protectedLru⟩ middle ⟨rfl, popped, kept⟩
      have valid : demotedIdx ≠ kInvalidIndex :=
        popped.rep.limbo_valid demotedIdx (by simp)
      have someLeft : policy.protected_.getLast? =
          some (entry view.cell demotedIdx) := by
        rw [entries, shape]
        simp
      simp only [ne_eq, valid, not_false_eq_true, if_true, Program.wp_bind,
        wp_modifyNode, someLeft]
      refine ⟨popped.rep.limbo_owned (by simp), ?_⟩
      rcases popped.retag (List.mem_cons_self) .probation with
        ⟨tagged, retagged⟩
      refine wp_weaken (pushFront_sim tagged .probation limit
        (by simp [Place.segment])) ?_
      rintro probationLru last ⟨pushed, pushKept⟩
      have whole := (kept.trans retagged).trans pushKept
      rw [(kept.trans retagged).entry] at pushed
      exact ⟨_, pushed, whole⟩
  · rw [if_neg guard, if_neg (mt full.mpr guard)]
    exact ⟨lists, sim, Kept.refl _⟩

theorem promoteToProtected_sim (sim : stripe.Sim view lists limbo policy)
    (member : idx ∈ lists .probation) :
    (stripe.promoteToProtected idx).wp (slabSpec limit)
      (fun stripe' view' => ∃ lists',
        stripe'.Sim view' lists' limbo
          (policy.promote (view.cell idx).key) ∧ Kept view view') view := by
  have promoted : Policy.named (view.cell idx).key policy.probation =
      [entry view.cell idx] := by
    have entries : policy.probation =
        (lists .probation).map (entry view.cell) :=
      sim.shows'.entries .probation
    rw [entries]
    exact named_map member (sim.rep.holds .probation).nodup
      (sim.rep.unique (sim.rep.lists_owned member) .probation)
  unfold promoteToProtected
  rw [Program.wp_bind]
  refine wp_weaken (remove_sim sim member limit) ?_
  rintro probationLru first ⟨removed, firstKept⟩
  rw [Program.wp_bind]
  refine wp_weaken (makeRoomInProtected_sim removed) ?_
  rintro roomy second ⟨lists', room, secondKept⟩
  simp only [Program.wp_bind, wp_modifyNode]
  refine ⟨room.rep.limbo_owned (by simp), ?_⟩
  rcases room.retag List.mem_cons_self .protected_ with ⟨tagged, thirdKept⟩
  refine wp_weaken (pushFront_sim tagged .protected_ limit
    (by simp [Place.segment])) ?_
  rintro protectedLru last ⟨pushed, lastKept⟩
  have before := (firstKept.trans secondKept).trans thirdKept
  rw [before.entry] at pushed
  rw [Program.wp_pure, Policy.promote, promoted]
  exact ⟨_, pushed, before.trans lastKept⟩

theorem promoteWithinSegment_sim (sim : stripe.Sim view lists limbo policy)
    {place : Place} (member : idx ∈ lists place) :
    (stripe.promoteWithinSegment idx).wp (slabSpec limit)
      (fun stripe' view' => ∃ lists',
        stripe'.Sim view' lists' limbo
          (policy.touch (view.cell idx).key place) ∧ Kept view view') view := by
  unfold promoteWithinSegment
  simp only [Program.wp_bind, wp_node]
  refine ⟨sim.rep.lists_owned member, ?_⟩
  rw [sim.rep.tag place idx member]
  cases place with
  | window =>
      rw [Place.segment, Program.wp_bind]
      refine wp_weaken (moveToFront_sim sim member limit) ?_
      rintro windowLru view' ⟨moved, kept⟩
      exact ⟨_, moved, kept⟩
  | probation => exact promoteToProtected_sim sim member
  | protected_ =>
      rw [Place.segment, Program.wp_bind]
      refine wp_weaken (moveToFront_sim sim member limit) ?_
      rintro protectedLru view' ⟨moved, kept⟩
      exact ⟨_, moved, kept⟩

end Promotion

/-! ## Lookups and counters -/

section Lookups

variable {stripe : CacheStripe} {view : SlabView} {lists : Place → List Nat}
  {policy : Policy} {idx : Nat} {key : Key}

theorem Sim.mem_keys_iff (sim : stripe.Sim view lists [] policy)
    (place : Place) : key ∈ (policy.entriesAt place).map (·.1) ↔
      ∃ index, stripe.indexMap.lookup key = some index ∧
        index ∈ lists place := by
  rw [sim.shows'.entries]
  simp only [List.map_map, List.mem_map, Function.comp_apply, entry]
  constructor
  · rintro ⟨index, member, rfl⟩
    exact ⟨index, sim.rep.lookup_eq (sim.rep.lists_owned member), member⟩
  · rintro ⟨index, found, member⟩
    exact ⟨index, member, ((sim.rep.index key index).mp found).2⟩

theorem Sim.exists_place (sim : stripe.Sim view lists [] policy)
    (found : stripe.indexMap.lookup key = some idx) :
    ∃ place, idx ∈ lists place := by
  have held := ((sim.rep.index key idx).mp found).1
  simpa using (sim.rep.owned idx).mp held

theorem Sim.placeOf_some (sim : stripe.Sim view lists [] policy)
    (found : stripe.indexMap.lookup key = some idx) {place : Place}
    (member : idx ∈ lists place) : policy.placeOf key = some place := by
  have only : ∀ other, key ∈ (policy.entriesAt other).map (·.1) ↔
      other = place := by
    intro other
    rw [sim.mem_keys_iff]
    constructor
    · rintro ⟨index, alsoFound, inOther⟩
      rw [found] at alsoFound
      cases alsoFound
      exact sim.rep.place_unique inOther member
    · rintro rfl
      exact ⟨idx, found, member⟩
  have atWindow := only .window
  have atProbation := only .probation
  have atProtected := only .protected_
  simp only [Policy.entriesAt] at atWindow atProbation atProtected
  simp only [Policy.placeOf, atWindow, atProbation, atProtected]
  cases place <;> simp

theorem Sim.placeOf_none (sim : stripe.Sim view lists [] policy)
    (absent : stripe.indexMap.lookup key = none) :
    policy.placeOf key = none := by
  have nowhere : ∀ other, key ∉ (policy.entriesAt other).map (·.1) := by
    intro other
    rw [sim.mem_keys_iff]
    simp [absent]
  have atWindow := nowhere .window
  have atProbation := nowhere .probation
  have atProtected := nowhere .protected_
  simp only [Policy.entriesAt] at atWindow atProbation atProtected
  simp only [Policy.placeOf, atWindow, atProbation, atProtected, if_false]

theorem Sim.mem_entries_iff (sim : stripe.Sim view lists [] policy)
    {value : Value} : (key, value) ∈ policy.entries ↔
      ∃ index, stripe.indexMap.lookup key = some index ∧
        (view.cell index).value = value := by
  have listed : (key, value) ∈ policy.entries ↔
      ∃ place, (key, value) ∈ policy.entriesAt place := by
    simp only [Policy.entries, List.mem_append]
    constructor
    · rintro ((member | member) | member)
      · exact ⟨.window, member⟩
      · exact ⟨.probation, member⟩
      · exact ⟨.protected_, member⟩
    · rintro ⟨place, member⟩
      cases place with
      | window => exact .inl (.inl member)
      | probation => exact .inl (.inr member)
      | protected_ => exact .inr member
  rw [listed]
  constructor
  · rintro ⟨place, member⟩
    rw [sim.shows'.entries] at member
    rcases List.mem_map.mp member with ⟨index, inList, equal⟩
    cases equal
    exact ⟨index, sim.rep.lookup_eq (sim.rep.lists_owned inList), rfl⟩
  · rintro ⟨index, found, rfl⟩
    rcases sim.exists_place found with ⟨place, member⟩
    refine ⟨place, ?_⟩
    rw [sim.shows'.entries]
    have keyEqual := ((sim.rep.index key index).mp found).2
    exact List.mem_map.mpr ⟨index, member, by simp [entry, keyEqual]⟩

theorem Sim.find_some (sim : stripe.Sim view lists [] policy)
    (found : stripe.indexMap.lookup key = some idx) :
    policy.find key = some (view.cell idx).value := by
  have present := sim.mem_entries_iff.mpr ⟨idx, found, rfl⟩
  cases search : policy.entries.find? (fun entry => entry.1 = key) with
  | none =>
      have missing := List.find?_eq_none.mp search _ present
      simp at missing
  | some hit =>
      have sameKey : hit.1 = key := by
        simpa using List.find?_some search
      have member : (key, hit.2) ∈ policy.entries := by
        rw [← sameKey]
        exact List.mem_of_find?_eq_some search
      rcases sim.mem_entries_iff.mp member with ⟨index, alsoFound, equal⟩
      rw [found] at alsoFound
      cases alsoFound
      simp [Policy.find, search, equal]

theorem Sim.find_none (sim : stripe.Sim view lists [] policy)
    (absent : stripe.indexMap.lookup key = none) : policy.find key = none := by
  rw [Policy.find, Option.map_eq_none_iff, List.find?_eq_none]
  rintro ⟨other, value⟩ member sameKey
  simp only [decide_eq_true_eq] at sameKey
  subst sameKey
  rcases sim.mem_entries_iff.mp member with ⟨index, found, -⟩
  rw [absent] at found
  cases found

variable {limbo : List Nat}

theorem Shows.frequency (shows' : stripe.Shows view.cell lists policy)
    (xx : XxHash) (key : Key) :
    stripe.cms.estimate xx key = policy.frequency xx key := by
  have columns : stripe.cms.hash xx key = Policy.column xx key := by
    funext row
    rw [CountMinSketch.hash, Policy.column, shows'.width]
  rw [shows'.table.estimate, shows'.depth, columns, Policy.frequency]

theorem Sim.count (sim : stripe.Sim view lists limbo policy) (xx : XxHash)
    (key : Key) :
    CacheStripe.Sim { stripe with cms := stripe.cms.increment xx key } view
      lists limbo (policy.count xx key) := by
  have columns : stripe.cms.hash xx key = Policy.column xx key := by
    funext row
    rw [CountMinSketch.hash, Policy.column, sim.shows'.width]
  have table := sim.shows'.table.increment xx key
  rw [sim.shows'.depth, columns] at table
  exact ⟨sim.rep.of_same rfl rfl, sim.shows'.config,
    sim.shows'.entries, table, sim.shows'.depth, sim.shows'.width,
    sim.shows'.puts, sim.shows'.stats, sim.shows'.queue⟩

theorem Sim.tick (sim : stripe.Sim view lists limbo policy) :
    stripe.maybeDecayCms.Sim view lists limbo policy.tick := by
  have due : stripe.config.decayInterval ≤ stripe.opsSinceDecay + 1 ↔
      policy.config.decayInterval ≤ policy.putsSinceDecay + 1 := by
    rw [sim.shows'.config, sim.shows'.puts]
  unfold maybeDecayCms Policy.tick
  by_cases guard : stripe.config.decayInterval ≤ stripe.opsSinceDecay + 1
  · rw [if_pos guard, if_pos (due.mp guard)]
    exact ⟨sim.rep.of_same rfl rfl, sim.shows'.config, sim.shows'.entries,
      sim.shows'.table.decay, sim.shows'.depth, sim.shows'.width, rfl,
      sim.shows'.stats, sim.shows'.queue⟩
  · rw [if_neg guard, if_neg (mt due.mpr guard)]
    exact ⟨sim.rep.of_same rfl rfl, sim.shows'.config, sim.shows'.entries,
      sim.shows'.table, sim.shows'.depth, sim.shows'.width,
      congrArg (· + 1) sim.shows'.puts, sim.shows'.stats, sim.shows'.queue⟩

theorem Sim.withStats (sim : stripe.Sim view lists limbo policy)
    (change : StripeStats → StripeStats) :
    CacheStripe.Sim { stripe with stats := change stripe.stats } view lists
      limbo { policy with stats := change policy.stats } :=
  ⟨sim.rep.of_same rfl rfl, sim.shows'.config, sim.shows'.entries,
    sim.shows'.table, sim.shows'.depth, sim.shows'.width, sim.shows'.puts,
    congrArg change sim.shows'.stats, sim.shows'.queue⟩

end Lookups

/-! ## Hits and misses -/

section Get

variable {limit : Option Nat} {stripe : CacheStripe} {view : SlabView}
  {lists : Place → List Nat} {policy : Policy}

theorem get_sim (sim : stripe.Sim view lists [] policy) (xx : XxHash)
    (key : Key) :
    (stripe.get xx key).wp (slabSpec limit)
      (fun reply view' => reply.1 = (policy.get xx key).1 ∧
        view'.emitted = view.emitted ∧
        ∃ lists', reply.2.Sim view' lists' [] (policy.get xx key).2) view := by
  unfold CacheStripe.get Policy.get
  cases found : stripe.indexMap.lookup key with
  | none =>
      rw [sim.placeOf_none found]
      exact ⟨rfl, rfl, lists, sim.withStats fun stats =>
        { stats with misses := stats.misses + 1 }⟩
  | some idx =>
      rcases sim.exists_place found with ⟨place, member⟩
      have keyEqual := ((sim.rep.index key idx).mp found).2
      rw [sim.placeOf_some found member, sim.find_some found]
      simp only [Program.wp_bind]
      refine wp_weaken (promoteWithinSegment_sim (sim.count xx key) member) ?_
      rintro touched view' ⟨lists', touchedSim, kept⟩
      rw [Program.wp_bind, wp_node]
      rw [keyEqual] at touchedSim
      refine ⟨kept.owned ▸ sim.rep.lists_owned member, ?_, kept.emitted,
        lists', ?_⟩
      · rw [kept.value]
      · have counted := touchedSim.withStats fun stats =>
          { stats with hits := stats.hits + 1 }
        have sameStats : ((policy.count xx key).touch key place).stats =
            policy.stats := Policy.touch_stats _ _ _
        rw [sameStats] at counted
        exact counted

end Get

/-! ## Admission -/

section Admission

variable {limit : Option Nat} {stripe : CacheStripe} {view : SlabView}
  {lists : Place → List Nat} {limbo : List Nat} {policy : Policy} {idx : Nat}

/-- What an operation leaves: the policy's next state, its offers emitted, and
the keys and values of the nodes that stayed as they were. -/
structure Reached (view : SlabView) (limbo : List Nat) (policy : Policy)
    (offered : List DemotionItem) (stripe' : CacheStripe) (view' : SlabView) :
    Prop where
  sim : ∃ lists', stripe'.Sim view' lists' limbo policy
  emitted : view'.emitted = view.emitted ++ offered

theorem admitCandidate_sim
    (sim : stripe.Sim view lists (idx :: limbo) policy) :
    (stripe.admitCandidate idx).wp (slabSpec limit)
      (Reached view limbo (policy.admitCandidate (entry view.cell idx)) []) view := by
  unfold admitCandidate
  rw [Program.wp_bind, wp_modifyNode]
  refine ⟨sim.rep.limbo_owned (by simp), ?_⟩
  rcases sim.retag List.mem_cons_self .probation with ⟨tagged, kept⟩
  rw [Program.wp_bind]
  refine wp_weaken (pushFront_sim tagged .probation limit
    (by simp [Place.segment])) ?_
  rintro probationLru last ⟨pushed, lastKept⟩
  rw [kept.entry] at pushed
  rw [Program.wp_pure]
  refine ⟨⟨_, pushed.withStats fun stats =>
    { stats with admissions := stats.admissions + 1 }⟩, ?_⟩
  rw [(kept.trans lastKept).emitted, List.append_nil]

theorem Shows.of_cells {cell cell' : Nat → CacheNode}
    (shows' : stripe.Shows cell lists policy)
    (unlisted : ∀ place, idx ∉ lists place)
    (cells : ∀ index, index ≠ idx → cell' index = cell index)
    (indexMap : AList fun _ : Key => Nat) :
    Shows { stripe with indexMap } cell' lists policy where
  config := shows'.config
  entries := by
    intro place
    rw [shows'.entries]
    apply List.map_congr_left
    intro index member
    have different : index ≠ idx := by
      rintro rfl
      exact unlisted place member
    simp [entry, cells index different]
  table := shows'.table
  depth := shows'.depth
  width := shows'.width
  puts := shows'.puts
  stats := shows'.stats
  queue := shows'.queue

theorem Sim.discard {view' : SlabView}
    (sim : stripe.Sim view lists (idx :: limbo) policy)
    (owned : view'.owned = view.owned.erase idx)
    (cells : ∀ index, index ≠ idx → view'.cell index = view.cell index) :
    CacheStripe.Sim
      { stripe with indexMap := stripe.indexMap.erase (view.cell idx).key }
      view' lists limbo policy := by
  have unlisted := sim.rep.apart idx List.mem_cons_self
  exact ⟨sim.rep.discard owned cells, sim.shows'.of_cells unlisted cells _⟩

theorem rejectCandidate_sim
    (sim : stripe.Sim view lists (idx :: limbo) policy) :
    (stripe.rejectCandidate idx).wp (slabSpec limit)
      (Reached view limbo policy.reject []) view := by
  unfold rejectCandidate
  rw [Program.wp_bind, wp_node]
  refine ⟨sim.rep.limbo_owned (by simp), ?_⟩
  rw [Program.wp_bind, wp_deallocate]
  refine ⟨sim.rep.limbo_owned (by simp), ?_⟩
  have discarded : CacheStripe.Sim
      { stripe with indexMap := stripe.indexMap.erase (view.cell idx).key }
      (view.drop idx) lists limbo policy :=
    sim.discard rfl fun _ _ => rfl
  rw [Program.wp_pure]
  refine ⟨⟨lists, discarded.withStats fun stats =>
    { stats with rejections := stats.rejections + 1 }⟩, ?_⟩
  simp

theorem demoteVictim_sim (xx : XxHash)
    (sim : stripe.Sim view lists (idx :: limbo) policy) :
    (stripe.demoteVictim xx idx).wp (slabSpec limit)
      (fun stripe' view' => stripe'.Sim view' lists limbo
          { policy with stats := { policy.stats with
            evictions := policy.stats.evictions + 1 } } ∧
        view'.emitted = view.emitted ++
          policy.offer xx (entry view.cell idx) ∧
        ∀ index, index ≠ idx → view'.cell index = view.cell index) view := by
  have held : idx ∈ view.owned := sim.rep.limbo_owned (by simp)
  have frequency := sim.shows'.frequency xx (view.cell idx).key
  unfold demoteVictim
  rw [Program.wp_bind, wp_node]
  refine ⟨held, ?_⟩
  by_cases attached : stripe.demotionQueue = true
  · have offer : policy.offer xx (entry view.cell idx) =
        [⟨(view.cell idx).key, (view.cell idx).value,
          stripe.cms.estimate xx (view.cell idx).key⟩] := by
      rw [Policy.offer, sim.shows'.queue, if_pos attached, frequency]
      rfl
    simp only [if_pos attached, Program.wp_bind, wp_setNode, wp_deallocate,
      wp_tryPush, Program.wp_pure]
    have cells : ∀ index, index ≠ idx →
        (((view.store idx { view.cell idx with key := "", value := "" }).drop
          idx).record ⟨(view.cell idx).key, (view.cell idx).value,
            stripe.cms.estimate xx (view.cell idx).key⟩).cell index =
        view.cell index := by
      intro index different
      simp [different]
    refine ⟨held, held, ?_, ?_, cells⟩
    · exact (sim.discard rfl cells).withStats fun stats =>
        { stats with evictions := stats.evictions + 1 }
    · simp [offer]
  · have offer : policy.offer xx (entry view.cell idx) = [] := by
      rw [Policy.offer, sim.shows'.queue, if_neg attached]
    simp only [if_neg attached, Program.wp_bind, wp_deallocate,
      Program.wp_pure]
    refine ⟨held, ?_, ?_, fun _ _ => rfl⟩
    · have discarded : CacheStripe.Sim
          { stripe with indexMap := stripe.indexMap.erase (view.cell idx).key }
          (view.drop idx) lists limbo policy :=
        sim.discard rfl fun _ _ => rfl
      exact discarded.withStats fun stats =>
        { stats with evictions := stats.evictions + 1 }
    · simp [offer]

theorem contest_sim (xx : XxHash)
    (sim : stripe.Sim view lists (idx :: limbo) policy)
    {front : List Nat} {victim : Nat}
    (shape : lists .probation = front ++ [victim]) :
    (stripe.contest xx idx).wp (slabSpec limit)
      (Reached view limbo
        (policy.contest xx (entry view.cell idx) (entry view.cell victim)).1
        (policy.contest xx (entry view.cell idx) (entry view.cell victim)).2)
      view := by
  have inProbation : victim ∈ lists .probation := by simp [shape]
  have held : idx ∈ view.owned := sim.rep.limbo_owned (by simp)
  have victimHeld : victim ∈ view.owned := sim.rep.lists_owned inProbation
  have atBack : stripe.probationLru.peekBack = victim := by
    have holds := sim.rep.holds .probation
    rw [shape] at holds
    have tail : stripe.probationLru.tail = _ := holds.tail_eq
    simpa [IntrusiveLru.peekBack] using tail
  have different : idx ≠ victim := by
    rintro rfl
    exact sim.rep.apart idx (by simp) .probation inProbation
  have candidateFrequency := sim.shows'.frequency xx (view.cell idx).key
  have victimFrequency := sim.shows'.frequency xx (view.cell victim).key
  unfold CacheStripe.contest Policy.contest
  simp only [Program.wp_bind, wp_node, atBack]
  refine ⟨held, victimHeld, ?_⟩
  simp only [entry, ← candidateFrequency, ← victimFrequency, gt_iff_lt]
  split
  · rw [Program.wp_bind]
    refine wp_weaken (popBack_sim sim shape) ?_
    rintro ⟨popped, probationLru⟩ first ⟨-, poppedSim, firstKept⟩
    rw [Program.wp_bind]
    refine wp_weaken (demoteVictim_sim xx poppedSim) ?_
    rintro demoted second ⟨demotedSim, emitted, cells⟩
    refine wp_weaken (admitCandidate_sim demotedSim) ?_
    rintro admitted last ⟨⟨lists', admittedSim⟩, lastEmitted⟩
    have candidate : entry second.cell idx = entry view.cell idx := by
      rw [entry, cells idx different]
      exact congrFun firstKept.entry idx
    rw [candidate] at admittedSim
    refine ⟨⟨lists', admittedSim⟩, ?_⟩
    rw [lastEmitted, emitted, firstKept.emitted, firstKept.entry,
      List.append_nil]
    rfl
  · exact rejectCandidate_sim sim

theorem tryAdmitFromWindow_sim (xx : XxHash)
    (sim : stripe.Sim view lists limbo policy) :
    (stripe.tryAdmitFromWindow xx).wp (slabSpec limit)
      (Reached view limbo (policy.tryAdmit xx).1 (policy.tryAdmit xx).2)
      view := by
  have entries : policy.window = (lists .window).map (entry view.cell) :=
    sim.shows'.entries .window
  unfold tryAdmitFromWindow Policy.tryAdmit
  rw [Program.wp_bind]
  rcases List.eq_nil_or_concat (lists .window) with empty | ⟨front, last, shape⟩
  · have holds := sim.rep.holds .window
    rw [empty] at holds
    refine wp_weaken (IntrusiveLru.popBack_nil_spec holds) ?_
    rintro popped view' ⟨rfl, rfl⟩
    have noneLeft : policy.window.getLast? = none := by
      rw [entries, empty]
      rfl
    simp only [if_true, noneLeft]
    exact ⟨⟨lists, sim⟩, by simp⟩
  · rw [List.concat_eq_append] at shape
    refine wp_weaken (popBack_sim sim shape) ?_
    rintro ⟨candidateIdx, windowLru⟩ middle ⟨rfl, popped, kept⟩
    have valid : candidateIdx ≠ kInvalidIndex :=
      popped.rep.limbo_valid candidateIdx (by simp)
    have someLeft : policy.window.getLast? =
        some (entry view.cell candidateIdx) := by
      rw [entries, shape]
      simp
    have reached : ∀ {policy' : Policy} {offered : List DemotionItem}
        {stripe' : CacheStripe} {view' : SlabView},
        Reached middle limbo policy' offered stripe' view' →
        Reached view limbo policy' offered stripe' view' :=
      fun reached => ⟨reached.sim, by rw [reached.emitted, kept.emitted]⟩
    have roomy : stripe.probationLru.size + stripe.protectedLru.size <
        stripe.config.mainCapacity ↔
        policy.probation.length + policy.protected_.length <
          policy.config.mainCapacity := by
      have probation : stripe.probationLru.size = policy.probation.length :=
        sim.size_eq .probation
      have protected_ : stripe.protectedLru.size = policy.protected_.length :=
        sim.size_eq .protected_
      rw [probation, protected_, sim.shows'.config]
    simp only [if_neg valid, someLeft]
    rw [← congrFun kept.entry candidateIdx]
    by_cases space : stripe.probationLru.size + stripe.protectedLru.size <
        stripe.config.mainCapacity
    · rw [if_pos space, if_pos (roomy.mp space)]
      exact wp_weaken (admitCandidate_sim popped) fun _ _ => reached
    · rw [if_neg space, if_neg (mt roomy.mpr space)]
      have probation : policy.probation =
          (lists .probation).map (entry view.cell) :=
        sim.shows'.entries .probation
      have emptyIff : stripe.probationLru.empty = true ↔
          lists .probation = [] := (sim.rep.holds .probation).empty_iff
      rcases List.eq_nil_or_concat (lists .probation) with
        empty | ⟨others, victim, victimShape⟩
      · have noVictim : policy.probation.getLast? = none := by
          rw [probation, empty]
          rfl
        rw [if_pos (emptyIff.mpr empty), noVictim]
        exact wp_weaken (rejectCandidate_sim popped) fun _ _ => reached
      · rw [List.concat_eq_append] at victimShape
        have aVictim : policy.probation.getLast? =
            some (entry view.cell victim) := by
          rw [probation, victimShape]
          simp
        have occupied : ¬stripe.probationLru.empty = true := by
          rw [emptyIff, victimShape]
          simp
        rw [if_neg occupied, aVictim, ← congrFun kept.entry victim]
        exact wp_weaken (contest_sim xx popped (by simpa using victimShape))
          fun _ _ => reached

theorem shrinkWindow_sim (xx : XxHash) (rounds : Nat)
    (sim : stripe.Sim view lists limbo policy)
    (enough : policy.window.length ≤ rounds) :
    (stripe.shrinkWindow xx rounds).wp (slabSpec limit)
      (Reached view limbo (policy.shrinkWindow xx rounds).1
        (policy.shrinkWindow xx rounds).2) view := by
  induction rounds generalizing stripe view lists policy with
  | zero =>
      have size : stripe.windowLru.size = policy.window.length :=
        sim.size_eq .window
      have small : ¬stripe.config.windowCapacity < stripe.windowLru.size := by
        omega
      rw [CacheStripe.shrinkWindow, if_neg small]
      exact ⟨⟨lists, sim⟩, by simp [Policy.shrinkWindow]⟩
  | succ rounds induction =>
      have exceeds : stripe.config.windowCapacity < stripe.windowLru.size ↔
          policy.config.windowCapacity < policy.window.length := by
        have size : stripe.windowLru.size = policy.window.length :=
          sim.size_eq .window
        rw [size, sim.shows'.config]
      rw [CacheStripe.shrinkWindow, Policy.shrinkWindow]
      by_cases guard : stripe.config.windowCapacity < stripe.windowLru.size
      · rw [if_pos guard, if_pos (exceeds.mp guard), Program.wp_bind]
        refine wp_weaken (tryAdmitFromWindow_sim xx sim) ?_
        rintro admitted middle ⟨⟨lists', admittedSim⟩, emitted⟩
        have fewer : (policy.tryAdmit xx).1.window.length ≤ rounds := by
          rw [Policy.tryAdmit_window, List.length_dropLast]
          omega
        refine wp_weaken (induction admittedSim fewer) ?_
        rintro shrunk last ⟨shrunkSim, lastEmitted⟩
        refine ⟨shrunkSim, ?_⟩
        rw [lastEmitted, emitted, List.append_assoc]
      · rw [if_neg guard, if_neg (mt exceeds.mpr guard)]
        exact ⟨⟨lists, sim⟩, by simp⟩

theorem insertIntoWindow_sim (xx : XxHash)
    (sim : stripe.Sim view lists (idx :: limbo) policy)
    (tagged : (view.cell idx).segment = .window) :
    (stripe.insertIntoWindow xx idx).wp (slabSpec limit)
      (Reached view limbo
        (policy.insert xx (view.cell idx).key (view.cell idx).value).1
        (policy.insert xx (view.cell idx).key (view.cell idx).value).2)
      view := by
  unfold insertIntoWindow
  rw [Program.wp_bind]
  refine wp_weaken (pushFront_sim sim .window limit tagged) ?_
  rintro windowLru middle ⟨pushed, kept⟩
  have size : windowLru.size = policy.window.length + 1 :=
    pushed.size_eq .window
  rw [size]
  refine wp_weaken (shrinkWindow_sim xx _ pushed (Nat.le_refl _)) ?_
  rintro shrunk last ⟨shrunkSim, emitted⟩
  exact ⟨shrunkSim, by rw [emitted, kept.emitted]; rfl⟩

theorem Sim.adopt {key : Key}
    (sim : stripe.Sim view lists limbo policy) (valid : idx ≠ kInvalidIndex)
    (fresh : idx ∉ view.owned) (absent : stripe.indexMap.lookup key = none)
    {view' : SlabView} (owned : view'.owned = insert idx view.owned)
    (named : (view'.cell idx).key = key)
    (cells : ∀ index, index ≠ idx → view'.cell index = view.cell index) :
    CacheStripe.Sim
      { stripe with indexMap := stripe.indexMap.insert key idx }
      view' lists (idx :: limbo) policy := by
  subst named
  have unlisted : ∀ place, idx ∉ lists place := fun place member =>
    fresh (sim.rep.lists_owned member)
  exact ⟨sim.rep.adopt valid fresh absent owned cells,
    sim.shows'.of_cells unlisted cells _⟩

theorem insertNew_sim (xx : XxHash) {key : Key} (value : Value)
    (sim : stripe.Sim view lists [] policy)
    (absent : stripe.indexMap.lookup key = none)
    (room : ∀ bound, limit = some bound → view.owned.card ≤ bound) :
    (stripe.insertNew xx key value).wp (slabSpec limit)
      (fun reply view' =>
        reply.1 = true ∧ Reached view [] (policy.insert xx key value).1
          (policy.insert xx key value).2 reply.2 view' ∨
        limit = none ∧ reply.1 = false ∧
          Reached view [] policy [] reply.2 view') view := by
  unfold insertNew
  rw [Program.wp_bind, wp_allocate]
  refine ⟨?_, ?_, room⟩
  · intro idx below fresh
    have valid : idx ≠ kInvalidIndex := by omega
    rw [if_neg valid, Program.wp_bind, wp_modifyNode]
    refine ⟨by simp, ?_⟩
    rw [Program.wp_bind]
    refine wp_weaken (insertIntoWindow_sim xx
      (sim.adopt valid fresh absent (by rfl) (by simp) ?_) (by simp)) ?_
    · intro index different
      simp [different]
    · rintro inserted last ⟨insertedSim, emitted⟩
      refine .inl ⟨rfl, ?_, ?_⟩
      · simpa using insertedSim
      · simpa using emitted
  · intro unlimited
    rw [if_pos rfl]
    exact .inr ⟨unlimited, rfl, ⟨lists, sim⟩, by simp⟩

end Admission

/-! ## Put and remove -/

section PutRemove

variable {limit : Option Nat} {stripe : CacheStripe} {view : SlabView}
  {lists : Place → List Nat} {policy : Policy} {idx : Nat}

theorem Sim.overwrite (sim : stripe.Sim view lists [] policy)
    (held : idx ∈ view.owned) (value : Value) :
    stripe.Sim (view.store idx { view.cell idx with value }) lists []
      (policy.overwrite (view.cell idx).key value) := by
  refine ⟨sim.rep.store rfl fun _ _ => ⟨rfl, rfl, rfl⟩, ?_⟩
  have assigned : ∀ place, Policy.assign (view.cell idx).key value
      (policy.entriesAt place) = (lists place).map
        (entry (view.store idx { view.cell idx with value }).cell) := by
    intro place
    rw [sim.shows'.entries, Policy.assign, List.map_map]
    apply List.map_congr_left
    intro index member
    by_cases same : index = idx
    · subst same
      simp [entry]
    · have different : (view.cell index).key ≠ (view.cell idx).key :=
        fun equal => same (sim.rep.key_injective
          (sim.rep.lists_owned member) held equal)
      simp [entry, same, different]
  have entries : ∀ place,
      (policy.overwrite (view.cell idx).key value).entriesAt place =
        (lists place).map
          (entry (view.store idx { view.cell idx with value }).cell) := by
    intro place
    rw [← assigned]
    cases place <;> rfl
  exact ⟨sim.shows'.config, entries, sim.shows'.table, sim.shows'.depth,
    sim.shows'.width, sim.shows'.puts, sim.shows'.stats, sim.shows'.queue⟩

theorem maybeDecayCms_indexMap (stripe : CacheStripe) :
    stripe.maybeDecayCms.indexMap = stripe.indexMap := by
  unfold maybeDecayCms
  split <;> rfl

theorem put_sim (sim : stripe.Sim view lists [] policy) (xx : XxHash)
    (key : Key) (value : Value)
    (room : ∀ bound, limit = some bound → view.owned.card ≤ bound) :
    (stripe.put xx key value).wp (slabSpec limit)
      (fun reply view' => ∃ slot, (slot = false → limit = none) ∧
        reply.1 = (policy.put xx slot key value).1 ∧
        Reached view [] (policy.put xx slot key value).2.1
          (policy.put xx slot key value).2.2 reply.2 view') view := by
  have counted := (sim.count xx key).tick
  unfold CacheStripe.put Policy.put
  dsimp only
  have sameMap : ({ stripe with cms := stripe.cms.increment xx key } :
      CacheStripe).maybeDecayCms.indexMap = stripe.indexMap :=
    maybeDecayCms_indexMap _
  cases found : stripe.indexMap.lookup key with
  | none =>
      have absent := sameMap ▸ found
      rw [absent, counted.placeOf_none absent]
      refine wp_weaken (insertNew_sim xx value counted absent room) ?_
      rintro reply view' (⟨inserted, reached⟩ | ⟨unlimited, refused, reached⟩)
      · exact ⟨true, by simp, inserted, reached⟩
      · exact ⟨false, fun _ => unlimited, refused, reached⟩
  | some idx =>
      have present := sameMap ▸ found
      rcases counted.exists_place present with ⟨place, member⟩
      have held := counted.rep.lists_owned member
      have keyEqual := ((counted.rep.index key idx).mp present).2
      rw [present, counted.placeOf_some present member]
      simp only [Program.wp_bind, wp_modifyNode]
      refine ⟨held, ?_⟩
      have overwritten := counted.overwrite held value
      rw [keyEqual] at overwritten
      refine wp_weaken (promoteWithinSegment_sim overwritten member) ?_
      rintro touched view' ⟨lists', touchedSim, kept⟩
      have sameKey : ((view.store idx { view.cell idx with value }).cell
          idx).key = key := by
        simpa using keyEqual
      rw [sameKey] at touchedSim
      refine ⟨true, by simp, rfl, ⟨lists', touchedSim⟩, ?_⟩
      rw [kept.emitted]
      simp

theorem without_absent {key : Key} {entries : List Entry}
    (absent : key ∉ entries.map (·.1)) :
    Policy.without key entries = entries := by
  rw [Policy.without, List.filter_eq_self]
  intro listed member
  have different : listed.1 ≠ key := by
    rintro rfl
    exact absent (List.mem_map_of_mem member)
  simpa using different

theorem Sim.remove_eq (sim : stripe.Sim view lists [] policy) {key : Key}
    (found : stripe.indexMap.lookup key = some idx) {place : Place}
    (member : idx ∈ lists place) :
    policy.remove key = (true, policy.setEntries place
      (Policy.without key (policy.entriesAt place))) := by
  have elsewhere : ∀ other, other ≠ place →
      Policy.without key (policy.entriesAt other) =
        policy.entriesAt other := by
    intro other different
    apply without_absent
    rw [sim.mem_keys_iff]
    rintro ⟨index, alsoFound, inOther⟩
    rw [found] at alsoFound
    cases alsoFound
    exact different (sim.rep.place_unique inOther member)
  have present : (policy.placeOf key).isSome = true := by
    rw [sim.placeOf_some found member]
    rfl
  have atWindow := elsewhere .window
  have atProbation := elsewhere .probation
  have atProtected := elsewhere .protected_
  simp only [Policy.entriesAt] at atWindow atProbation atProtected
  rw [Policy.remove, present]
  cases place with
  | window =>
      rw [atProbation (by simp), atProtected (by simp)]
      rfl
  | probation =>
      rw [atWindow (by simp), atProtected (by simp)]
      rfl
  | protected_ =>
      rw [atWindow (by simp), atProbation (by simp)]
      rfl

theorem remove_absent_sim (sim : stripe.Sim view lists [] policy) {key : Key}
    (absent : stripe.indexMap.lookup key = none) :
    policy.remove key = (false, policy) := by
  have nowhere : ∀ place, Policy.without key (policy.entriesAt place) =
      policy.entriesAt place := by
    intro place
    apply without_absent
    rw [sim.mem_keys_iff]
    simp [absent]
  have atWindow := nowhere .window
  have atProbation := nowhere .probation
  have atProtected := nowhere .protected_
  simp only [Policy.entriesAt] at atWindow atProbation atProtected
  rw [Policy.remove, sim.placeOf_none absent, atWindow, atProbation,
    atProtected]
  rfl

theorem unlink_sim (sim : stripe.Sim view lists [] policy) {place : Place}
    (member : idx ∈ lists place) :
    (match place.segment with
      | .window => do
          let windowLru ← stripe.windowLru.remove idx
          return { stripe with windowLru }
      | .probation => do
          let probationLru ← stripe.probationLru.remove idx
          return { stripe with probationLru }
      | .protected_ => do
          let protectedLru ← stripe.protectedLru.remove idx
          return { stripe with protectedLru }
      | .free | .l2 => (return stripe : SlabProgram CacheStripe)).wp
      (slabSpec limit)
      (fun stripe' view' => ∃ lists',
        stripe'.Sim view' lists' [idx] (policy.setEntries place
          (Policy.without (view.cell idx).key (policy.entriesAt place))) ∧
        Kept view view') view := by
  cases place with
  | window =>
      rw [Place.segment, Program.wp_bind]
      refine wp_weaken (remove_sim sim member limit) ?_
      exact fun windowLru view' removed => ⟨_, removed⟩
  | probation =>
      rw [Place.segment, Program.wp_bind]
      refine wp_weaken (remove_sim sim member limit) ?_
      exact fun probationLru view' removed => ⟨_, removed⟩
  | protected_ =>
      rw [Place.segment, Program.wp_bind]
      refine wp_weaken (remove_sim sim member limit) ?_
      exact fun protectedLru view' removed => ⟨_, removed⟩

theorem removeKey_sim (sim : stripe.Sim view lists [] policy) (key : Key) :
    (stripe.remove key).wp (slabSpec limit)
      (fun reply view' => reply.1 = (policy.remove key).1 ∧
        Reached view [] (policy.remove key).2 [] reply.2 view') view := by
  unfold CacheStripe.remove
  cases found : stripe.indexMap.lookup key with
  | none =>
      rw [remove_absent_sim sim found]
      exact ⟨rfl, ⟨lists, sim⟩, by simp⟩
  | some idx =>
      rcases sim.exists_place found with ⟨place, member⟩
      have held := sim.rep.lists_owned member
      have keyEqual := ((sim.rep.index key idx).mp found).2
      rw [sim.remove_eq found member]
      simp only [Program.wp_bind, wp_node]
      refine ⟨held, ?_⟩
      rw [sim.rep.tag place idx member]
      refine wp_weaken (unlink_sim sim member) ?_
      rintro unlinked view' ⟨lists', unlinkedSim, kept⟩
      rw [Program.wp_bind, wp_deallocate]
      refine ⟨kept.owned ▸ held, rfl, ⟨lists', ?_⟩, ?_⟩
      · have discarded : CacheStripe.Sim
            { unlinked with
              indexMap := unlinked.indexMap.erase (view'.cell idx).key }
            (view'.drop idx) lists' [] _ :=
          unlinkedSim.discard rfl fun _ _ => rfl
        rw [kept.key, keyEqual] at discarded
        exact discarded
      · rw [Foundation.Pool.View.drop_emitted, kept.emitted, List.append_nil]

end PutRemove

end CacheStripe

end Walde
