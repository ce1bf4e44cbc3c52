import Walde.StripeInvariant

namespace Walde

open Foundation

/-! # Stripes that differ in slab indices only

Which slot the slab gives to a new node depends on all that happened to the slab
before, and is the one thing that a stripe does not decide by itself. -/

def CacheNode.rename (rename : Nat → Nat) (node : CacheNode) : CacheNode :=
  { node with prev := rename node.prev, next := rename node.next }

def IntrusiveLru.rename (rename : Nat → Nat) (lru : IntrusiveLru) :
    IntrusiveLru :=
  { lru with head := rename lru.head, tail := rename lru.tail }

namespace StripeSystem

variable {count count' : Nat}

/-- Stripe `j` of the second system is stripe `i` of the first, with every index
renamed. -/
structure SameStripe (rename : Nat → Nat) (system : StripeSystem count)
    (i : Fin count) (system' : StripeSystem count') (j : Fin count') :
    Prop where
  config : (system'.stripe j).config = (system.stripe i).config
  cms : (system'.stripe j).cms = (system.stripe i).cms
  opsSinceDecay : (system'.stripe j).opsSinceDecay =
    (system.stripe i).opsSinceDecay
  stats : (system'.stripe j).stats = (system.stripe i).stats
  demotionQueue : (system'.stripe j).demotionQueue =
    (system.stripe i).demotionQueue
  invalid : rename kInvalidIndex = kInvalidIndex
  injective : ∀ left ∈ system.held i, ∀ right ∈ system.held i,
    rename left = rename right → left = right
  indices : ∀ place,
    system'.indices j place = (system.indices i place).map rename
  lru : ∀ place, (system'.stripe j).lru place =
    ((system.stripe i).lru place).rename rename
  index : ∀ key, (system'.stripe j).indexMap.lookup key =
    ((system.stripe i).indexMap.lookup key).map rename
  node : ∀ index ∈ system.held i, system'.slab.pool (rename index) =
    (system.slab.pool index).rename rename

theorem mem_held {system : StripeSystem count} {i : Fin count} {index : Nat} :
    index ∈ system.held i ↔ ∃ place, index ∈ system.indices i place :=
  CacheStripe.Rep.mem_lists

section OfKeys

variable {capacity capacity' : Nat} {system : StripeSystem count}
  {system' : StripeSystem count'} {i : Fin count} {j : Fin count'}
  {rename : Nat → Nat}

theorem WellFormed.lookup_key (wellFormed : system.WellFormed capacity)
    {index : Nat} (held : index ∈ system.held i) :
    (system.stripe i).indexMap.lookup (system.slab.pool index).key =
      some index := (wellFormed.index i _ index).mpr ⟨held, rfl⟩

theorem WellFormed.indices_eq (wellFormed : system.WellFormed capacity)
    (place : Place) : system.indices i place =
      (system.entriesAt i place).map fun entry =>
        ((system.stripe i).indexMap.lookup entry.1).getD kInvalidIndex := by
  rw [entriesAt, List.map_map]
  symm
  calc (system.indices i place).map _
      = (system.indices i place).map id := by
        apply List.map_congr_left
        intro index member
        have found := wellFormed.lookup_key (mem_held.mpr ⟨place, member⟩)
        simp [entry, found]
    _ = system.indices i place := List.map_id _

section

variable (wellFormed : system.WellFormed capacity)
  (wellFormed' : system'.WellFormed capacity')
  (entries : ∀ place, system'.entriesAt j place = system.entriesAt i place)
  (finds : ∀ index ∈ system.held i, (system'.stripe j).indexMap.lookup
    (system.slab.pool index).key = some (rename index))

include wellFormed' entries finds

theorem indices_map (place : Place) :
    system'.indices j place = (system.indices i place).map rename := by
  rw [wellFormed'.indices_eq, entries, entriesAt, List.map_map]
  apply List.map_congr_left
  intro index member
  have found := finds index (mem_held.mpr ⟨place, member⟩)
  simp [entry, found]

theorem entry_rename {index : Nat} (held : index ∈ system.held i) :
    entry system'.slab.pool (rename index) = entry system.slab.pool index := by
  rcases mem_held.mp held with ⟨place, member⟩
  have same := entries place
  rw [entriesAt, entriesAt, indices_map wellFormed' entries finds,
    List.map_map] at same
  exact List.map_inj_left.mp same index member

include wellFormed

theorem rename_injective {left right : Nat} (inLeft : left ∈ system.held i)
    (inRight : right ∈ system.held i) (same : rename left = rename right) :
    left = right := by
  have entriesSame : entry system.slab.pool left =
      entry system.slab.pool right := by
    rw [← entry_rename wellFormed' entries finds inLeft,
      ← entry_rename wellFormed' entries finds inRight, same]
  have keys : (system.slab.pool left).key = (system.slab.pool right).key :=
    congrArg Prod.fst entriesSame
  have first := wellFormed.lookup_key inLeft
  rw [keys, wellFormed.lookup_key inRight] at first
  exact (Option.some.inj first).symm

theorem lookup_rename (key : Key) : (system'.stripe j).indexMap.lookup key =
    ((system.stripe i).indexMap.lookup key).map rename := by
  cases found : (system.stripe i).indexMap.lookup key with
  | some index =>
      rcases (wellFormed.index i key index).mp found with ⟨held, rfl⟩
      exact finds index held
  | none =>
      cases found' : (system'.stripe j).indexMap.lookup key with
      | none => rfl
      | some index' =>
          exfalso
          rcases (wellFormed'.index j key index').mp found' with ⟨held', rfl⟩
          rcases mem_held.mp held' with ⟨place, member'⟩
          rw [indices_map wellFormed' entries finds] at member'
          rcases List.mem_map.mp member' with ⟨index, member, rfl⟩
          have held := mem_held.mpr ⟨place, member⟩
          have keys : (system'.slab.pool (rename index)).key =
              (system.slab.pool index).key :=
            congrArg Prod.fst (entry_rename wellFormed' entries finds held)
          rw [keys, wellFormed.lookup_key held] at found
          cases found

theorem lru_rename (invalid : rename kInvalidIndex = kInvalidIndex)
    (place : Place) : (system'.stripe j).lru place =
      ((system.stripe i).lru place).rename rename := by
  have links := wellFormed.links i place
  have links' := wellFormed'.links j place
  rw [indices_map wellFormed' entries finds] at links'
  rcases shape : (system.stripe i).lru place with ⟨head, tail, size⟩
  rcases shape' : (system'.stripe j).lru place with ⟨head', tail', size'⟩
  rw [shape] at links
  rw [shape'] at links'
  have heads : head' = rename head := by
    have first : head = _ := links.head_eq
    have second : head' = _ := links'.head_eq
    rw [first, second]
    cases system.indices i place <;> simp [invalid]
  have tails : tail' = rename tail := by
    have first : tail = _ := links.tail_eq
    have second : tail' = _ := links'.tail_eq
    rw [first, second]
    cases system.indices i place using List.reverseRecOn <;> simp [invalid]
  have sizes : size' = size := by
    have first : size = _ := links.size
    have second : size' = _ := links'.size
    rw [first, second, List.length_map]
  rw [heads, tails, sizes]
  rfl

theorem node_rename (invalid : rename kInvalidIndex = kInvalidIndex)
    {index : Nat} (held : index ∈ system.held i) :
    system'.slab.pool (rename index) =
      (system.slab.pool index).rename rename := by
  rcases mem_held.mp held with ⟨place, member⟩
  have same := entry_rename wellFormed' entries finds held
  have links := wellFormed.links i place
  have links' := wellFormed'.links j place
  have member' : rename index ∈ system'.indices j place := by
    rw [indices_map wellFormed' entries finds]
    exact List.mem_map_of_mem member
  have valid := links.ne_invalid member
  have valid' := links'.ne_invalid member'
  have segments : (system'.slab.pool (rename index)).segment =
      (system.slab.pool index).segment := by
    rw [wellFormed'.tag j place _ member', wellFormed.tag i place _ member]
  rw [indices_map wellFormed' entries finds] at links'
  have nexts : (system'.slab.pool (rename index)).next =
      rename (system.slab.pool index).next := by
    have both := links.ring.next_map links'.ring member
    simp only [IntrusiveLru.nextLink, if_neg valid, if_neg valid'] at both
    rcases both with ⟨atEnd, atEnd'⟩ | ⟨-, inside⟩
    · rw [atEnd, atEnd', invalid]
    · exact inside
  have prevs : (system'.slab.pool (rename index)).prev =
      rename (system.slab.pool index).prev := by
    have both := links.ring.prev_map links'.ring member
    simp only [IntrusiveLru.prevLink, if_neg valid, if_neg valid'] at both
    rcases both with ⟨atEnd, atEnd'⟩ | ⟨-, inside⟩
    · rw [atEnd, atEnd', invalid]
    · exact inside
  have keys : (system'.slab.pool (rename index)).key =
      (system.slab.pool index).key := congrArg Prod.fst same
  have values : (system'.slab.pool (rename index)).value =
      (system.slab.pool index).value := congrArg Prod.snd same
  rcases shape : system'.slab.pool (rename index) with
    ⟨prev, next, key, value, segment⟩
  rw [shape] at segments nexts prevs keys values
  simp only at segments nexts prevs keys values
  rw [segments, nexts, prevs, keys, values]
  rfl

end

/-- Well-formed stripes with the same entries and numbers differ in indices
only, those that the keys lead to. -/
theorem SameStripe.of_keys (wellFormed : system.WellFormed capacity)
    (wellFormed' : system'.WellFormed capacity')
    (entries : ∀ place, system'.entriesAt j place = system.entriesAt i place)
    (invalid : rename kInvalidIndex = kInvalidIndex)
    (finds : ∀ index ∈ system.held i, (system'.stripe j).indexMap.lookup
      (system.slab.pool index).key = some (rename index))
    (config : (system'.stripe j).config = (system.stripe i).config)
    (cms : (system'.stripe j).cms = (system.stripe i).cms)
    (opsSinceDecay : (system'.stripe j).opsSinceDecay =
      (system.stripe i).opsSinceDecay)
    (stats : (system'.stripe j).stats = (system.stripe i).stats)
    (demotionQueue : (system'.stripe j).demotionQueue =
      (system.stripe i).demotionQueue) :
    SameStripe rename system i system' j where
  config
  cms
  opsSinceDecay
  stats
  demotionQueue
  invalid
  injective _ inLeft _ inRight same :=
    rename_injective wellFormed wellFormed' entries finds inLeft inRight same
  indices := indices_map wellFormed' entries finds
  lru := lru_rename wellFormed wellFormed' entries finds invalid
  index := lookup_rename wellFormed wellFormed' entries finds
  node _ held := node_rename wellFormed wellFormed' entries finds invalid held

end OfKeys

structure Renamed (rename : Nat → Nat) (system system' : StripeSystem count) :
    Prop where
  stripe : ∀ i, SameStripe rename system i system' i
  injective : ∀ i j, ∀ left ∈ system.held i, ∀ right ∈ system.held j,
    rename left = rename right → left = right

/-! ## The renaming that the keys give -/

/-- Where the key of an index leads in another system. `owners` are the stripes
to look at and `other` their counterparts. -/
def indexByKey (system : StripeSystem count) (owners : List (Fin count))
    (other : Fin count → CacheStripe) (index : Nat) : Nat :=
  match owners.find? fun i => index ∈ system.held i with
  | none => index
  | some i => ((other i).indexMap.lookup (system.slab.pool index).key).getD
      kInvalidIndex

section Renaming

variable {capacity capacity' : Nat} {system : StripeSystem count}
  {system' : StripeSystem count'} {i : Fin count} {j : Fin count'}
  {owners : List (Fin count)} {other : Fin count → CacheStripe}

theorem WellFormed.held_valid (wellFormed : system.WellFormed capacity)
    {index : Nat} (held : index ∈ system.held i) : index ≠ kInvalidIndex := by
  rcases mem_held.mp held with ⟨place, member⟩
  exact (wellFormed.links i place).ne_invalid member

theorem WellFormed.held_unique (wellFormed : system.WellFormed capacity)
    {left right : Fin count} {index : Nat} (inLeft : index ∈ system.held left)
    (inRight : index ∈ system.held right) : left = right := by
  have nodup := (wellFormed.cover.nodup_iff.mpr List.nodup_range).of_append_right
  have symmetric : Std.Symm (Function.onFun List.Disjoint system.held) :=
    ⟨fun _ _ apart => List.Disjoint.symm apart⟩
  by_contra different
  exact (List.nodup_flatMap.mp nodup).2.forall (List.mem_finRange left)
    (List.mem_finRange right) different inLeft inRight

theorem WellFormed.indexByKey_invalid (wellFormed : system.WellFormed capacity) :
    system.indexByKey owners other kInvalidIndex = kInvalidIndex := by
  have nowhere : owners.find? (fun i => kInvalidIndex ∈ system.held i) =
      none := by
    apply List.find?_eq_none.mpr
    intro i _ held
    exact wellFormed.held_valid (of_decide_eq_true held) rfl
  rw [indexByKey, nowhere]

theorem WellFormed.exists_lookup (wellFormed' : system'.WellFormed capacity')
    (entries : ∀ place, system'.entriesAt j place = system.entriesAt i place)
    {index : Nat} (held : index ∈ system.held i) :
    ∃ index', (system'.stripe j).indexMap.lookup (system.slab.pool index).key =
      some index' := by
  rcases mem_held.mp held with ⟨place, member⟩
  have listed : entry system.slab.pool index ∈ system'.entriesAt j place := by
    rw [entries]
    exact List.mem_map_of_mem member
  rcases List.mem_map.mp listed with ⟨index', member', same⟩
  refine ⟨index', ?_⟩
  have keys : (system'.slab.pool index').key = (system.slab.pool index).key :=
    congrArg Prod.fst same
  rw [← keys]
  exact wellFormed'.lookup_key (mem_held.mpr ⟨place, member'⟩)

theorem WellFormed.indexByKey_finds (wellFormed : system.WellFormed capacity)
    (wellFormed' : system'.WellFormed capacity')
    (entries : ∀ place, system'.entriesAt j place = system.entriesAt i place)
    (owner : i ∈ owners) (counterpart : other i = system'.stripe j)
    {index : Nat} (held : index ∈ system.held i) :
    (system'.stripe j).indexMap.lookup (system.slab.pool index).key =
      some (system.indexByKey owners other index) := by
  rcases wellFormed'.exists_lookup entries held with ⟨index', found⟩
  have here : owners.find? (fun i => index ∈ system.held i) = some i := by
    cases search : owners.find? (fun i => index ∈ system.held i) with
    | none =>
        have missing := List.find?_eq_none.mp search i owner
        exact absurd (decide_eq_true held) missing
    | some owner =>
        have held' : index ∈ system.held owner := by
          simpa using List.find?_some search
        rw [wellFormed.held_unique held' held]
  rw [indexByKey, here, found]
  simp only [counterpart, found, Option.getD_some]

end Renaming

theorem Renamed.of_stripes {capacity : Nat} {system system' : StripeSystem count}
    {rename : Nat → Nat} (wellFormed' : system'.WellFormed capacity)
    (stripe : ∀ i, SameStripe rename system i system' i) :
    Renamed rename system system' where
  stripe
  injective := by
    have held : ∀ {i index}, index ∈ system.held i →
        rename index ∈ system'.held i := by
      intro i index held
      rcases mem_held.mp held with ⟨place, member⟩
      refine mem_held.mpr ⟨place, ?_⟩
      rw [(stripe i).indices]
      exact List.mem_map_of_mem member
    intro i j left inLeft right inRight same
    have together : rename left ∈ system'.held j := same ▸ held inRight
    have one : i = j := wellFormed'.held_unique (held inLeft) together
    subst one
    exact (stripe i).injective left inLeft right inRight same

end StripeSystem

end Walde
