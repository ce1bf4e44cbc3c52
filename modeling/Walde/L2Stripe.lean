import Walde.Foundation.Recency
import Walde.Types

namespace Walde

open Foundation

/-! # One stripe of the L2 cache -/

structure L2Node where
  key : Key
  value : Value
deriving DecidableEq, Repr

/-- The nodes of the list by their addresses, the front first. An iterator in
the map is an address. -/
structure L2Stripe where
  list : AList fun _ : Nat => L2Node
  map : AList fun _ : Key => Nat
  nextAddress : Nat
  hits : Nat
  misses : Nat

namespace L2Stripe

def new : L2Stripe where
  list := ∅
  map := ∅
  nextAddress := 0
  hits := 0
  misses := 0

/-- `l2_get` under the lock. To follow an iterator to a node that is gone is a
fault. -/
def get (stripe : L2Stripe) (key : Key) : Option (Option Value × L2Stripe) :=
  match stripe.map.lookup key with
  | none => some (none, { stripe with misses := stripe.misses + 1 })
  | some address => do
      let node ← stripe.list.lookup address
      return (some node.value, { stripe with
        list := stripe.list.erase address
        map := stripe.map.erase key
        hits := stripe.hits + 1 })

/-- Forget the node at the back; it is a fault if there is none. -/
def popBack (stripe : L2Stripe) : Option L2Stripe := do
  let back ← stripe.list.entries.getLast?
  return { stripe with
    list := Recency.dropOldest stripe.list
    map := stripe.map.erase back.2.key }

def pushFront (stripe : L2Stripe) (node : L2Node) : L2Stripe :=
  { stripe with
    list := stripe.list.insert stripe.nextAddress node
    map := stripe.map.insert node.key stripe.nextAddress
    nextAddress := stripe.nextAddress + 1 }

/-- `l2_put_batch` for one item. -/
def put (capacity : Nat) (stripe : L2Stripe) (item : DemotionItem) :
    Option L2Stripe :=
  match stripe.map.lookup item.key with
  | some address => do
      let node ← stripe.list.lookup address
      return { stripe with
        list := stripe.list.insert address { node with value := item.value } }
  | none => do
      let stripe ← if capacity ≤ Recency.size stripe.map then stripe.popBack
        else some stripe
      return stripe.pushFront ⟨item.key, item.value⟩

/-- The part of `CacheEngine::remove` under the lock. -/
def remove (stripe : L2Stripe) (key : Key) : L2Stripe :=
  match stripe.map.lookup key with
  | none => stripe
  | some address => { stripe with
      list := stripe.list.erase address
      map := stripe.map.erase key }

def peek (stripe : L2Stripe) (key : Key) : Option Value := do
  let address ← stripe.map.lookup key
  let node ← stripe.list.lookup address
  return node.value

/-! ## A stripe is a bounded recency list -/

/-- The list holds the entries of `recency`, and the map finds the node of
every key on it. -/
structure Shows (stripe : L2Stripe) (recency : AList fun _ : Key => Value) :
    Prop where
  entries : recency.entries =
    stripe.list.entries.map fun node => ⟨node.2.key, node.2.value⟩
  map : ∀ key address, stripe.map.lookup key = some address ↔
    ∃ node, stripe.list.lookup address = some node ∧ node.key = key
  size : Recency.size stripe.map = Recency.size stripe.list
  fresh : ∀ address ∈ stripe.list, address < stripe.nextAddress

theorem new_shows : new.Shows ∅ where
  entries := rfl
  map := by simp [new]
  size := rfl
  fresh := by simp [new]

section Shows

variable {stripe : L2Stripe} {recency : AList fun _ : Key => Value}
  {key : Key} {address : Nat}

theorem Shows.size_eq (shows' : stripe.Shows recency) :
    Recency.size recency = Recency.size stripe.list := by
  rw [Recency.size, shows'.entries, List.length_map]
  rfl

theorem Shows.lookup (shows' : stripe.Shows recency) (key : Key) :
    recency.lookup key = stripe.peek key := by
  cases found : stripe.map.lookup key with
  | none =>
      rw [peek, found]
      apply AList.lookup_eq_none.mpr
      intro member
      rcases List.exists_of_mem_keys member with ⟨value, member⟩
      rw [shows'.entries] at member
      rcases List.mem_map.mp member with ⟨⟨address, node⟩, listed, equal⟩
      cases equal
      have mapped := (shows'.map node.key address).mpr
        ⟨node, AList.mem_lookup_iff.mpr listed, rfl⟩
      rw [found] at mapped
      cases mapped
  | some address =>
      rcases (shows'.map key address).mp found with ⟨node, member, rfl⟩
      have present : (⟨node.key, node.value⟩ : Sigma fun _ : Key => Value) ∈
          recency.entries := by
        rw [shows'.entries]
        exact List.mem_map.mpr ⟨⟨address, node⟩, AList.mem_lookup_iff.mp member, rfl⟩
      rw [peek, found, AList.mem_lookup_iff.mpr present]
      simp [member]

theorem Shows.mem (shows' : stripe.Shows recency) :
    key ∈ recency ↔ ∃ address, stripe.map.lookup key = some address := by
  rw [← AList.lookup_isSome, shows'.lookup, peek]
  cases found : stripe.map.lookup key with
  | none => simp
  | some address =>
      rcases (shows'.map key address).mp found with ⟨node, member, -⟩
      simp [member]

theorem Shows.same (shows' : stripe.Shows recency)
    (found : stripe.map.lookup key = some address) :
    ∀ entry ∈ stripe.list.entries, address = entry.1 ↔ key = entry.2.key := by
  intro entry member
  have listed := AList.mem_lookup_iff.mpr member
  constructor
  · rintro rfl
    rcases (shows'.map key _).mp found with ⟨node, here, rfl⟩
    rw [listed] at here
    cases here
    rfl
  · rintro rfl
    have mapped := (shows'.map entry.2.key entry.1).mpr ⟨_, listed, rfl⟩
    rw [found] at mapped
    exact Option.some.inj mapped

theorem Shows.entries_erase (shows' : stripe.Shows recency)
    (found : stripe.map.lookup key = some address) :
    (recency.erase key).entries = (stripe.list.erase address).entries.map
      fun node => ⟨node.2.key, node.2.value⟩ := by
  change recency.entries.kerase key = (stripe.list.entries.kerase address).map _
  rw [Recency.kerase_map (shows'.same found), shows'.entries]

theorem Shows.erase (shows' : stripe.Shows recency)
    (found : stripe.map.lookup key = some address) (hits misses : Nat) :
    Shows { stripe with
      list := stripe.list.erase address
      map := stripe.map.erase key
      hits
      misses } (recency.erase key) := by
  rcases (shows'.map key address).mp found with ⟨node, listed, rfl⟩
  refine ⟨shows'.entries_erase found, ?_, ?_, ?_⟩
  · intro other otherAddress
    by_cases sameKey : other = node.key
    · subst sameKey
      rw [AList.lookup_erase]
      refine iff_of_false (by simp) ?_
      rintro ⟨found', member, sameKey⟩
      by_cases sameAddress : otherAddress = address
      · subst sameAddress
        rw [AList.lookup_erase] at member
        cases member
      · rw [AList.lookup_erase_ne sameAddress] at member
        have mapped := (shows'.map node.key otherAddress).mpr
          ⟨found', member, sameKey⟩
        rw [found] at mapped
        exact sameAddress (Option.some.inj mapped).symm
    · rw [AList.lookup_erase_ne sameKey, shows'.map]
      by_cases sameAddress : otherAddress = address
      · subst sameAddress
        rw [AList.lookup_erase, listed]
        refine iff_of_false ?_ (by simp)
        rintro ⟨_, ⟨⟩, sameKey'⟩
        exact sameKey sameKey'.symm
      · rw [AList.lookup_erase_ne sameAddress]
  · have inMap : node.key ∈ stripe.map := AList.lookup_isSome.mp (by simp [found])
    have inList : address ∈ stripe.list := AList.lookup_isSome.mp (by simp [listed])
    rw [Recency.size_erase_of_mem inMap, Recency.size_erase_of_mem inList,
      shows'.size]
  · intro other member
    exact shows'.fresh other (AList.mem_erase.mp member).2

theorem Shows.get (shows' : stripe.Shows recency) (key : Key) :
    ∃ stripe', stripe.get key = some (recency.lookup key, stripe') ∧
      stripe'.Shows (recency.erase key) := by
  rw [shows'.lookup, peek, L2Stripe.get]
  cases found : stripe.map.lookup key with
  | none =>
      have absent : key ∉ recency := by simp [shows'.mem, found]
      have same : recency.erase key = recency :=
        AList.ext (List.kerase_of_notMem_keys absent)
      refine ⟨_, rfl, ?_⟩
      rw [same]
      exact ⟨shows'.entries, shows'.map, shows'.size, shows'.fresh⟩
  | some address =>
      rcases (shows'.map key address).mp found with ⟨node, member, -⟩
      refine ⟨_, ?_, shows'.erase found (stripe.hits + 1) stripe.misses⟩
      simp [member]

theorem Shows.remove (shows' : stripe.Shows recency) (key : Key) :
    (stripe.remove key).Shows (recency.erase key) := by
  rw [L2Stripe.remove]
  cases found : stripe.map.lookup key with
  | none =>
      have absent : key ∉ recency := by simp [shows'.mem, found]
      have same : recency.erase key = recency :=
        AList.ext (List.kerase_of_notMem_keys absent)
      rwa [same]
  | some address => exact shows'.erase found stripe.hits stripe.misses

theorem Shows.popBack (shows' : stripe.Shows recency)
    (nonempty : 0 < Recency.size stripe.map) :
    ∃ stripe', stripe.popBack = some stripe' ∧
      stripe'.Shows (Recency.dropOldest recency) := by
  cases last : stripe.list.entries.getLast? with
  | none =>
      rw [shows'.size, Recency.size, List.getLast?_eq_none_iff.mp last] at nonempty
      cases nonempty
  | some back =>
      have listed := AList.mem_lookup_iff.mpr (List.mem_of_getLast? last)
      have found := (shows'.map back.2.key back.1).mpr ⟨_, listed, rfl⟩
      have oldest : recency.entries.getLast? =
          some ⟨back.2.key, back.2.value⟩ := by
        rw [shows'.entries, List.getLast?_map, last]
        rfl
      refine ⟨_, by rw [L2Stripe.popBack, last]; rfl, ?_⟩
      rw [Recency.dropOldest_eq_erase last, Recency.dropOldest_eq_erase oldest]
      exact shows'.erase found stripe.hits stripe.misses

theorem Shows.pushFront (shows' : stripe.Shows recency) (node : L2Node)
    (absent : node.key ∉ recency) :
    (stripe.pushFront node).Shows (recency.insert node.key node.value) := by
  have unmapped : stripe.map.lookup node.key = none := by
    by_contra found
    exact absent (shows'.mem.mpr (Option.ne_none_iff_exists'.mp found))
  have newAddress : stripe.nextAddress ∉ stripe.list := fun member =>
    Nat.lt_irrefl _ (shows'.fresh _ member)
  refine ⟨?_, ?_, ?_, ?_⟩
  · rw [L2Stripe.pushFront, AList.entries_insert_of_notMem absent,
      AList.entries_insert_of_notMem newAddress, List.map_cons, shows'.entries]
  · intro key address
    rw [L2Stripe.pushFront]
    by_cases sameAddress : address = stripe.nextAddress
    · subst sameAddress
      rw [AList.lookup_insert]
      by_cases sameKey : key = node.key
      · subst sameKey
        rw [AList.lookup_insert]
        simp
      · rw [AList.lookup_insert_ne sameKey, shows'.map]
        refine iff_of_false ?_ ?_
        · rintro ⟨_, listed, -⟩
          exact newAddress (AList.lookup_isSome.mp (by simp [listed]))
        · rintro ⟨_, ⟨⟩, sameKey'⟩
          exact sameKey sameKey'.symm
    · rw [AList.lookup_insert_ne sameAddress, ← shows'.map]
      by_cases sameKey : key = node.key
      · subst sameKey
        rw [AList.lookup_insert, unmapped]
        simpa using Ne.symm sameAddress
      · rw [AList.lookup_insert_ne sameKey]
  · rw [L2Stripe.pushFront, Recency.size_insert_of_notMem newAddress,
      Recency.size_insert_of_notMem (AList.lookup_eq_none.mp unmapped),
      shows'.size]
  · intro address member
    rcases (AList.mem_insert _).mp member with rfl | member
    · exact Nat.lt_succ_self _
    · exact (shows'.fresh address member).trans (Nat.lt_succ_self _)

theorem Shows.put (shows' : stripe.Shows recency) {capacity : Nat}
    (positive : 0 < capacity) (item : DemotionItem) :
    ∃ stripe', stripe.put capacity item = some stripe' ∧
      stripe'.Shows
        (Recency.insertWithin capacity item.key item.value recency) := by
  rw [L2Stripe.put, Recency.insertWithin]
  cases found : stripe.map.lookup item.key with
  | some address =>
      have member : item.key ∈ recency := shows'.mem.mpr ⟨address, found⟩
      rcases (shows'.map item.key address).mp found with ⟨node, listed, sameKey⟩
      have inList : address ∈ stripe.list := AList.lookup_isSome.mp (by simp [listed])
      refine ⟨_, by simp [listed]; rfl, ?_⟩
      rw [if_pos (.inl member)]
      refine ⟨?_, ?_, ?_, ?_⟩
      · rw [AList.entries_insert, AList.entries_insert, List.map_cons]
        refine congrArg₂ List.cons (by rw [sameKey]) ?_
        exact shows'.entries_erase found
      · intro key otherAddress
        by_cases sameAddress : otherAddress = address
        · subst sameAddress
          rw [AList.lookup_insert, shows'.map, listed]
          simp
        · rw [AList.lookup_insert_ne sameAddress]
          exact shows'.map key otherAddress
      · rw [Recency.size_insert_of_mem inList]
        exact shows'.size
      · intro otherAddress member
        rcases (AList.mem_insert _).mp member with rfl | member
        · exact shows'.fresh _ inList
        · exact shows'.fresh _ member
  | none =>
      have absent : item.key ∉ recency := by simp [shows'.mem, found]
      have sizes : Recency.size stripe.map = Recency.size recency :=
        shows'.size.trans shows'.size_eq.symm
      by_cases full : capacity ≤ Recency.size stripe.map
      · rcases shows'.popBack (positive.trans_le full) with
          ⟨middle, popped, middleShows⟩
        have stillAbsent : item.key ∉ Recency.dropOldest recency := fun member =>
          absent (((List.dropLast_sublist recency.entries).map _).subset member)
        refine ⟨middle.pushFront ⟨item.key, item.value⟩, ?_, ?_⟩
        · simp only [if_pos full, popped]
          rfl
        · rw [if_neg (by
            rintro (member | room)
            · exact absent member
            · omega)]
          exact middleShows.pushFront ⟨item.key, item.value⟩ stillAbsent
      · refine ⟨stripe.pushFront ⟨item.key, item.value⟩, ?_, ?_⟩
        · simp only [if_neg full]
          rfl
        · rw [if_pos (.inr (by omega))]
          exact shows'.pushFront ⟨item.key, item.value⟩ absent

end Shows

/-! ## Hits and misses -/

theorem get_counts {stripe stripe' : L2Stripe} {key : Key}
    {found : Option Value} (got : stripe.get key = some (found, stripe')) :
    stripe'.hits + stripe'.misses = stripe.hits + stripe.misses + 1 ∧
      stripe'.misses = stripe.misses + (decide (found = none)).toNat := by
  unfold get at got
  split at got
  · cases got
    exact ⟨rfl, rfl⟩
  · rcases Option.bind_eq_some_iff.mp got with ⟨node, -, equal⟩
    cases equal
    exact ⟨Nat.add_right_comm stripe.hits 1 stripe.misses, rfl⟩

theorem get_hits {stripe stripe' : L2Stripe} {key : Key}
    {found : Option Value} (got : stripe.get key = some (found, stripe')) :
    stripe'.hits = stripe.hits + found.isSome.toNat := by
  rcases get_counts got with ⟨looked, missed⟩
  cases found with
  | none =>
      rw [decide_eq_true rfl, Bool.toNat_true] at missed
      rw [Option.isSome_none, Bool.toNat_false]
      omega
  | some value =>
      rw [decide_eq_false nofun, Bool.toNat_false] at missed
      rw [Option.isSome_some, Bool.toNat_true]
      omega

theorem remove_counts (stripe : L2Stripe) (key : Key) :
    (stripe.remove key).hits = stripe.hits ∧
      (stripe.remove key).misses = stripe.misses := by
  unfold remove
  split <;> exact ⟨rfl, rfl⟩

theorem put_counts {capacity : Nat} {stripe stripe' : L2Stripe}
    {item : DemotionItem} (put : stripe.put capacity item = some stripe') :
    stripe'.hits = stripe.hits ∧ stripe'.misses = stripe.misses := by
  unfold L2Stripe.put at put
  split at put
  · rcases Option.bind_eq_some_iff.mp put with ⟨node, -, equal⟩
    cases equal
    exact ⟨rfl, rfl⟩
  · simp only at put
    split at put
    · rcases Option.bind_eq_some_iff.mp put with ⟨middle, popped, equal⟩
      rcases Option.bind_eq_some_iff.mp popped with ⟨back, -, equal'⟩
      cases equal
      cases equal'
      exact ⟨rfl, rfl⟩
    · cases put
      exact ⟨rfl, rfl⟩

end L2Stripe

end Walde
