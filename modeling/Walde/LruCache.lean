import Walde.Baseline
import Walde.Foundation.NodeList

namespace Walde

open Foundation
open Foundation.NodeList (Node Indexed)

/-! # The LRU baseline -/

structure LruNode where
  key : Key
  value : Value
deriving DecidableEq, Repr

/-- The nodes of the list with their addresses, the front first. An iterator in
the map is an address. -/
structure LruCache where
  capacity : Nat
  list : List (Node LruNode)
  map : AList fun _ : Key => Nat
  nextAddress : Nat
  hits : Nat
  misses : Nat
  evictions : Nat

namespace LruCache

def new (capacity : Nat) : LruCache where
  capacity
  list := []
  map := ∅
  nextAddress := 0
  hits := 0
  misses := 0
  evictions := 0

/-- To follow an iterator to a node that is gone is a fault. -/
def get (cache : LruCache) (key : Key) : Option (Option Value × LruCache) :=
  match cache.map.lookup key with
  | none => some (none, { cache with misses := cache.misses + 1 })
  | some it => do
      let node ← NodeList.deref cache.list it
      return (some node.value, { cache with
        list := NodeList.toFront it cache.list
        hits := cache.hits + 1 })

/-- The loop on the size of the list. It needs at most one round for each node;
running out of rounds is a fault, and so is the back of an empty list. -/
def evict : Nat → LruCache → Option LruCache
  | rounds, cache =>
      if cache.list.length ≥ cache.capacity then
        match rounds with
        | 0 => none
        | rounds + 1 => do
            let victim ← cache.list.getLast?
            evict rounds { cache with
              map := cache.map.erase victim.item.key
              list := cache.list.dropLast
              evictions := cache.evictions + 1 }
      else some cache

def put (cache : LruCache) (key : Key) (value : Value) :
    Option (Bool × LruCache) :=
  match cache.map.lookup key with
  | some it => do
      let _ ← NodeList.deref cache.list it
      let list := NodeList.modify it (fun node => { node with value }) cache.list
      return (false, { cache with list := NodeList.toFront it list })
  | none => do
      let cache ← evict cache.list.length cache
      return (true, { cache with
        list := ⟨cache.nextAddress, { key, value }⟩ :: cache.list
        map := cache.map.insert key cache.nextAddress
        nextAddress := cache.nextAddress + 1 })

def size (cache : LruCache) : Nat := Recency.size cache.map % uint32Size

def step : Machine LruCache BaselineCall CacheReply
  | cache, .get key => do
      let (found, cache) ← cache.get key
      return (.value found, cache)
  | cache, .put key value => do
      let (inserted, cache) ← cache.put key value
      return (.changed inserted, cache)

/-! ## The cache as a list of entries -/

def LruNode.entry (node : LruNode) : Entry := (node.key, node.value)

def entries (cache : LruCache) : List Entry :=
  NodeList.entries LruNode.entry cache.list

def keys (cache : LruCache) : List Key := cache.list.map fun node => node.item.key

theorem keys_entries (cache : LruCache) :
    KeyedList.keys cache.entries = cache.keys :=
  List.map_map

structure Sound (cache : LruCache) : Prop where
  indexed : Indexed LruNode.key cache.map cache.nextAddress cache.list
  within : cache.list.length ≤ cache.capacity

section Sound

variable {cache : LruCache} {key : Key} {value : Value}

theorem Sound.new (capacity : Nat) : (new capacity).Sound where
  indexed := .empty LruNode.key 0
  within := Nat.zero_le _

theorem Sound.distinct (sound : cache.Sound) :
    (KeyedList.keys cache.entries).Nodup := by
  rw [keys_entries]
  exact sound.indexed.names

theorem Sound.lookup_eq_none (sound : cache.Sound) :
    cache.map.lookup key = none ↔ key ∉ KeyedList.keys cache.entries := by
  rw [sound.indexed.lookup_eq_none, keys_entries, keys, List.mem_map]
  simp

theorem Sound.resident (sound : cache.Sound) {it : Nat}
    (found : cache.map.lookup key = some it) :
    ∃ value, NodeList.deref cache.list it = some ⟨key, value⟩ ∧
      (key, value) ∈ cache.entries ∧
      ∀ node ∈ cache.list, node.address = it ↔ node.item.key = key := by
  rcases (sound.indexed.found key it).mp found with ⟨node, member, rfl, rfl⟩
  exact ⟨node.item.value, sound.indexed.deref member,
    List.mem_map.mpr ⟨node, member, rfl⟩,
    fun other => sound.indexed.address_iff found⟩

theorem Sound.get_hit (sound : cache.Sound)
    (member : (key, value) ∈ cache.entries) :
    ∃ cache', cache.get key = some (some value, cache') ∧ cache'.Sound ∧
      cache'.capacity = cache.capacity ∧
      cache'.evictions = cache.evictions ∧
      cache'.entries = KeyedList.use cache.capacity key value cache.entries := by
  have inKeys : key ∈ KeyedList.keys cache.entries :=
    KeyedList.mem_keys member
  cases found : cache.map.lookup key with
  | none => exact absurd inKeys (sound.lookup_eq_none.mp found)
  | some it =>
      rcases sound.resident found with ⟨held, deref, member', same⟩
      obtain rfl : held = value := (Prod.mk.inj
        (List.inj_on_of_nodup_map sound.distinct member' member rfl)).2
      have perm := NodeList.toFront_perm it cache.list
      refine ⟨{ cache with
        list := NodeList.toFront it cache.list
        hits := cache.hits + 1 }, ?_, ⟨sound.indexed.perm perm.symm,
          perm.length_eq.trans_le sound.within⟩, rfl, rfl, ?_⟩
      · simp only [get, found, deref]
        rfl
      · change NodeList.entries LruNode.entry (NodeList.toFront it cache.list) = _
        exact (NodeList.entries_toFront same).trans
          (KeyedList.moveToFront_eq_use sound.distinct member)

theorem Sound.evict (sound : cache.Sound) (positive : 1 ≤ cache.capacity) :
    ∃ cache', cache.evict cache.list.length = some cache' ∧
      Indexed LruNode.key cache'.map cache'.nextAddress cache'.list ∧
      cache'.capacity = cache.capacity ∧
      cache'.list = cache.list.take (cache.capacity - 1) ∧
      cache'.evictions + cache'.list.length =
        cache.evictions + cache.list.length := by
  have within := sound.within
  by_cases full : cache.list.length ≥ cache.capacity
  · rcases List.eq_nil_or_concat cache.list with empty | ⟨front, victim, shape⟩
    · rw [empty] at full
      simp only [List.length_nil] at full
      omega
    · rw [List.concat_eq_append] at shape
      have length : cache.list.length = front.length + 1 := by
        rw [shape, List.length_append, List.length_singleton]
      have last : cache.list.getLast? = some victim := by simp [shape]
      have rest : cache.list.dropLast = front := by simp [shape]
      have found : cache.map.lookup victim.item.key = some victim.address :=
        sound.indexed.lookup_of_mem (by simp [shape])
      have erased : NodeList.erase victim.address cache.list = front :=
        (NodeList.erase_last sound.indexed.addresses last).trans rest
      refine ⟨{ cache with
        map := cache.map.erase victim.item.key
        list := front
        evictions := cache.evictions + 1 }, ?_, ?_, rfl, ?_, ?_⟩
      · rw [length, LruCache.evict, if_pos full, last, rest]
        change LruCache.evict front.length _ = _
        unfold LruCache.evict
        rw [if_neg]
        change ¬front.length ≥ cache.capacity
        omega
      · have indexed := sound.indexed.erase found
        rwa [erased] at indexed
      · change front = _
        rw [shape, List.take_append_of_le_length (by omega), List.take_of_length_le
          (by omega)]
      · change cache.evictions + 1 + front.length = _
        omega
  · refine ⟨cache, ?_, sound.indexed, rfl, ?_, rfl⟩
    · unfold LruCache.evict
      rw [if_neg full]
    · rw [List.take_of_length_le (by omega)]

theorem Sound.put_resident (sound : cache.Sound) {it : Nat}
    (found : cache.map.lookup key = some it) (value : Value) :
    ∃ cache', cache.put key value = some (false, cache') ∧
      cache'.Sound ∧ cache'.capacity = cache.capacity ∧
      cache'.entries = KeyedList.use cache.capacity key value cache.entries ∧
      cache'.evictions + cache'.list.length =
        cache.evictions + cache.list.length := by
  rcases sound.resident found with ⟨held, deref, member, same⟩
  have inKeys := KeyedList.mem_keys member
  let change : LruNode → LruNode := fun node => { node with value }
  let list := NodeList.modify it change cache.list
  have kept : ∀ node, LruNode.key (change node) = node.key := fun _ => rfl
  have perm := NodeList.toFront_perm it list
  have length : (NodeList.toFront it list).length = cache.list.length :=
    perm.length_eq.trans (List.length_map _)
  refine ⟨{ cache with list := NodeList.toFront it list }, ?_,
    ⟨(sound.indexed.modify kept it).perm perm.symm,
      length.trans_le sound.within⟩, rfl, ?_, ?_⟩
  · simp only [LruCache.put, found, deref]
    rfl
  · have assigned : NodeList.entries LruNode.entry list =
        KeyedList.assign key value cache.entries :=
      NodeList.entries_modify same fun _ => rfl
    have sameAfter : ∀ node ∈ list,
        node.address = it ↔ (LruNode.entry node.item).1 = key := by
      intro node inList
      rcases List.mem_map.mp inList with ⟨before, inBefore, rfl⟩
      rw [NodeList.Node.modify_address]
      change _ ↔ LruNode.key _ = key
      rw [NodeList.Node.modify_item kept]
      exact same before inBefore
    have moved := NodeList.entries_toFront sameAfter
    rw [assigned, KeyedList.moveToFront_assign sound.distinct inKeys] at moved
    exact moved
  · change cache.evictions + (NodeList.toFront it list).length = _
    rw [length]

theorem Sound.put_fresh (sound : cache.Sound) (positive : 1 ≤ cache.capacity)
    (missing : cache.map.lookup key = none) (value : Value) :
    ∃ cache', cache.put key value = some (true, cache') ∧
      cache'.Sound ∧ cache'.capacity = cache.capacity ∧
      cache'.entries = KeyedList.use cache.capacity key value cache.entries ∧
      cache'.evictions + cache'.list.length =
        cache.evictions + cache.list.length + 1 := by
  rcases sound.evict positive with
    ⟨middle, evicted, indexed, capacity, list, count⟩
  have fresh : middle.map.lookup key = none := by
    rw [indexed.lookup_eq_none]
    intro node member
    rw [list] at member
    exact sound.indexed.lookup_eq_none.mp missing node
      (List.mem_of_mem_take member)
  refine ⟨{ middle with
    list := ⟨middle.nextAddress, { key, value }⟩ :: middle.list
    map := middle.map.insert key middle.nextAddress
    nextAddress := middle.nextAddress + 1 }, ?_,
    ⟨indexed.push { key, value } fresh, ?_⟩, capacity, ?_, ?_⟩
  · simp only [LruCache.put, missing, evicted]
    rfl
  · rw [List.length_cons, list, List.length_take]
    change _ ≤ middle.capacity
    omega
  · rw [KeyedList.use, if_neg (sound.lookup_eq_none.mp missing)]
    change (key, value) :: NodeList.entries LruNode.entry middle.list = _
    rw [list, NodeList.entries, List.map_take]
    rfl
  · change middle.evictions + (middle.list.length + 1) = _
    omega

theorem Sound.put (sound : cache.Sound) (positive : 1 ≤ cache.capacity)
    (key : Key) (value : Value) :
    ∃ cache', cache.put key value =
        some (decide (key ∉ KeyedList.keys cache.entries), cache') ∧
      cache'.Sound ∧ cache'.capacity = cache.capacity ∧
      cache'.entries = KeyedList.use cache.capacity key value cache.entries ∧
      cache'.evictions + cache'.list.length = cache.evictions +
        cache.list.length +
          (decide (key ∉ KeyedList.keys cache.entries)).toNat := by
  cases found : cache.map.lookup key with
  | some it =>
      have resident : ¬key ∉ KeyedList.keys cache.entries := by
        rw [← sound.lookup_eq_none, found]
        exact Option.some_ne_none it
      rw [decide_eq_false resident]
      exact sound.put_resident found value
  | none =>
      rw [decide_eq_true (sound.lookup_eq_none.mp found)]
      exact sound.put_fresh positive found value

end Sound

/-! ## Hits and misses -/

theorem evict_counts {rounds : Nat} {cache after : LruCache}
    (evicted : cache.evict rounds = some after) :
    after.hits = cache.hits ∧ after.misses = cache.misses := by
  induction rounds generalizing cache with
  | zero =>
      unfold evict at evicted
      split at evicted
      · cases evicted
      · cases evicted
        exact ⟨rfl, rfl⟩
  | succ rounds induction =>
      unfold evict at evicted
      split at evicted
      · rcases Option.bind_eq_some_iff.mp evicted with ⟨victim, -, evicted⟩
        have rest := induction evicted
        exact rest
      · cases evicted
        exact ⟨rfl, rfl⟩

theorem step_counts {cache after : LruCache} {call : BaselineCall}
    {reply : CacheReply} (stepped : cache.step call = some (reply, after)) :
    after.hits = cache.hits + reply.isHit.toNat ∧
      after.misses = cache.misses + reply.isMiss.toNat := by
  cases call with
  | get key =>
      rcases Option.bind_eq_some_iff.mp stepped with ⟨⟨found, _⟩, got, equal⟩
      cases equal
      unfold get at got
      split at got
      · cases got
        exact ⟨rfl, rfl⟩
      · rcases Option.bind_eq_some_iff.mp got with ⟨node, -, equal⟩
        cases equal
        exact ⟨rfl, rfl⟩
  | put key value =>
      rcases Option.bind_eq_some_iff.mp stepped with ⟨⟨inserted, _⟩, put, equal⟩
      cases equal
      unfold LruCache.put at put
      split at put
      · rcases Option.bind_eq_some_iff.mp put with ⟨node, -, equal⟩
        cases equal
        exact ⟨rfl, rfl⟩
      · rcases Option.bind_eq_some_iff.mp put with ⟨middle, evicted, equal⟩
        cases equal
        have loop := evict_counts evicted
        exact loop

/-! ## Histories -/

/-- The entries of the cache are the most recently used keys with the values
that were put last. -/
structure Recent (capacity : Nat) (calls : List BaselineCall)
    (replies : List CacheReply) (cache : LruCache) : Prop where
  keys : cache.keys =
    (KeyedList.recent (BaselineCall.uses calls replies)).take capacity
  size : cache.size =
    min capacity (BaselineCall.uses calls replies).dedup.length
  values : ∀ node ∈ cache.list,
    BaselineCall.lastPut node.item.key calls = some node.item.value
  evictions : cache.evictions + cache.size =
    replies.count (.changed true)

def Answers (calls : List BaselineCall) (cache : LruCache) : Prop :=
  ∀ key, ∃ found cache', cache.step (.get key) = some (.value found, cache') ∧
    (found ≠ none ↔ key ∈ cache.keys) ∧
    (key ∈ cache.keys → found = BaselineCall.lastPut key calls)

structure Follows (capacity : Nat) (calls : List BaselineCall)
    (replies : List CacheReply) (cache : LruCache) : Prop where
  sound : cache.Sound
  sameCapacity : cache.capacity = capacity
  length : replies.length = calls.length
  keys : KeyedList.keys cache.entries =
    (KeyedList.recent (BaselineCall.uses calls replies)).take capacity
  values : ∀ entry ∈ cache.entries,
    BaselineCall.lastPut entry.1 calls = some entry.2
  evictions : cache.evictions + cache.list.length =
    replies.count (.changed true)

section Follows

variable {capacity : Nat} {calls : List BaselineCall}
  {replies : List CacheReply} {cache : LruCache}

theorem Follows.new (capacity : Nat) :
    Follows capacity [] [] (new capacity) where
  sound := .new capacity
  sameCapacity := rfl
  length := rfl
  keys := (List.take_nil).symm
  values := by simp [entries, NodeList.entries, LruCache.new]
  evictions := rfl

theorem Follows.use (follows : Follows capacity calls replies cache)
    (positive : 1 ≤ capacity) {call : BaselineCall} {reply : CacheReply}
    {key : Key} {value : Value} {after : LruCache}
    (used : call.used reply = some key) (sound : after.Sound)
    (sameCapacity : after.capacity = cache.capacity)
    (entries : after.entries =
      KeyedList.use cache.capacity key value cache.entries)
    (last : BaselineCall.lastPut key (calls ++ [call]) = some value)
    (others : ∀ other, other ≠ key → BaselineCall.lastPut other
      (calls ++ [call]) = BaselineCall.lastPut other calls)
    (evictions : after.evictions + after.list.length =
      (replies ++ [reply]).count (.changed true)) :
    Follows capacity (calls ++ [call]) (replies ++ [reply]) after where
  sound
  sameCapacity := sameCapacity.trans follows.sameCapacity
  length := by
    rw [List.length_append, List.length_append, follows.length]
    rfl
  keys := by
    rw [entries, follows.sameCapacity, BaselineCall.uses_concat follows.length, used]
    exact KeyedList.keys_use positive follows.keys
  values := by
    intro entry member
    rw [entries] at member
    rcases KeyedList.mem_use member with rfl | ⟨different, member⟩
    · exact last
    · rw [others entry.1 different]
      exact follows.values entry member
  evictions

theorem Follows.get_hit (follows : Follows capacity calls replies cache)
    (positive : 1 ≤ capacity) {key : Key} {value : Value}
    (member : (key, value) ∈ cache.entries) :
    ∃ after, cache.step (.get key) = some (.value (some value), after) ∧
      Follows capacity (calls ++ [.get key])
        (replies ++ [.value (some value)]) after := by
  rcases follows.sound.get_hit member with
    ⟨after, got, sound, sameCapacity, evictions, entries⟩
  have same : after.list.length = cache.list.length := by
    have lengths := congrArg List.length entries
    rw [← KeyedList.moveToFront_eq_use follows.sound.distinct member,
      (KeyedList.moveToFront_perm _ cache.entries).length_eq] at lengths
    simpa [LruCache.entries, NodeList.entries] using lengths
  refine ⟨after, ?_, follows.use positive rfl sound sameCapacity entries ?_ ?_
    ?_⟩
  · rw [LruCache.step, got]
    rfl
  · rw [BaselineCall.lastPut_get]
    exact follows.values (key, value) member
  · intro other _
    exact BaselineCall.lastPut_get other key calls
  · rw [evictions, same, follows.evictions, List.count_append]
    rfl

theorem Follows.get_miss (follows : Follows capacity calls replies cache)
    {key : Key} (absent : key ∉ KeyedList.keys cache.entries) :
    ∃ after, cache.step (.get key) = some (.value none, after) ∧
      Follows capacity (calls ++ [.get key]) (replies ++ [.value none])
        after := by
  have missed := follows.sound.lookup_eq_none.mpr absent
  refine ⟨{ cache with misses := cache.misses + 1 }, ?_,
    ⟨⟨follows.sound.indexed, follows.sound.within⟩, follows.sameCapacity, ?_,
      ?_, ?_, ?_⟩⟩
  · rw [LruCache.step, get, missed]
    rfl
  · rw [List.length_append, List.length_append, follows.length]
    rfl
  · rw [BaselineCall.uses_concat follows.length]
    change _ = (KeyedList.recent
      (BaselineCall.uses calls replies ++ [])).take capacity
    rw [List.append_nil]
    exact follows.keys
  · intro entry member
    rw [BaselineCall.lastPut_get]
    exact follows.values entry member
  · rw [List.count_append]
    exact follows.evictions

theorem Follows.put (follows : Follows capacity calls replies cache)
    (positive : 1 ≤ capacity) (key : Key) (value : Value) :
    ∃ reply after, cache.step (.put key value) = some (reply, after) ∧
      Follows capacity (calls ++ [.put key value]) (replies ++ [reply])
        after := by
  have enough : 1 ≤ cache.capacity := by rwa [follows.sameCapacity]
  rcases follows.sound.put enough key value with
    ⟨after, put, sound, sameCapacity, entries, evictions⟩
  refine ⟨.changed (decide (key ∉ KeyedList.keys cache.entries)), after, ?_,
    follows.use positive rfl sound sameCapacity entries
      (BaselineCall.lastPut_put_self key value calls) ?_ ?_⟩
  · rw [LruCache.step, put]
    rfl
  · intro other different
    exact BaselineCall.lastPut_put_ne different value calls
  · rw [evictions, follows.evictions, List.count_append]
    congr 1
    by_cases resident : key ∈ KeyedList.keys cache.entries <;> simp [resident]

theorem Follows.step (follows : Follows capacity calls replies cache)
    (positive : 1 ≤ capacity) (call : BaselineCall) :
    ∃ reply after, cache.step call = some (reply, after) ∧
      Follows capacity (calls ++ [call]) (replies ++ [reply]) after := by
  cases call with
  | get key =>
      by_cases resident : key ∈ KeyedList.keys cache.entries
      · rcases List.mem_map.mp resident with ⟨⟨_, value⟩, member, rfl⟩
        rcases follows.get_hit positive member with ⟨after, got, follows'⟩
        exact ⟨_, after, got, follows'⟩
      · rcases follows.get_miss resident with ⟨after, got, follows'⟩
        exact ⟨_, after, got, follows'⟩
  | put key value => exact follows.put positive key value

theorem Follows.recent (follows : Follows capacity calls replies cache)
    (fits : capacity < uint32Size) : Recent capacity calls replies cache := by
  have size : cache.size = cache.list.length := by
    rw [LruCache.size, follows.sound.indexed.size]
    apply Nat.mod_eq_of_lt
    have within := follows.sound.within
    have sameCapacity := follows.sameCapacity
    omega
  have keys := follows.keys
  rw [keys_entries] at keys
  refine ⟨keys, ?_, ?_, ?_⟩
  · have lengths := congrArg List.length keys
    rw [LruCache.keys, List.length_map, List.length_take, KeyedList.recent,
      List.length_reverse] at lengths
    rw [size, lengths]
  · intro node member
    exact follows.values (LruNode.entry node.item)
      (List.mem_map.mpr ⟨node, member, rfl⟩)
  · rw [size]
    exact follows.evictions

theorem Follows.answers (follows : Follows capacity calls replies cache) :
    Answers calls cache := by
  intro key
  rw [← keys_entries]
  by_cases resident : key ∈ KeyedList.keys cache.entries
  · rcases List.mem_map.mp resident with ⟨⟨_, value⟩, member, rfl⟩
    rcases follows.sound.get_hit member with ⟨after, got, -⟩
    refine ⟨some value, after, by rw [LruCache.step, got]; rfl, ?_, ?_⟩
    · exact iff_of_true (Option.some_ne_none value) resident
    · exact fun _ => (follows.values _ member).symm
  · have missed := follows.sound.lookup_eq_none.mpr resident
    refine ⟨none, { cache with misses := cache.misses + 1 },
      by rw [LruCache.step, get, missed]; rfl, ?_, ?_⟩
    · exact iff_of_false (not_not_intro rfl) resident
    · exact fun inside => absurd inside resident

theorem Follows.run (positive : 1 ≤ capacity) (calls : List BaselineCall) :
    ∃ replies cache,
      Machine.run LruCache.step calls (LruCache.new capacity) =
        some (replies, cache) ∧
      Follows capacity calls replies cache := by
  induction calls using List.reverseRecOn with
  | nil => exact ⟨[], LruCache.new capacity, rfl, .new capacity⟩
  | append_singleton calls call induction =>
      rcases induction with ⟨replies, cache, ran, follows⟩
      rcases follows.step positive call with ⟨reply, after, stepped, follows'⟩
      exact ⟨replies ++ [reply], after,
        Machine.run_append ran (Machine.run_cons stepped rfl), follows'⟩

end Follows

/-- Every run of the baseline ends with the most recently used keys, and every
get answers by them. -/
theorem run_recent {capacity : Nat} (positive : 1 ≤ capacity)
    (fits : capacity < uint32Size) (calls : List BaselineCall) :
    ∃ replies cache,
      Machine.run step calls (new capacity) = some (replies, cache) ∧
      cache.Recent capacity calls replies ∧ cache.Answers calls := by
  rcases Follows.run positive calls with ⟨replies, cache, ran, follows⟩
  exact ⟨replies, cache, ran, follows.recent fits, follows.answers⟩

/-- Of two places, the keys used last have one each. -/
theorem run_recent_sample :
    ∃ replies cache,
      Machine.run step [.put "k" "1", .put "w" "2", .get "k", .put "x" "3"]
        (new 2) = some (replies, cache) ∧
      cache.Recent 2 [.put "k" "1", .put "w" "2", .get "k", .put "x" "3"]
        replies ∧
      cache.Answers [.put "k" "1", .put "w" "2", .get "k", .put "x" "3"] :=
  run_recent (by decide) (by decide) _

end LruCache

end Walde
