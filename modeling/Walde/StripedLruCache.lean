import Walde.BloomDoorkeeper
import Walde.Foundation.Family
import Walde.LruCache

namespace Walde

open Foundation Foundation.Components
open Foundation.NodeList (Node)

/-! # The striped LRU baseline

Sixty-four lists, each with a lock and a map of its own. The counters are
shared. -/

def kStripes : Nat := 64

structure LruStripe where
  list : List (Node LruNode)
  map : AList fun _ : Key => Nat
  nextAddress : Nat

structure StripedLruCache where
  perStripeCap : Nat
  stripes : Fin kStripes → LruStripe
  hits : Nat
  misses : Nat
  evictions : Nat

namespace StripedLruCache

def capOf (totalCapacity : Nat) : Nat := max 1 (totalCapacity / kStripes)

def new (totalCapacity : Nat) : StripedLruCache where
  perStripeCap := capOf totalCapacity
  stripes := fun _ => ⟨[], ∅, 0⟩
  hits := 0
  misses := 0
  evictions := 0

def stripeFor (key : Key) : Fin kStripes :=
  let h := (keyBytes key).foldl
    (fun (h : UInt32) c => (h ^^^ c.toUInt32) * 0x01000193) 0x811C9DC5
  ⟨h.toNat % kStripes, Nat.mod_lt _ (by decide)⟩

def withStripe (cache : StripedLruCache) (i : Fin kStripes) (s : LruStripe) :
    StripedLruCache :=
  { cache with stripes := Function.update cache.stripes i s }

def get (cache : StripedLruCache) (key : Key) :
    Option (Option Value × StripedLruCache) :=
  let s := cache.stripes (stripeFor key)
  match s.map.lookup key with
  | none => some (none, { cache with misses := cache.misses + 1 })
  | some it => do
      let node ← NodeList.deref s.list it
      let s := { s with list := NodeList.toFront it s.list }
      return (some node.value, { cache.withStripe (stripeFor key) s with
        hits := cache.hits + 1 })

/-- The loop on the size of the list of a stripe, with the shared count of
evictions. It faults as the loop of the unstriped cache does. -/
def evict (perStripeCap : Nat) : Nat → LruStripe → Nat →
    Option (LruStripe × Nat)
  | rounds, s, evictions =>
      if s.list.length ≥ perStripeCap then
        match rounds with
        | 0 => none
        | rounds + 1 => do
            let victim ← s.list.getLast?
            evict perStripeCap rounds { s with
              map := s.map.erase victim.item.key
              list := s.list.dropLast } (evictions + 1)
      else some (s, evictions)

def put (cache : StripedLruCache) (key : Key) (value : Value) :
    Option (Bool × StripedLruCache) :=
  let s := cache.stripes (stripeFor key)
  match s.map.lookup key with
  | some it => do
      let _ ← NodeList.deref s.list it
      let list := NodeList.modify it (fun node => { node with value }) s.list
      let s := { s with list := NodeList.toFront it list }
      return (false, cache.withStripe (stripeFor key) s)
  | none => do
      let (s, evictions) ←
        evict cache.perStripeCap s.list.length s cache.evictions
      let s : LruStripe := {
        list := ⟨s.nextAddress, { key, value }⟩ :: s.list
        map := s.map.insert key s.nextAddress
        nextAddress := s.nextAddress + 1 }
      return (true, { cache.withStripe (stripeFor key) s with evictions })

def step : Machine StripedLruCache BaselineCall CacheReply
  | cache, .get key => do
      let (found, cache) ← cache.get key
      return (.value found, cache)
  | cache, .put key value => do
      let (inserted, cache) ← cache.put key value
      return (.changed inserted, cache)

end StripedLruCache

/-! ## The stripes as caches of their own -/

def LruCache.stripe (cache : LruCache) : LruStripe where
  list := cache.list
  map := cache.map
  nextAddress := cache.nextAddress

def BaselineCall.key : BaselineCall → Key
  | .get key => key
  | .put key _ => key

namespace StripedLruCache

/-- The stripes are those of `members`, whose counters are added up. -/
structure Presents (members : Fin kStripes → LruCache)
    (cache : StripedLruCache) : Prop where
  capacity : ∀ i, (members i).capacity = cache.perStripeCap
  stripe : ∀ i, cache.stripes i = (members i).stripe
  hits : cache.hits = ∑ i, (members i).hits
  misses : cache.misses = ∑ i, (members i).misses
  evictions : cache.evictions = ∑ i, (members i).evictions

theorem Presents.new (totalCapacity : Nat) :
    (new totalCapacity).Presents fun _ => .new (capOf totalCapacity) where
  capacity _ := rfl
  stripe _ := rfl
  hits := Finset.sum_const_zero.symm
  misses := Finset.sum_const_zero.symm
  evictions := Finset.sum_const_zero.symm

section Presents

variable {members : Fin kStripes → LruCache} {cache cache' : StripedLruCache}
  {i : Fin kStripes} {after : LruCache}

theorem Presents.unique (presents : cache.Presents members)
    (presents' : cache'.Presents members) : cache = cache' := by
  have stripes : cache.stripes = cache'.stripes :=
    funext fun i => (presents.stripe i).trans (presents'.stripe i).symm
  have capacity : cache.perStripeCap = cache'.perStripeCap :=
    (presents.capacity ⟨0, by decide⟩).symm.trans (presents'.capacity _)
  have hits := presents.hits.trans presents'.hits.symm
  have misses := presents.misses.trans presents'.misses.symm
  have evictions := presents.evictions.trans presents'.evictions.symm
  cases cache
  cases cache'
  simp only at stripes capacity hits misses evictions
  subst stripes capacity hits misses evictions
  rfl

theorem Presents.update (presents : cache.Presents members)
    (capacity : after.capacity = (members i).capacity)
    (perStripeCap : cache'.perStripeCap = cache.perStripeCap)
    (stripes : cache'.stripes = Function.update cache.stripes i after.stripe)
    (hits : cache'.hits + (members i).hits = cache.hits + after.hits)
    (misses : cache'.misses + (members i).misses = cache.misses + after.misses)
    (evictions : cache'.evictions + (members i).evictions =
      cache.evictions + after.evictions) :
    cache'.Presents (Function.update members i after) where
  capacity := by
    rw [perStripeCap]
    apply (Function.forall_update_iff members fun _ member =>
      member.capacity = cache.perStripeCap).mpr
    exact ⟨capacity.trans (presents.capacity i), fun j _ => presents.capacity j⟩
  stripe j := by
    rw [stripes]
    by_cases same : j = i
    · subst same
      rw [Function.update_self, Function.update_self]
    · rw [Function.update_of_ne same, Function.update_of_ne same,
        presents.stripe]
  hits := by
    have moved := Family.sum_update LruCache.hits members i after
    rw [← presents.hits] at moved
    omega
  misses := by
    have moved := Family.sum_update LruCache.misses members i after
    rw [← presents.misses] at moved
    omega
  evictions := by
    have moved := Family.sum_update LruCache.evictions members i after
    rw [← presents.evictions] at moved
    omega

theorem evict_stripe {rounds : Nat} {lru : LruCache}
    (evicted : lru.evict rounds = some after) (others : Nat) :
    evict lru.capacity rounds lru.stripe (others + lru.evictions) =
        some (after.stripe, others + after.evictions) ∧
      after.capacity = lru.capacity ∧ after.hits = lru.hits ∧
      after.misses = lru.misses := by
  induction rounds generalizing lru with
  | zero =>
      unfold LruCache.evict at evicted
      split at evicted
      · cases evicted
      · rename_i room
        cases evicted
        unfold evict
        exact ⟨if_neg room, rfl, rfl, rfl⟩
  | succ rounds induction =>
      unfold LruCache.evict at evicted
      split at evicted
      · rename_i full
        rcases Option.bind_eq_some_iff.mp evicted with ⟨victim, last, evicted⟩
        rcases induction evicted with ⟨rest, capacity, hits, misses⟩
        refine ⟨?_, capacity, hits, misses⟩
        unfold evict
        rw [if_pos (show lru.stripe.list.length ≥ lru.capacity from full)]
        change (lru.list.getLast?.bind fun victim => _) = _
        rw [last]
        exact rest
      · rename_i room
        cases evicted
        unfold evict
        exact ⟨if_neg room, rfl, rfl, rfl⟩

theorem Presents.get (presents : cache.Presents members) {key : Key}
    {found : Option Value}
    (got : (members (stripeFor key)).get key = some (found, after)) :
    ∃ cache', cache.get key = some (found, cache') ∧
      cache'.Presents (Function.update members (stripeFor key) after) := by
  unfold StripedLruCache.get
  generalize stripeFor key = i at got ⊢
  have stripe := presents.stripe i
  unfold LruCache.get at got
  split at got
  · rename_i missed
    cases got
    refine ⟨{ cache with misses := cache.misses + 1 }, ?_,
      presents.update rfl rfl ?_ rfl ?_ rfl⟩
    · simp only [stripe, LruCache.stripe, missed]
    · exact (Function.update_eq_self_iff.mpr stripe.symm).symm
    · exact Nat.add_right_comm cache.misses 1 _
  · rename_i it mapped
    rcases Option.bind_eq_some_iff.mp got with ⟨node, deref, equal⟩
    cases equal
    refine ⟨{ cache.withStripe i { (members i).stripe with
      list := NodeList.toFront it (members i).list } with
        hits := cache.hits + 1 }, ?_, presents.update rfl rfl rfl ?_ rfl rfl⟩
    · simp only [stripe, LruCache.stripe, mapped, deref]
      rfl
    · exact Nat.add_right_comm cache.hits 1 _

theorem Presents.put (presents : cache.Presents members) {key : Key}
    {value : Value} {inserted : Bool}
    (put : (members (stripeFor key)).put key value = some (inserted, after)) :
    ∃ cache', cache.put key value = some (inserted, cache') ∧
      cache'.Presents (Function.update members (stripeFor key) after) := by
  unfold StripedLruCache.put
  generalize stripeFor key = i at put ⊢
  have stripe := presents.stripe i
  unfold LruCache.put at put
  split at put
  · rename_i it mapped
    rcases Option.bind_eq_some_iff.mp put with ⟨node, deref, equal⟩
    cases equal
    refine ⟨cache.withStripe i { (members i).stripe with
      list := NodeList.toFront it (NodeList.modify it
        (fun node => { node with value }) (members i).list) }, ?_,
      presents.update rfl rfl rfl rfl rfl rfl⟩
    simp only [stripe, LruCache.stripe, mapped, deref]
    rfl
  · rename_i missing
    rcases Option.bind_eq_some_iff.mp put with ⟨lru, evicted, equal⟩
    cases equal
    -- what the other stripes have evicted
    obtain ⟨others, shared⟩ : ∃ others,
        cache.evictions = others + (members i).evictions := by
      rw [presents.evictions, ← Finset.sum_erase_add _ _ (Finset.mem_univ i)]
      exact ⟨_, rfl⟩
    rcases evict_stripe evicted others with ⟨loop, capacity, hits, misses⟩
    rw [← shared, presents.capacity] at loop
    refine ⟨{ cache.withStripe i {
        list := ⟨lru.nextAddress, { key, value }⟩ :: lru.list
        map := lru.map.insert key lru.nextAddress
        nextAddress := lru.nextAddress + 1 } with
      evictions := others + lru.evictions }, ?_,
      presents.update capacity rfl rfl (congrArg _ hits.symm)
        (congrArg _ misses.symm) ?_⟩
    · simp only [stripe, LruCache.stripe, missing] at loop ⊢
      rw [loop]
      rfl
    · change others + lru.evictions + _ = cache.evictions + lru.evictions
      omega

/-- A call does to its stripe what it would do to a cache of its own. -/
theorem Presents.step (presents : cache.Presents members) {call : BaselineCall}
    {reply : CacheReply}
    (stepped : (members (stripeFor call.key)).step call = some (reply, after)) :
    ∃ cache', cache.step call = some (reply, cache') ∧
      cache'.Presents (Function.update members (stripeFor call.key) after) := by
  cases call with
  | get key =>
      rcases Option.bind_eq_some_iff.mp stepped with ⟨⟨found, _⟩, got, equal⟩
      cases equal
      rcases presents.get got with ⟨cache', got', presents'⟩
      change cache.get key = _ at got'
      refine ⟨cache', ?_, presents'⟩
      rw [StripedLruCache.step, got']
      rfl
  | put key value =>
      rcases Option.bind_eq_some_iff.mp stepped with ⟨⟨inserted, _⟩, put, equal⟩
      cases equal
      rcases presents.put put with ⟨cache', put', presents'⟩
      change cache.put key value = _ at put'
      refine ⟨cache', ?_, presents'⟩
      rw [StripedLruCache.step, put']
      rfl

theorem Presents.within (presents : cache.Presents members) {totalCapacity : Nat}
    (sound : ∀ i, (members i).Sound ∧
      (members i).capacity = capOf totalCapacity) :
    ∑ i, (cache.stripes i).list.length ≤ max kStripes totalCapacity := by
  calc ∑ i, (cache.stripes i).list.length
      ≤ ∑ _i : Fin kStripes, capOf totalCapacity := by
        apply Finset.sum_le_sum
        intro i _
        rw [presents.stripe, ← (sound i).2]
        exact (sound i).1.within
    _ = kStripes * capOf totalCapacity := by
        rw [Finset.sum_const_nat fun _ _ => rfl, Finset.card_univ,
          Fintype.card_fin]
    _ ≤ max kStripes totalCapacity := by
        unfold capOf kStripes
        omega

end Presents

/-! ## Runs -/

def routed (calls : List BaselineCall) : List (Fin kStripes × BaselineCall) :=
  calls.map fun call => (stripeFor call.key, call)

theorem Presents.run {members last : Fin kStripes → LruCache}
    {cache : StripedLruCache} {calls : List BaselineCall}
    {replies : List CacheReply} (presents : cache.Presents members)
    (ran : (Family.machine LruCache.step).run (routed calls) members =
      some (replies, last)) :
    ∃ cache', Machine.run StripedLruCache.step calls cache =
        some (replies, cache') ∧
      cache'.Presents last := by
  induction calls generalizing cache members replies with
  | nil =>
      cases ran
      exact ⟨cache, rfl, presents⟩
  | cons call rest induction =>
      rcases Machine.run_cons_eq_some ran with
        ⟨reply, middle, others, stepped, ranRest, rfl⟩
      rcases Family.step_eq_some stepped with ⟨after, alone, rfl⟩
      rcases presents.step alone with ⟨cache', stepped', presents'⟩
      rcases induction presents' ranRest with ⟨cache'', ran', presents''⟩
      exact ⟨cache'', Machine.run_cons stepped' ran', presents''⟩

theorem run_members (totalCapacity : Nat) (calls : List BaselineCall) :
    ∃ replies cache members,
      Machine.run step calls (new totalCapacity) = some (replies, cache) ∧
      cache.Presents members ∧
      ∀ i, Machine.run LruCache.step (addressed i (routed calls))
          (LruCache.new (capOf totalCapacity)) =
            some (resultsOf i (routed calls) replies, members i) ∧
        LruCache.Follows (capOf totalCapacity) (addressed i (routed calls))
          (resultsOf i (routed calls) replies) (members i) := by
  have positive : 1 ≤ capOf totalCapacity := Nat.le_max_left 1 _
  have alone := fun i =>
    LruCache.Follows.run positive (addressed i (routed calls))
  choose replies members ran follows using alone
  rcases Family.run_of_members ran with ⟨results, familyRan, answers⟩
  rcases (Presents.new totalCapacity).run familyRan with
    ⟨cache, stripedRan, presents⟩
  refine ⟨results, cache, members, stripedRan, presents, fun i => ?_⟩
  rw [answers]
  exact ⟨ran i, follows i⟩

/-- Every stripe answers, and ends, as a cache of its own would that gets only
the calls of that stripe. The counters are the sums of the caches'. -/
theorem run_isolated (totalCapacity : Nat) (calls : List BaselineCall) :
    ∃ replies cache members,
      Machine.run step calls (new totalCapacity) = some (replies, cache) ∧
      cache.Presents members ∧
      ∀ i, Machine.run LruCache.step (addressed i (routed calls))
          (LruCache.new (capOf totalCapacity)) =
        some (resultsOf i (routed calls) replies, members i) := by
  rcases run_members totalCapacity calls with
    ⟨replies, cache, members, ran, presents, alone⟩
  exact ⟨replies, cache, members, ran, presents, fun i => (alone i).1⟩

/-- Calls of different stripes may change places: every call is answered alike,
and the cache ends the same. -/
theorem run_reordered (totalCapacity : Nat) {calls calls' : List BaselineCall}
    (same : ∀ i, addressed i (routed calls) = addressed i (routed calls')) :
    ∃ replies replies' cache,
      Machine.run step calls (new totalCapacity) = some (replies, cache) ∧
      Machine.run step calls' (new totalCapacity) = some (replies', cache) ∧
      (calls.zip replies).Perm (calls'.zip replies') := by
  have positive : 1 ≤ capOf totalCapacity := Nat.le_max_left 1 _
  have alone := fun i =>
    LruCache.Follows.run positive (addressed i (routed calls))
  choose answers members ran _follows using alone
  rcases Family.run_of_members ran with ⟨replies, familyRan, -⟩
  rcases Family.run_perm same familyRan with ⟨replies', familyRan', perm⟩
  have presents := Presents.new totalCapacity
  rcases presents.run familyRan with ⟨cache, stripedRan, presented⟩
  rcases presents.run familyRan' with ⟨cache', stripedRan', presented'⟩
  obtain rfl := presented.unique presented'
  refine ⟨replies, replies', cache, stripedRan, stripedRan', ?_⟩
  have answered : ∀ (calls : List BaselineCall) (replies : List CacheReply),
      (Components.answered (routed calls) replies).map Prod.snd =
        calls.zip replies := by
    intro calls replies
    rw [Components.answered, routed, List.map_zipWith, List.zipWith_map_left]
    rfl
  rw [← answered, ← answered]
  exact perm.map Prod.snd

/-- `k` and `w` are keys of different stripes. -/
theorem run_reordered_sample :
    ∃ replies replies' cache,
      Machine.run step [.put "k" "1", .put "w" "2", .get "k"] (new 10) =
        some (replies, cache) ∧
      Machine.run step [.put "k" "1", .get "k", .put "w" "2"] (new 10) =
        some (replies', cache) ∧
      ([BaselineCall.put "k" "1", .put "w" "2", .get "k"].zip replies).Perm
        ([BaselineCall.put "k" "1", .get "k", .put "w" "2"].zip replies') :=
  run_reordered 10 (by decide +kernel)

/-! ## What the stripes hold -/

section Routed

variable {calls : List BaselineCall} {replies : List CacheReply}

theorem used_key {call : BaselineCall} {reply : CacheReply} {key : Key}
    (used : call.used reply = some key) : call.key = key := by
  cases call with
  | get other =>
      cases reply with
      | value found =>
          cases found with
          | none => cases used
          | some value => exact Option.some.inj used
      | changed inserted => cases used
  | put other value => exact Option.some.inj used

theorem uses_addressed (i : Fin kStripes) :
    BaselineCall.uses (addressed i (routed calls))
        (resultsOf i (routed calls) replies) =
      (BaselineCall.uses calls replies).filter fun key => stripeFor key = i := by
  induction calls generalizing replies with
  | nil => rfl
  | cons call rest induction =>
      cases replies with
      | nil =>
          have none : ∀ calls : List BaselineCall,
              BaselineCall.uses calls [] = [] := fun calls =>
            congrArg (List.filterMap _) List.zip_nil_right
          have resultsNone : resultsOf i (routed (call :: rest))
              ([] : List CacheReply) = [] := rfl
          rw [resultsNone, none, none]
          rfl
      | cons reply others =>
          have head : BaselineCall.uses (call :: rest) (reply :: others) =
              (call.used reply).toList ++ BaselineCall.uses rest others := by
            rw [BaselineCall.uses, List.zip_cons_cons, List.filterMap_cons]
            cases call.used reply <;> rfl
          rw [head, List.filter_append, ← induction]
          change BaselineCall.uses
            (addressed i ((stripeFor call.key, call) :: routed rest))
            (resultsOf i ((stripeFor call.key, call) :: routed rest)
              (reply :: others)) = _
          by_cases here : stripeFor call.key = i
          · subst here
            rw [addressed_cons_self, Family.resultsOf_cons_self,
              BaselineCall.uses, List.zip_cons_cons, List.filterMap_cons]
            cases used : call.used reply with
            | none => rfl
            | some key =>
                change key :: _ = List.filter _ [key] ++ _
                rw [List.filter_cons_of_pos (by simp [used_key used])]
                rfl
          · rw [addressed_cons_of_ne here, Family.resultsOf_cons_of_ne here]
            cases used : call.used reply with
            | none => rfl
            | some key =>
                change _ = List.filter _ [key] ++ _
                rw [used_key used] at here
                rw [List.filter_cons_of_neg (by simpa using here)]
                rfl

theorem lastPut_addressed (key : Key) (calls : List BaselineCall) :
    BaselineCall.lastPut key (addressed (stripeFor key) (routed calls)) =
      BaselineCall.lastPut key calls := by
  induction calls using List.reverseRecOn with
  | nil => rfl
  | append_singleton calls call induction =>
      rw [BaselineCall.lastPut_concat, ← induction, routed, List.map_append,
        addressed_append]
      change BaselineCall.lastPut key (_ ++
        addressed (stripeFor key) ((stripeFor call.key, call) :: [])) = _
      by_cases here : stripeFor call.key = stripeFor key
      · rw [here, addressed_cons_self]
        exact BaselineCall.lastPut_concat key _ call
      · have notPut : call.putOf key = none := by
          cases call with
          | get other => rfl
          | put other value =>
              apply if_neg
              rintro rfl
              exact here rfl
        rw [addressed_cons_of_ne here, notPut]
        change BaselineCall.lastPut key (_ ++ []) = _
        rw [List.append_nil]
        rfl

end Routed

def keysOf (cache : StripedLruCache) (i : Fin kStripes) : List Key :=
  (cache.stripes i).list.map fun node => node.item.key

/-- Each stripe holds the most recently used of the keys that belong to it, and
the shared counters count the replies. -/
structure Recent (totalCapacity : Nat) (calls : List BaselineCall)
    (replies : List CacheReply) (cache : StripedLruCache) : Prop where
  keys : ∀ i, cache.keysOf i = (KeyedList.recent
    ((BaselineCall.uses calls replies).filter fun key =>
      stripeFor key = i)).take (capOf totalCapacity)
  values : ∀ i, ∀ node ∈ (cache.stripes i).list,
    BaselineCall.lastPut node.item.key calls = some node.item.value
  hits : cache.hits = replies.countP CacheReply.isHit
  misses : cache.misses = replies.countP CacheReply.isMiss
  evictions : cache.evictions + ∑ i, (cache.stripes i).list.length =
    replies.count (.changed true)
  within : ∑ i, (cache.stripes i).list.length ≤ max kStripes totalCapacity

def Answers (calls : List BaselineCall) (cache : StripedLruCache) : Prop :=
  ∀ key, ∃ found cache', cache.step (.get key) = some (.value found, cache') ∧
    (found ≠ none ↔ key ∈ cache.keysOf (stripeFor key)) ∧
    (key ∈ cache.keysOf (stripeFor key) →
      found = BaselineCall.lastPut key calls)

theorem answers_of_isolated {totalCapacity : Nat} {calls : List BaselineCall}
    {replies : List CacheReply} {cache : StripedLruCache}
    {members : Fin kStripes → LruCache} (presents : cache.Presents members)
    (follows : ∀ i, LruCache.Follows (capOf totalCapacity)
      (addressed i (routed calls)) (resultsOf i (routed calls) replies)
      (members i)) : cache.Answers calls := by
  intro key
  rcases (follows (stripeFor key)).answers key with
    ⟨found, after, got, hit, last⟩
  rcases @Presents.step _ _ _ presents (.get key) _ got with ⟨cache', got', -⟩
  have keys : cache.keysOf (stripeFor key) = (members (stripeFor key)).keys := by
    rw [keysOf, presents.stripe]
    rfl
  rw [lastPut_addressed] at last
  rw [keys]
  exact ⟨found, cache', got', hit, last⟩

/-- Every run ends with the most recently used keys of every stripe, and there
are no more of them than the capacity, unless it is below the number of
stripes. -/
theorem stripes_recent (totalCapacity : Nat) (calls : List BaselineCall) :
    ∃ replies cache,
      Machine.run step calls (new totalCapacity) = some (replies, cache) ∧
      cache.Recent totalCapacity calls replies ∧ cache.Answers calls := by
  rcases run_members totalCapacity calls with
    ⟨replies, cache, members, ran, presents, alone⟩
  have follows := fun i => (alone i).2
  have length : replies.length = (routed calls).length :=
    (Machine.run_length ran).trans (List.length_map _).symm
  have list : ∀ i, (cache.stripes i).list = (members i).list := fun i =>
    congrArg LruStripe.list (presents.stripe i)
  refine ⟨replies, cache, ran, ⟨?_, ?_, ?_, ?_, ?_, ?_⟩,
    answers_of_isolated presents follows⟩
  · intro i
    have keys := (follows i).keys
    rw [LruCache.keys_entries, uses_addressed] at keys
    rw [keysOf, list]
    exact keys
  · intro i node member
    rw [list] at member
    have inEntries : LruCache.LruNode.entry node.item ∈ (members i).entries :=
      List.mem_map.mpr ⟨node, member, rfl⟩
    have last := (follows i).values _ inEntries
    have here : stripeFor node.item.key = i := by
      have inKeys := KeyedList.mem_keys inEntries
      rw [(follows i).keys, uses_addressed] at inKeys
      have used := List.mem_dedup.mp
        (List.mem_reverse.mp (List.mem_of_mem_take inKeys))
      simpa using (List.mem_filter.mp used).2
    rw [← here] at last
    exact (lastPut_addressed _ calls).symm.trans last
  · rw [presents.hits, ← Family.sum_countP_resultsOf CacheReply.isHit length]
    apply Finset.sum_congr rfl
    intro i _
    have counted := Machine.counter_run CacheReply.isHit
      (fun stepped => (LruCache.step_counts stepped).1) (alone i).1
    exact counted.trans (Nat.zero_add _)
  · rw [presents.misses, ← Family.sum_countP_resultsOf CacheReply.isMiss length]
    apply Finset.sum_congr rfl
    intro i _
    have counted := Machine.counter_run CacheReply.isMiss
      (fun stepped => (LruCache.step_counts stepped).2) (alone i).1
    exact counted.trans (Nat.zero_add _)
  · rw [presents.evictions, ← Finset.sum_add_distrib, List.count,
      ← Family.sum_countP_resultsOf _ length]
    apply Finset.sum_congr rfl
    intro i _
    rw [list]
    exact (follows i).evictions
  · exact presents.within fun i =>
      ⟨(follows i).sound, (follows i).sameCapacity⟩

end StripedLruCache

end Walde
