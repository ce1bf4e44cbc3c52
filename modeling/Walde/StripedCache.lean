import Walde.Foundation.Ledger
import Walde.StripeInvariant

namespace Walde

open Foundation

/-! # The L1 cache

Sixty-four stripes on one slab; a hash of the key picks the stripe. -/

structure StripedCacheConfig where
  totalCapacity : Nat := 8192
  windowPct : Percentage := .defaultWindow
  probationPct : Percentage := .defaultProbation

namespace StripedCacheConfig

def sample : StripedCacheConfig where
  totalCapacity := 192

def perStripe (config : StripedCacheConfig) : Nat :=
  max 3 (config.totalCapacity / kNumStripes)

/-- The size of the slab, a sum of two `uint32_t`. -/
def slabCapacity (config : StripedCacheConfig) : Nat :=
  (config.totalCapacity + kNumStripes) % uint32Size

def settings (config : StripedCacheConfig) (demotionQueue : Bool) :
    StripeSettings where
  capacity := config.perStripe
  windowPct := config.windowPct
  probationPct := config.probationPct
  demotionQueue

end StripedCacheConfig

abbrev StripedCache := StripeSystem kNumStripes

namespace StripedCache

/-- The constructor, followed by `set_demotion_queue` if `demotionQueue`. -/
def new (config : StripedCacheConfig) (demotionQueue : Bool) :
    Option StripedCache :=
  StripeSystem.new config.slabCapacity fun _ => config.settings demotionQueue

def route (xx : XxHash) (key : Key) : Fin kNumStripes :=
  ⟨xx.xxh64 key 0 % kNumStripes, Nat.mod_lt _ (by decide)⟩

def get (xx : XxHash) (cache : StripedCache) (key : Key) :
    Option ((Option Value × List DemotionItem) × StripedCache) :=
  cache.perform SlabAllocator.allocator (route xx key)
    ((cache.stripe (route xx key)).get xx key)

def put (xx : XxHash) (cache : StripedCache) (key : Key) (value : Value) :
    Option ((Bool × List DemotionItem) × StripedCache) :=
  cache.perform SlabAllocator.allocator (route xx key)
    ((cache.stripe (route xx key)).put xx key value)

def remove (xx : XxHash) (cache : StripedCache) (key : Key) :
    Option ((Bool × List DemotionItem) × StripedCache) :=
  cache.perform SlabAllocator.allocator (route xx key)
    ((cache.stripe (route xx key)).remove key)

def totalSize (cache : StripedCache) : Nat :=
  (∑ i, (cache.stripe i).size) % uint32Size

def totalEvictions (cache : StripedCache) : Nat :=
  ∑ i, (cache.stripe i).stats.evictions

end StripedCache

def CacheCall.key : CacheCall → Key
  | .get key => key
  | .put key _ => key
  | .remove key => key

namespace StripedCache

def call (xx : XxHash) (cache : StripedCache) (call : CacheCall) :
    Option (CallResult × StripedCache) :=
  StripeSystem.call xx SlabAllocator.allocator cache (route xx call.key) call

def run (xx : XxHash) (calls : List CacheCall) (cache : StripedCache) :
    Option (List CallResult × StripedCache) :=
  StripeSystem.run xx SlabAllocator.allocator
    (calls.map fun call => (route xx call.key, call)) cache

theorem call_get (xx : XxHash) (cache : StripedCache) (key : Key) :
    cache.call xx (.get key) = (cache.get xx key).map fun outcome =>
      ((.value outcome.1.1, outcome.1.2), outcome.2) := by
  simp only [call, StripeSystem.call, CacheCall.key, get,
    StripeSystem.perform, CacheStripe.call, Program.run_bind,
    Option.map_map]
  cases ((cache.stripe (route xx key)).get xx key).run
    SlabAllocator.allocator.handler (cache.slab, []) <;> rfl

theorem call_put (xx : XxHash) (cache : StripedCache) (key : Key)
    (value : Value) :
    cache.call xx (.put key value) = (cache.put xx key value).map
      fun outcome => ((.changed outcome.1.1, outcome.1.2), outcome.2) := by
  simp only [call, StripeSystem.call, CacheCall.key, put,
    StripeSystem.perform, CacheStripe.call, Program.run_bind,
    Option.map_map]
  cases ((cache.stripe (route xx key)).put xx key value).run
    SlabAllocator.allocator.handler (cache.slab, []) <;> rfl

theorem call_remove (xx : XxHash) (cache : StripedCache) (key : Key) :
    cache.call xx (.remove key) = (cache.remove xx key).map fun outcome =>
      ((.changed outcome.1.1, outcome.1.2), outcome.2) := by
  simp only [call, StripeSystem.call, CacheCall.key, remove,
    StripeSystem.perform, CacheStripe.call, Program.run_bind,
    Option.map_map]
  cases ((cache.stripe (route xx key)).remove key).run
    SlabAllocator.allocator.handler (cache.slab, []) <;> rfl

/-! ## Which keys are resident -/

def peek (xx : XxHash) (cache : StripedCache) (key : Key) : Option Value :=
  ((cache.stripe (route xx key)).indexMap.lookup key).map fun index =>
    (cache.slab.pool index).value

/-- A state the cache can be in: it follows policies of the configured size,
and every key is in the stripe it is routed to. -/
structure Valid (xx : XxHash) (config : StripedCacheConfig)
    (demotionQueue : Bool) (policies : Fin kNumStripes → Policy)
    (cache : StripedCache) : Prop where
  follows : cache.Follows config.slabCapacity policies
  routed : ∀ i, ∀ key ∈ (policies i).keys, route xx key = i
  config : ∀ i, (policies i).config = (config.settings demotionQueue).config
  queue : ∀ i, (policies i).queueAttached = demotionQueue

section Valid

variable {xx : XxHash} {config : StripedCacheConfig} {demotionQueue : Bool}
  {policies : Fin kNumStripes → Policy} {cache : StripedCache}

theorem Valid.new (made : StripedCache.new config demotionQueue = some cache) :
    Valid xx config demotionQueue
      (StripeSystem.policies fun _ => config.settings demotionQueue) cache where
  follows := StripeSystem.new_follows (Nat.mod_lt _ (by decide)) made
  routed _ key member := absurd member (by
    simp [StripeSystem.policies, Policy.keys, Policy.entries, Policy.new])
  config _ := rfl
  queue _ := rfl

theorem Valid.peek_eq (valid : Valid xx config demotionQueue policies cache)
    (key : Key) : cache.peek xx key = (policies (route xx key)).find key := by
  rcases valid.follows with ⟨views, lists, shows'⟩
  exact shows'.find (route xx key) key

theorem Valid.distinct (valid : Valid xx config demotionQueue policies cache)
    (i : Fin kNumStripes) : (policies i).Distinct := by
  rcases valid.follows with ⟨views, lists, shows'⟩
  exact shows'.distinct i

theorem Valid.bounded (valid : Valid xx config demotionQueue policies cache)
    (i : Fin kNumStripes) : (policies i).Bounded := by
  rcases valid.follows with ⟨views, lists, shows'⟩
  exact shows'.bounded i

theorem Valid.peek_eq_some
    (valid : Valid xx config demotionQueue policies cache) {key : Key}
    {value : Value} : cache.peek xx key = some value ↔
      (key, value) ∈ (policies (route xx key)).entries := by
  rw [valid.peek_eq, (valid.distinct _).find_eq_some]

theorem Valid.resident (valid : Valid xx config demotionQueue policies cache)
    {i : Fin kNumStripes} {key : Key}
    (member : key ∈ (cache.stripe i).indexMap) : cache.peek xx key ≠ none := by
  rcases Option.isSome_iff_exists.mp (AList.lookup_isSome.mpr member) with
    ⟨index, found⟩
  rcases valid.follows with ⟨views, lists, shows'⟩
  have here := (shows'.sim i).find_some found
  have routed : route xx key = i :=
    valid.routed i key (Policy.mem_keys.mpr ⟨_, Policy.find_mem here⟩)
  rw [peek, routed, found]
  exact Option.some_ne_none _

theorem Valid.totalEvictions_eq
    (valid : Valid xx config demotionQueue policies cache) :
    cache.totalEvictions = ∑ i, (policies i).stats.evictions := by
  rcases valid.follows with ⟨views, lists, shows'⟩
  simp only [totalEvictions, (shows'.sim _).shows'.stats]

theorem Valid.update (valid : Valid xx config demotionQueue policies cache)
    {i : Fin kNumStripes} {policy : Policy} {cache' : StripedCache}
    (follows : cache'.Follows config.slabCapacity
      (Function.update policies i policy))
    (routed : ∀ key ∈ policy.keys, route xx key = i)
    (sameConfig : policy.config = (policies i).config)
    (sameQueue : policy.queueAttached = (policies i).queueAttached) :
    Valid xx config demotionQueue (Function.update policies i policy) cache' := by
  refine ⟨follows, ?_, ?_, ?_⟩
  · apply (Function.forall_update_iff policies fun j policy =>
      ∀ key ∈ policy.keys, route xx key = j).mpr
    exact ⟨routed, fun j _ => valid.routed j⟩
  · apply (Function.forall_update_iff policies fun _ policy =>
      policy.config = _).mpr
    exact ⟨sameConfig.trans (valid.config i), fun j _ => valid.config j⟩
  · apply (Function.forall_update_iff policies fun _ policy =>
      policy.queueAttached = _).mpr
    exact ⟨sameQueue.trans (valid.queue i), fun j _ => valid.queue j⟩

theorem Valid.peek_update {policy : Policy} {cache' : StripedCache}
    {i : Fin kNumStripes}
    (valid : Valid xx config demotionQueue policies cache)
    (valid' : Valid xx config demotionQueue
      (Function.update policies i policy) cache') (key : Key) :
    cache'.peek xx key =
      if route xx key = i then policy.find key else cache.peek xx key := by
  rw [valid'.peek_eq, valid.peek_eq]
  by_cases same : route xx key = i
  · rw [if_pos same, same, Function.update_self]
  · rw [if_neg same, Function.update_of_ne same]

/-! ## What the operations do to the resident keys -/

theorem Valid.call (valid : Valid xx config demotionQueue policies cache)
    (i : Fin kNumStripes) (call : CacheCall) (routed : route xx call.key = i) :
    ∃ slot cache',
      cache.call xx call = some (((policies i).call xx slot call).1, cache') ∧
      cache'.Follows config.slabCapacity
        (Function.update policies i ((policies i).call xx slot call).2) := by
  subst routed
  rcases valid.follows.call SlabAllocator.lawful xx (route xx call.key) call with
    ⟨slot, cache', -, called, follows⟩
  exact ⟨slot, cache', called, follows⟩

theorem Valid.totalEvictions_update {policy : Policy} {cache' : StripedCache}
    {i : Fin kNumStripes} (valid : Valid xx config demotionQueue policies cache)
    (valid' : Valid xx config demotionQueue
      (Function.update policies i policy) cache') (more : Nat)
    (evicted : policy.stats.evictions = (policies i).stats.evictions + more) :
    cache'.totalEvictions = cache.totalEvictions + more := by
  rw [valid'.totalEvictions_eq, valid.totalEvictions_eq]
  apply sum_gain (i := i)
  · rw [Function.update_self, evicted]
  · intro j different
    rw [Function.update_of_ne different]

theorem Valid.get (valid : Valid xx config demotionQueue policies cache)
    (key : Key) :
    ∃ cache' policies', cache.get xx key =
        some ((cache.peek xx key, []), cache') ∧
      Valid xx config demotionQueue policies' cache' ∧
      cache'.peek xx = cache.peek xx ∧
      cache'.totalEvictions = cache.totalEvictions := by
  rcases valid.call (route xx key) (.get key) rfl with
    ⟨slot, cache', called, follows⟩
  have keeps := Policy.get_keeps xx (policies (route xx key)) key
  have perm := Policy.get_perm xx (policies (route xx key)) key
  have valid' := valid.update follows
    (fun other member => valid.routed _ other ((perm.map _).mem_iff.mp member))
    (Policy.call_config xx (valid.bounded _) slot (.get key)) keeps.2
  refine ⟨cache', _, ?_, valid', ?_, ?_⟩
  · rw [call_get] at called
    rcases Option.map_eq_some_iff.mp called with
      ⟨⟨⟨found, offered⟩, after⟩, got, equal⟩
    simp only [Policy.call, Policy.get_fst, Prod.mk.injEq,
      CacheReply.value.injEq] at equal
    obtain ⟨⟨rfl, rfl⟩, rfl⟩ := equal
    rw [got, valid.peek_eq]
  · funext other
    rw [valid.peek_update valid']
    split
    · rename_i same
      rw [valid.peek_eq, same]
      exact congrFun ((valid.distinct _).find_perm perm) other
    · rfl
  · rw [valid.totalEvictions_update valid' 0 keeps.1, Nat.add_zero]

/-- The key has the new value or is not resident, a resident key stays so, no
other key changes its value or comes in, and what is offered to the demotion
queue leaves. -/
structure PutEffect (before : Key → Option Value) (key : Key) (value : Value)
    (offered : List DemotionItem) (after : Key → Option Value) : Prop where
  own : after key = some value ∨ after key = none
  resident : before key ≠ none → after key = some value
  others : ∀ other, other ≠ key → after other = before other ∨
    after other = none
  offered : ∀ item ∈ offered, item.key ≠ key ∧
    before item.key = some item.value ∧ after item.key = none

theorem Valid.put (valid : Valid xx config demotionQueue policies cache)
    (key : Key) (value : Value) :
    ∃ inserted offered cache' policies', cache.put xx key value =
        some ((inserted, offered), cache') ∧
      Valid xx config demotionQueue policies' cache' ∧
      PutEffect (cache.peek xx) key value offered (cache'.peek xx) ∧
      (demotionQueue = true → cache'.totalEvictions =
        cache.totalEvictions + offered.length) := by
  rcases valid.call (route xx key) (.put key value) rfl with
    ⟨slot, cache', called, follows⟩
  have bounded := valid.bounded (route xx key)
  have distinct := valid.distinct (route xx key)
  have residents : ∀ {entry : Entry}, entry ∈ _ → _ :=
    @Policy.put_residents xx _ bounded slot key value
  have routed : ∀ other ∈ ((policies (route xx key)).put xx slot key
      value).2.1.keys, route xx other = route xx key := by
    intro other member
    rcases Policy.mem_keys.mp member with ⟨found, member⟩
    rcases residents member with same | ⟨-, member⟩
    · rw [(Prod.mk.inj same).1]
    · exact valid.routed _ other (Policy.mem_keys.mpr ⟨found, member⟩)
  have valid' := valid.update follows routed
    (Policy.call_config xx bounded slot (.put key value))
    (Policy.put_queueAttached xx bounded slot key value)
  have distinct' := distinct.put xx bounded slot key value
  have peek' := valid.peek_update valid'
  refine ⟨((policies (route xx key)).put xx slot key value).1,
    ((policies (route xx key)).put xx slot key value).2.2, cache', _, ?_,
    valid', ⟨?_, ?_, ?_, ?_⟩, ?_⟩
  · rw [call_put] at called
    rcases Option.map_eq_some_iff.mp called with
      ⟨⟨⟨inserted, offered⟩, after⟩, got, equal⟩
    simp only [Policy.call, Prod.mk.injEq, CacheReply.changed.injEq] at equal
    obtain ⟨⟨rfl, rfl⟩, rfl⟩ := equal
    exact got
  · rw [peek', if_pos rfl]
    cases found : Policy.find _ key with
    | none => exact .inr rfl
    | some other =>
        rcases residents (Policy.find_mem found) with same | ⟨different, -⟩
        · exact .inl (congrArg some (Prod.mk.inj same).2)
        · exact absurd rfl different
  · intro resident
    rw [valid.peek_eq] at resident
    have inside : key ∈ (policies (route xx key)).keys := by
      by_contra absent
      exact resident (Policy.find_eq_none.mpr absent)
    rw [peek', if_pos rfl]
    exact distinct'.find_eq_some.mpr
      (Policy.put_resident xx slot value inside)
  · intro other different
    rw [peek']
    split
    · rename_i same
      rw [valid.peek_eq, same]
      cases found : Policy.find _ other with
      | none => exact .inr rfl
      | some foundValue =>
          rcases residents (Policy.find_mem found) with equal | ⟨-, member⟩
          · exact absurd (Prod.mk.inj equal).1 different
          · exact .inl (distinct.find_eq_some.mpr member).symm
    · exact .inl rfl
  · intro item member
    rcases Policy.put_offered xx bounded distinct slot key value member with
      ⟨different, before, after⟩
    have sameStripe : route xx item.key = route xx key :=
      valid.routed _ item.key (Policy.mem_keys.mpr ⟨_, before⟩)
    refine ⟨different, ?_, ?_⟩
    · rw [valid.peek_eq, sameStripe]
      exact distinct.find_eq_some.mpr before
    · rw [peek', if_pos sameStripe]
      exact Policy.find_eq_none.mpr after
  · intro attached
    have queue := valid.queue (route xx key)
    rw [attached] at queue
    exact valid.totalEvictions_update valid' _
      (Policy.put_evictions xx bounded queue slot key value)

theorem Valid.remove (valid : Valid xx config demotionQueue policies cache)
    (key : Key) :
    ∃ cache' policies', cache.remove xx key =
        some (((cache.peek xx key).isSome, []), cache') ∧
      Valid xx config demotionQueue policies' cache' ∧
      cache'.peek xx = Function.update (cache.peek xx) key none ∧
      cache'.totalEvictions = cache.totalEvictions := by
  rcases valid.call (route xx key) (.remove key) rfl with
    ⟨slot, cache', called, follows⟩
  have distinct := valid.distinct (route xx key)
  have valid' := valid.update follows
    (by
      intro other member
      rcases Policy.mem_keys.mp member with ⟨found, member⟩
      exact valid.routed _ other
        (Policy.mem_keys.mpr ⟨found, (Policy.mem_remove.mp member).2⟩))
    rfl rfl
  refine ⟨cache', _, ?_, valid', ?_, ?_⟩
  · rw [call_remove] at called
    rcases Option.map_eq_some_iff.mp called with
      ⟨⟨⟨removed, offered⟩, after⟩, got, equal⟩
    simp only [Policy.call, Prod.mk.injEq, CacheReply.changed.injEq] at equal
    obtain ⟨⟨rfl, rfl⟩, rfl⟩ := equal
    rw [got, valid.peek_eq, Policy.remove_fst]
  · funext other
    rw [valid.peek_update valid']
    by_cases same : other = key
    · subst same
      rw [if_pos rfl, Function.update_self]
      exact Policy.find_eq_none.mpr fun member => by
        rcases Policy.mem_keys.mp member with ⟨found, member⟩
        exact (Policy.mem_remove.mp member).1 rfl
    · rw [Function.update_of_ne same]
      split
      · rename_i sameStripe
        rw [valid.peek_eq, sameStripe]
        apply Option.ext
        intro value
        change (Policy.remove _ key).2.find other = some value ↔ _
        rw [(distinct.remove key).find_eq_some, Policy.mem_remove,
          distinct.find_eq_some]
        simp [same]
      · rfl
  · rw [valid.totalEvictions_update valid' 0 rfl, Nat.add_zero]

end Valid

end StripedCache

/-! ## Reads -/

def CacheCall.written (key : Key) (before : Option Value) :
    CacheCall → Option Value
  | .get _ => before
  | .put other value => if other = key then some value else before
  | .remove other => if other = key then none else before

/-- The value of the last put of `key`, unless it was removed since. -/
def lastWrite (key : Key) (calls : List CacheCall) : Option Value :=
  calls.foldl (CacheCall.written key) none

namespace StripedCache

section Reads

variable {xx : XxHash} {config : StripedCacheConfig} {demotionQueue : Bool}
  {policies : Fin kNumStripes → Policy} {cache : StripedCache}

/-- After a call the cache finds nothing but what the call leaves written. -/
theorem Valid.step (valid : Valid xx config demotionQueue policies cache)
    (call : CacheCall) :
    ∃ result cache' policies', cache.call xx call = some (result, cache') ∧
      Valid xx config demotionQueue policies' cache' ∧
      ∀ key value, cache'.peek xx key = some value →
        call.written key (cache.peek xx key) = some value := by
  cases call with
  | get key =>
      rcases valid.get key with ⟨cache', policies', got, valid', peek, -⟩
      refine ⟨_, cache', policies', by rw [call_get, got]; rfl, valid', ?_⟩
      intro other value found
      rwa [peek] at found
  | put key value =>
      rcases valid.put key value with
        ⟨inserted, offered, cache', policies', put, valid', effect, -⟩
      refine ⟨_, cache', policies', by rw [call_put, put]; rfl, valid', ?_⟩
      intro other found peek
      by_cases same : key = other
      · subst same
        rcases effect.own with own | own <;> rw [own] at peek
        · rw [CacheCall.written, if_pos rfl, peek]
        · cases peek
      · rcases effect.others other (Ne.symm same) with kept | gone
        · rw [CacheCall.written, if_neg same, ← kept, peek]
        · rw [gone] at peek
          cases peek
  | remove key =>
      rcases valid.remove key with ⟨cache', policies', removed, valid', peek, -⟩
      refine ⟨_, cache', policies', by rw [call_remove, removed]; rfl, valid',
        ?_⟩
      intro other value found
      rw [peek] at found
      by_cases same : key = other
      · subst same
        simp at found
      · rw [Function.update_of_ne (Ne.symm same)] at found
        rw [CacheCall.written, if_neg same, found]

theorem Valid.run (valid : Valid xx config demotionQueue policies cache)
    (calls : List CacheCall) (written : Key → Option Value)
    (sound : ∀ key value, cache.peek xx key = some value →
      written key = some value) :
    ∃ results cache' policies', cache.run xx calls = some (results, cache') ∧
      Valid xx config demotionQueue policies' cache' ∧
      ∀ key value, cache'.peek xx key = some value →
        calls.foldl (CacheCall.written key) (written key) = some value := by
  induction calls generalizing policies cache written with
  | nil => exact ⟨[], cache, policies, rfl, valid, sound⟩
  | cons call rest induction =>
      rcases valid.step call with
        ⟨result, middle, policies', called, middleValid, step⟩
      have middleSound : ∀ key value, middle.peek xx key = some value →
          call.written key (written key) = some value := by
        intro key value found
        have before := step key value found
        cases call with
        | get other => exact sound key value before
        | put other _ =>
            by_cases same : other = key
            · simpa [CacheCall.written, same] using before
            · simp only [CacheCall.written, if_neg same] at before ⊢
              exact sound key value before
        | remove other =>
            by_cases same : other = key
            · simp [CacheCall.written, same] at before
            · simp only [CacheCall.written, if_neg same] at before ⊢
              exact sound key value before
      rcases induction middleValid (fun key => call.written key (written key))
          middleSound with
        ⟨results, last, policies'', ran, lastValid, final⟩
      exact ⟨result :: results, last, policies'',
        StripeSystem.run_cons called ran, lastValid, final⟩

/-- A lookup never finds anything but the value of the last put of its key, and
nothing once the key was removed. -/
theorem get_lastWrite (xx : XxHash)
    (made : StripedCache.new config demotionQueue = some cache)
    (calls : List CacheCall) :
    ∃ results cache', cache.run xx calls = some (results, cache') ∧
      ∀ key, ∃ found offered cache'',
        cache'.get xx key = some ((found, offered), cache'') ∧
        ∀ value, found = some value → lastWrite key calls = some value := by
  have valid : Valid xx config demotionQueue _ cache := .new made
  have empty : ∀ key, cache.peek xx key = none := by
    intro key
    rw [valid.peek_eq]
    rfl
  rcases valid.run calls (fun _ => none) (by simp [empty]) with
    ⟨results, cache', policies', ran, valid', sound⟩
  refine ⟨results, cache', ran, fun key => ?_⟩
  rcases valid'.get key with ⟨cache'', _, got, -⟩
  exact ⟨_, _, cache'', got, fun value found => sound key value found⟩

theorem get_lastWrite_sample :
    ∃ cache, StripedCache.new .sample true = some cache ∧
      ∃ results cache', cache.run .sample [.put "k" "1", .put "w" "1",
          .put "k" "2", .remove "w"] = some (results, cache') ∧
        ∀ key, ∃ found offered cache'',
          cache'.get .sample key = some ((found, offered), cache'') ∧
          ∀ value, found = some value →
            lastWrite key [.put "k" "1", .put "w" "1", .put "k" "2",
              .remove "w"] = some value := by
  have accepted : ∃ cache, StripedCache.new .sample true = some cache :=
    StripeSystem.new_eq_some (by decide) fun _ => by decide
  rcases accepted with ⟨cache, made⟩
  exact ⟨cache, made, get_lastWrite .sample made _⟩

end Reads

end StripedCache

end Walde
