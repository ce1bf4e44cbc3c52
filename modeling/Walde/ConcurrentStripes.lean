import Walde.Foundation.Interleaving
import Walde.StripedCache

namespace Walde

open Foundation

/-! # Threads on the L1 cache

Each stripe runs one call at a time, under its mutex; the slab instructions of
calls on different stripes come in any order. -/

namespace StripedCache

/-- Every key is a call on the stripe it is routed to. -/
def interface (xx : XxHash) : Pool.Interface (Fin kNumStripes) CacheNode
    DemotionItem CacheCall CacheReply CacheStripe where
  client call := route xx call.key
  program call stripe := stripe.call xx call

end StripedCache

abbrev ConcurrentCache (Thread : Type) :=
  Pool.Concurrent (Fin kNumStripes) SlabAllocator CacheNode DemotionItem Thread
    CacheCall CacheReply CacheStripe

namespace ConcurrentCache

variable {Thread : Type}

def start (cache : StripedCache) : ConcurrentCache Thread where
  pool := cache.slab
  emitted := []
  activity i := .idle (cache.stripe i)

def Reachable (xx : XxHash) (cache : StripedCache)
    (system : ConcurrentCache Thread) : Prop :=
  Pool.Concurrent.Reachable SlabAllocator.allocator
    (StripedCache.interface xx) (start cache) system

def Idle (config : StripedCacheConfig) (_ : Fin kNumStripes)
    (stripe : CacheStripe) (view : SlabView) : Prop :=
  ∃ lists policy, stripe.Sim view lists [] policy ∧ policy.Bounded ∧
    policy.config.totalCapacity = config.perStripe

/-- A put answers whether its key is new; it does not give up on a new key. -/
def PutAnswers (call : CacheCall) (entered : CacheStripe)
    (reply : CacheReply) : Prop :=
  ∀ key value, call = .put key value →
    reply = .changed (entered.indexMap.lookup key).isNone

theorem put_answer {stripe : CacheStripe} {view : SlabView}
    {lists : Place → List Nat} {policy : Policy}
    (sim : stripe.Sim view lists [] policy) (xx : XxHash) (key : Key)
    (value : Value) :
    (policy.put xx true key value).1 =
      (stripe.indexMap.lookup key).isNone := by
  have placed : policy.placeOf key = none ↔
      stripe.indexMap.lookup key = none := by
    cases found : stripe.indexMap.lookup key with
    | none => simp [sim.placeOf_none found]
    | some index =>
        rcases sim.exists_place found with ⟨place, member⟩
        simp [sim.placeOf_some found member]
  rw [Policy.placeOf_eq_none] at placed
  rcases Policy.put_cases xx true policy key value with
    ⟨place, found, equal⟩ | ⟨absent, -, equal⟩ | ⟨-, impossible, -⟩
  · have resident : key ∈ policy.keys := by
      rw [← Policy.counted_keys xx policy key, ← Policy.placeOf_isSome, found]
      rfl
    have held : stripe.indexMap.lookup key ≠ none := fun missing =>
      placed.mpr missing resident
    rw [equal]
    cases found : stripe.indexMap.lookup key with
    | none => exact absurd found held
    | some index => rfl
  · rw [equal, placed.mp absent]
    rfl
  · cases impossible

theorem keeps (xx : XxHash) (config : StripedCacheConfig) :
    (StripedCache.interface xx).Keeps slabLayout config.perStripe (Idle config)
      PutAnswers where
  card := by
    rintro i stripe view ⟨lists, policy, sim, bounded, capacity⟩
    rw [sim.card_owned, ← capacity]
    exact bounded.size_le
  program := by
    rintro call stripe view ⟨lists, policy, sim, bounded, capacity⟩
    have room : ∀ limit, some config.perStripe = some limit →
        view.owned.card ≤ limit := by
      rintro _ ⟨⟩
      rw [sim.card_owned, ← capacity]
      exact bounded.size_le
    refine wp_weaken (CacheStripe.call_sim sim xx call room) ?_
    rintro ⟨reply, stripe'⟩ view' ⟨slot, full, equal, ⟨⟨lists', sim'⟩, -⟩⟩
    refine ⟨⟨lists', _, sim', bounded.call xx slot call, ?_⟩, ?_⟩
    · rw [Policy.call_config xx bounded]
      exact capacity
    · rintro key value rfl
      have someSlot : slot = true := by
        by_contra none
        simpa using full (by simpa using none)
      subst someSlot
      rw [← put_answer sim xx key value]
      exact equal

theorem start_sound {config : StripedCacheConfig} {demotionQueue : Bool}
    {cache : StripedCache}
    (made : StripedCache.new config demotionQueue = some cache) (xx : XxHash) :
    (start cache : ConcurrentCache Thread).Sound slabLayout SlabAllocator.Rep
      config.slabCapacity (StripedCache.interface xx) config.perStripe
      (Idle config) PutAnswers := by
  have valid : StripedCache.Valid xx config demotionQueue _ cache := .new made
  rcases valid.follows with ⟨views, lists, shows'⟩
  refine ⟨views, shows'.shares, fun i => ⟨lists i, _, shows'.sim i,
    shows'.bounded i, ?_⟩⟩
  rw [valid.config i]
  rfl

theorem headroom {config : StripedCacheConfig}
    (large : 3 * kNumStripes ≤ config.totalCapacity)
    (small : config.totalCapacity ≤ 2 ^ 32 - 1 - kNumStripes) :
    Fintype.card (Fin kNumStripes) * (config.perStripe + 1) ≤
      config.slabCapacity := by
  rw [Fintype.card_fin]
  simp only [StripedCacheConfig.perStripe, StripedCacheConfig.slabCapacity,
    kNumStripes, uint32Size] at *
  omega

/-- In every state that any threads reach, a put that asks the slab for a slot
gets one, and no put gives up on a new key. -/
theorem allocate_never_fails (xx : XxHash) {config : StripedCacheConfig}
    (large : 3 * kNumStripes ≤ config.totalCapacity)
    (small : config.totalCapacity ≤ 2 ^ 32 - 1 - kNumStripes)
    {demotionQueue : Bool} {cache : StripedCache}
    (made : StripedCache.new config demotionQueue = some cache)
    {system : ConcurrentCache Thread} (reachable : Reachable xx cache system) :
    (∀ i thread call entered next,
      system.activity i = .busy thread call entered (.call .allocate next) →
      ∃ index slab, system.pool.allocate = some (index, slab) ∧
        index ≠ kInvalidIndex) ∧
    ∀ i thread key value entered reply stripe,
      system.activity i =
        .busy thread (.put key value) entered (.pure (reply, stripe)) →
      reply = .changed (entered.indexMap.lookup key).isNone := by
  have sound := (start_sound made xx).reachable SlabAllocator.lawful
    (keeps xx config) (headroom large small) reachable
  constructor
  · intro i thread call entered next busy
    exact sound.allocate_valid SlabAllocator.lawful (keeps xx config)
      (headroom large small) busy
  · intro i thread key value entered reply stripe busy
    exact sound.returned busy key value rfl

/-- One client is in the middle of a put. -/
theorem allocate_never_fails_sample :
    ∃ cache, StripedCache.new .sample true = some cache ∧
      ∃ system : ConcurrentCache Unit,
        (∃ i entered program, system.activity i =
          .busy () (.put "k" "1") entered program) ∧
        (∀ i thread call entered next,
          system.activity i =
            .busy thread call entered (.call .allocate next) →
          ∃ index slab, system.pool.allocate = some (index, slab) ∧
            index ≠ kInvalidIndex) ∧
        ∀ i thread key value entered reply stripe,
          system.activity i =
            .busy thread (.put key value) entered (.pure (reply, stripe)) →
          reply = .changed (entered.indexMap.lookup key).isNone := by
  have accepted : ∃ cache, StripedCache.new .sample true = some cache :=
    StripeSystem.new_eq_some (by decide) fun _ => by decide
  rcases accepted with ⟨cache, made⟩
  have idle : (start cache : ConcurrentCache Unit).activity
      ((StripedCache.interface .sample).client (.put "k" "1")) =
        .idle (cache.stripe (StripedCache.route .sample "k")) := rfl
  have entered : Reachable .sample cache _ :=
    .single (.enter () (.put "k" "1") idle fun i _ _ _ => by simp [start])
  exact ⟨cache, made, _, ⟨_, _, _, Function.update_self _ _ _⟩,
    allocate_never_fails .sample (by decide) (by decide) made entered⟩

/-- No instruction of any thread faults. -/
theorem perform_never_faults (xx : XxHash) {config : StripedCacheConfig}
    (large : 3 * kNumStripes ≤ config.totalCapacity)
    (small : config.totalCapacity ≤ 2 ^ 32 - 1 - kNumStripes)
    {demotionQueue : Bool} {cache : StripedCache}
    (made : StripedCache.new config demotionQueue = some cache)
    {system : ConcurrentCache Thread} (reachable : Reachable xx cache system)
    {i : Fin kNumStripes} {thread : Thread} {call : CacheCall}
    {entered : CacheStripe} {instr : SlabInstr}
    {next : Pool.Answer instr → SlabProgram (CacheReply × CacheStripe)}
    (busy : system.activity i = .busy thread call entered (.call instr next)) :
    ∃ outcome, SlabAllocator.allocator.handler instr
      (system.pool, system.emitted) = some outcome :=
  ((start_sound made xx).reachable SlabAllocator.lawful (keeps xx config)
    (headroom large small) reachable).perform SlabAllocator.lawful
      (keeps xx config) (headroom large small) busy

/-- One client is about to ask for a slot. -/
theorem perform_never_faults_sample :
    ∃ cache, StripedCache.new .sample true = some cache ∧
      ∃ system : ConcurrentCache Unit,
        (∃ i entered instr next, system.activity i =
          .busy () (.put "k" "1") entered (.call instr next)) ∧
        ∀ i thread call entered instr next,
          system.activity i = .busy thread call entered (.call instr next) →
          ∃ outcome, SlabAllocator.allocator.handler instr
            (system.pool, system.emitted) = some outcome := by
  have asks : (StripedCache.new .sample true).map (fun cache =>
      (((StripedCache.interface .sample).program (.put "k" "1")
        (cache.stripe (StripedCache.route .sample "k"))).result).isNone) =
          some true := by
    decide +kernel
  rcases Option.map_eq_some_iff.mp asks with ⟨cache, made, asks⟩
  have idle : (start cache : ConcurrentCache Unit).activity
      ((StripedCache.interface .sample).client (.put "k" "1")) =
        .idle (cache.stripe (StripedCache.route .sample "k")) := rfl
  have entered : Reachable .sample cache _ :=
    .single (.enter () (.put "k" "1") idle fun i _ _ _ => by simp [start])
  refine ⟨cache, made, _, ?_, fun i thread call entry instr next =>
    perform_never_faults .sample (by decide) (by decide) made entered⟩
  cases program : (StripedCache.interface .sample).program (.put "k" "1")
      (cache.stripe (StripedCache.route .sample "k")) with
  | pure outcome =>
      rw [program] at asks
      cases asks
  | call instr next =>
      exact ⟨_, _, instr, next, Function.update_self _ _ _⟩

end ConcurrentCache

end Walde
