import Walde.Foundation.Unwinding
import Walde.PolicySegments
import Walde.ReadThrough
import Walde.ScanResistance

namespace Walde

open Foundation

/-! # What L1 does not depend on

Two clients that make the same calls but for the values and for the reads of
keys that the backend never has. -/

/-! ## Policies -/

def StripeStats.withoutMisses (stats : StripeStats) : StripeStats :=
  { stats with misses := 0 }

section Stats

variable {stats stats' : StripeStats}

theorem StripeStats.looked_alike
    (same : stats'.withoutMisses = stats.withoutMisses) (hit : Bool) :
    (stats'.looked hit).withoutMisses = (stats.looked hit).withoutMisses := by
  simp only [withoutMisses, mk.injEq] at same
  cases hit <;> simp [looked, withoutMisses, same]

theorem StripeStats.inserted_alike
    (same : stats'.withoutMisses = stats.withoutMisses)
    (admission : Admission) : (stats'.inserted admission).withoutMisses =
      (stats.inserted admission).withoutMisses := by
  simp only [withoutMisses, mk.injEq] at same
  cases admission <;> simp [inserted, withoutMisses, same]

end Stats

namespace Policy

/-- The same entries and counters, and the same counts but for the misses. -/
structure Alike (policy policy' : Policy) : Prop where
  config : policy'.config = policy.config
  segments : policy'.segments = policy.segments
  counters : policy'.counters = policy.counters
  stats : policy'.stats.withoutMisses = policy.stats.withoutMisses

section Alike

variable {xx : XxHash} {policy policy' third : Policy} {key : Key}
  {value : Value}

theorem Alike.refl (policy : Policy) : policy.Alike policy :=
  ⟨rfl, rfl, rfl, rfl⟩

theorem Alike.symm (alike : policy.Alike policy') : policy'.Alike policy where
  config := alike.config.symm
  segments := alike.segments.symm
  counters := alike.counters.symm
  stats := alike.stats.symm

theorem Alike.trans (alike : policy.Alike policy')
    (alike' : policy'.Alike third) : policy.Alike third where
  config := alike'.config.trans alike.config
  segments := alike'.segments.trans alike.segments
  counters := alike'.counters.trans alike.counters
  stats := alike'.stats.trans alike.stats

theorem Alike.keys (alike : policy.Alike policy') :
    policy'.keys = policy.keys := by
  rw [← keys_segments, alike.segments, keys_segments]

theorem Alike.count (alike : policy.Alike policy') :
    (policy'.count xx key).counters = (policy.count xx key).counters := by
  rcases counters_eq alike.counters with ⟨table, puts⟩
  rw [Policy.counters, Policy.counters, Policy.count, Policy.count, table, puts]

theorem Alike.counted (alike : policy.Alike policy') :
    (policy'.counted xx key).counters = (policy.counted xx key).counters := by
  have count : (policy'.count xx key).counters = _ := alike.count
  rcases counters_eq count with ⟨table, puts⟩
  have config : (policy'.count xx key).config = (policy.count xx key).config :=
    alike.config
  rw [Policy.counted, Policy.counted, tick_counters, tick_counters, table, puts,
    config]

theorem beats_eq (same : policy'.counters = policy.counters) :
    policy'.beats xx = policy.beats xx := by
  funext candidate victim
  rw [beats, beats, frequency, frequency, frequency, frequency,
    (counters_eq same).1]

theorem Alike.get (alike : policy.Alike policy') (bounded : policy.Bounded)
    (bounded' : policy'.Bounded) :
    (policy.get xx key).2.Alike (policy'.get xx key).2 := by
  have before := get_segments xx policy key
  have before' := get_segments xx policy' key
  constructor
  · have config := call_config xx bounded true (.get key)
    have config' := call_config xx bounded' true (.get key)
    exact config'.trans (alike.config.trans config.symm)
  · rw [before.1, before'.1, alike.segments, alike.config]
  · rw [get_counters, get_counters, alike.keys, alike.count, alike.counters]
  · rw [before.2, before'.2, alike.segments]
    exact StripeStats.looked_alike alike.stats _

theorem Alike.size (alike : policy.Alike policy') :
    policy'.size = policy.size := by
  rw [← length_keys, alike.keys, length_keys]

theorem Alike.put (alike : policy.Alike policy') (bounded : policy.Bounded)
    (bounded' : policy'.Bounded) (slot : Bool) :
    (policy.put xx slot key value).2.1.Alike
      (policy'.put xx slot key value).2.1 := by
  have found : (policy.put xx true key value).2.1.Alike
      (policy'.put xx true key value).2.1 := by
    have before := put_segments xx bounded key value
    have before' := put_segments xx bounded' key value
    have verdicts : (policy'.counted xx key).beats xx =
        (policy.counted xx key).beats xx := beats_eq alike.counted
    constructor
    · have config := call_config xx bounded true (.put key value)
      have config' := call_config xx bounded' true (.put key value)
      exact config'.trans (alike.config.trans config.symm)
    · rw [before.1, before'.1, alike.segments, alike.config, verdicts]
    · rw [put_counters xx bounded, put_counters xx bounded', alike.counted]
    · rw [before.2, before'.2, alike.segments, alike.config, verdicts]
      exact StripeStats.inserted_alike alike.stats _
  by_cases resident : key ∈ policy.keys
  · rw [put_slot xx policy key slot resident,
      put_slot xx policy' key slot (alike.keys ▸ resident)]
    exact found
  · cases slot with
    | true => exact found
    | false =>
        rw [put_refused xx policy key resident,
          put_refused xx policy' key (alike.keys ▸ resident)]
        refine ⟨?_, ?_, alike.counted, ?_⟩
        · rw [counted_config, counted_config, alike.config]
        · rw [counted_segments, counted_segments, alike.segments]
        · rw [counted_stats, counted_stats, alike.stats]

theorem Alike.miss (absent : key ∉ policy.keys) :
    (policy.get xx key).2.Alike policy := by
  have nowhere := placeOf_eq_none.mpr absent
  rw [Policy.get, nowhere]
  exact ⟨rfl, rfl, rfl, rfl⟩

end Alike

end Policy

/-! ## Read-through caches -/

namespace ReadThrough

structure Alike (cache cache' : ReadThrough) : Prop where
  slabCapacity : cache'.slabCapacity = cache.slabCapacity
  stripes : ∀ i, (cache.stripes i).Alike (cache'.stripes i)
  known : cache'.known = cache.known

structure Within (ever : Key → Bool) (cache : ReadThrough) : Prop where
  bounded : ∀ i, (cache.stripes i).Bounded
  resident : ∀ i, ∀ key ∈ (cache.stripes i).keys, ever key = true
  known : ∀ key, cache.known key = true → ever key = true

section Alike

variable {xx : XxHash} {ever : Key → Bool} {cache cache' : ReadThrough}
  {key : Key}

theorem Within.new {config : CacheEngineConfig} {known : Key → Bool}
    (initially : ∀ key, known key = true → ever key = true) :
    (ReadThrough.new config known).Within ever :=
  ⟨fun _ => .new _ _, nofun, initially⟩

theorem Within.update (within : cache.Within ever) {i : Fin kNumStripes}
    {policy : Policy} (bounded : policy.Bounded)
    (resident : ∀ key ∈ policy.keys, ever key = true) :
    Within ever { cache with
      stripes := Function.update cache.stripes i policy } := by
  refine ⟨?_, ?_, within.known⟩
  · apply (Function.forall_update_iff cache.stripes fun _ policy =>
      policy.Bounded).mpr
    exact ⟨bounded, fun j _ => within.bounded j⟩
  · apply (Function.forall_update_iff cache.stripes fun _ policy =>
      ∀ key ∈ policy.keys, ever key = true).mpr
    exact ⟨resident, fun j _ => within.resident j⟩

theorem Within.look (within : cache.Within ever) (key : Key) :
    (cache.look xx key).Within ever := by
  have bounded := within.bounded (StripedCache.route xx key)
  apply within.update (bounded.get xx key)
  intro other member
  exact within.resident _ other
    (((Policy.get_perm xx _ key).map _).mem_iff.mp member)

theorem Within.fill (within : cache.Within ever) (mentioned : ever key = true) :
    (cache.fill xx key).Within ever := by
  have bounded := within.bounded (StripedCache.route xx key)
  apply within.update (bounded.put xx cache.slot key "")
  intro other member
  rcases Policy.mem_keys.mp member with ⟨value, member⟩
  rcases Policy.put_residents xx bounded cache.slot key "" member with
    same | ⟨-, member⟩
  · rw [(Prod.mk.inj same).1]
    exact mentioned
  · exact within.resident _ other (Policy.mem_keys.mpr ⟨value, member⟩)

theorem Within.learn (within : cache.Within ever) (mentioned : ever key = true) :
    (cache.learn key).Within ever := by
  refine ⟨within.bounded, within.resident, fun other known => ?_⟩
  by_cases same : other = key
  · rw [same]
    exact mentioned
  · exact within.known other
      (by simpa only [ReadThrough.learn, Function.update_of_ne same] using known)

theorem Within.read (within : cache.Within ever) (key : Key) :
    (cache.read xx key).Within ever := by
  rw [ReadThrough.read]
  split
  · exact within.look key
  · split
    · rename_i known
      exact (within.look key).fill (within.known key known)
    · exact within.look key

theorem Alike.update (alike : cache.Alike cache') {i : Fin kNumStripes}
    {policy policy' : Policy} (changed : policy.Alike policy') :
    Alike { cache with stripes := Function.update cache.stripes i policy }
      { cache' with stripes := Function.update cache'.stripes i policy' } := by
  refine ⟨alike.slabCapacity, fun j => ?_, alike.known⟩
  by_cases same : j = i
  · subst same
    simpa only [Function.update_self] using changed
  · simpa only [Function.update_of_ne same] using alike.stripes j

theorem Alike.look (alike : cache.Alike cache') (within : cache.Within ever)
    (within' : cache'.Within ever) (key : Key) :
    (cache.look xx key).Alike (cache'.look xx key) :=
  alike.update ((alike.stripes _).get (within.bounded _) (within'.bounded _))

theorem Alike.fill (alike : cache.Alike cache') (within : cache.Within ever)
    (within' : cache'.Within ever) (key : Key) :
    (cache.fill xx key).Alike (cache'.fill xx key) := by
  have slot : cache'.slot = cache.slot := by
    simp only [slot, alike.slabCapacity, (alike.stripes _).size]
  rw [ReadThrough.fill, ReadThrough.fill, slot]
  exact alike.update ((alike.stripes _).put (within.bounded _)
    (within'.bounded _) cache.slot)

theorem Alike.holds (alike : cache.Alike cache') (key : Key) :
    cache'.holds xx key = cache.holds xx key := by
  rw [ReadThrough.holds, ReadThrough.holds, Bool.eq_iff_iff,
    Policy.placeOf_isSome, Policy.placeOf_isSome, (alike.stripes _).keys]

theorem Alike.read (alike : cache.Alike cache') (within : cache.Within ever)
    (within' : cache'.Within ever) (key : Key) :
    (cache.read xx key).Alike (cache'.read xx key) := by
  have looked : (cache.look xx key).Alike (cache'.look xx key) :=
    alike.look within within' key
  rw [ReadThrough.read, ReadThrough.read, alike.holds, alike.known]
  split
  · exact looked
  · split
    · exact looked.fill (within.look key) (within'.look key) key
    · exact looked

theorem Within.skip (within : cache.Within ever)
    (unmentioned : ever key = false) : (cache.read xx key).Alike cache := by
  have absent : key ∉ (cache.stripes (StripedCache.route xx key)).keys := by
    intro member
    rw [within.resident _ key member] at unmentioned
    cases unmentioned
  have unheld : ¬cache.holds xx key = true := by
    rw [ReadThrough.holds, Policy.placeOf_isSome]
    exact absent
  have unknown : ¬cache.known key = true := by
    intro known
    rw [within.known key known] at unmentioned
    cases unmentioned
  rw [ReadThrough.read, if_neg unheld, if_neg unknown]
  refine ⟨rfl, ?_, rfl⟩
  apply (Function.forall_update_iff cache.stripes fun j policy =>
    policy.Alike (cache.stripes j)).mpr
  exact ⟨.miss absent, fun j _ => .refl _⟩

end Alike

theorem Alike.learn {cache cache' : ReadThrough} (alike : cache.Alike cache')
    (key : Key) : (cache.learn key).Alike (cache'.learn key) :=
  ⟨alike.slabCapacity, alike.stripes, congrArg (fun known : Key → Bool =>
    Function.update known key true) alike.known⟩

end ReadThrough

/-! ## Calls that do not matter -/

namespace CacheCall

def concerns (ever : Key → Bool) : CacheCall → Bool
  | .get key => ever key
  | _ => true

def writes (key : Key) : CacheCall → Bool
  | .put other _ => other = key
  | _ => false

def keyOnly : CacheCall → CacheCall
  | .put key _ => .put key ""
  | call => call

end CacheCall

namespace ReadThrough

theorem unwinding (xx : XxHash) (ever : Key → Bool) :
    Unwinding (step xx) (fun call => ∀ key, call.writes key = true →
        ever key = true) (CacheCall.concerns ever) (Within ever) Alike where
  refl cache := ⟨rfl, fun i => .refl _, rfl⟩
  symm alike := ⟨alike.slabCapacity.symm, fun i => (alike.stripes i).symm,
    alike.known.symm⟩
  trans alike alike' := ⟨alike'.slabCapacity.trans alike.slabCapacity,
    fun i => (alike.stripes i).trans (alike'.stripes i),
    alike'.known.trans alike.known⟩
  keeps {cache call} within allowed := by
    cases call with
    | get key => exact within.read key
    | put key value =>
        have mentioned := allowed key (decide_eq_true rfl)
        exact (within.learn mentioned).fill mentioned
    | remove key => exact within
  step {cache cache' call} within within' allowed alike := by
    cases call with
    | get key => exact alike.read within within' key
    | put key value =>
        have mentioned := allowed key (decide_eq_true rfl)
        exact (alike.learn key).fill (within.learn mentioned)
          (within'.learn mentioned) key
    | remove key => exact alike
  skip {cache call} within allowed unconcerned := by
    cases call with
    | get key => exact within.skip unconcerned
    | put key value => cases unconcerned
    | remove key => cases unconcerned

theorem foldl_keyOnly (xx : XxHash) (calls : List CacheCall)
    (cache : ReadThrough) :
    (calls.map CacheCall.keyOnly).foldl (step xx) cache =
      calls.foldl (step xx) cache := by
  rw [List.foldl_map]
  congr 1
  funext cache call
  cases call <;> rfl

end ReadThrough

/-! ## Two engines -/

/-- The same keys in the same order on every list, and the same counts but for
the misses. -/
structure StripedCache.SameKeys (l1 l1' : StripedCache) : Prop where
  keys : ∀ i place, KeyedList.keys (l1'.entriesAt i place) =
    KeyedList.keys (l1.entriesAt i place)
  stats : ∀ i, (l1'.stripe i).stats.withoutMisses =
    (l1.stripe i).stats.withoutMisses

theorem ReadThrough.Alike.sameKeys {cache cache' : ReadThrough}
    (alike : cache.Alike cache') {l1 l1' : StripedCache}
    (inL1 : cache.InL1 l1) (inL1' : cache'.InL1 l1') : l1.SameKeys l1' := by
  constructor
  · intro i place
    have segments := (alike.stripes i).segments
    rw [inL1'.keys, inL1.keys]
    cases place with
    | window => exact congrArg (fun s => KeyedList.keys (Segments.window s)) segments
    | probation =>
        exact congrArg (fun s => KeyedList.keys (Segments.probation s)) segments
    | protected_ =>
        exact congrArg (fun s => KeyedList.keys (Segments.protected_ s)) segments
  · intro i
    rw [inL1'.stats, inL1.stats]
    exact (alike.stripes i).stats

namespace EngineThreads

variable {Thread Thread' : Type} [DecidableEq Thread] [DecidableEq Thread']
  {xx : XxHash} {config config' : CacheEngineConfig}

def everKnown (backend : InMemoryBackend) (calls : List CacheCall) (key : Key) :
    Bool :=
  (backend.lookup key).isSome || calls.any (CacheCall.writes key)

/-- Two clients of engines with the same L1 and the same keys in the backend
make the same calls, but for the values and for the reads of keys that the
backend never has. Whatever the drainers do, and however large L2 and the queues
are, L1 ends up with the same keys in the same order, and with the same counts
of everything but the misses. -/
theorem l1_independent (sameL1 : config'.l1Config = config.l1Config)
    {backend backend' : InMemoryBackend}
    (sameBackend : ∀ key, (backend'.lookup key).isSome =
      (backend.lookup key).isSome)
    {engine engine' : CacheEngine}
    (made : CacheEngine.new config backend = some engine)
    (made' : CacheEngine.new config' backend' = some engine')
    (client : Thread) {moves : List (Threads.Move Thread CacheCall)}
    (own : ∀ move ∈ moves, ∀ thread ∈ move.mover, thread = client)
    (kept : ∀ thread key, .enter thread (.remove key) ∉ moves)
    (client' : Thread') {moves' : List (Threads.Move Thread' CacheCall)}
    (own' : ∀ move ∈ moves', ∀ thread ∈ move.mover, thread = client')
    (kept' : ∀ thread key, .enter thread (.remove key) ∉ moves')
    {replies replies' : List (Option CacheReply)} {last : EngineThreads Thread}
    {last' : EngineThreads Thread'}
    (ran : (machine xx).run moves (.start engine) = some (replies, last))
    (ran' : (machine xx).run moves' (.start engine') = some (replies', last'))
    (rested : last.AtRest) (rested' : last'.AtRest)
    (sameCalls : ((moves'.filterMap Threads.Move.entered).map
        CacheCall.keyOnly).filter (CacheCall.concerns (everKnown backend
          (moves.filterMap Threads.Move.entered))) =
      ((moves.filterMap Threads.Move.entered).map CacheCall.keyOnly).filter
        (CacheCall.concerns (everKnown backend
          (moves.filterMap Threads.Move.entered)))) :
    last.shared.l1.SameKeys last'.shared.l1 := by
  have shows' := shows_of_run made client own kept ran rested
  have shows'' := shows_of_run made' client' own' kept' ran' rested'
  have sameStart : ReadThrough.new config' (fun key =>
      (backend'.lookup key).isSome) =
        .new config fun key => (backend.lookup key).isSome := by
    rw [ReadThrough.new, sameL1, funext sameBackend]
    rfl
  rw [sameStart] at shows''
  generalize moves.filterMap Threads.Move.entered = calls at *
  generalize moves'.filterMap Threads.Move.entered = calls' at *
  have writes : ∀ call ∈ calls.map CacheCall.keyOnly, ∀ key,
      call.writes key = true → everKnown backend calls key = true := by
    intro call member key written
    rcases List.mem_map.mp member with ⟨call, inCalls, rfl⟩
    rw [everKnown, Bool.or_eq_true, List.any_eq_true]
    refine .inr ⟨call, inCalls, ?_⟩
    cases call <;> exact written
  have writes' : ∀ call ∈ calls'.map CacheCall.keyOnly, ∀ key,
      call.writes key = true → everKnown backend calls key = true := by
    intro call member key written
    have concerned : call.concerns (everKnown backend calls) = true := by
      cases call with
      | put other value => rfl
      | _ => cases written
    have inBoth := List.mem_filter.mpr ⟨member, concerned⟩
    rw [sameCalls] at inBoth
    exact writes call (List.mem_of_mem_filter inBoth) key written
  have within : (ReadThrough.new config fun key =>
      (backend.lookup key).isSome).Within (everKnown backend calls) :=
    .new fun key known => by rw [everKnown, known, Bool.true_or]
  have alike := (ReadThrough.unwinding xx (everKnown backend calls)).foldl_alike
    within writes writes' sameCalls
  rw [ReadThrough.foldl_keyOnly, ReadThrough.foldl_keyOnly] at alike
  exact alike.sameKeys shows'.inL1 shows''.inL1

def fewerReads : List (Threads.Move Unit CacheCall) :=
  [.enter () (.put "k" "2"), .perform (), .background, .perform (), .leave (),
    .enter () (.get "k"), .perform (), .leave ()]

theorem l1_independent_sample :
    ∃ engine engine' replies replies' last last',
      CacheEngine.new .sample (.new ∅) = some engine ∧
      CacheEngine.new { CacheEngineConfig.sample with l2Capacity := 64 }
        (.new ∅) = some engine' ∧
      (machine .sample).run readsAndWrites (.start engine) =
        some (replies, last) ∧
      (machine .sample).run fewerReads (.start engine') =
        some (replies', last') ∧
      last.shared.l1.SameKeys last'.shared.l1 := by
  have ran : ((CacheEngine.new .sample (.new ∅)).bind fun engine =>
      ((machine .sample).run readsAndWrites (.start engine)).map fun outcome =>
        decide outcome.2.AtRest) = some true := by
    decide +kernel
  have ran' : ((CacheEngine.new { CacheEngineConfig.sample with
      l2Capacity := 64 } (.new ∅)).bind fun engine =>
      ((machine .sample).run fewerReads (.start engine)).map fun outcome =>
        decide outcome.2.AtRest) = some true := by
    decide +kernel
  rcases Option.bind_eq_some_iff.mp ran with ⟨engine, made, ran⟩
  rcases Option.bind_eq_some_iff.mp ran' with ⟨engine', made', ran'⟩
  rcases Option.map_eq_some_iff.mp ran with ⟨⟨replies, last⟩, ran, rested⟩
  rcases Option.map_eq_some_iff.mp ran' with ⟨⟨replies', last'⟩, ran', rested'⟩
  have sameL1 : ({ CacheEngineConfig.sample with
      l2Capacity := 64 } : CacheEngineConfig).l1Config =
        CacheEngineConfig.sample.l1Config := rfl
  exact ⟨engine, engine', replies, replies', last, last', made, made', ran, ran',
    l1_independent sameL1 (fun _ => rfl) made made' () (by simp)
      (by simp [readsAndWrites]) () (by simp) (by simp [fewerReads]) ran ran'
      (of_decide_eq_true rested) (of_decide_eq_true rested') (by decide)⟩

end EngineThreads

end Walde
