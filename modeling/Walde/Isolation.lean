import Walde.Foundation.Components
import Walde.StripeRenaming
import Walde.StripeSketch

namespace Walde

open Foundation

/-! # Stripes do not interfere

A stripe with its policy and its sketch is a component of its own: the slab that
it shares with the others decides nothing but slot numbers. -/

structure StripeModel where
  policy : Policy
  sketch : CountMinSketch

namespace StripeModel

def new (settings : StripeSettings) : StripeModel where
  policy := .new settings.config settings.demotionQueue
  sketch := .new 4 512

def call (xx : XxHash) (slot : Bool) (call : CacheCall) (model : StripeModel) :
    CallResult × StripeModel :=
  let after := model.policy.call xx slot call
  (after.1, {
    policy := after.2
    sketch := model.sketch.after xx (model.policy.placeOf call.key).isSome
      (model.policy.config.decayInterval ≤ model.policy.putsSinceDecay + 1)
      call })

end StripeModel

namespace StripeSystem

variable {count : Nat}

structure Mirrors (capacity : Nat) (system : StripeSystem count)
    (models : Fin count → StripeModel) : Prop where
  follows : system.Follows capacity fun i => (models i).policy
  sketch : ∀ i, (system.stripe i).cms = (models i).sketch

section Mirrors

variable {capacity : Nat} {system : StripeSystem count}
  {models : Fin count → StripeModel}

theorem Mirrors.wellFormed (mirrors : system.Mirrors capacity models) :
    system.WellFormed capacity := by
  rcases mirrors.follows with ⟨views, lists, shows'⟩
  exact shows'.wellFormed

theorem Mirrors.of_follows {policies : Fin count → Policy}
    (follows : system.Follows capacity policies) :
    system.Mirrors capacity fun i => ⟨policies i, (system.stripe i).cms⟩ :=
  ⟨follows, fun _ => rfl⟩

theorem Mirrors.call (mirrors : system.Mirrors capacity models) (xx : XxHash)
    (i : Fin count) (call : CacheCall) :
    ∃ slot system', (∑ j, (models j).policy.size < capacity → slot = true) ∧
      system.call xx SlabAllocator.allocator i call =
        some (((models i).call xx slot call).1, system') ∧
      system'.Mirrors capacity
        (Function.update models i ((models i).call xx slot call).2) := by
  rcases mirrors.follows.call SlabAllocator.lawful xx i call with
    ⟨slot, system', room, called, follows⟩
  refine ⟨slot, system', room, called, ?_, ?_⟩
  · have policies : (fun j => (Function.update models i
        ((models i).call xx slot call).2 j).policy) =
        Function.update (fun j => (models j).policy) i
          ((models i).policy.call xx slot call).2 := by
      funext j
      exact Function.apply_update (fun _ model => model.policy) models i _ j
    rw [policies]
    exact follows
  · rcases mirrors.follows with ⟨views, lists, shows'⟩
    have sim := shows'.sim i
    have hit : ((system.stripe i).indexMap.lookup call.key).isSome =
        ((models i).policy.placeOf call.key).isSome := by
      cases found : (system.stripe i).indexMap.lookup call.key with
      | none =>
          rw [sim.placeOf_none found]
          rfl
      | some index =>
          rcases sim.exists_place found with ⟨place, member⟩
          rw [sim.placeOf_some found member]
          rfl
    have decays : (system.stripe i).decays = decide
        ((models i).policy.config.decayInterval ≤
          (models i).policy.putsSinceDecay + 1) := by
      rw [CacheStripe.decays, sim.shows'.config, sim.shows'.puts]
    rcases Option.map_eq_some_iff.mp called with ⟨outcome, ran, equal⟩
    have kept := (CacheStripe.call_sketch xx (system.stripe i) call).run ran
    obtain ⟨-, rfl⟩ := Prod.mk.inj equal
    intro j
    by_cases same : j = i
    · subst same
      simp only [Function.update_self, StripeModel.call]
      rw [kept, mirrors.sketch, hit, decays]
    · simp only [Function.update_of_ne same]
      exact mirrors.sketch j

/-- The capacities of the stripes add up to less than the slab's. -/
def Roomy (capacity : Nat) (models : Fin count → StripeModel) : Prop :=
  ∑ i, (models i).policy.config.totalCapacity < capacity

/-- A put that finds no slot, and what it takes to rule that out. -/
theorem Mirrors.call_of_slot (mirrors : system.Mirrors capacity models)
    (xx : XxHash) (i : Fin count) (call : CacheCall)
    (slot : (∃ key, call = .get key) ∨ Roomy capacity models) :
    ∃ system', system.call xx SlabAllocator.allocator i call =
        some (((models i).call xx true call).1, system') ∧
      system'.Mirrors capacity
        (Function.update models i ((models i).call xx true call).2) := by
  rcases mirrors.call xx i call with ⟨found, system', room, called, mirrors'⟩
  refine ⟨system', ?_⟩
  rcases slot with ⟨key, rfl⟩ | roomy
  · exact ⟨called, mirrors'⟩
  · have sizes : ∑ j, (models j).policy.size < capacity := by
      rcases mirrors.follows with ⟨views, lists, shows'⟩
      apply Nat.lt_of_le_of_lt ?_ roomy
      exact Finset.sum_le_sum fun j _ => (shows'.bounded j).size_le
    rw [room sizes] at called mirrors'
    exact ⟨called, mirrors'⟩

theorem Mirrors.bounded (mirrors : system.Mirrors capacity models)
    (i : Fin count) : (models i).policy.Bounded := by
  rcases mirrors.follows with ⟨views, lists, shows'⟩
  exact shows'.bounded i

theorem Mirrors.roomy_call (mirrors : system.Mirrors capacity models)
    (roomy : Roomy capacity models) (xx : XxHash) (i : Fin count)
    (call : CacheCall) : Roomy capacity
      (Function.update models i ((models i).call xx true call).2) := by
  have config : ∀ j, (Function.update models i
      ((models i).call xx true call).2 j).policy.config =
        (models j).policy.config :=
    (Function.forall_update_iff models fun j model =>
      model.policy.config = (models j).policy.config).mpr
      ⟨Policy.call_config xx (mirrors.bounded i) true call, fun _ _ => rfl⟩
  simpa only [Roomy, config] using roomy

/-- A run answers call by call what the models answer, and ends as they do. -/
theorem Mirrors.run (mirrors : system.Mirrors capacity models) (xx : XxHash)
    (calls : List (Fin count × CacheCall))
    (slots : (∀ call ∈ calls, ∃ key, call.2 = .get key) ∨
      Roomy capacity models) :
    ∃ system', system.run xx SlabAllocator.allocator calls = some
        ((Components.runAll (StripeModel.call xx true) calls models).1,
          system') ∧
      system'.Mirrors capacity
        (Components.runAll (StripeModel.call xx true) calls models).2 ∧
      (Roomy capacity models → Roomy capacity
        (Components.runAll (StripeModel.call xx true) calls models).2) := by
  induction calls generalizing system models with
  | nil => exact ⟨system, rfl, mirrors, id⟩
  | cons head rest induction =>
      rcases head with ⟨i, call⟩
      have slotHere := slots.imp_left fun gets => gets _ List.mem_cons_self
      rcases mirrors.call_of_slot xx i call slotHere with
        ⟨middle, called, middleMirrors⟩
      have slotsAfter := slots.imp
        (fun gets call member => gets call (List.mem_cons_of_mem _ member))
        (fun roomy => mirrors.roomy_call roomy xx i call)
      rcases induction middleMirrors slotsAfter with
        ⟨system', ran, mirrors', roomy'⟩
      exact ⟨system', run_cons called ran, mirrors',
        fun roomy => roomy' (mirrors.roomy_call roomy xx i call)⟩

theorem Mirrors.new {settings : Fin count → StripeSettings}
    (fits : capacity < uint32Size)
    (made : StripeSystem.new capacity settings = some system) :
    system.Mirrors capacity fun i => .new (settings i) := by
  refine ⟨new_follows fits made, ?_⟩
  intro i
  unfold StripeSystem.new at made
  split at made
  · rename_i accepted
    rcases Option.map_eq_some_iff.mp made with ⟨slab, -, rfl⟩
    have stripe := (Option.some_get (accepted i)).symm
    change (((settings i).stripe).get (accepted i)).cms = _
    generalize ((settings i).stripe).get (accepted i) = first at stripe ⊢
    unfold StripeSettings.stripe CacheStripe.new at stripe
    split at stripe
    · cases stripe
      rfl
    · cases stripe
  · cases made

/-! ## Models with the same policy are the same stripe -/

variable {count' capacity' : Nat} {system' : StripeSystem count'}
  {models' : Fin count' → StripeModel} {i : Fin count} {j : Fin count'}

theorem Mirrors.entriesAt (mirrors : system.Mirrors capacity models)
    (i : Fin count) (place : Place) :
    system.entriesAt i place = (models i).policy.entriesAt place := by
  rcases mirrors.follows with ⟨views, lists, shows'⟩
  exact shows'.entriesAt i place

theorem Mirrors.sameStripe_of_finds (mirrors : system.Mirrors capacity models)
    (mirrors' : system'.Mirrors capacity' models')
    (same : models' j = models i) {rename : Nat → Nat}
    (invalid : rename kInvalidIndex = kInvalidIndex)
    (finds : ∀ index ∈ system.held i, (system'.stripe j).indexMap.lookup
      (system.slab.pool index).key = some (rename index)) :
    SameStripe rename system i system' j := by
  have sketches : (system'.stripe j).cms = (system.stripe i).cms := by
    rw [mirrors'.sketch, mirrors.sketch, same]
  have entries : ∀ place,
      system'.entriesAt j place = system.entriesAt i place := by
    intro place
    rw [mirrors'.entriesAt, mirrors.entriesAt, same]
  have wellFormed := mirrors.wellFormed
  have wellFormed' := mirrors'.wellFormed
  rcases mirrors.follows with ⟨views, lists, shows'⟩
  rcases mirrors'.follows with ⟨views', lists', others⟩
  have here := (shows'.sim i).shows'
  have there := (others.sim j).shows'
  rw [same] at there
  apply SameStripe.of_keys wellFormed wellFormed' entries invalid finds
  · exact there.config.symm.trans here.config
  · exact sketches
  · exact there.puts.symm.trans here.puts
  · exact there.stats.symm.trans here.stats
  · exact there.queue.symm.trans here.queue

theorem Mirrors.sameStripe (mirrors : system.Mirrors capacity models)
    (mirrors' : system'.Mirrors capacity' models')
    (same : models' j = models i) {owners : List (Fin count)}
    {other : Fin count → CacheStripe} (owner : i ∈ owners)
    (counterpart : other i = system'.stripe j) :
    SameStripe (system.indexByKey owners other) system i system' j := by
  have wellFormed := mirrors.wellFormed
  apply mirrors.sameStripe_of_finds mirrors' same
    wellFormed.indexByKey_invalid
  intro index held
  apply wellFormed.indexByKey_finds mirrors'.wellFormed ?_ owner counterpart
    held
  intro place
  rw [mirrors'.entriesAt, mirrors.entriesAt, same]

theorem Mirrors.renamed {other : StripeSystem count}
    (mirrors : system.Mirrors capacity models)
    (mirrors' : other.Mirrors capacity models) :
    Renamed (system.indexByKey (List.finRange count) other.stripe) system
      other := by
  apply Renamed.of_stripes mirrors'.wellFormed
  intro i
  exact mirrors.sameStripe mirrors' rfl (List.mem_finRange i) rfl

theorem Mirrors.swap (mirrors : system.Mirrors capacity models)
    (roomy : Roomy capacity models) (xx : XxHash) {i j : Fin count}
    (different : i ≠ j) (first second : CacheCall) :
    ∃ result result' left right rename,
      system.run xx SlabAllocator.allocator [(i, first), (j, second)] =
          some ([result, result'], left) ∧
        system.run xx SlabAllocator.allocator [(j, second), (i, first)] =
          some ([result', result], right) ∧
        Renamed rename left right := by
  rcases mirrors.run xx [(i, first), (j, second)] (.inr roomy) with
    ⟨left, leftRan, leftMirrors, -⟩
  rcases mirrors.run xx [(j, second), (i, first)] (.inr roomy) with
    ⟨right, rightRan, rightMirrors, -⟩
  have swap := Components.runAll_swap (StripeModel.call xx true) different
    first second models
  rw [swap.1] at rightMirrors
  rw [swap.2] at rightRan
  exact ⟨_, _, left, right, _, leftRan, rightRan,
    leftMirrors.renamed rightMirrors⟩

end Mirrors

theorem run_alone (xx : XxHash) (settings : StripeSettings)
    (accepted : 3 ≤ settings.capacity) {slabCapacity : Nat}
    (enough : settings.capacity < slabCapacity)
    (fits : slabCapacity < uint32Size) (calls : List CacheCall) :
    ∃ alone alone',
      StripeSystem.new slabCapacity (fun _ : Fin 1 => settings) = some alone ∧
      alone.run xx SlabAllocator.allocator (calls.map fun call => (0, call)) =
        some ((Components.run (StripeModel.call xx true) calls
          (.new settings)).1, alone') ∧
      alone'.Mirrors slabCapacity fun _ =>
        (Components.run (StripeModel.call xx true) calls (.new settings)).2 := by
  have positive : 0 < slabCapacity := by omega
  rcases new_eq_some positive (fun _ : Fin 1 => accepted) with ⟨alone, made⟩
  have mirrors := Mirrors.new fits made
  have roomy : Roomy slabCapacity fun _ : Fin 1 => .new settings := by
    change ∑ _i : Fin 1, settings.capacity < slabCapacity
    simpa using enough
  rcases mirrors.run xx (calls.map fun call => (0, call)) (.inr roomy) with
    ⟨alone', ran, mirrors', -⟩
  rw [Components.runAll_single] at ran mirrors'
  have only : Function.update (fun _ : Fin 1 => StripeModel.new settings) 0
      (Components.run (StripeModel.call xx true) calls (.new settings)).2 =
      fun _ => (Components.run (StripeModel.call xx true) calls
        (.new settings)).2 := by
    funext i
    rw [Subsingleton.elim i 0, Function.update_self]
  rw [only] at mirrors'
  exact ⟨alone, alone', made, ran, mirrors'⟩

end StripeSystem

namespace StripedCache

/-- A run with a routing function other than the hash. -/
def runRouted (xx : XxHash) (route : Key → Fin kNumStripes)
    (calls : List CacheCall) (cache : StripedCache) :
    Option (List CallResult × StripedCache) :=
  StripeSystem.run xx SlabAllocator.allocator
    (calls.map fun call => (route call.key, call)) cache

section Isolation

variable {config : StripedCacheConfig}

theorem slabCapacity_eq
    (atMost : config.totalCapacity ≤ uint32Size - 1 - kNumStripes) :
    config.slabCapacity = config.totalCapacity + kNumStripes ∧
      config.slabCapacity < uint32Size := by
  have fits : config.totalCapacity + kNumStripes < uint32Size := by
    have size : kNumStripes < uint32Size := by decide
    omega
  have equal : config.slabCapacity = config.totalCapacity + kNumStripes :=
    Nat.mod_eq_of_lt fits
  exact ⟨equal, equal ▸ fits⟩

theorem roomy_new (atLeast : 3 * kNumStripes ≤ config.totalCapacity)
    (atMost : config.totalCapacity ≤ uint32Size - 1 - kNumStripes)
    (demotionQueue : Bool) : StripeSystem.Roomy config.slabCapacity
      fun _ : Fin kNumStripes => .new (config.settings demotionQueue) := by
  have share : config.perStripe = config.totalCapacity / kNumStripes := by
    apply max_eq_right
    exact (Nat.le_div_iff_mul_le (by decide)).mpr atLeast
  have total : ∑ _i : Fin kNumStripes, config.perStripe =
      kNumStripes * config.perStripe := by simp
  have parts : kNumStripes * (config.totalCapacity / kNumStripes) ≤
      config.totalCapacity := Nat.mul_div_le _ _
  have positive : 0 < kNumStripes := by decide
  change ∑ _i : Fin kNumStripes, config.perStripe < config.slabCapacity
  rw [total, share, (slabCapacity_eq atMost).1]
  omega

/-- The results of a run and the state after it show no trace of one stripe in
another. -/
structure Isolated (xx : XxHash) (settings : StripeSettings)
    (route : Key → Fin kNumStripes) (calls : List CacheCall)
    (results : List CallResult) (cache : StripedCache) : Prop where
  /-- A stripe on a slab of its own, large enough never to run dry, gives the
  same results and ends as the same stripe. -/
  alone : ∀ i slabCapacity, settings.capacity < slabCapacity →
    slabCapacity < uint32Size → ∃ alone alone' rename,
      StripeSystem.new slabCapacity (fun _ : Fin 1 => settings) = some alone ∧
      alone.run xx SlabAllocator.allocator
          ((calls.filter fun call => route call.key = i).map
            fun call => (0, call)) =
        some (Components.resultsOf i
          (calls.map fun call => (route call.key, call)) results, alone') ∧
      StripeSystem.SameStripe rename cache i alone' 0
  /-- The next calls commute if they go to different stripes. -/
  commute : ∀ first second : CacheCall, route first.key ≠ route second.key →
    ∃ result result' left right rename,
      cache.runRouted xx route [first, second] =
        some ([result, result'], left) ∧
      cache.runRouted xx route [second, first] =
        some ([result', result], right) ∧
      StripeSystem.Renamed rename left right

/-- Every stripe of the cache does what it would do alone on a slab of its own,
up to the numbers of the slots, and calls on different stripes commute. -/
theorem runRouted_isolated (xx : XxHash) (config : StripedCacheConfig)
    (demotionQueue : Bool)
    (atLeast : 3 * kNumStripes ≤ config.totalCapacity)
    (atMost : config.totalCapacity ≤ uint32Size - 1 - kNumStripes)
    (route : Key → Fin kNumStripes) (calls : List CacheCall) :
    ∃ cache results cache',
      StripedCache.new config demotionQueue = some cache ∧
      cache.runRouted xx route calls = some (results, cache') ∧
      results.length = calls.length ∧
      Isolated xx (config.settings demotionQueue) route calls results
        cache' := by
  have fits := (slabCapacity_eq atMost).2
  have positive : 0 < config.slabCapacity := by
    rw [(slabCapacity_eq atMost).1]
    exact Nat.add_pos_right _ (by decide)
  have accepted : 3 ≤ config.perStripe := le_max_left _ _
  have made : ∃ cache, StripedCache.new config demotionQueue = some cache :=
    StripeSystem.new_eq_some positive fun _ => accepted
  rcases made with ⟨cache, made⟩
  have mirrors := StripeSystem.Mirrors.new fits made
  have roomy := roomy_new atLeast atMost demotionQueue
  rcases mirrors.run xx (calls.map fun call => (route call.key, call))
      (.inr roomy) with ⟨cache', ran, mirrors', roomy'⟩
  refine ⟨cache, _, cache', made, ran, by simp, ⟨?_, ?_⟩⟩
  · intro i slabCapacity enough slabFits
    rcases StripeSystem.run_alone xx (config.settings demotionQueue) accepted
        enough slabFits (calls.filter fun call => route call.key = i) with
      ⟨alone, alone', aloneMade, aloneRan, aloneMirrors⟩
    have own : Components.addressed i
        (calls.map fun call => (route call.key, call)) =
          calls.filter fun call => route call.key = i := by
      simp [Components.addressed, List.filter_map, Function.comp_def]
    refine ⟨alone, alone', cache'.indexByKey [i] fun _ => alone'.stripe 0,
      aloneMade, ?_, ?_⟩
    · rw [aloneRan, Components.runAll_results, own]
    · apply mirrors'.sameStripe aloneMirrors ?_ (List.mem_singleton_self i) rfl
      rw [Components.runAll_state, own]
  · intro first second different
    exact mirrors'.swap (roomy' roomy) xx different first second

theorem runRouted_isolated_sample :
    ∃ cache results cache',
      StripedCache.new .sample true = some cache ∧
      cache.runRouted .sample
          (fun key => ⟨key.length % kNumStripes, Nat.mod_lt _ (by decide)⟩)
          [.put "k" "1", .put "bu" "1", .get "k", .remove "bu"] =
        some (results, cache') ∧
      results.length = 4 ∧
      Isolated .sample (StripedCacheConfig.sample.settings true)
        (fun key => ⟨key.length % kNumStripes, Nat.mod_lt _ (by decide)⟩)
        [.put "k" "1", .put "bu" "1", .get "k", .remove "bu"] results
        cache' :=
  runRouted_isolated .sample .sample true (by decide) (by decide) _ _

end Isolation

end StripedCache

end Walde
