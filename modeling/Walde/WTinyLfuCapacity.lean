import Walde.SegmentBounds
import Walde.WTinyLfuSegments

namespace Walde

open Foundation
open Foundation.NodeList (Node)

/-! # The capacity of the W-TinyLFU baseline -/

/-! ## The default percentages -/

namespace Percentage

theorem roundBinary32_le (value : Nat) : roundBinary32 value ≤ 2 * value := by
  unfold roundBinary32
  have floor : (value >>> (value.log2 + 1 - 24)) <<< (value.log2 + 1 - 24) ≤
      value := by
    rw [Nat.shiftRight_eq_div_pow, Nat.shiftLeft_eq]
    exact Nat.div_mul_le_self _ _
  dsimp only
  split
  · rename_i up
    -- the last place is at most the value
    have occupied : value ≠ 0 := by
      rintro rfl
      simp at up
    have place : 2 ^ (value.log2 + 1 - 24) ≤ value :=
      (Nat.pow_le_pow_right (by decide) (by omega)).trans
        (Nat.log2_self_le occupied)
    rw [Nat.shiftLeft_eq] at floor ⊢
    rw [Nat.add_mul, Nat.one_mul]
    omega
  · omega

theorem defaultProbation_lt {count : Nat} (two : 2 ≤ count) :
    max 1 (defaultProbation.scale count) < count := by
  have inner := roundBinary32_le count
  have outer := roundBinary32_le (roundBinary32 count * 13421773)
  have scaled : defaultProbation.scale count ≤
      roundBinary32 (roundBinary32 count * 13421773) / 2 ^ 26 := by
    change (_ >>> 26) % uint32Size ≤ _
    rw [Nat.shiftRight_eq_div_pow]
    exact Nat.mod_le _ _
  have below : roundBinary32 (roundBinary32 count * 13421773) / 2 ^ 26 <
      count := by
    rw [Nat.div_lt_iff_lt_mul (by decide)]
    omega
  omega

end Percentage

namespace StripeConfig

theorem two_le_main {capacity : Nat} (two : 2 ≤ capacity)
    (windowPct probationPct : Percentage) :
    2 ≤ (new capacity windowPct probationPct).mainCapacity := by
  change 2 ≤ capacity - clampWindow capacity (windowPct.scale capacity)
  rw [clampWindow]
  split <;> omega

theorem Balanced.default {capacity : Nat} (two : 2 ≤ capacity)
    (fits : capacity < uint32Size) (windowPct : Percentage) :
    (StripeConfig.new capacity windowPct .defaultProbation).Balanced :=
  Balanced.new fits (Percentage.defaultProbation_lt
    (two_le_main two windowPct .defaultProbation))

end StripeConfig

namespace WTinyLfuCache

theorem wrapped_sub {left right : Nat} (le : right ≤ left)
    (fits : left < uint32Size) :
    (left + uint32Size - right) % uint32Size = left - right := by
  rw [Nat.sub_add_comm le, Nat.add_mod_right, Nat.mod_eq_of_lt (by omega)]

/-- From a capacity of two on, the constructor splits as that of a stripe. -/
theorem new_limits {capacity : Nat} (two : 2 ≤ capacity)
    (fits : capacity < uint32Size) {windowPct probationPct : Percentage}
    (balanced : (StripeConfig.new capacity windowPct probationPct).Balanced) :
    (new capacity windowPct probationPct).limits =
      (StripeConfig.new capacity windowPct probationPct).limits := by
  have window : clampWindow capacity (windowPct.scale capacity) =
      StripeConfig.clampWindow capacity (windowPct.scale capacity) := by
    rw [clampWindow, wrapped_sub two fits, StripeConfig.clampWindow]
  have main : (capacity + uint32Size -
      clampWindow capacity (windowPct.scale capacity)) % uint32Size =
        (StripeConfig.new capacity windowPct probationPct).mainCapacity := by
    rw [window, wrapped_sub (StripeConfig.clampWindow_le _ _) fits]
    rfl
  have probation : (new capacity windowPct probationPct).probationCapacity =
      (StripeConfig.new capacity windowPct probationPct).probationCapacity :=
    congrArg (fun main => max 1 (probationPct.scale main)) main
  have protected_ : (new capacity windowPct probationPct).protectedCapacity =
      (StripeConfig.new capacity windowPct probationPct).protectedCapacity :=
    congrArg (fun main => (main + uint32Size -
      max 1 (probationPct.scale main)) % uint32Size) main
  have split := (StripeConfig.new capacity windowPct probationPct).split
  have total : (StripeConfig.new capacity windowPct probationPct).totalCapacity =
      capacity := rfl
  have sum : ((new capacity windowPct probationPct).probationCapacity +
      (new capacity windowPct probationPct).protectedCapacity) % uint32Size =
        (StripeConfig.new capacity windowPct probationPct).mainCapacity := by
    rw [probation, protected_, Nat.add_comm, balanced.main_eq,
      Nat.mod_eq_of_lt (by omega)]
  have sameWindow : (new capacity windowPct probationPct).windowCapacity =
      (StripeConfig.new capacity windowPct probationPct).windowCapacity := by
    simp only [new, StripeConfig.new]
    exact window
  rw [limits, StripeConfig.limits, sameWindow, sum, protected_]

theorem Sound.new {capacity : Nat} {windowPct probationPct : Percentage}
    (roomy : 1 ≤ (new capacity windowPct probationPct).protectedCapacity)
    (provides : BloomDoorkeeper.Provides (doorkeeperBits capacity)) :
    (new capacity windowPct probationPct).Sound where
  linked :=
    ⟨.empty TinyLfuEntry.key 0, fun place _ member => by
      cases place <;> cases member⟩
  bounded := .empty _
  roomy
  ready := .new provides

/-! ## Runs -/

structure Follows (limits : SegmentLimits) (calls : List BaselineCall)
    (cache : WTinyLfuCache) : Prop where
  sound : cache.Sound
  sameLimits : cache.limits = limits
  values : ∀ entry ∈ cache.segments.entries,
    BaselineCall.lastPut entry.1 calls = some entry.2

section Runs

variable {limits : SegmentLimits} {calls : List BaselineCall}
  {cache : WTinyLfuCache}

theorem Follows.new {capacity : Nat} {windowPct probationPct : Percentage}
    (sound : (new capacity windowPct probationPct).Sound) :
    Follows (WTinyLfuCache.new capacity windowPct probationPct).limits []
      (WTinyLfuCache.new capacity windowPct probationPct) where
  sound
  sameLimits := rfl
  values := by simp [entries_nodes, nodes, entries, NodeList.entries,
    WTinyLfuCache.new]

theorem Follows.step (follows : Follows limits calls cache)
    (call : BaselineCall) :
    ∃ reply after, cache.step call = some (reply, after) ∧
      Follows limits (calls ++ [call]) after := by
  cases call with
  | get key =>
      rcases follows.sound.get key with ⟨reply, after, got, becomes, -⟩
      refine ⟨reply, after, got, follows.sound.of_becomes becomes
        (follows.sound.bounded.get key),
        becomes.limits.trans follows.sameLimits, ?_⟩
      intro entry member
      rw [becomes.segments, (Segments.get_perm _ _ _).mem_iff] at member
      rw [BaselineCall.lastPut_get]
      exact follows.values entry member
  | put key value =>
      rcases follows.sound.put key value with
        ⟨counted, after, -, put, becomes⟩
      refine ⟨_, after, put, follows.sound.of_becomes becomes
        (follows.sound.bounded.put counted.beats (key, value)),
        becomes.limits.trans follows.sameLimits, ?_⟩
      intro entry member
      rw [becomes.segments] at member
      rcases Segments.mem_of_mem_put member with rfl | ⟨different, inside⟩
      · exact BaselineCall.lastPut_put_self key value calls
      · rw [BaselineCall.lastPut_put_ne different]
        exact follows.values entry inside

theorem Follows.run (follows : Follows limits [] cache)
    (calls : List BaselineCall) :
    ∃ replies after, WTinyLfuCache.step.run calls cache =
      some (replies, after) ∧ Follows limits calls after := by
  have always : WTinyLfuCache.step.Along (fun _ _ => True) calls cache :=
    .of_forall (fun _ _ _ => trivial) cache
  have keeps : WTinyLfuCache.step.Keeps (fun _ _ => True) (Follows limits)
      (fun _ _ _ => True) := by
    refine ⟨fun past state call follows _ => ?_⟩
    rcases follows.step call with ⟨reply, after, stepped, follows'⟩
    exact ⟨reply, after, stepped, trivial, follows'⟩
  rcases keeps.run [] follows always with ⟨replies, after, ran, follows', -⟩
  exact ⟨replies, after, ran, follows'⟩

end Runs

theorem Follows.default {capacity : Nat} (two : 2 ≤ capacity)
    (fits : capacity < uint32Size)
    (provides : BloomDoorkeeper.Provides (doorkeeperBits capacity)) :
    Follows (StripeConfig.new capacity .defaultWindow .defaultProbation).limits
      [] (WTinyLfuCache.new capacity .defaultWindow .defaultProbation) := by
  have balanced := StripeConfig.Balanced.default two fits .defaultWindow
  have limits := new_limits two fits balanced
  have capacities : (WTinyLfuCache.new capacity .defaultWindow
      .defaultProbation).protectedCapacity = (StripeConfig.new capacity
        .defaultWindow .defaultProbation).protectedCapacity :=
    congrArg SegmentLimits.protected_ limits
  rw [← limits]
  refine .new (.new ?_ provides)
  rw [capacities]
  exact balanced.protected_pos

/-- A doorkeeper without the bits that it asked for faults at the first
access. -/
theorem recordAccess_unprovided {capacity : Nat} {cache : WTinyLfuCache}
    (doorkeeper : cache.doorkeeper = .new (doorkeeperBits capacity))
    (fails : ¬BloomDoorkeeper.Provides (doorkeeperBits capacity)) (key : Key) :
    cache.recordAccess key = none := by
  have small : doorkeeperBits capacity < uint32Size :=
    Nat.mod_lt _ (by decide)
  rw [recordAccess, doorkeeper,
    BloomDoorkeeper.containsAndAdd_new small fails key]
  rfl

theorem put_unprovided {capacity : Nat} {cache : WTinyLfuCache}
    (doorkeeper : cache.doorkeeper = .new (doorkeeperBits capacity))
    (fails : ¬BloomDoorkeeper.Provides (doorkeeperBits capacity)) (key : Key)
    (value : Value) : cache.step (.put key value) = none := by
  change (cache.recordAccess key >>= _) = _
  rw [recordAccess_unprovided doorkeeper fails]
  rfl

/-! ## The bound -/

/-- The map is a bijection onto the nodes of the lists, and every tag names its
list. -/
structure Respects (capacity : Nat) (cache : WTinyLfuCache) : Prop where
  distinct : (cache.nodes.map Node.address).Nodup
  bijective : Set.BijOn (fun key => cache.map.lookup key)
    {key | key ∈ cache.map}
    {found | ∃ node ∈ cache.nodes, found = some node.address}
  own : ∀ node ∈ cache.nodes,
    cache.map.lookup node.item.key = some node.address
  tag : ∀ place, ∀ node ∈ cache.nodesAt place, node.item.segment = place
  size : cache.size ≤ capacity

theorem Sound.size_eq {cache : WTinyLfuCache} (sound : cache.Sound) :
    Recency.size cache.map = cache.segments.entries.length := by
  rw [sound.linked.indexed.size, entries_nodes]
  exact (List.length_map _).symm

theorem Sound.respects {cache : WTinyLfuCache} (sound : cache.Sound)
    {capacity : Nat}
    (within : cache.limits.window + cache.limits.main ≤ capacity) :
    cache.Respects capacity where
  distinct := sound.linked.indexed.addresses
  bijective := by
    have indexed := sound.linked.indexed
    refine ⟨?_, ?_, ?_⟩
    · intro key member
      rcases Option.isSome_iff_exists.mp (AList.lookup_isSome.mpr member) with
        ⟨address, found⟩
      rcases (indexed.found key address).mp found with ⟨node, inside, same, -⟩
      exact ⟨node, inside, found.trans (congrArg some same.symm)⟩
    · intro left leftMember right rightMember same
      rcases Option.isSome_iff_exists.mp (AList.lookup_isSome.mpr leftMember)
        with ⟨address, found⟩
      have found' : cache.map.lookup right = some address :=
        (Eq.symm same).trans found
      rcases (indexed.found left address).mp found with ⟨node, inside, rfl, rfl⟩
      exact (indexed.address_iff found' inside).mp rfl
    · rintro _ ⟨node, inside, rfl⟩
      have found := indexed.lookup_of_mem inside
      refine ⟨node.item.key, ?_, found⟩
      exact AList.lookup_isSome.mp (Option.isSome_iff_exists.mpr ⟨_, found⟩)
  own _ inside := sound.linked.indexed.lookup_of_mem inside
  tag := sound.linked.tag
  size := by
    have length := sound.bounded.length_le
    rw [WTinyLfuCache.size, sound.size_eq]
    exact (Nat.mod_le _ _).trans (length.trans within)

theorem new_one_run (key other : Key) (different : other ≠ key)
    (value value' : Value) :
    ∃ replies cache, step.run [.put key value, .put other value']
        (new 1 .defaultWindow .defaultProbation) = some (replies, cache) ∧
      cache.size = 2 := by
  have sound : (new 1 .defaultWindow .defaultProbation).Sound :=
    .new (by decide) (by decide)
  have window : (new 1 .defaultWindow .defaultProbation).limits.window = 3 := by
    decide
  have empty : (new 1 .defaultWindow .defaultProbation).segments =
      Segments.empty := rfl
  generalize new 1 .defaultWindow .defaultProbation = start at *
  rcases sound.put key value with ⟨counted, middle, -, put, becomes⟩
  have first : start.segments.put start.limits counted.beats (key, value) =
      (.kept, ⟨[(key, value)], [], []⟩) := by
    rw [empty, Segments.put_of_absent (by simp [Segments.keys, KeyedList.keys,
      Segments.entries, Segments.main, Segments.empty]),
      Segments.insert_of_room (by rw [window]; decide)]
    rfl
  rw [first] at becomes
  have middleSound := sound.of_becomes becomes ⟨by simp [window], Nat.zero_le _⟩
  rcases middleSound.put other value' with
    ⟨counted', last, -, put', becomes'⟩
  have second : middle.segments.put middle.limits counted'.beats
      (other, value') = (.kept, ⟨[(other, value'), (key, value)], [], []⟩) := by
    rw [becomes.segments, Segments.put_of_absent (by simp [Segments.keys,
      KeyedList.keys, Segments.entries, Segments.main, different]),
      Segments.insert_of_room (by simp [becomes.limits, window])]
    rfl
  rw [second] at becomes'
  have lastSound := middleSound.of_becomes becomes'
    ⟨by simp [becomes.limits, window], Nat.zero_le _⟩
  refine ⟨_, last, Machine.run_cons put (Machine.run_cons put' rfl), ?_⟩
  rw [WTinyLfuCache.size, lastSound.size_eq, becomes'.segments]
  rfl

/-- Every run from a capacity is without a fault and keeps to the capacity,
exactly when the subtraction in the constructor does not wrap around and the
doorkeeper has the bits that it asks for. -/
theorem respects_iff {capacity : Nat} (positive : 1 ≤ capacity)
    (fits : capacity < uint32Size) :
    (∀ calls, ∃ replies cache, step.run calls
        (new capacity .defaultWindow .defaultProbation) =
          some (replies, cache) ∧ cache.Respects capacity) ↔
      capacity ≠ 1 ∧
        BloomDoorkeeper.Provides (doorkeeperBits capacity) := by
  constructor
  · intro respects
    constructor
    · rintro rfl
      rcases new_one_run "a" "b" (by decide) "1" "2" with
        ⟨replies, cache, ran, size⟩
      rcases respects _ with ⟨replies', cache', ran', respected⟩
      obtain ⟨rfl, rfl⟩ := Prod.mk.inj (Option.some.inj (ran.symm.trans ran'))
      have small := respected.size
      omega
    · by_contra fails
      rcases respects [.put "a" "1"] with ⟨replies, cache, ran, -⟩
      rcases Machine.run_cons_eq_some ran with ⟨reply, middle, _, stepped, -⟩
      rw [put_unprovided rfl fails] at stepped
      cases stepped
  · rintro ⟨notOne, provides⟩ calls
    have two : 2 ≤ capacity := by omega
    rcases (Follows.default two fits provides).run calls with
      ⟨replies, cache, ran, follows⟩
    refine ⟨replies, cache, ran, follows.sound.respects ?_⟩
    rw [follows.sameLimits]
    exact Nat.le_of_eq
      (StripeConfig.new capacity .defaultWindow .defaultProbation).split

theorem respects_three :
    ∃ replies cache, step.run [.put "a" "1", .put "b" "2"]
        (new 3 .defaultWindow .defaultProbation) = some (replies, cache) ∧
      cache.Respects 3 :=
  (respects_iff (by decide) (by decide)).mpr ⟨by decide, by decide⟩ _

/-- A capacity of one gets a window of three. -/
theorem new_one_exceeds :
    ∃ replies cache, step.run [.put "a" "1", .put "b" "2"]
        (new 1 .defaultWindow .defaultProbation) = some (replies, cache) ∧
      ¬cache.Respects 1 := by
  rcases new_one_run "a" "b" (by decide) "1" "2" with
    ⟨replies, cache, ran, size⟩
  refine ⟨replies, cache, ran, fun respects => ?_⟩
  have small := respects.size
  omega

end WTinyLfuCache

end Walde
