import Walde.Residency
import Walde.WTinyLfuCapacity

namespace Walde

open Foundation

/-! # The stripe and the W-TinyLFU baseline in lockstep -/

/-- A stripe with a slab of its own, and the baseline next to it. -/
structure Lockstep where
  system : StripeSystem 1
  cache : WTinyLfuCache

namespace Lockstep

abbrev single : Fin 1 := ⟨0, Nat.one_pos⟩

def step (xx : XxHash) :
    Machine Lockstep BaselineCall (CallResult × TinyLfuReply)
  | state, call => do
      let (result, system) ←
        state.system.call xx SlabAllocator.allocator single call.call
      let (reply, cache) ← state.cache.step call
      return ((result, reply), { system, cache })

/-- Both look up the same frequency of a key, after they have counted the put
of another one. -/
def SameEstimate (xx : XxHash) (state : Lockstep) (put key : Key) : Prop :=
  ∀ counted ∈ state.cache.recordAccess put,
    TinyLfuSketch.estimate counted.cms key =
      ((state.system.stripe single).countedCms xx put).estimate xx key

/-- Both are given the same pair of estimates at the contest that a call holds,
if it holds one. -/
def SameEstimates (xx : XxHash) (state : Lockstep) : BaselineCall → Prop
  | .get _ => True
  | .put key value =>
      ∀ pair ∈ state.cache.segments.contest state.cache.limits (key, value),
        state.SameEstimate xx key pair.1 ∧ state.SameEstimate xx key pair.2

instance (xx : XxHash) (state : Lockstep) (put key : Key) :
    Decidable (state.SameEstimate xx put key) :=
  inferInstanceAs (Decidable (∀ counted ∈ state.cache.recordAccess put, _))

instance (xx : XxHash) (state : Lockstep) :
    ∀ call, Decidable (state.SameEstimates xx call)
  | .get _ => .isTrue trivial
  | .put key value => inferInstanceAs (Decidable
      (∀ pair ∈ state.cache.segments.contest state.cache.limits (key, value), _))

/-- The same keys and values in the same order on every list, and the same
counts. -/
structure Agrees (state : Lockstep) : Prop where
  entries : ∀ place, state.system.entriesAt single place =
    WTinyLfuCache.entries (state.cache.nodesAt place)
  stats : (state.system.stripe single).stats = state.cache.stats

/-! ## One call -/

/-- The stripe follows a policy with the segments and the counts of the
baseline. -/
structure Related (capacity : Nat) (config : StripeConfig) (state : Lockstep)
    (policies : Fin 1 → Policy) : Prop where
  follows : state.system.Follows capacity policies
  sameConfig : (policies single).config = config
  sound : state.cache.Sound
  limits : state.cache.limits = config.limits
  segments : state.cache.segments = (policies single).segments
  stats : state.cache.stats = (policies single).stats

section Related

variable {xx : XxHash} {capacity : Nat} {config : StripeConfig}
  {state : Lockstep} {policies : Fin 1 → Policy}

theorem Related.agrees (related : Related capacity config state policies) :
    state.Agrees := by
  rcases related.follows with ⟨views, lists, shows'⟩
  refine ⟨fun place => ?_, ?_⟩
  · rw [shows'.entriesAt]
    have segments := related.segments
    cases place with
    | window => exact (congrArg Segments.window segments).symm
    | probation => exact (congrArg Segments.probation segments).symm
    | protected_ => exact (congrArg Segments.protected_ segments).symm
  · rw [related.stats]
    exact (shows'.sim single).shows'.stats.symm

theorem Related.same_verdict (related : Related capacity config state policies)
    {counted : WTinyLfuCache} {key candidate victim : Key}
    (recorded : state.cache.recordAccess key = some counted)
    (first : state.SameEstimate xx key candidate)
    (second : state.SameEstimate xx key victim) :
    counted.beats candidate victim =
      ((policies single).counted xx key).beats xx candidate victim := by
  rcases related.follows with ⟨views, lists, shows'⟩
  rw [WTinyLfuCache.beats, first counted recorded, second counted recorded,
    shows'.estimate, shows'.estimate]
  rfl

theorem Related.bounded (related : Related capacity config state policies) :
    (policies single).Bounded := by
  rcases related.follows with ⟨views, lists, shows'⟩
  exact shows'.bounded single

theorem Related.advance (related : Related capacity config state policies)
    (enough : config.totalCapacity < capacity) {call : BaselineCall}
    {reply : TinyLfuReply} {after : WTinyLfuCache}
    {segments : Segments Key Value} {stats : StripeStats}
    (stepped : state.cache.step call = some (reply, after))
    (becomes : state.cache.Becomes after segments stats)
    (bounded : segments.Bounded state.cache.limits)
    (sameSegments :
      ((policies single).call xx true call.call).2.segments = segments)
    (sameStats : ((policies single).call xx true call.call).2.stats = stats) :
    ∃ replies after policies', state.step xx call = some (replies, after) ∧
      Related capacity config after policies' := by
  have room : ∑ j, (policies j).size < capacity := by
    have size := related.bounded.size_le
    rw [related.sameConfig] at size
    simpa using size.trans_lt enough
  rcases related.follows.call SlabAllocator.lawful xx single call.call with
    ⟨slot, system', found, called, follows'⟩
  obtain rfl : slot = true := found room
  refine ⟨(((policies single).call xx true call.call).1, reply),
    ⟨system', after⟩,
    Function.update policies single
      ((policies single).call xx true call.call).2, ?_, follows', ?_,
    related.sound.of_becomes becomes bounded,
    becomes.limits.trans related.limits, ?_, ?_⟩
  · rw [Lockstep.step, called]
    change (state.cache.step call >>= _) = _
    rw [stepped]
    rfl
  · rw [Function.update_self, Policy.call_config xx related.bounded,
      related.sameConfig]
  · rw [Function.update_self, becomes.segments, sameSegments]
  · rw [Function.update_self, becomes.stats, sameStats]

theorem Related.step (related : Related capacity config state policies)
    (enough : config.totalCapacity < capacity) (call : BaselineCall)
    (same : state.SameEstimates xx call) :
    ∃ replies after policies', state.step xx call = some (replies, after) ∧
      Related capacity config after policies' := by
  have limits : (policies single).config.limits = state.cache.limits := by
    rw [related.limits, related.sameConfig]
  cases call with
  | get key =>
      rcases related.sound.get key with ⟨reply, after, got, becomes, -⟩
      have policy := Policy.get_segments xx (policies single) key
      rw [limits, ← related.segments, ← related.stats] at policy
      exact related.advance enough got becomes
        (related.sound.bounded.get key) policy.1 policy.2
  | put key value =>
      rcases related.sound.put key value with
        ⟨counted, after, recorded, put, becomes⟩
      have policy := Policy.put_segments xx related.bounded key value
      have verdicts : state.cache.segments.put state.cache.limits counted.beats
          (key, value) = state.cache.segments.put state.cache.limits
            (((policies single).counted xx key).beats xx) (key, value) := by
        apply Segments.put_congr
        intro pair member
        have estimates := same pair member
        exact related.same_verdict recorded estimates.1 estimates.2
      rw [limits, ← related.segments, ← related.stats, ← verdicts] at policy
      exact related.advance enough put becomes
        (related.sound.bounded.put counted.beats (key, value)) policy.1 policy.2

end Related

/-! ## Runs -/

def settings (capacity : Nat) (demotionQueue : Bool) : StripeSettings where
  capacity
  windowPct := .defaultWindow
  probationPct := .defaultProbation
  demotionQueue

def Along (xx : XxHash) (calls : List BaselineCall) (state : Lockstep) : Prop :=
  (step xx).Along (SameEstimates xx) calls state

theorem Related.run {xx : XxHash} {capacity : Nat} {config : StripeConfig}
    {state : Lockstep} {policies : Fin 1 → Policy}
    (related : Related capacity config state policies)
    (enough : config.totalCapacity < capacity) {calls : List BaselineCall}
    (along : state.Along xx calls) :
    ∃ replies last, (Lockstep.step xx).run calls state =
        some (replies, last) ∧
      last.Agrees := by
  have keeps : (Lockstep.step xx).Keeps (SameEstimates xx)
      (fun _ state => ∃ policies, Related capacity config state policies)
      (fun _ _ _ => True) := by
    refine ⟨fun _ state call start same => ?_⟩
    rcases start with ⟨policies, related⟩
    rcases related.step enough call same with
      ⟨replies, after, policies', stepped, related'⟩
    exact ⟨replies, after, stepped, trivial, policies', related'⟩
  rcases keeps.run [] ⟨policies, related⟩ along with
    ⟨replies, last, ran, ⟨policies', related'⟩, -⟩
  exact ⟨replies, last, ran, related'.agrees⟩

theorem Related.start {capacity slabCapacity : Nat} {demotionQueue : Bool}
    {system : StripeSystem 1} (two : 2 ≤ capacity)
    (fits : capacity < uint32Size) (slabFits : slabCapacity < uint32Size)
    (provides : BloomDoorkeeper.Provides (WTinyLfuCache.doorkeeperBits capacity))
    (made : StripeSystem.new slabCapacity
      (fun _ : Fin 1 => settings capacity demotionQueue) = some system) :
    Related slabCapacity (settings capacity demotionQueue).config
      ⟨system, .new capacity .defaultWindow .defaultProbation⟩
      (StripeSystem.policies fun _ => settings capacity demotionQueue) := by
  have follows := WTinyLfuCache.Follows.default two fits provides
  exact ⟨StripeSystem.new_follows slabFits made, rfl, follows.sound,
    follows.sameLimits, rfl, rfl⟩

theorem put_faults {xx : XxHash} {capacity : Nat} {system : StripeSystem 1}
    (fails : ¬BloomDoorkeeper.Provides (WTinyLfuCache.doorkeeperBits capacity))
    (key : Key) (value : Value) :
    let start : Lockstep :=
      ⟨system, .new capacity .defaultWindow .defaultProbation⟩
    start.Along xx [.put key value] ∧
      (step xx).run [.put key value] start = none := by
  intro start
  have unrecorded : ∀ other, start.cache.recordAccess other = none :=
    WTinyLfuCache.recordAccess_unprovided rfl fails
  have stepped : step xx start (.put key value) = none := by
    apply Option.bind_eq_none_iff.mpr
    intro outcome _
    change (start.cache.step (.put key value) >>= _) = _
    rw [WTinyLfuCache.put_unprovided rfl fails]
    rfl
  refine ⟨⟨?_, ?_⟩, ?_⟩
  · intro pair _
    constructor
    · intro counted recorded
      rw [unrecorded] at recorded
      cases recorded
    · intro counted recorded
      rw [unrecorded] at recorded
      cases recorded
  · intro outcome stepped'
    rw [stepped] at stepped'
    cases stepped'
  · rw [Machine.run, stepped]
    rfl

/-- As long as both are given the same estimates at every contest, a stripe and
the baseline of its capacity have the same entries and counts after every call,
exactly when the doorkeeper has the bits that it asks for. -/
theorem agree_iff (xx : XxHash) {capacity slabCapacity : Nat}
    (three : 3 ≤ capacity) (enough : capacity < slabCapacity)
    (slabFits : slabCapacity < uint32Size) (demotionQueue : Bool) :
    ∃ system, StripeSystem.new slabCapacity
        (fun _ : Fin 1 => settings capacity demotionQueue) = some system ∧
      ((∀ calls, Along xx calls
            ⟨system, .new capacity .defaultWindow .defaultProbation⟩ →
          ∃ replies last, (step xx).run calls
              ⟨system, .new capacity .defaultWindow .defaultProbation⟩ =
                some (replies, last) ∧ last.Agrees) ↔
        BloomDoorkeeper.Provides (WTinyLfuCache.doorkeeperBits capacity)) := by
  rcases @StripeSystem.new_eq_some 1 slabCapacity (by omega)
      (fun _ => settings capacity demotionQueue) (fun _ => three) with
    ⟨system, made⟩
  refine ⟨system, made, ?_, ?_⟩
  · intro agree
    by_contra fails
    rcases put_faults fails "k" "1" with ⟨along, ran⟩
    rcases agree _ along with ⟨replies, last, ran', -⟩
    rw [ran] at ran'
    cases ran'
  · intro provides calls along
    exact (Related.start (by omega) (by omega) slabFits provides made).run
      enough along

/-- The doorkeeper takes all keys after the first for ones that it has seen. The
last one is rejected once, and then it makes "p" leave. -/
def contested : List BaselineCall :=
  [.put "b" "1", .put "b" "2", .put "p" "3", .put "z" "4", .put "bh" "5",
    .put "bh" "6"]

theorem agree_three :
    ∃ system, StripeSystem.new 4 (fun _ : Fin 1 => settings 3 true) =
        some system ∧
      Along .sample contested
        ⟨system, .new 3 .defaultWindow .defaultProbation⟩ ∧
      ∃ replies last, (step .sample).run contested
          ⟨system, .new 3 .defaultWindow .defaultProbation⟩ =
            some (replies, last) ∧ last.Agrees ∧
        last.cache.stats.rejections = 1 ∧ last.cache.stats.evictions = 1 := by
  rcases agree_iff .sample (by decide : 3 ≤ 3) (by decide : 3 < 4) (by decide)
    true with ⟨system, made, agree⟩
  have runs : (StripeSystem.new 4 fun _ : Fin 1 => settings 3 true).map
      (fun system =>
        let start : Lockstep :=
          ⟨system, .new 3 .defaultWindow .defaultProbation⟩
        decide ((step .sample).Along (SameEstimates .sample) contested start ∧
          ∀ outcome ∈ (step .sample).run contested start,
            outcome.2.cache.stats.rejections = 1 ∧
              outcome.2.cache.stats.evictions = 1)) = some true := by
    decide +kernel
  rcases Option.map_eq_some_iff.mp runs with ⟨system', made', checked⟩
  cases Option.some_inj.mp (made'.symm.trans made)
  rcases of_decide_eq_true checked with ⟨along, counts⟩
  rcases agree.mpr (by decide) contested along with
    ⟨replies, last, ran, agrees⟩
  exact ⟨system, made, along, replies, last, ran, agrees, counts _ ran⟩

/-- The eight bits for each entry add up to a multiple of `2 ^ 32`. -/
theorem unprovided_put_faults :
    ∃ system, StripeSystem.new 536870913
        (fun _ : Fin 1 => settings 536870912 true) = some system ∧
      Along .sample [.put "k" "1"]
        ⟨system, .new 536870912 .defaultWindow .defaultProbation⟩ ∧
      (step .sample).run [.put "k" "1"]
        ⟨system, .new 536870912 .defaultWindow .defaultProbation⟩ = none := by
  rcases @StripeSystem.new_eq_some 1 536870913 (by decide)
      (fun _ => settings 536870912 true) (fun _ => by decide) with
    ⟨system, made⟩
  exact ⟨system, made, put_faults (by decide) "k" "1"⟩

end Lockstep

end Walde
