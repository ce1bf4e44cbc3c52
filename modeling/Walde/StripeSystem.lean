import Mathlib.Data.List.FinRange
import Walde.SlabAllocator
import Walde.StripeSimulation

namespace Walde

open Foundation

/-! # Stripes that share a slab allocator -/

/-! ## Calls -/

inductive CacheCall
  | get (key : Key)
  | put (key : Key) (value : Value)
  | remove (key : Key)
deriving DecidableEq, Repr

inductive CacheReply
  | value (found : Option Value)
  | changed (answer : Bool)
deriving DecidableEq, Repr

def CacheStripe.call (xx : XxHash) (stripe : CacheStripe) :
    CacheCall → SlabProgram (CacheReply × CacheStripe)
  | .get key => do
      let (found, stripe) ← stripe.get xx key
      return (.value found, stripe)
  | .put key value => do
      let (inserted, stripe) ← stripe.put xx key value
      return (.changed inserted, stripe)
  | .remove key => do
      let (removed, stripe) ← stripe.remove key
      return (.changed removed, stripe)

/-- What a caller sees of a call: its reply, and the items that it offered to
the demotion queue. -/
abbrev CallResult := CacheReply × List DemotionItem

namespace Policy

def call (xx : XxHash) (slot : Bool) (policy : Policy) :
    CacheCall → CallResult × Policy
  | .get key =>
      let (found, policy) := policy.get xx key
      ((.value found, []), policy)
  | .put key value =>
      let (inserted, policy, offered) := policy.put xx slot key value
      ((.changed inserted, offered), policy)
  | .remove key =>
      let (removed, policy) := policy.remove key
      ((.changed removed, []), policy)

theorem Bounded.call {policy : Policy} (bounded : policy.Bounded) (xx : XxHash)
    (slot : Bool) (call : CacheCall) :
    (policy.call xx slot call).2.Bounded := by
  cases call with
  | get key => exact bounded.get xx key
  | put key value => exact bounded.put xx slot key value
  | remove key => exact bounded.remove key

theorem Distinct.call {policy : Policy} (distinct : policy.Distinct)
    (xx : XxHash) (bounded : policy.Bounded) (slot : Bool)
    (call : CacheCall) : (policy.call xx slot call).2.Distinct := by
  cases call with
  | get key => exact distinct.get xx key
  | put key value => exact distinct.put xx bounded slot key value
  | remove key => exact distinct.remove key

theorem insert_config (xx : XxHash) {policy : Policy} (bounded : policy.Bounded)
    (key : Key) (value : Value) :
    (policy.insert xx key value).1.config = policy.config := by
  rcases insert_frame xx bounded key value with
    ⟨window, probation, stats, equal⟩
  rw [equal]

theorem call_config (xx : XxHash) {policy : Policy} (bounded : policy.Bounded)
    (slot : Bool) (call : CacheCall) :
    (policy.call xx slot call).2.config = policy.config := by
  cases call with
  | get key =>
      change (policy.get xx key).2.config = _
      unfold get
      split
      · rfl
      · exact touch_config (policy.count xx key) key _
  | put key value =>
      change (policy.put xx slot key value).2.1.config = _
      have counted : (policy.counted xx key).config = policy.config := by
        simp [Policy.counted]
      rcases put_cases xx slot policy key value with
        ⟨place, -, equal⟩ | ⟨-, -, equal⟩ | ⟨-, -, equal⟩ <;> rw [equal]
      · rw [touch_config]
        exact counted
      · rw [insert_config xx (bounded.counted xx key), counted]
      · exact counted
  | remove key => rfl

def size (policy : Policy) : Nat := policy.entries.length

theorem Bounded.size_le {policy : Policy} (bounded : policy.Bounded) :
    policy.size ≤ policy.config.totalCapacity := by
  have window := bounded.window
  have main := bounded.main
  have split := policy.config.split
  simp only [size, entries, List.length_append]
  omega

end Policy

theorem CacheStripe.Sim.card_owned {stripe : CacheStripe} {view : SlabView}
    {lists : Place → List Nat} {policy : Policy}
    (sim : stripe.Sim view lists [] policy) :
    view.owned.card = policy.size := by
  have entries := sim.shows'.entries
  have owned : view.owned = (lists .window ++ lists .probation ++
      lists .protected_).toFinset := by
    ext index
    rw [sim.rep.owned, List.mem_toFinset, CacheStripe.Rep.mem_lists]
    simp
  have window : policy.window = _ := entries .window
  have probation : policy.probation = _ := entries .probation
  have protected_ : policy.protected_ = _ := entries .protected_
  rw [owned, List.toFinset_card_of_nodup sim.rep.lists_nodup]
  simp [Policy.size, Policy.entries, window, probation, protected_]

theorem CacheStripe.call_sim {limit : Option Nat} {stripe : CacheStripe}
    {view : SlabView} {lists : Place → List Nat} {policy : Policy}
    (sim : stripe.Sim view lists [] policy) (xx : XxHash) (call : CacheCall)
    (room : ∀ bound, limit = some bound → view.owned.card ≤ bound) :
    (stripe.call xx call).wp (slabSpec limit)
      (fun reply view' => ∃ slot, (slot = false → limit = none) ∧
        reply.1 = (policy.call xx slot call).1.1 ∧
        Reached view [] (policy.call xx slot call).2
          (policy.call xx slot call).1.2 reply.2 view') view := by
  cases call with
  | get key =>
      rw [CacheStripe.call, Program.wp_bind]
      refine wp_weaken (get_sim sim xx key) ?_
      rintro ⟨found, stripe'⟩ view' ⟨equal, emitted, reached⟩
      refine ⟨true, by simp, congrArg CacheReply.value equal, reached, ?_⟩
      rw [emitted]
      exact (List.append_nil _).symm
  | put key value =>
      rw [CacheStripe.call, Program.wp_bind]
      refine wp_weaken (put_sim sim xx key value room) ?_
      rintro ⟨inserted, stripe'⟩ view' ⟨slot, full, equal, reached⟩
      exact ⟨slot, full, congrArg CacheReply.changed equal, reached⟩
  | remove key =>
      rw [CacheStripe.call, Program.wp_bind]
      refine wp_weaken (removeKey_sim sim key) ?_
      rintro ⟨removed, stripe'⟩ view' ⟨equal, reached⟩
      exact ⟨true, by simp, congrArg CacheReply.changed equal, reached⟩

theorem CacheStripe.put_refused {allocator : Pool.Allocator SlabAllocator CacheNode}
    {slab : SlabAllocator}
    (exhausted : allocator.allocate slab = some (kInvalidIndex, slab))
    (xx : XxHash) {stripe : CacheStripe} {key : Key}
    (absent : stripe.indexMap.lookup key = none) (value : Value) :
    ∃ stripe', (stripe.put xx key value).run allocator.handler (slab, []) =
      some ((false, stripe'), slab, []) := by
  have sameMap : ({ stripe with cms := stripe.cms.increment xx key } :
      CacheStripe).maybeDecayCms.indexMap = stripe.indexMap :=
    maybeDecayCms_indexMap _
  refine ⟨({ stripe with cms := stripe.cms.increment xx key } :
    CacheStripe).maybeDecayCms, ?_⟩
  rw [CacheStripe.put, sameMap, absent, CacheStripe.insertNew,
    Program.run_bind, SlabProgram.allocate, Program.run_perform,
    Pool.Allocator.handler, exhausted]
  rfl

/-! ## Systems -/

structure StripeSettings where
  capacity : Nat
  windowPct : Percentage
  probationPct : Percentage
  demotionQueue : Bool

def StripeSettings.config (settings : StripeSettings) : StripeConfig :=
  .new settings.capacity settings.windowPct settings.probationPct

def StripeSettings.stripe (settings : StripeSettings) : Option CacheStripe :=
  CacheStripe.new settings.capacity settings.windowPct settings.probationPct
    settings.demotionQueue

def StripeSettings.sample : StripeSettings where
  capacity := 3
  windowPct := .defaultWindow
  probationPct := .defaultProbation
  demotionQueue := true

structure StripeSystem (count : Nat) where
  slab : SlabAllocator
  stripe : Fin count → CacheStripe

namespace StripeSystem

variable {count : Nat}

def new (slabCapacity : Nat) (settings : Fin count → StripeSettings) :
    Option (StripeSystem count) :=
  if accepted : ∀ i, ((settings i).stripe).isSome then
    (SlabAllocator.new slabCapacity).map fun slab =>
      { slab, stripe := fun i => ((settings i).stripe).get (accepted i) }
  else none

/-- Run a program of one stripe to its end, alone on the slab. The answer comes
with the items that were offered to the demotion queue. -/
def perform (allocator : Pool.Allocator SlabAllocator CacheNode) {α : Type}
    (system : StripeSystem count) (i : Fin count)
    (program : SlabProgram (α × CacheStripe)) :
    Option ((α × List DemotionItem) × StripeSystem count) :=
  (program.run allocator.handler (system.slab, [])).map fun outcome =>
    ((outcome.1.1, outcome.2.2), {
      slab := outcome.2.1
      stripe := Function.update system.stripe i outcome.1.2 })

def call (xx : XxHash) (allocator : Pool.Allocator SlabAllocator CacheNode)
    (system : StripeSystem count) (i : Fin count) (call : CacheCall) :
    Option (CallResult × StripeSystem count) :=
  system.perform allocator i ((system.stripe i).call xx call)

def run (xx : XxHash) (allocator : Pool.Allocator SlabAllocator CacheNode) :
    List (Fin count × CacheCall) → StripeSystem count →
      Option (List CallResult × StripeSystem count)
  | [], system => some ([], system)
  | (i, call) :: rest, system => do
      let (result, system) ← system.call xx allocator i call
      let (results, system) ← run xx allocator rest system
      return (result :: results, system)

theorem run_cons {xx : XxHash}
    {allocator : Pool.Allocator SlabAllocator CacheNode}
    {system middle last : StripeSystem count} {i : Fin count}
    {call : CacheCall} {result : CallResult}
    (called : system.call xx allocator i call = some (result, middle))
    {rest : List (Fin count × CacheCall)} {results : List CallResult}
    (ran : middle.run xx allocator rest = some (results, last)) :
    system.run xx allocator ((i, call) :: rest) =
      some (result :: results, last) := by
  simp only [run, called, ran, Option.bind_eq_bind, Option.bind_some]
  rfl

theorem run_cons_eq_some {xx : XxHash}
    {allocator : Pool.Allocator SlabAllocator CacheNode}
    {system last : StripeSystem count} {i : Fin count} {call : CacheCall}
    {rest : List (Fin count × CacheCall)} {results : List CallResult}
    (ran : system.run xx allocator ((i, call) :: rest) = some (results, last)) :
    ∃ result middle others,
      system.call xx allocator i call = some (result, middle) ∧
      middle.run xx allocator rest = some (others, last) ∧
      results = result :: others := by
  rcases Option.bind_eq_some_iff.mp ran with ⟨⟨result, middle⟩, called, ran⟩
  rcases Option.bind_eq_some_iff.mp ran with ⟨⟨others, last'⟩, ran, equal⟩
  cases equal
  exact ⟨result, middle, others, called, ran, rfl⟩

/-! ## What a system stands for -/

def indices (system : StripeSystem count) (i : Fin count) (place : Place) :
    List Nat :=
  let lru := (system.stripe i).lru place
  Ring.walk (lru.nextLink system.slab.pool) lru.size lru.head

def entriesAt (system : StripeSystem count) (i : Fin count) (place : Place) :
    List Entry :=
  (system.indices i place).map (entry system.slab.pool)

/-- What the stripes see of the slab, the members of their lists, and the
policy that each of them follows. -/
structure Shows (capacity : Nat) (system : StripeSystem count)
    (views : Fin count → SlabView) (lists : Fin count → Place → List Nat)
    (policies : Fin count → Policy) : Prop where
  shares : Pool.Shares SlabAllocator.Rep capacity views system.slab
  sim : ∀ i, (system.stripe i).Sim (views i) (lists i) [] (policies i)
  quiet : ∀ i, (views i).emitted = []
  bounded : ∀ i, (policies i).Bounded
  distinct : ∀ i, (policies i).Distinct

def Follows (capacity : Nat) (system : StripeSystem count)
    (policies : Fin count → Policy) : Prop :=
  ∃ views lists, system.Shows capacity views lists policies

theorem Shows.card_owned {capacity : Nat} {system : StripeSystem count}
    {views : Fin count → SlabView} {lists : Fin count → Place → List Nat}
    {policies : Fin count → Policy}
    (shows' : system.Shows capacity views lists policies) (i : Fin count) :
    (views i).owned.card = (policies i).size := (shows'.sim i).card_owned

theorem Shows.call_of_room {capacity : Nat} {system : StripeSystem count}
    {views : Fin count → SlabView} {lists : Fin count → Place → List Nat}
    {policies : Fin count → Policy}
    (shows' : system.Shows capacity views lists policies)
    {allocator : Pool.Allocator SlabAllocator CacheNode}
    (lawful : allocator.Lawful slabLayout SlabAllocator.Rep) (xx : XxHash)
    (i : Fin count) (call : CacheCall) (limit : Option Nat)
    (room : ∀ bound, limit = some bound →
      ∑ j ∈ Finset.univ.erase i, (views j).owned.card + bound < capacity)
    (within : ∀ bound, limit = some bound → (views i).owned.card ≤ bound) :
    ∃ slot system', (slot = false → limit = none) ∧
      system.call xx allocator i call =
        some (((policies i).call xx slot call).1, system') ∧
      system'.Follows capacity
        (Function.update policies i ((policies i).call xx slot call).2) := by
  have program := CacheStripe.call_sim (shows'.sim i) xx call within
  rcases Pool.Shares.run lawful shows'.shares i room program with
    ⟨⟨reply, stripe'⟩, slab', view', ran, shares, slot, full, equal, reached⟩
  rcases reached with ⟨⟨lists', sim⟩, emitted⟩
  rw [shows'.quiet i] at ran emitted
  rw [List.nil_append] at emitted
  refine ⟨slot, { slab := slab', stripe := Function.update system.stripe i stripe' },
    full, ?_, Function.update views i view'.silence,
    Function.update lists i lists', shares.silence, ?_, ?_, ?_, ?_⟩
  · rw [StripeSystem.call, perform, ran, Option.map_some, emitted]
    exact congrArg (fun result => some (result, _)) (Prod.ext equal rfl)
  · intro j
    by_cases same : j = i
    · subst same
      simp only [Function.update_self]
      exact sim.silence
    · simp only [Function.update_of_ne same]
      exact shows'.sim j
  · intro j
    by_cases same : j = i
    · subst same
      simp
    · simp only [Function.update_of_ne same]
      exact shows'.quiet j
  · apply (Function.forall_update_iff policies fun _ policy =>
      policy.Bounded).mpr
    exact ⟨(shows'.bounded i).call xx slot call, fun j _ => shows'.bounded j⟩
  · apply (Function.forall_update_iff policies fun _ policy =>
      policy.Distinct).mpr
    exact ⟨(shows'.distinct i).call xx (shows'.bounded i) slot call,
      fun j _ => shows'.distinct j⟩

/-- A call never faults, does to its stripe what it does to the policy, and
leaves the other stripes alone. It finds a slot while the stripes do not fill
the slab. -/
theorem Follows.call {capacity : Nat} {system : StripeSystem count}
    {policies : Fin count → Policy} (follows : system.Follows capacity policies)
    {allocator : Pool.Allocator SlabAllocator CacheNode}
    (lawful : allocator.Lawful slabLayout SlabAllocator.Rep) (xx : XxHash)
    (i : Fin count) (call : CacheCall) :
    ∃ slot system', (∑ j, (policies j).size < capacity → slot = true) ∧
      system.call xx allocator i call =
        some (((policies i).call xx slot call).1, system') ∧
      system'.Follows capacity
        (Function.update policies i ((policies i).call xx slot call).2) := by
  rcases follows with ⟨views, lists, shows'⟩
  by_cases roomy : ∑ j, (policies j).size < capacity
  · have room : ∑ j ∈ Finset.univ.erase i, (views j).owned.card +
        (policies i).size < capacity := by
      have total := Finset.sum_erase_add Finset.univ
        (fun j => (policies j).size) (Finset.mem_univ i)
      simp only [shows'.card_owned]
      omega
    rcases shows'.call_of_room lawful xx i call (some (policies i).size)
        (by
          rintro bound ⟨⟩
          exact room)
        (by
          rintro bound ⟨⟩
          exact (shows'.card_owned i).le) with
      ⟨slot, system', full, called, follows⟩
    refine ⟨slot, system', fun _ => ?_, called, follows⟩
    by_contra noSlot
    simpa using full (by simpa using noSlot)
  · rcases shows'.call_of_room lawful xx i call none (by simp) (by simp) with
      ⟨slot, system', -, called, follows⟩
    exact ⟨slot, system', fun room => absurd room roomy, called, follows⟩

theorem Follows.called {capacity : Nat} {system system' : StripeSystem count}
    {policies : Fin count → Policy} (follows : system.Follows capacity policies)
    {allocator : Pool.Allocator SlabAllocator CacheNode}
    (lawful : allocator.Lawful slabLayout SlabAllocator.Rep) {xx : XxHash}
    {i : Fin count} {call : CacheCall} {result : CallResult}
    (called : system.call xx allocator i call = some (result, system')) :
    ∃ slot, result = ((policies i).call xx slot call).1 ∧
      system'.Follows capacity
        (Function.update policies i ((policies i).call xx slot call).2) := by
  rcases follows.call lawful xx i call with
    ⟨slot, after, -, calledAfter, follows'⟩
  obtain ⟨rfl, rfl⟩ :=
    Prod.mk.inj (Option.some.inj (called.symm.trans calledAfter))
  exact ⟨slot, rfl, follows'⟩

theorem Follows.put_refused {capacity : Nat} {system : StripeSystem count}
    {policies : Fin count → Policy} (follows : system.Follows capacity policies)
    {allocator : Pool.Allocator SlabAllocator CacheNode}
    (lawful : allocator.Lawful slabLayout SlabAllocator.Rep) (xx : XxHash)
    {i : Fin count} {key : Key} (absent : key ∉ (policies i).keys)
    (full : capacity ≤ ∑ j, (policies j).size) (value : Value) :
    ∃ system', system.call xx allocator i (.put key value) =
      some ((.changed false, []), system') := by
  rcases follows with ⟨views, lists, shows'⟩
  have exhausted : allocator.allocate system.slab =
      some (kInvalidIndex, system.slab) := by
    apply shows'.shares.exhausted lawful
    simpa only [shows'.card_owned] using full
  have nowhere : (system.stripe i).indexMap.lookup key = none := by
    cases found : (system.stripe i).indexMap.lookup key with
    | none => rfl
    | some index =>
        have here := (shows'.sim i).find_some found
        exact absurd (Policy.mem_keys.mpr ⟨_, Policy.find_mem here⟩) absent
  rcases CacheStripe.put_refused exhausted xx nowhere value with
    ⟨stripe', refused⟩
  exact ⟨_, by rw [StripeSystem.call, perform, CacheStripe.call,
    Program.run_bind, refused]; rfl⟩

/-! ## Whole runs -/

def policies (settings : Fin count → StripeSettings) (i : Fin count) : Policy :=
  .new (settings i).config (settings i).demotionQueue

theorem new_eq_some {slabCapacity : Nat} (positive : 0 < slabCapacity)
    {settings : Fin count → StripeSettings}
    (capacities : ∀ i, 3 ≤ (settings i).capacity) :
    ∃ system, StripeSystem.new slabCapacity settings = some system := by
  have accepted : ∀ i, ((settings i).stripe).isSome := fun i => by
    simp [StripeSettings.stripe, CacheStripe.new, capacities i]
  rw [StripeSystem.new, dif_pos accepted, SlabAllocator.new,
    if_neg (Nat.ne_of_gt positive)]
  exact ⟨_, rfl⟩

theorem new_follows {slabCapacity : Nat} (fits : slabCapacity < uint32Size)
    {settings : Fin count → StripeSettings} {system : StripeSystem count}
    (made : StripeSystem.new slabCapacity settings = some system) :
    system.Follows slabCapacity (policies settings) := by
  unfold StripeSystem.new at made
  split at made
  · rename_i accepted
    rcases Option.map_eq_some_iff.mp made with ⟨slab, slabMade, rfl⟩
    have positive : 0 < slabCapacity := by
      by_contra notPositive
      simp [SlabAllocator.new, Nat.eq_zero_of_not_pos notPositive] at slabMade
    rcases SlabAllocator.new_rep positive fits with ⟨_, slabMade', rep⟩
    rw [slabMade] at slabMade'
    cases slabMade'
    let view : SlabView := ⟨∅, fun _ => {}, []⟩
    refine ⟨fun _ => view, fun _ _ => [], ⟨_, rep, rfl, ?_⟩, ?_, fun _ => rfl,
      fun _ => .new _ _, fun _ => List.nodup_nil⟩
    · exact ⟨by simp [view], by simp [view], by simp [view], by simp [view]⟩
    · intro i
      exact CacheStripe.Sim.new (Option.some_get (accepted i)).symm view rfl
  · simp at made

end StripeSystem

namespace Policy

variable {count : Nat}

/-- The calls of a run, each marked with whether the slab has a slot for it,
on the policies of several stripes. -/
def runAll (xx : XxHash) :
    List (Bool × Fin count × CacheCall) → (Fin count → Policy) →
      List CallResult × (Fin count → Policy)
  | [], policies => ([], policies)
  | (slot, i, call) :: rest, policies =>
      let after := (policies i).call xx slot call
      let final := runAll xx rest (Function.update policies i after.2)
      (after.1 :: final.1, final.2)

end Policy

namespace StripeSystem

variable {count : Nat}

/-- A run never faults, and the policies make the same run. While the stripes
cannot fill the slab, every call finds a slot. -/
theorem Follows.run {capacity : Nat} {system : StripeSystem count}
    {policies : Fin count → Policy} (follows : system.Follows capacity policies)
    {allocator : Pool.Allocator SlabAllocator CacheNode}
    (lawful : allocator.Lawful slabLayout SlabAllocator.Rep) (xx : XxHash)
    (calls : List (Fin count × CacheCall)) :
    ∃ marked system', marked.map (·.2) = calls ∧
      (∑ i, (policies i).config.totalCapacity < capacity →
        ∀ mark ∈ marked, mark.1 = true) ∧
      system.run xx allocator calls =
        some ((Policy.runAll xx marked policies).1, system') ∧
      system'.Follows capacity (Policy.runAll xx marked policies).2 := by
  induction calls generalizing system policies with
  | nil => exact ⟨[], system, rfl, by simp, rfl, follows⟩
  | cons head rest induction =>
      rcases head with ⟨i, call⟩
      rcases follows.call lawful xx i call with
        ⟨slot, middle, found, called, middleFollows⟩
      rcases induction middleFollows with
        ⟨marked, system', unmarked, room, ran, final⟩
      refine ⟨(slot, i, call) :: marked, system', by simp [unmarked], ?_, ?_,
        final⟩
      · intro headroom mark member
        rcases follows with ⟨views, lists, shows'⟩
        rcases List.mem_cons.mp member with rfl | member
        · apply found
          refine Nat.lt_of_le_of_lt ?_ headroom
          exact Finset.sum_le_sum fun j _ => (shows'.bounded j).size_le
        · refine room ?_ mark member
          have config : ∀ j, (Function.update policies i
              ((policies i).call xx slot call).2 j).config =
                (policies j).config :=
            (Function.forall_update_iff policies fun j policy =>
              policy.config = (policies j).config).mpr
              ⟨Policy.call_config xx (shows'.bounded i) slot call,
                fun _ _ => rfl⟩
          simpa only [config] using headroom
      · exact run_cons called ran

theorem run_of_guarded {xx : XxHash} {calls : List (Fin count × CacheCall)}
    {system : StripeSystem count}
    {outcome : List CallResult × StripeSystem count}
    (ran : system.run xx SlabAllocator.guarded calls = some outcome) :
    system.run xx SlabAllocator.allocator calls = some outcome := by
  induction calls generalizing system outcome with
  | nil => exact ran
  | cons head rest induction =>
      rcases head with ⟨i, call⟩
      rcases outcome with ⟨results, last⟩
      rcases run_cons_eq_some ran with
        ⟨result, middle, others, called, ranRest, rfl⟩
      rcases Option.map_eq_some_iff.mp called with ⟨answer, called, middleEqual⟩
      have sameCall : system.call xx SlabAllocator.allocator i call =
          some (result, middle) := by
        rw [StripeSystem.call, perform, Program.run_of_refines
          SlabAllocator.guarded_refines _ called, Option.map_some, middleEqual]
      exact run_cons sameCall (induction ranRest)

/-! ## Reachable states -/

/-- What the stripes can be after any calls, on a slab of any size. -/
def Reachable (xx : XxHash) (slabCapacity : Nat)
    (settings : Fin count → StripeSettings) (system : StripeSystem count) :
    Prop :=
  ∃ start calls results, StripeSystem.new slabCapacity settings = some start ∧
    start.run xx SlabAllocator.allocator calls = some (results, system)

theorem exists_run (xx : XxHash) {slabCapacity : Nat}
    (positive : 0 < slabCapacity) (fits : slabCapacity < uint32Size)
    {settings : Fin count → StripeSettings}
    (capacities : ∀ i, 3 ≤ (settings i).capacity)
    (calls : List (Fin count × CacheCall)) :
    ∃ start results system,
      StripeSystem.new slabCapacity settings = some start ∧
      start.run xx SlabAllocator.allocator calls = some (results, system) := by
  rcases new_eq_some positive capacities with ⟨start, made⟩
  rcases (new_follows fits made).run SlabAllocator.lawful xx calls with
    ⟨marked, system, -, -, ran, -⟩
  exact ⟨start, _, system, made, ran⟩

theorem Follows.run_keeps {xx : XxHash} {capacity : Nat} {i : Fin count}
    {keeps : Policy → Prop}
    (step : ∀ policy slot call, policy.Bounded → policy.Distinct →
      keeps policy → keeps (policy.call xx slot call).2)
    {system system' : StripeSystem count} {policies : Fin count → Policy}
    (follows : system.Follows capacity policies) (start : keeps (policies i))
    {calls : List (Fin count × CacheCall)} {results : List CallResult}
    (ran : system.run xx SlabAllocator.allocator calls =
      some (results, system')) :
    ∃ policies', system'.Follows capacity policies' ∧ keeps (policies' i) := by
  induction calls generalizing system policies results with
  | nil =>
      cases ran
      exact ⟨policies, follows, start⟩
  | cons head rest induction =>
      rcases head with ⟨j, call⟩
      rcases run_cons_eq_some ran with
        ⟨result, middle, others, called, ranRest, -⟩
      rcases follows.called SlabAllocator.lawful called with
        ⟨slot, rfl, middleFollows⟩
      refine induction middleFollows ?_ ranRest
      by_cases same : i = j
      · subst same
        rcases follows with ⟨views, lists, shows'⟩
        rw [Function.update_self]
        exact step _ slot call (shows'.bounded i) (shows'.distinct i) start
      · rwa [Function.update_of_ne same]

theorem Reachable.keeps {xx : XxHash} {slabCapacity : Nat}
    {settings : Fin count → StripeSettings} {system : StripeSystem count}
    (reachable : Reachable xx slabCapacity settings system)
    (fits : slabCapacity < uint32Size) {i : Fin count} (keeps : Policy → Prop)
    (start : keeps (policies settings i))
    (step : ∀ policy slot call, policy.Bounded → policy.Distinct →
      keeps policy → keeps (policy.call xx slot call).2) :
    ∃ policies, system.Follows slabCapacity policies ∧ keeps (policies i) := by
  rcases reachable with ⟨first, calls, results, made, ran⟩
  exact (new_follows fits made).run_keeps step start ran

end StripeSystem

end Walde
