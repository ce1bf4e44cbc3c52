import Walde.Foundation.Ledger
import Walde.StripedCache

namespace Walde

open Foundation

/-! # What a stripe counts

Every entry that a put brings in is resident, or was evicted, rejected or
removed; every entry of main was admitted. -/

structure StripeNumbers where
  hits : Nat
  misses : Nat
  evictions : Nat
  admissions : Nat
  rejections : Nat
  size : Nat
  mainSize : Nat

def CacheStripe.numbers (stripe : CacheStripe) : StripeNumbers where
  hits := stripe.stats.hits
  misses := stripe.stats.misses
  evictions := stripe.stats.evictions
  admissions := stripe.stats.admissions
  rejections := stripe.stats.rejections
  size := stripe.size
  mainSize := stripe.probationLru.size + stripe.protectedLru.size

def CacheCall.isGet : CacheCall → Bool
  | .get _ => true
  | _ => false

def CacheCall.inserted : CacheCall → CacheReply → Bool
  | .put _ _, .changed inserted => inserted
  | _, _ => false

def CacheCall.removed : CacheCall → CacheReply → Bool
  | .remove _, .changed removed => removed
  | _, _ => false

/-- What a call adds to the numbers of its stripe. `inMain` says whether its key
was in probation or protected before. -/
structure StripeNumbers.Counted (before : StripeNumbers) (call : CacheCall)
    (reply : CacheReply) (inMain : Bool) (after : StripeNumbers) : Prop where
  lookups : after.hits + after.misses =
    before.hits + before.misses + call.isGet.toNat
  misses : after.misses =
    before.misses + (decide (reply = .value none)).toNat
  entries : after.size + after.evictions + after.rejections +
      (call.removed reply).toNat =
    before.size + before.evictions + before.rejections +
      (call.inserted reply).toNat
  main : after.mainSize + after.evictions + before.admissions +
      (call.removed reply && inMain).toNat =
    before.mainSize + before.evictions + after.admissions

namespace Policy

def mainSize (policy : Policy) : Nat :=
  policy.probation.length + policy.protected_.length

def numbers (policy : Policy) : StripeNumbers where
  hits := policy.stats.hits
  misses := policy.stats.misses
  evictions := policy.stats.evictions
  admissions := policy.stats.admissions
  rejections := policy.stats.rejections
  size := policy.size
  mainSize := policy.mainSize

def inMain (policy : Policy) (key : Key) : Bool :=
  policy.placeOf key = some .probation ∨ policy.placeOf key = some .protected_

theorem size_eq (policy : Policy) :
    policy.size = policy.window.length + policy.mainSize := by
  simp [size, entries, mainSize]

/-! ## Promotion -/

@[simp] theorem numbers_touch (policy : Policy) (key : Key) (place : Place) :
    (policy.touch key place).numbers = policy.numbers := by
  have size := (touch_perm policy key place).length_eq
  have main := (touch_main_perm policy key place).length_eq
  rw [List.length_append, List.length_append] at main
  simp only [numbers, touch_stats, Policy.size, mainSize, size, main]

@[simp] theorem numbers_counted (xx : XxHash) (policy : Policy) (key : Key) :
    (policy.counted xx key).numbers = policy.numbers := by
  simp [numbers, size, mainSize]

@[simp] theorem numbers_overwrite (policy : Policy) (key : Key)
    (value : Value) : (policy.overwrite key value).numbers = policy.numbers := by
  simp [numbers, size, mainSize, overwrite, assign, entries]

/-! ## Insertion -/

theorem tryAdmit_numbers (xx : XxHash) {policy : Policy} {front : List Entry}
    {candidate : Entry} (shape : policy.window = front ++ [candidate]) :
    (policy.tryAdmit xx).1.stats.hits = policy.stats.hits ∧
    (policy.tryAdmit xx).1.stats.misses = policy.stats.misses ∧
    (policy.tryAdmit xx).1.size + (policy.tryAdmit xx).1.stats.evictions +
        (policy.tryAdmit xx).1.stats.rejections =
      policy.size + policy.stats.evictions + policy.stats.rejections ∧
    (policy.tryAdmit xx).1.mainSize + (policy.tryAdmit xx).1.stats.evictions +
        policy.stats.admissions =
      policy.mainSize + policy.stats.evictions +
        (policy.tryAdmit xx).1.stats.admissions := by
  have window := congrArg List.length shape
  rw [List.length_append, List.length_singleton] at window
  rcases tryAdmit_cases xx policy shape with
    ⟨-, equal⟩ | ⟨-, -, equal⟩ | ⟨others, victim, occupied, -, -, equal⟩ <;>
    rw [equal]
  · simp only [size_eq, mainSize, admitCandidate, List.length_cons, true_and]
    omega
  · simp only [size_eq, mainSize, reject, true_and, and_true]
    omega
  · have probation := congrArg List.length occupied
    rw [List.length_append, List.length_singleton] at probation
    simp only [size_eq, mainSize, List.length_cons, true_and]
    omega

theorem insert_numbers (xx : XxHash) {policy : Policy}
    (bounded : policy.Bounded) (key : Key) (value : Value) (inMain : Bool) :
    policy.numbers.Counted (.put key value) (.changed true) inMain
      (policy.insert xx key value).1.numbers := by
  have pushed : (policy.pushWindow (key, value)).size = policy.size + 1 := by
    simp [pushWindow, size, entries]
  have stats : (policy.pushWindow (key, value)).stats = policy.stats := rfl
  rcases insert_cases xx bounded key value with
    ⟨-, equal⟩ | ⟨front, candidate, -, shape, equal⟩ <;> rw [equal]
  · constructor
    · rfl
    · rfl
    · simp only [numbers, pushed, stats, CacheCall.removed, CacheCall.inserted,
        Bool.toNat_true, Bool.toNat_false]
      omega
    · rfl
  · have overflows : (policy.pushWindow (key, value)).window = _ := shape
    rcases tryAdmit_numbers xx overflows with ⟨hits, misses, entries, main⟩
    constructor
    · change _ = policy.stats.hits + policy.stats.misses
      rw [← stats, ← hits, ← misses]
      rfl
    · exact misses
    · rw [pushed, stats] at entries
      simp only [numbers, CacheCall.removed, CacheCall.inserted,
        Bool.toNat_true, Bool.toNat_false]
      omega
    · exact main

/-! ## Removal -/

theorem without_length (key : Key) (entries : List Entry) :
    (without key entries).length + (entries.map (·.1)).count key =
      entries.length := by
  have parts := (named_append_without_perm key entries).length_eq
  have named : (named key entries).length = (entries.map (·.1)).count key := by
    rw [List.count, List.countP_map, List.countP_eq_length_filter]
    rfl
  rw [List.length_append, named] at parts
  omega

theorem Distinct.counts {policy : Policy} (distinct : policy.Distinct)
    (key : Key) :
    (policy.window.map (·.1)).count key + (policy.inMain key).toNat =
        (policy.placeOf key).isSome.toNat ∧
      (policy.probation.map (·.1)).count key +
        (policy.protected_.map (·.1)).count key = (policy.inMain key).toNat := by
  have once : (policy.window.map (·.1)).count key +
      (policy.probation.map (·.1)).count key +
      (policy.protected_.map (·.1)).count key ≤ 1 := by
    have once := List.nodup_iff_count_le_one.mp distinct key
    simpa [keys, entries, Nat.add_assoc] using once
  unfold inMain placeOf
  split
  · rename_i inWindow
    have some := List.count_pos_iff.mpr inWindow
    simp
    omega
  · rename_i notInWindow
    have none := List.count_eq_zero.mpr notInWindow
    split
    · rename_i inProbation
      have some := List.count_pos_iff.mpr inProbation
      simp
      omega
    · rename_i notInProbation
      have none' := List.count_eq_zero.mpr notInProbation
      split
      · rename_i inProtected
        have some := List.count_pos_iff.mpr inProtected
        simp
        omega
      · rename_i notInProtected
        have none'' := List.count_eq_zero.mpr notInProtected
        simp
        omega

/-! ## Calls -/

theorem get_numbers (xx : XxHash) (policy : Policy) (key : Key)
    (inMain : Bool) :
    policy.numbers.Counted (.get key) (.value (policy.get xx key).1) inMain
      (policy.get xx key).2.numbers := by
  have hit : policy.placeOf key ≠ none → policy.find key ≠ none := by
    rw [Ne, placeOf_eq_none, Ne, find_eq_none]
    exact id
  rw [get]
  cases place : policy.placeOf key with
  | none => exact ⟨rfl, rfl, rfl, rfl⟩
  | some place' =>
      have found : policy.find key ≠ none := hit (by simp [place])
      have touched := numbers_touch (policy.count xx key) key place'
      simp only [numbers, StripeNumbers.mk.injEq] at touched
      rcases touched with ⟨-, -, -, -, -, size, main⟩
      constructor
      · exact Nat.add_right_comm _ _ _
      · simp [numbers, found]
      · exact congrArg (· + _ + _ + 0) size
      · exact congrArg (· + _ + _ + 0) main

theorem put_numbers (xx : XxHash) {policy : Policy} (bounded : policy.Bounded)
    (slot : Bool) (key : Key) (value : Value) (inMain : Bool) :
    policy.numbers.Counted (.put key value)
      (.changed (policy.put xx slot key value).1) inMain
      (policy.put xx slot key value).2.1.numbers := by
  rcases put_cases xx slot policy key value with
    ⟨place, -, equal⟩ | ⟨-, -, equal⟩ | ⟨-, -, equal⟩ <;> rw [equal]
  · rw [numbers_touch, numbers_overwrite, numbers_counted]
    exact ⟨rfl, rfl, rfl, rfl⟩
  · rw [← numbers_counted xx policy key]
    exact insert_numbers xx (bounded.counted xx key) key value inMain
  · rw [numbers_counted]
    exact ⟨rfl, rfl, rfl, rfl⟩

theorem remove_numbers {policy : Policy} (distinct : policy.Distinct)
    (key : Key) :
    policy.numbers.Counted (.remove key) (.changed (policy.remove key).1)
      (policy.inMain key) (policy.remove key).2.numbers := by
  have window := without_length key policy.window
  have probation := without_length key policy.probation
  have protected_ := without_length key policy.protected_
  rcases distinct.counts key with ⟨anywhere, main⟩
  have removed : (policy.remove key).1 = (policy.placeOf key).isSome := rfl
  have both : ((policy.placeOf key).isSome && policy.inMain key).toNat =
      (policy.inMain key).toNat := by
    cases inMain : policy.inMain key with
    | false => rw [Bool.and_false]
    | true =>
        rw [inMain, Bool.toNat_true] at anywhere
        cases place : (policy.placeOf key).isSome with
        | true => rfl
        | false =>
            rw [place, Bool.toNat_false] at anywhere
            omega
  constructor
  · rfl
  · rfl
  · simp only [numbers, size_eq, mainSize, CacheCall.removed,
      CacheCall.inserted, Bool.toNat_false, removed]
    simp only [remove]
    omega
  · simp only [numbers, mainSize, CacheCall.removed, removed, both]
    simp only [remove]
    omega

theorem call_numbers (xx : XxHash) {policy : Policy} (bounded : policy.Bounded)
    (distinct : policy.Distinct) (slot : Bool) (call : CacheCall) :
    policy.numbers.Counted call (policy.call xx slot call).1.1
      (policy.inMain call.key) (policy.call xx slot call).2.numbers := by
  cases call with
  | get key => exact get_numbers xx policy key _
  | put key value => exact put_numbers xx bounded slot key value _
  | remove key => exact remove_numbers distinct key

theorem call_evictions (xx : XxHash) {policy : Policy} (bounded : policy.Bounded)
    (attached : policy.queueAttached = true) (slot : Bool) (call : CacheCall) :
    (policy.call xx slot call).2.stats.evictions =
      policy.stats.evictions + (policy.call xx slot call).1.2.length := by
  cases call with
  | get key => exact (get_keeps xx policy key).1
  | put key value => exact put_evictions xx bounded attached slot key value
  | remove key => rfl

end Policy

/-! ## The stripes of L1 -/

theorem StripeSystem.Follows.numbers {count capacity : Nat}
    {system : StripeSystem count} {policies : Fin count → Policy}
    (follows : system.Follows capacity policies) (i : Fin count) :
    (system.stripe i).numbers = (policies i).numbers := by
  rcases follows with ⟨views, lists, shows'⟩
  have sim := shows'.sim i
  have size := shows'.size_eq i
  have probation : (system.stripe i).probationLru.size = _ :=
    sim.size_eq .probation
  have protected_ : (system.stripe i).protectedLru.size = _ :=
    sim.size_eq .protected_
  simp only [CacheStripe.numbers, Policy.numbers, size, probation, protected_,
    sim.shows'.stats]
  rfl

namespace StripedCache

def inMain (xx : XxHash) (cache : StripedCache) (key : Key) : Bool :=
  match (cache.stripe (route xx key)).indexMap.lookup key with
  | none => false
  | some index => (cache.slab.pool index).segment = .probation ∨
      (cache.slab.pool index).segment = .protected_

variable {xx : XxHash} {config : StripedCacheConfig} {demotionQueue : Bool}
  {policies : Fin kNumStripes → Policy} {cache cache' : StripedCache}

theorem Valid.inMain_eq (valid : Valid xx config demotionQueue policies cache)
    (key : Key) :
    cache.inMain xx key = (policies (route xx key)).inMain key := by
  rcases valid.follows with ⟨views, lists, shows'⟩
  have sim := shows'.sim (route xx key)
  unfold inMain Policy.inMain
  cases found : (cache.stripe (route xx key)).indexMap.lookup key with
  | none => simp [sim.placeOf_none found]
  | some index =>
      rcases sim.exists_place found with ⟨place, member⟩
      have owned := sim.rep.lists_owned member
      have tag := sim.rep.tag place index member
      rw [shows'.cell_eq _ owned] at tag
      simp only [sim.placeOf_some found member, tag]
      cases place <;> rfl

theorem Valid.call_evictions
    (valid : Valid xx config true policies cache) {call : CacheCall}
    {reply : CacheReply} {offered : List DemotionItem}
    (called : cache.call xx call = some ((reply, offered), cache')) :
    cache'.totalEvictions = cache.totalEvictions + offered.length := by
  rcases valid.follows.called SlabAllocator.lawful called with
    ⟨slot, answer, follows⟩
  have evictions : ∀ {system : StripedCache} {policies : Fin kNumStripes → Policy},
      system.Follows config.slabCapacity policies → ∀ i,
      (system.stripe i).stats.evictions = (policies i).stats.evictions :=
    fun follows i => congrArg StripeNumbers.evictions (follows.numbers i)
  apply sum_gain
  · rw [evictions follows, Function.update_self, evictions valid.follows,
      Policy.call_evictions xx (valid.bounded _) (valid.queue _), ← answer]
  · intro i different
    rw [evictions follows, Function.update_of_ne different,
      evictions valid.follows]

theorem Valid.call_numbers
    (valid : Valid xx config demotionQueue policies cache) {call : CacheCall}
    {reply : CacheReply} {offered : List DemotionItem}
    (called : cache.call xx call = some ((reply, offered), cache')) :
    (cache.stripe (route xx call.key)).numbers.Counted call reply
        (cache.inMain xx call.key)
        (cache'.stripe (route xx call.key)).numbers ∧
      ∀ i, i ≠ route xx call.key →
        (cache'.stripe i).numbers = (cache.stripe i).numbers := by
  rcases valid.follows.called SlabAllocator.lawful called with
    ⟨slot, answer, follows⟩
  obtain rfl : reply = (Policy.call xx slot _ call).1.1 :=
    congrArg Prod.fst answer
  constructor
  · rw [follows.numbers, Function.update_self, valid.follows.numbers,
      valid.inMain_eq]
    exact Policy.call_numbers xx (valid.bounded _) (valid.distinct _) slot call
  · intro i different
    rw [follows.numbers, Function.update_of_ne different,
      valid.follows.numbers]

end StripedCache

end Walde
