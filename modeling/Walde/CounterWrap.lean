import Walde.ScanResistance
import Walde.SketchBounds

namespace Walde

open Foundation Foundation.CountMin

/-! # Counters that wrap

Gets count without a bound between two decays, so whether a counter wraps
depends on how often the keys of a column are put and found. -/

def CacheStripe.operations (stripe : CacheStripe) :
    CacheCall → List (Operation Key)
  | .get key =>
      if (stripe.indexMap.lookup key).isSome then [.increment key] else []
  | .put key _ =>
      if stripe.config.decayInterval ≤ stripe.opsSinceDecay + 1 then
        [.increment key, .decay]
      else [.increment key]
  | .remove _ => []

namespace Policy

def operations (policy : Policy) : CacheCall → List (Operation Key)
  | .get key => if key ∈ policy.keys then [.increment key] else []
  | .put key _ =>
      if policy.config.decayInterval ≤ policy.putsSinceDecay + 1 then
        [.increment key, .decay]
      else [.increment key]
  | .remove _ => []

section Operations

variable {xx : XxHash} {policy : Policy}

theorem call_table (xx : XxHash) (bounded : policy.Bounded) (slot : Bool)
    (call : CacheCall) :
    (policy.call xx slot call).2.table =
      (policy.operations call).foldl
        (Operation.onTable uint32Size 4 (column xx)) policy.table := by
  cases call with
  | get key =>
      have counters := get_counters xx policy key
      change (policy.get xx key).2.table = _
      rw [operations]
      split at counters
      · rw [if_pos (by assumption)]
        exact (counters_eq counters).1
      · rw [if_neg (by assumption)]
        exact (counters_eq counters).1
  | put key value =>
      have counters := put_counters xx bounded slot key value
      change (policy.put xx slot key value).2.1.table = _
      rw [(counters_eq counters).1, counted, operations]
      have ticked := (policy.count xx key).tick_counters
      have config : (policy.count xx key).config = policy.config := rfl
      have puts : (policy.count xx key).putsSinceDecay =
        policy.putsSinceDecay := rfl
      rw [config, puts] at ticked
      split at ticked
      · rw [if_pos (by assumption)]
        exact (Prod.mk.inj ticked).1
      · rw [if_neg (by assumption)]
        exact (Prod.mk.inj ticked).1
  | remove key => rfl

theorem fit_iff (policy : Policy) (slot : Bool) (call : CacheCall) :
    Fit uint32Size 4 (column xx) (policy.operations call) policy.table ↔
      ∀ key ∈ call.increments (policy.call xx slot call).1.1, ∀ row < 4,
        policy.table row (column xx key row) + 1 < uint32Size := by
  cases call with
  | get key =>
      have reply : (policy.call xx slot (.get key)).1.1 =
          .value (policy.find key) :=
        congrArg CacheReply.value (get_fst xx policy key)
      rw [reply, operations]
      cases found : policy.find key with
      | none =>
          rw [if_neg (find_eq_none.mp found)]
          simp [CacheCall.increments, Fit]
      | some value =>
          rw [if_pos (mem_keys.mpr ⟨value, find_mem found⟩)]
          simp [CacheCall.increments, Fit, Operation.Fits]
  | put key value =>
      rw [operations]
      split <;> simp [CacheCall.increments, Fit, Operation.Fits]
  | remove key => simp [operations, CacheCall.increments, Fit]

theorem frequency_le_call (bounded : policy.Bounded) {slot : Bool}
    {call : CacheCall} {key : Key}
    (counts : policy.operations call = [.increment key])
    (noWrap : ∀ row < 4,
      policy.table row (column xx key row) + 1 < uint32Size) :
    policy.frequency xx key ≤ (policy.call xx slot call).2.frequency xx key := by
  have table := call_table xx bounded slot call
  rw [counts] at table
  have after : (policy.call xx slot call).2.frequency xx key =
      (policy.count xx key).frequency xx key := by
    rw [frequency, frequency, table]
    rfl
  rw [after]
  exact frequency_le_count noWrap

end Operations

end Policy

structure CacheStripe.CountsUp (xx : XxHash) (before after : CacheStripe)
    (call : CacheCall) (reply : CacheReply) : Prop where
  /-- No counter is at its top when it is incremented. -/
  noWrap : ∀ key ∈ call.increments reply, ∀ row < before.cms.depth,
    before.cms.counters (before.cms.slot row (before.cms.hash xx key row)) + 1 <
      uint32Size
  hit : ∀ key value, call = .get key → reply = .value (some value) →
    before.cms.estimate xx key ≤ after.cms.estimate xx key
  /-- A put without a decay. -/
  put : ∀ key value, call = .put key value →
    before.opsSinceDecay + 1 < before.config.decayInterval →
      before.cms.estimate xx key ≤ after.cms.estimate xx key

namespace StripeSystem

variable {count : Nat}

def CountsUp (xx : XxHash) (i : Fin count) :
    List (Fin count × CacheCall) → StripeSystem count → Prop
  | [], _ => True
  | (j, call) :: rest, system =>
      ∀ result next,
        system.call xx SlabAllocator.allocator j call = some (result, next) →
        (j = i → (system.stripe i).CountsUp xx (next.stripe i) call result.1) ∧
          CountsUp xx i rest next

def operations (xx : XxHash) (i : Fin count) :
    List (Fin count × CacheCall) → StripeSystem count → List (Operation Key)
  | [], _ => []
  | (j, call) :: rest, system =>
      (if j = i then (system.stripe i).operations call else []) ++
        match system.call xx SlabAllocator.allocator j call with
        | some (_, next) => operations xx i rest next
        | none => []

section Shows

variable {capacity : Nat} {system : StripeSystem count}
  {views : Fin count → SlabView} {lists : Fin count → Place → List Nat}
  {policies : Fin count → Policy}

theorem Shows.operations (shows' : system.Shows capacity views lists policies)
    (i : Fin count) (call : CacheCall) :
    (system.stripe i).operations call = (policies i).operations call := by
  have shown := (shows'.sim i).shows'
  cases call with
  | get key =>
      have found := shows'.find i key
      have resident : ((system.stripe i).indexMap.lookup key).isSome ↔
          key ∈ (policies i).keys := by
        rw [← not_iff_not, ← Policy.find_eq_none, ← found]
        simp
      simp only [CacheStripe.operations, Policy.operations, resident]
  | put key value =>
      simp only [CacheStripe.operations, Policy.operations, shown.config,
        shown.puts]
  | remove key => rfl

theorem Shows.update_table
    (shows' : system.Shows capacity views lists policies) (xx : XxHash)
    (i j : Fin count) (slot : Bool) (call : CacheCall) :
    (Function.update policies j ((policies j).call xx slot call).2 i).table =
      (if j = i then (system.stripe i).operations call else []).foldl
        (Operation.onTable uint32Size 4 (Policy.column xx))
        (policies i).table := by
  by_cases same : j = i
  · subst same
    rw [if_pos rfl, Function.update_self, shows'.operations,
      Policy.call_table xx (shows'.bounded j)]
  · rw [if_neg same, Function.update_of_ne (Ne.symm same)]
    rfl

/-- A call counts up just in case no counter wraps. -/
theorem Shows.countsUp_fit {xx : XxHash} {i : Fin count}
    (shows' : system.Shows capacity views lists policies) {slot : Bool}
    {call : CacheCall} {next : StripeSystem count}
    {views' : Fin count → SlabView} {lists' : Fin count → Place → List Nat}
    {policies' : Fin count → Policy}
    (after : next.Shows capacity views' lists' policies')
    (called : policies' i = ((policies i).call xx slot call).2) :
    (system.stripe i).CountsUp xx (next.stripe i) call
        ((policies i).call xx slot call).1.1 ↔
      Fit uint32Size 4 (Policy.column xx)
        ((system.stripe i).operations call) (policies i).table := by
  have depth := (shows'.sim i).shows'.depth
  have noWraps : (∀ key ∈ call.increments ((policies i).call xx slot call).1.1,
      ∀ row < (system.stripe i).cms.depth,
        (system.stripe i).cms.counters ((system.stripe i).cms.slot row
          ((system.stripe i).cms.hash xx key row)) + 1 < uint32Size) ↔
      Fit uint32Size 4 (Policy.column xx)
        ((policies i).operations call) (policies i).table := by
    rw [Policy.fit_iff, depth]
    refine forall₂_congr fun key _ => forall₂_congr fun row rowLt => ?_
    rw [shows'.counter xx i key rowLt]
  rw [shows'.operations, ← noWraps]
  refine ⟨fun countsUp => countsUp.noWrap, fun noWrap => ?_⟩
  have rises : ∀ key, (policies i).operations call = [.increment key] →
      (system.stripe i).cms.estimate xx key ≤
        (next.stripe i).cms.estimate xx key := by
    intro key counts
    have fits := noWraps.mp noWrap
    rw [counts] at fits
    rw [(shows'.sim i).shows'.frequency, (after.sim i).shows'.frequency, called]
    exact Policy.frequency_le_call (shows'.bounded i) counts fits.1
  refine ⟨noWrap, ?_, ?_⟩
  · rintro key value rfl reply
    have found : (policies i).find key = some value :=
      (Policy.get_fst xx (policies i) key).symm.trans
        (CacheReply.value.inj reply)
    exact rises key (if_pos (Policy.mem_keys.mpr ⟨value, Policy.find_mem found⟩))
  · rintro key value rfl early
    refine rises key (if_neg ?_)
    rw [(shows'.sim i).shows'.config, (shows'.sim i).shows'.puts]
    omega

end Shows

theorem Follows.countsUp_fit {xx : XxHash} {i : Fin count} {capacity : Nat}
    {system : StripeSystem count} {policies : Fin count → Policy}
    (follows : system.Follows capacity policies)
    (calls : List (Fin count × CacheCall)) :
    system.CountsUp xx i calls ↔
      Fit uint32Size 4 (Policy.column xx) (system.operations xx i calls)
        (policies i).table := by
  induction calls generalizing system policies with
  | nil => exact Iff.rfl
  | cons head rest induction =>
      rcases head with ⟨j, call⟩
      rcases follows.call SlabAllocator.lawful xx j call with
        ⟨slot, next, -, called, nextFollows⟩
      have later := induction nextFollows
      have first : (j = i → (system.stripe i).CountsUp xx (next.stripe i) call
            ((policies j).call xx slot call).1.1) ↔
          Fit uint32Size 4 (Policy.column xx)
            (if j = i then (system.stripe i).operations call else [])
            (policies i).table := by
        rcases follows with ⟨views, lists, shows'⟩
        rcases nextFollows with ⟨views', lists', after⟩
        by_cases same : j = i
        · subst same
          have step : (system.stripe j).CountsUp xx (next.stripe j) call
              ((policies j).call xx slot call).1.1 ↔ _ :=
            shows'.countsUp_fit after (Function.update_self j _ policies)
          rw [if_pos rfl, ← step]
          exact forall_prop_of_true rfl
        · rw [if_neg same]
          exact iff_of_true (fun equal => absurd equal same) trivial
      rcases follows with ⟨views, lists, shows'⟩
      have table := shows'.update_table xx i j slot call
      rw [operations, called, fit_append, ← table]
      dsimp only
      rw [← later, ← first]
      constructor
      · intro countsUp
        exact countsUp _ _ called
      · rintro ⟨here, there⟩ result next' called'
        rw [called] at called'
        cases called'
        exact ⟨here, there⟩

/-- No counter of a stripe ever wraps, and no get hit or put without a decay
lowers the estimate of its key, exactly in the runs in which the puts and hits
of the keys of any column, halved at every decay, stay below `2 ^ 32`. -/
theorem countsUp_iff (xx : XxHash) {slabCapacity : Nat}
    (fits : slabCapacity < uint32Size) {settings : Fin count → StripeSettings}
    {start : StripeSystem count}
    (made : StripeSystem.new slabCapacity settings = some start)
    (i : Fin count) (calls : List (Fin count × CacheCall)) :
    start.CountsUp xx i calls ↔ ∀ n, ∀ row < 4, ∀ col,
      tally (CountMinSketch.columns xx 512 · row = col)
        ((start.operations xx i calls).take n) < uint32Size := by
  have counts : ∀ row < 4, ∀ col, (policies settings i).table row col =
      tally (Policy.column xx · row = col) [] := fun _ _ _ => rfl
  have below : ∀ row < 4, ∀ col,
      (policies settings i).table row col < uint32Size := fun _ _ _ =>
    (by decide : 0 < uint32Size)
  rw [(new_follows fits made).countsUp_fit calls, fit_iff_tally counts below]
  rfl

theorem countsUp_iff_sample :
    ∃ start, StripeSystem.new 4 (fun _ : Fin 2 => .sample) = some start ∧
      (start.CountsUp .sample 0
          [(0, .put "k" "1"), (1, .put "k" "1"), (0, .get "k")] ↔
        ∀ n, ∀ row < 4, ∀ col,
          tally (CountMinSketch.columns .sample 512 · row = col)
            ((start.operations .sample 0 [(0, .put "k" "1"),
              (1, .put "k" "1"), (0, .get "k")]).take n) < uint32Size) := by
  rcases new_eq_some (by decide : 0 < 4)
      (fun _ : Fin 2 => (by decide : 3 ≤ StripeSettings.sample.capacity)) with
    ⟨start, made⟩
  exact ⟨start, made, countsUp_iff .sample (by decide) made 0 _⟩

/-! ## A key that wraps -/

section Hits

variable {xx : XxHash} {i : Fin count} {capacity : Nat} {key : Key}
  {value : Value} {before : Nat} {system : StripeSystem count}
  {policies : Fin count → Policy}

theorem Follows.hit (follows : system.Follows capacity policies)
    (resident : (policies i).find key = some value)
    (counted : ∀ row < 4, (policies i).table row (Policy.column xx key row) =
      before % uint32Size) :
    ∃ system' policies',
      system.call xx SlabAllocator.allocator i (.get key) =
        some ((.value (some value), []), system') ∧
      system'.Follows capacity policies' ∧
      (policies' i).find key = some value ∧
      ∀ row < 4, (policies' i).table row (Policy.column xx key row) =
        (before + 1) % uint32Size := by
  rcases follows.call SlabAllocator.lawful xx i (.get key) with
    ⟨slot, system', -, called, follows'⟩
  rcases follows with ⟨views, lists, shows'⟩
  have result : ((policies i).call xx slot (.get key)).1 =
      (.value (some value), []) := by
    rw [← resident, ← Policy.get_fst xx]
    rfl
  rw [result] at called
  refine ⟨system', _, called, follows', ?_, ?_⟩
  · rw [Function.update_self]
    exact (congrFun ((shows'.distinct i).find_perm
      (Policy.get_perm xx (policies i) key)) key).trans resident
  · intro row rowLt
    have inside : key ∈ (policies i).keys :=
      Policy.mem_keys.mpr ⟨value, Policy.find_mem resident⟩
    rw [Function.update_self, Policy.call_table xx (shows'.bounded i),
      Policy.operations, if_pos inside, List.foldl_cons, List.foldl_nil,
      Operation.onTable, Table.bump_of_eq rowLt, counted row rowLt,
      Nat.mod_add_mod]

theorem Follows.run_hits (hits : Nat)
    (follows : system.Follows capacity policies)
    (resident : (policies i).find key = some value)
    (counted : ∀ row < 4, (policies i).table row (Policy.column xx key row) =
      before % uint32Size) :
    ∃ results system' policies',
      system.run xx SlabAllocator.allocator
        (List.replicate hits (i, .get key)) = some (results, system') ∧
      system'.Follows capacity policies' ∧
      (policies' i).find key = some value ∧
      ∀ row < 4, (policies' i).table row (Policy.column xx key row) =
        (before + hits) % uint32Size := by
  induction hits generalizing system policies before with
  | zero => exact ⟨[], system, policies, rfl, follows, resident, counted⟩
  | succ hits induction =>
      rcases follows.hit resident counted with
        ⟨middle, _, called, middleFollows, residentAfter, countedAfter⟩
      rcases induction middleFollows residentAfter countedAfter with
        ⟨results, system', policies', ran, follows', resident', counted'⟩
      refine ⟨_, system', policies', run_cons called ran, follows', resident',
        fun row rowLt => ?_⟩
      rw [counted' row rowLt, Nat.add_assoc, Nat.add_comm 1]

end Hits

theorem Follows.estimate_eq {xx : XxHash} {i : Fin count} {capacity : Nat}
    {key : Key} {system : StripeSystem count} {policies : Fin count → Policy}
    (follows : system.Follows capacity policies) {counted : Nat}
    (fits : counted < uint32Size)
    (same : ∀ row < 4,
      (policies i).table row (Policy.column xx key row) = counted) :
    (system.stripe i).cms.estimate xx key = counted := by
  rcases follows with ⟨views, lists, shows'⟩
  rw [(shows'.sim i).shows'.frequency xx key, Policy.frequency]
  refine Nat.le_antisymm ?_ ?_
  · exact (Table.least_le (by decide : 0 < 4)).trans (same 0 (by decide)).le
  · exact Table.le_least_iff.mpr
      ⟨Nat.le_sub_one_of_lt fits, fun row rowLt => (same row rowLt).ge⟩

/-- After one put of a key and `2 ^ 32 - 2` gets of it, the next get finds the
key and takes its estimate from `2 ^ 32 - 1` to zero. -/
theorem estimate_wraps :
    ∃ start results, ∃ before after : StripeSystem 1,
      StripeSystem.new 4 (fun _ => .sample) = some start ∧
      start.run .sample SlabAllocator.allocator ((0, .put "k" "1") ::
        List.replicate (uint32Size - 2) (0, .get "k")) =
          some (results, before) ∧
      before.call .sample SlabAllocator.allocator 0 (.get "k") =
        some ((.value (some "1"), []), after) ∧
      (before.stripe 0).cms.estimate .sample "k" = uint32Size - 1 ∧
      (after.stripe 0).cms.estimate .sample "k" = 0 := by
  rcases new_eq_some (by decide : 0 < 4)
      (fun _ : Fin 1 => (by decide : 3 ≤ StripeSettings.sample.capacity)) with
    ⟨start, made⟩
  have follows := new_follows (by decide) made
  rcases follows.call SlabAllocator.lawful .sample 0 (.put "k" "1") with
    ⟨slot, first, room, called, firstFollows⟩
  obtain rfl : slot = true := room (by decide)
  have resident : ((policies (fun _ : Fin 1 => StripeSettings.sample) 0).call
      .sample true (.put "k" "1")).2.find "k" = some "1" := by
    decide +kernel
  have counted : ∀ row < 4, ((policies (fun _ : Fin 1 =>
      StripeSettings.sample) 0).call .sample true (.put "k" "1")).2.table row
        (Policy.column .sample "k" row) = 1 % uint32Size := by
    decide +kernel
  rcases firstFollows.run_hits (uint32Size - 2)
      (by rwa [Function.update_self]) (by rwa [Function.update_self]) with
    ⟨results, before, policies', ran, follows', resident', counted'⟩
  rcases follows'.hit resident' counted' with
    ⟨after, policies'', calledLast, follows'', -, counted''⟩
  refine ⟨start, _, before, after, made, run_cons called ran, calledLast, ?_, ?_⟩
  · exact follows'.estimate_eq (by decide) fun row rowLt =>
      (counted' row rowLt).trans (by decide)
  · exact follows''.estimate_eq (by decide) fun row rowLt =>
      (counted'' row rowLt).trans (by decide)

end StripeSystem

end Walde
