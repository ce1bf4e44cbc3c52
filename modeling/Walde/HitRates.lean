import Mathlib.Algebra.Order.Field.Basic
import Mathlib.Algebra.Order.Field.Rat
import Walde.Accounting
import Walde.Foundation.Observer

namespace Walde

open Foundation Foundation.Observer

/-! # Hit rates

A hit rate holds no lock: it loads the hits and the misses of every stripe for
the total, and then the hits of every stripe again. Counters are natural numbers
here: that a `uint64_t` wraps around after `2 ^ 64` events is left out. -/

/-- The counters that the hit rates load. -/
inductive Counter
  | l1Hits (i : Fin kNumStripes)
  | l1Misses (i : Fin kNumStripes)
  | l2Hits (i : Fin kNumL2Stripes)
deriving DecidableEq, Repr

namespace Counter

def value : Counter → CacheEngine → Nat
  | .l1Hits i, engine => (engine.l1.stripe i).stats.hits
  | .l1Misses i, engine => (engine.l1.stripe i).stats.misses
  | .l2Hits i, engine => (engine.l2Stripes i).hits

def allL1Hits : List Counter := (List.finRange kNumStripes).map .l1Hits

def allL1Misses : List Counter := (List.finRange kNumStripes).map .l1Misses

def allL2Hits : List Counter := (List.finRange kNumL2Stripes).map .l2Hits

end Counter

abbrev StatsProgram := Program fun _ : Counter => Nat

namespace StatsProgram

def totalHits : StatsProgram Nat := sumFrom 0 Counter.allL1Hits

def totalMisses : StatsProgram Nat := sumFrom 0 Counter.allL1Misses

def l2Hits : StatsProgram Nat := sumFrom 0 Counter.allL2Hits

/-- The quotient is exact, where the source rounds it to a `double`. -/
def l1HitRate (order : SumOrder) : StatsProgram ℚ := do
  let total ← add totalHits totalMisses order
  if total = 0 then return 0
  let hits ← totalHits
  return hits / total

def overallHitRate (order hitsOrder : SumOrder) : StatsProgram ℚ := do
  let total ← add totalHits totalMisses order
  if total = 0 then return 0
  let hits ← add totalHits l2Hits hitsOrder
  return hits / total

end StatsProgram

inductive RateCall
  | l1HitRate (order : SumOrder)
  | overallHitRate (order hitsOrder : SumOrder)
deriving DecidableEq, Repr

namespace RateCall

def program : RateCall → StatsProgram ℚ
  | .l1HitRate order => .l1HitRate order
  | .overallHitRate order hitsOrder => .overallHitRate order hitsOrder

/-- Whether what is counted on a counter that was loaded so often is in the hits
of the rate but not in its total: a hit of L1 between the two loads, or a hit of
L2 before the only one. -/
def late : RateCall → Counter → Nat → Bool
  | _, .l1Hits _, loads => loads = 1
  | .overallHitRate _ _, .l2Hits _, loads => loads = 0
  | _, _, _ => false

end RateCall

namespace Counter

def seen : Counter → Nat → Bool
  | .l1Hits _, loads => loads = 0
  | .l1Misses _, loads => loads = 0
  | .l2Hits _, _ => false

def missed : Counter → Nat → Bool
  | .l1Misses _, loads => loads = 0
  | _, _ => false

end Counter

/-! ## Which counter moves -/

def EngineInstr.counts (xx : XxHash) :
    (instr : EngineInstr) → EngineAnswer instr → Option Counter
  | .l1Get key, some _ => some (.l1Hits (StripedCache.route xx key))
  | .l1Get key, none => some (.l1Misses (StripedCache.route xx key))
  | .l2Get key, some _ => some (.l2Hits (CacheEngine.l2StripeIndex xx key))
  | _, _ => none

def CacheEngine.counts (xx : XxHash) (engine : CacheEngine)
    (instr : EngineInstr) : Option Counter :=
  (perform xx instr engine).bind fun outcome => instr.counts xx outcome.1

def EngineThreads.counts {Thread : Type} (xx : XxHash)
    (state : EngineThreads Thread) (move : Threads.Move Thread CacheCall) :
    Option Counter :=
  (performed state move).bind (state.shared.counts xx)

namespace CacheEngine

theorem new_value {config : CacheEngineConfig}
    {store : AList fun _ : Key => Value} {engine : CacheEngine}
    (made : CacheEngine.new config (.new store) = some engine)
    (counter : Counter) : counter.value engine = 0 := by
  cases counter with
  | l1Hits i =>
      exact congrArg StripeNumbers.hits (EngineThreads.new_numbers made i)
  | l1Misses i =>
      exact congrArg StripeNumbers.misses (EngineThreads.new_numbers made i)
  | l2Hits i =>
      rcases Option.map_eq_some_iff.mp made with ⟨l1, l1Made, rfl⟩
      rfl

variable {xx : XxHash} {config : CacheEngineConfig}
  {engine after : CacheEngine} {instr : EngineInstr}
  {answer : EngineAnswer instr}

theorem counts_eq (handled : perform xx instr engine = some (answer, after)) :
    engine.counts xx instr = instr.counts xx answer := by
  rw [counts, handled]
  rfl

def l1Counts (xx : XxHash) (call : CacheCall) (reply : CacheReply) :
    Option Counter :=
  if call.isGet then
    some (if reply = .value none then
        .l1Misses (StripedCache.route xx call.key)
      else .l1Hits (StripedCache.route xx call.key))
  else none

theorem l1Counts_cases {call : CacheCall} {reply : CacheReply}
    {counter : Counter} (counted : l1Counts xx call reply = some counter) :
    counter = .l1Misses (StripedCache.route xx call.key) ∨
      counter = .l1Hits (StripedCache.route xx call.key) := by
  unfold l1Counts at counted
  split at counted
  · split at counted
    · exact .inl (Option.some.inj counted).symm
    · exact .inr (Option.some.inj counted).symm
  · cases counted

theorem Valid.value_afterL1 (valid : engine.Valid xx config)
    {call : CacheCall} {reply : CacheReply} {offered : List DemotionItem}
    {l1 : StripedCache}
    (called : engine.l1.call xx call = some ((reply, offered), l1))
    (silent : call.isGet = false → reply ≠ .value none) (counter : Counter) :
    counter.value (engine.afterL1 l1 offered) = counter.value engine +
      if l1Counts xx call reply = some counter then 1 else 0 := by
  rcases valid.l1 with ⟨policies, l1Valid⟩
  rcases l1Valid.call_numbers called with ⟨⟨lookups, misses, -, -⟩, others⟩
  simp only [CacheStripe.numbers] at lookups misses
  have stripes : ∀ i,
      (l1.stripe i).stats.hits = (engine.l1.stripe i).stats.hits +
          (if l1Counts xx call reply = some (.l1Hits i) then 1 else 0) ∧
        (l1.stripe i).stats.misses = (engine.l1.stripe i).stats.misses +
          if l1Counts xx call reply = some (.l1Misses i) then 1 else 0 := by
    intro i
    by_cases here : StripedCache.route xx call.key = i
    · subst here
      cases isGet : call.isGet with
      | false =>
          simp only [l1Counts, isGet, silent isGet, decide_false,
            Bool.toNat_false, Nat.add_zero] at lookups misses ⊢
          simp
          omega
      | true =>
          by_cases missed : reply = .value none
          · simp [l1Counts, isGet, missed] at lookups misses ⊢
            omega
          · simp [l1Counts, isGet, missed] at lookups misses ⊢
            omega
    · have hits : (l1.stripe i).stats.hits = (engine.l1.stripe i).stats.hits :=
        congrArg StripeNumbers.hits (others i (Ne.symm here))
      have misses : (l1.stripe i).stats.misses =
          (engine.l1.stripe i).stats.misses :=
        congrArg StripeNumbers.misses (others i (Ne.symm here))
      rw [hits, misses, if_neg, if_neg]
      · exact ⟨rfl, rfl⟩
      · intro counted
        simpa [Ne.symm here] using l1Counts_cases counted
      · intro counted
        simpa [Ne.symm here] using l1Counts_cases counted
  cases counter with
  | l1Hits i => exact (stripes i).1
  | l1Misses i => exact (stripes i).2
  | l2Hits i =>
      rw [if_neg]
      · rfl
      · intro counted
        simpa using l1Counts_cases counted

theorem value_afterL2 {i : Fin kNumL2Stripes} {stripe : L2Stripe}
    {found : Option Value}
    (hits : stripe.hits = (engine.l2Stripes i).hits + found.isSome.toNat)
    (counter : Counter) :
    counter.value (engine.afterL2 i stripe) = counter.value engine +
      if (found.map fun _ => Counter.l2Hits i) = some counter then 1
      else 0 := by
  cases counter with
  | l1Hits j => cases found <;> rfl
  | l1Misses j => cases found <;> rfl
  | l2Hits j =>
      simp only [Counter.value, afterL2]
      by_cases here : j = i
      · subst here
        rw [Function.update_self, hits]
        cases found <;> simp
      · rw [Function.update_of_ne here]
        cases found <;> simp [Ne.symm here]

theorem counts_eq_l1Counts {call : CacheCall} {reply : CacheReply}
    (isCall : instr.l1Call = some call)
    (goesOnTo : instr.goesOnTo answer =
      if reply = .value none then some .l2 else none) :
    instr.counts xx answer = l1Counts xx call reply ∧
      (call.isGet = false → reply ≠ .value none) := by
  have missed : instr.goesOnTo answer = some .l2 → reply = .value none := by
    intro goes
    by_contra found
    rw [goes, if_neg found] at goesOnTo
    cases goesOnTo
  have found : instr.goesOnTo answer = none → reply ≠ .value none := by
    intro stays missed
    rw [stays, if_pos missed] at goesOnTo
    cases goesOnTo
  cases instr with
  | l1Get key =>
      cases isCall
      refine ⟨?_, nofun⟩
      cases answer with
      | none =>
          rw [missed rfl]
          rfl
      | some value =>
          simp [EngineInstr.counts, l1Counts, CacheCall.isGet, CacheCall.key,
            found rfl]
  | l1Put key value =>
      cases isCall
      exact ⟨rfl, fun _ => found rfl⟩
  | l1Remove key =>
      cases isCall
      exact ⟨rfl, fun _ => found rfl⟩
  | _ => cases isCall

theorem Valid.perform_value (valid : engine.Valid xx config)
    (handled : CacheEngine.perform xx instr engine = some (answer, after))
    (counter : Counter) :
    counter.value after = counter.value engine +
      if engine.counts xx instr = some counter then 1 else 0 := by
  rw [counts_eq handled]
  cases isCall : instr.l1Call with
  | some call =>
      rcases perform_l1 handled isCall with
        ⟨reply, offered, l1, called, rfl, -, goesOnTo⟩
      rcases @counts_eq_l1Counts xx _ _ _ _ isCall goesOnTo with
        ⟨counts, silent⟩
      rw [counts]
      exact valid.value_afterL1 called silent counter
  | none =>
      cases instr with
      | l1Get key => cases isCall
      | l1Put key value => cases isCall
      | l1Remove key => cases isCall
      | l2Get key =>
          rcases Option.bind_eq_some_iff.mp handled with
            ⟨⟨_, stripe⟩, got, equal⟩
          cases equal
          rw [value_afterL2 (L2Stripe.get_hits got) counter]
          cases answer <;> rfl
      | l2Remove key =>
          cases handled
          exact @value_afterL2 engine _ _ none
            (L2Stripe.remove_counts _ key).1 counter
      | backendGet key =>
          cases handled
          cases counter <;> rfl
      | backendPut key value =>
          cases handled
          cases counter <;> rfl
      | backendRemove key =>
          cases handled
          cases counter <;> rfl

theorem drain_value (drained : engine.drain xx = some after)
    (counter : Counter) : counter.value after = counter.value engine := by
  unfold drain at drained
  rcases stepped : engine.drainer.step engine.demotionQueue with
    ⟨delivered, drainer, demotionQueue⟩
  rw [stepped] at drained
  have moved : counter.value { engine with drainer, demotionQueue } =
      counter.value engine := by
    cases counter <;> rfl
  cases delivered with
  | none =>
      cases drained
      exact moved
  | some item =>
      rcases Option.bind_eq_some_iff.mp drained with ⟨stripe, put, equal⟩
      cases equal
      rw [← moved]
      exact @value_afterL2 { engine with drainer, demotionQueue } _ _ none
        (L2Stripe.put_counts put).1 counter

end CacheEngine

/-! ## What a rate makes of its loads -/

namespace Counter

theorem nodup_allL1Hits : allL1Hits.Nodup :=
  (List.nodup_finRange _).map fun _ _ => l1Hits.inj

theorem nodup_allL1Misses : allL1Misses.Nodup :=
  (List.nodup_finRange _).map fun _ _ => l1Misses.inj

theorem nodup_allL2Hits : allL2Hits.Nodup :=
  (List.nodup_finRange _).map fun _ _ => l2Hits.inj

@[simp] theorem mem_allL1Hits (counter : Counter) :
    counter ∈ allL1Hits ↔ ∃ i, counter = .l1Hits i := by
  simp [allL1Hits, eq_comm]

@[simp] theorem mem_allL1Misses (counter : Counter) :
    counter ∈ allL1Misses ↔ ∃ i, counter = .l1Misses i := by
  simp [allL1Misses, eq_comm]

@[simp] theorem mem_allL2Hits (counter : Counter) :
    counter ∈ allL2Hits ↔ ∃ i, counter = .l2Hits i := by
  simp [allL2Hits, eq_comm]

def all : List Counter := allL1Hits ++ allL1Misses

theorem apart_misses : allL1Hits.Disjoint allL1Misses := by
  intro counter hit miss
  rcases (mem_allL1Hits counter).mp hit with ⟨i, rfl⟩
  simp at miss

theorem apart_l2Hits : allL1Hits.Disjoint allL2Hits := by
  intro counter hit hit'
  rcases (mem_allL1Hits counter).mp hit with ⟨i, rfl⟩
  simp at hit'

theorem nodup_all : all.Nodup :=
  nodup_allL1Hits.append nodup_allL1Misses apart_misses

@[simp] theorem count_l1Hits (i : Fin kNumStripes) :
    all.count (.l1Hits i) = 1 :=
  List.count_eq_one_of_mem nodup_all (by simp [all])

@[simp] theorem count_l2Hits (i : Fin kNumL2Stripes) :
    all.count (.l2Hits i) = 0 :=
  List.count_eq_zero_of_not_mem (by simp [all])

theorem seen_eq (counter : Counter) (loads : Nat) :
    decide (counter ∈ all ∧ loads ≤ 0) = counter.seen loads := by
  cases counter <;> simp [all, seen]

end Counter

namespace RateCall

def hits : RateCall → List Counter
  | .l1HitRate _ => Counter.allL1Hits
  | .overallHitRate _ _ => Counter.allL1Hits ++ Counter.allL2Hits

theorem nodup_hits (call : RateCall) : call.hits.Nodup := by
  cases call with
  | l1HitRate order => exact Counter.nodup_allL1Hits
  | overallHitRate order hitsOrder =>
      exact Counter.nodup_allL1Hits.append Counter.nodup_allL2Hits
        Counter.apart_l2Hits

/-- What is counted on a counter before it is loaded is in the total or in the
hits: the misses are only in the total, and what comes late only in the hits. -/
theorem kinds_add (call : RateCall) (counter : Counter) (loads : Nat) :
    (decide (counter ∈ call.hits ∧
        loads ≤ Counter.all.count counter)).toNat +
          (counter.missed loads).toNat =
      (counter.seen loads).toNat + (call.late counter loads).toNat := by
  cases counter with
  | l1Hits i =>
      have hit : Counter.l1Hits i ∈ call.hits := by
        cases call <;> simp [hits]
      have once : (decide (loads ≤ 1)).toNat =
          (decide (loads = 0)).toNat + (decide (loads = 1)).toNat := by
        rcases loads with _ | _ | loads <;> simp
      cases call <;> simpa [hit, Counter.missed, Counter.seen, late] using once
  | l1Misses i =>
      cases call <;> simp [hits, Counter.missed, Counter.seen, late]
  | l2Hits i =>
      cases call <;> simp [hits, Counter.missed, Counter.seen, late]

end RateCall

namespace StatsProgram

variable (sight : Counter → Nat → Nat)

theorem adds_total (order : SumOrder) :
    Adds (add totalHits totalMisses order) Counter.all :=
  .add (.sumFrom Counter.nodup_allL1Hits) (.sumFrom Counter.nodup_allL1Misses)
    Counter.apart_misses order

theorem run_ratio {total hits : StatsProgram Nat}
    {counters counters' : List Counter} (adds : Adds total counters)
    (adds' : Adds hits counters') {rate : ℚ} {loads : Counter → Nat}
    (ran : (do
        let total ← total
        if total = 0 then return 0
        let hits ← hits
        return hits / total : StatsProgram ℚ).run (replay sight)
      (fun _ => 0) = some (rate, loads)) :
    let total := (counters.map fun counter => sight counter 0).sum
    let hits := (counters'.map fun counter =>
      sight counter (counters.count counter)).sum
    rate = if total = 0 then 0 else (hits / total : ℚ) := by
  intro total' hits'
  rw [Program.run_bind, adds, Option.bind_some] at ran
  change (if total' = 0 then pure 0 else do
      let hits ← hits
      return hits / total' : StatsProgram ℚ).run (replay sight)
    (fun counter => 0 + counters.count counter) = some (rate, loads) at ran
  split at ran
  · cases ran
    rw [if_pos ‹_›]
  · rw [Program.run_bind, adds', Option.bind_some] at ran
    cases ran
    rw [if_neg ‹_›]
    simp only [hits', Nat.zero_add]

/-- A rate is the sum of the loads of its hits over the sum of the first loads
of its total; the hits of L1 are loaded for the second time. -/
theorem run_program (call : RateCall) {rate : ℚ} {loads : Counter → Nat}
    (ran : call.program.run (replay sight) (fun _ => 0) = some (rate, loads)) :
    let total := (Counter.all.map fun counter => sight counter 0).sum
    let hits := (call.hits.map fun counter =>
      sight counter (Counter.all.count counter)).sum
    rate = if total = 0 then 0 else (hits / total : ℚ) := by
  cases call with
  | l1HitRate order =>
      exact run_ratio sight (adds_total order)
        (.sumFrom Counter.nodup_allL1Hits) ran
  | overallHitRate order hitsOrder =>
      exact run_ratio sight (adds_total order)
        (.add (.sumFrom Counter.nodup_allL1Hits)
          (.sumFrom Counter.nodup_allL2Hits) Counter.apart_l2Hits hitsOrder) ran

end StatsProgram

/-! ## When a rate is a rate -/

namespace EngineThreads

variable {Thread : Type} [DecidableEq Thread]

def countValue (counter : Counter) (state : EngineThreads Thread) : Nat :=
  counter.value state.shared

def rateMachine (xx : XxHash) :
    Machine (Observer.State (EngineThreads Thread) Counter ℚ)
      (Observer.Move (Threads.Move Thread CacheCall))
      (Option (Option CacheReply)) :=
  Observer.machine (machine xx) countValue

theorem Orderly.move_value {xx : XxHash} {config : CacheEngineConfig}
    {state after : EngineThreads Thread} {move : Threads.Move Thread CacheCall}
    {reply : Option CacheReply} (orderly : Orderly xx config state)
    (ran : machine xx state move = some (reply, after)) (counter : Counter) :
    countValue counter after = countValue counter state +
      if state.counts xx move = some counter then 1 else 0 := by
  cases Threads.moved ran with
  | enter call idle => rfl
  | @perform thread call instr next answer shared busy handled =>
      have head : state.head thread = some instr :=
        Threads.State.head_of_busy busy
      rw [counts, performed, head, Option.bind_some]
      exact orderly.valid.perform_value handled counter
  | leave busy => rfl
  | background stepped => exact CacheEngine.drain_value stepped counter

section Rate

variable {xx : XxHash} {config : CacheEngineConfig}
  {store : AList fun _ : Key => Value} {engine : CacheEngine}
  {program : StatsProgram ℚ}
  {moves : List (Observer.Move (Threads.Move Thread CacheCall))}
  {replies : List (Option (Option CacheReply))}
  {last : Observer.State (EngineThreads Thread) Counter ℚ}

theorem sights_eq (made : CacheEngine.new config (.new store) = some engine)
    (ran : (rateMachine xx).run moves (.start (.start engine) program) =
      some (replies, last))
    {counters : List Counter} (nodup : counters.Nodup) (n : Counter → Nat) :
    (counters.map fun counter =>
        last.sight countValue counter (n counter)).sum =
      (rateMachine xx).tally (during (counts xx) fun counter loads =>
        counter ∈ counters ∧ loads ≤ n counter) moves
          (.start (.start engine) program) := by
  have start : Orderly xx config (.start engine : EngineThreads Thread) :=
    ⟨.new made, .start engine⟩
  have step : ∀ {before after : EngineThreads Thread} {move reply},
      Orderly xx config before →
      machine xx before move = some (reply, after) →
      Orderly xx config after ∧ ∀ counter, countValue counter after =
        countValue counter before +
          if before.counts xx move = some counter then 1 else 0 :=
    fun orderly ran => ⟨orderly.move ran, orderly.move_value ran⟩
  have fresh : ∀ counter,
      countValue counter (.start engine : EngineThreads Thread) = 0 :=
    CacheEngine.new_value made
  rw [sight_sum (sight_run (fun inv ran => step inv ran) start ran) nodup n]
  simp [fresh, rateMachine]

/-- A hit rate that is computed while clients go on is between 0 and 1 if and
only if nothing was counted before it was loaded for the total, or at least as
many misses were counted before they were loaded as hits were counted too late
for the total and early enough for the hits. -/
theorem rate_bounds_iff (xx : XxHash)
    (made : CacheEngine.new config (.new store) = some engine)
    (call : RateCall)
    (ran : (rateMachine xx).run moves (.start (.start engine) call.program) =
      some (replies, last))
    {rate : ℚ} (finished : last.program.result = some rate) :
    let tally kind := (rateMachine xx).tally (during (counts xx) kind) moves
      (.start (.start engine) call.program)
    (0 ≤ rate ∧ rate ≤ 1) ↔
      tally Counter.seen = 0 ∨ tally call.late ≤ tally Counter.missed := by
  intro tally
  have total : (Counter.all.map fun counter =>
      last.sight countValue counter 0).sum = tally Counter.seen := by
    have sum := sights_eq made ran Counter.nodup_all fun _ => 0
    simp only [Counter.seen_eq] at sum
    exact sum
  have balance : (call.hits.map fun counter => last.sight countValue counter
        (Counter.all.count counter)).sum + tally Counter.missed =
      tally Counter.seen + tally call.late := by
    have added := tally_during_congr (machine xx) countValue (counts xx)
      (.start (.start engine) call.program) moves
      [fun counter loads => counter ∈ call.hits ∧
        loads ≤ Counter.all.count counter, Counter.missed]
      [Counter.seen, call.late] (by simpa using call.kinds_add)
    simp only [List.map_cons, List.map_nil, List.sum_cons, List.sum_nil,
      Nat.add_zero] at added
    rw [sights_eq made ran call.nodup_hits Counter.all.count]
    exact added
  have equal := StatsProgram.run_program _ call
    (run_replay ran (Program.result_eq_some finished))
  simp only [total] at equal
  rw [equal]
  by_cases nothing : tally Counter.seen = 0
  · simp [nothing]
  · have positive : (0 : ℚ) < tally Counter.seen :=
      Nat.cast_pos.mpr (Nat.pos_of_ne_zero nothing)
    rw [if_neg nothing, div_le_one positive, Nat.cast_le]
    constructor
    · rintro ⟨-, atMost⟩
      right
      omega
    · rintro (none | few)
      · exact absurd none nothing
      · refine ⟨div_nonneg (Nat.cast_nonneg _) positive.le, ?_⟩
        omega

end Rate

def missingGet : List (Observer.Move (Threads.Move Bool CacheCall)) :=
  [.enter false (.get "k"), .perform false, .perform false, .perform false,
    .perform false, .leave false].map .step

def hittingGet : List (Observer.Move (Threads.Move Bool CacheCall)) :=
  [.enter true (.get "k"), .perform true, .leave true].map .step

/-- One get that misses, the loads of the total, gets that hit, and the loads of
the hits. -/
def lateGets (call : RateCall) (gets : Nat) :
    List (Observer.Move (Threads.Move Bool CacheCall)) :=
  missingGet ++ List.replicate Counter.all.length .load ++
    (List.replicate gets hittingGet).flatten ++
    List.replicate call.hits.length .load

def lateRate (call : RateCall) (gets : Nat) : Option ℚ := do
  let engine ← CacheEngine.new .sample (.new (AList.insert "k" "1" ∅))
  let (_, last) ← (rateMachine .sample).run (lateGets call gets)
    (.start (.start engine) call.program)
  last.program.result

theorem lateRate_run {call : RateCall} {gets : Nat} {rate : ℚ}
    (computed : lateRate call gets = some rate) :
    ∃ engine replies last,
      CacheEngine.new .sample (.new (AList.insert "k" "1" ∅)) = some engine ∧
      (rateMachine .sample).run (lateGets call gets)
        (.start (.start engine) call.program) = some (replies, last) ∧
      last.program.result = some rate := by
  simp only [lateRate, Option.bind_eq_bind, Option.bind_eq_some_iff]
    at computed
  rcases computed with ⟨engine, made, ⟨replies, last⟩, ran, finished⟩
  exact ⟨engine, replies, last, made, ran, finished⟩

/-- Every hit rate comes to 2 when one get misses before its loads, and two gets
hit between the total and the hits. -/
theorem lateRate_eq_two (call : RateCall) : lateRate call 2 = some 2 := by
  cases call with
  | l1HitRate order => cases order <;> decide +kernel
  | overallHitRate order hitsOrder =>
      cases order <;> cases hitsOrder <;> decide +kernel

theorem rate_exceeds_one :
    ∃ engine replies last, ∃ rate : ℚ,
      CacheEngine.new .sample (.new (AList.insert "k" "1" ∅)) = some engine ∧
      (rateMachine .sample).run (lateGets (.l1HitRate .leftFirst) 2)
        (.start (.start engine) (StatsProgram.l1HitRate .leftFirst)) =
          some (replies, last) ∧
      last.program.result = some rate ∧ ¬ (0 ≤ rate ∧ rate ≤ 1) := by
  rcases lateRate_run (lateRate_eq_two (.l1HitRate .leftFirst)) with
    ⟨engine, replies, last, made, ran, finished⟩
  exact ⟨engine, replies, last, 2, made, ran, finished, by norm_num⟩

/-- With one late get, the miss makes up for the hit. -/
theorem rate_bounds_iff_sample :
    ∃ engine replies last,
      CacheEngine.new .sample (.new (AList.insert "k" "1" ∅)) = some engine ∧
      (rateMachine .sample).run (lateGets (.l1HitRate .leftFirst) 1)
        (.start (.start engine) (StatsProgram.l1HitRate .leftFirst)) =
          some (replies, last) ∧
      last.program.result = some 1 ∧
      let tally kind := (rateMachine .sample).tally
        (during (counts .sample) kind) (lateGets (.l1HitRate .leftFirst) 1)
          (.start (.start engine) (StatsProgram.l1HitRate .leftFirst))
      (0 ≤ (1 : ℚ) ∧ (1 : ℚ) ≤ 1) ↔ tally Counter.seen = 0 ∨
        tally (RateCall.l1HitRate .leftFirst).late ≤ tally Counter.missed := by
  have computed : lateRate (.l1HitRate .leftFirst) 1 = some 1 := by
    decide +kernel
  rcases lateRate_run computed with
    ⟨engine, replies, last, made, ran, finished⟩
  exact ⟨engine, replies, last, made, ran, finished,
    rate_bounds_iff .sample made (.l1HitRate .leftFirst) ran finished⟩

end EngineThreads

end Walde
