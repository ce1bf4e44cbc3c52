import Walde.Foundation.Serial
import Walde.LruReplay
import Walde.StripedLruCache
import Walde.WTinyLfuReplay

namespace Walde

open Foundation

/-! # Threads on the baselines

The scaling benchmark runs any number of threads on a cache. A lock makes every
call of the cache one step. The striped cache locks a stripe only, and calls of
different stripes commute. -/

namespace BaselineCache

variable {σ Reply : Type} (baseline : BaselineCache σ Reply)

def finds : BaselineCall → Reply → Bool
  | .get _, reply => baseline.hasValue reply
  | .put _ _, _ => false

def fails : BaselineCall → Reply → Bool
  | .get _, reply => !baseline.hasValue reply
  | .put _ _, _ => false

abbrev Calls (Reply : Type) := Program fun _ : BaselineCall => Reply

def handler : Handler (fun _ : BaselineCall => Reply) σ :=
  fun call cache => baseline.step cache call

def lookUp (key : Key) : Calls Reply (Option Bool) := do
  let v ← Program.perform (.get key)
  if baseline.hasValue v then return some true
  else do
    let _ ← Program.perform (.put key ("value_" ++ key))
    return some false

/-- The body of the loops. An operation that is no put tells whether it has
found its key. -/
def request (op : BenchOp) : Calls Reply (Option Bool) :=
  match op.type with
  | .put => do
      let _ ← Program.perform (.put op.key op.value)
      return none
  | .get | .rmw => baseline.lookUp op.key

def serve (cache : σ) (op : BenchOp) : Option σ :=
  ((baseline.request op).run baseline.handler cache).map Prod.snd

def prepare (ops : List BenchOp) (cache : σ) : Option σ :=
  ops.foldlM baseline.serve cache

def threads {Thread : Type} [DecidableEq Thread] :
    Machine (Threads.State Thread BenchOp (Option Bool) σ
        fun _ : BaselineCall => Reply)
      (Threads.Move Thread BenchOp) (Option (Option Bool)) :=
  Threads.machine baseline.handler baseline.request fun _ => none

/-- The calls that an operation may make, with their replies and what it tells
then. -/
inductive Makes (op : BenchOp) :
    List (Sigma fun _ : BaselineCall => Reply) → Option Bool → Prop
  | stored (type : op.type = .put) (reply : Reply) :
      Makes op [⟨.put op.key op.value, reply⟩] none
  | found (type : op.type ≠ .put) {reply : Reply}
      (found : baseline.hasValue reply = true) :
      Makes op [⟨.get op.key, reply⟩] (some true)
  | refilled (type : op.type ≠ .put) {reply : Reply}
      (missed : baseline.hasValue reply = false) (reply' : Reply) :
      Makes op [⟨.get op.key, reply⟩,
        ⟨.put op.key ("value_" ++ op.key), reply'⟩] (some false)

variable {baseline} {op : BenchOp}

theorem makes_of_performs {calls : List (Sigma fun _ : BaselineCall => Reply)}
    {told : Option Bool}
    (performs : (baseline.request op).Performs calls (.pure told)) :
    baseline.Makes op calls told := by
  have read : op.type ≠ .put →
      Program.Performs (baseline.lookUp op.key) calls (.pure told) →
      baseline.Makes op calls told := by
    intro type performs
    cases performs with
    | @perform _ _ reply rest _ performs =>
        change Program.Performs (if baseline.hasValue reply then _ else _) _ _
          at performs
        cases found : baseline.hasValue reply with
        | true =>
            rw [found, if_pos rfl] at performs
            cases performs
            exact .found type found
        | false =>
            rw [found, if_neg Bool.false_ne_true] at performs
            cases performs with
            | @perform _ _ reply' _ _ performs =>
                cases performs
                exact .refilled type found reply'
  rcases op with ⟨type, key, value⟩
  cases type with
  | get => exact read nofun performs
  | rmw => exact read nofun performs
  | put =>
      cases performs with
      | @perform _ _ reply _ _ performs =>
          cases performs
          exact .stored rfl reply

end BaselineCache

/-! ## Baselines that count -/

/-- A cache whose counters tell its lookups and which never holds more than its
bound, as long as an invariant holds. Some reads may be undefined. -/
structure CountedBaseline (σ Reply : Type) extends BaselineCache σ Reply where
  new : Nat → σ
  Fits : Nat → Prop
  bound : Nat → Nat
  held : σ → Nat
  hits : σ → Nat
  misses : σ → Nat
  hitRate : σ → ℚ
  Inv : Nat → σ → Prop
  Defined : σ → Key → Prop
  started : ∀ {capacity}, Fits capacity → Inv capacity (new capacity)
  stepped : ∀ {capacity cache}, Inv capacity cache → ∀ call,
    (∀ key, call = .get key → Defined cache key) →
    ∃ reply after, step cache call = some (reply, after) ∧
      Inv capacity after ∧
      hits after = hits cache + (toBaselineCache.finds call reply).toNat ∧
      misses after = misses cache + (toBaselineCache.fails call reply).toNat
  faults : ∀ {capacity cache key}, Inv capacity cache → ¬Defined cache key →
    step cache (.get key) = none
  reset : ∀ {capacity cache}, Inv capacity cache →
    Inv capacity (resetStats cache) ∧ hits (resetStats cache) = 0 ∧
      misses (resetStats cache) = 0
  within : ∀ {capacity cache}, Inv capacity cache →
    held cache ≤ bound capacity
  rated : ∀ cache, hitRate cache = rate (hits cache) (hits cache + misses cache)

namespace LruCache

theorem Sound.step {cache : LruCache} (sound : cache.Sound)
    (positive : 1 ≤ cache.capacity) (call : BaselineCall) :
    ∃ reply after, cache.step call = some (reply, after) ∧ after.Sound ∧
      after.capacity = cache.capacity := by
  cases call with
  | get key =>
      by_cases resident : key ∈ KeyedList.keys cache.entries
      · rcases List.mem_map.mp resident with ⟨⟨_, value⟩, member, rfl⟩
        rcases sound.get_hit member with ⟨after, got, sound', same, -⟩
        refine ⟨.value (some value), after, ?_, sound', same⟩
        rw [LruCache.step, got]
        rfl
      · refine ⟨.value none, { cache with misses := cache.misses + 1 }, ?_,
          ⟨sound.indexed, sound.within⟩, rfl⟩
        rw [LruCache.step, get, sound.lookup_eq_none.mpr resident]
        rfl
  | put key value =>
      rcases sound.put positive key value with ⟨after, put, sound', same, -⟩
      refine ⟨.changed (decide (key ∉ KeyedList.keys cache.entries)), after, ?_,
        sound', same⟩
      rw [LruCache.step, put]
      rfl

theorem step_kinds {cache after : LruCache} {call : BaselineCall}
    {reply : CacheReply} (stepped : cache.step call = some (reply, after)) :
    reply.isHit = baseline.finds call reply ∧
      reply.isMiss = baseline.fails call reply := by
  cases call with
  | get key =>
      rcases Option.bind_eq_some_iff.mp stepped with ⟨⟨found, _⟩, -, equal⟩
      cases equal
      cases found <;> exact ⟨rfl, rfl⟩
  | put key value =>
      rcases Option.bind_eq_some_iff.mp stepped with ⟨⟨inserted, _⟩, -, equal⟩
      cases equal
      exact ⟨rfl, rfl⟩

def counted : CountedBaseline LruCache CacheReply where
  toBaselineCache := baseline
  new := new
  Fits capacity := 1 ≤ capacity
  bound capacity := capacity
  held cache := cache.list.length
  hits cache := cache.hits
  misses cache := cache.misses
  hitRate := hitRate
  Inv capacity cache :=
    1 ≤ capacity ∧ cache.capacity = capacity ∧ cache.Sound
  Defined _ _ := True
  started positive := ⟨positive, rfl, .new _⟩
  faults _ undefined := absurd trivial undefined
  stepped := by
    rintro _ cache ⟨positive, rfl, sound⟩ call -
    rcases sound.step positive call with ⟨reply, after, stepped, sound', same⟩
    rcases step_counts stepped with ⟨hits, misses⟩
    rw [(step_kinds stepped).1] at hits
    rw [(step_kinds stepped).2] at misses
    exact ⟨reply, after, stepped, ⟨positive, same, sound'⟩, hits, misses⟩
  reset := by
    rintro _ cache ⟨positive, same, sound⟩
    exact ⟨⟨positive, same, sound.indexed, sound.within⟩, rfl, rfl⟩
  within := by
    rintro _ cache ⟨-, rfl, sound⟩
    exact sound.within
  rated _ := rfl

end LruCache

namespace StripedLruCache

def hitRate (cache : StripedLruCache) : ℚ :=
  rate cache.hits (cache.hits + cache.misses)

def resetStats (cache : StripedLruCache) : StripedLruCache :=
  { cache with hits := 0, misses := 0, evictions := 0 }

def baseline : BaselineCache StripedLruCache CacheReply where
  step
  hasValue := CacheReply.isHit
  resetStats

def Sound (totalCapacity : Nat) (cache : StripedLruCache) : Prop :=
  ∃ members : Fin kStripes → LruCache, cache.Presents members ∧
    ∀ i, (members i).Sound ∧ (members i).capacity = capOf totalCapacity

theorem Sound.within {totalCapacity : Nat} {cache : StripedLruCache}
    (sound : cache.Sound totalCapacity) :
    ∑ i, (cache.stripes i).list.length ≤ max kStripes totalCapacity := by
  rcases sound with ⟨members, presents, sound⟩
  exact presents.within sound

theorem Sound.step {totalCapacity : Nat} {cache : StripedLruCache}
    (sound : cache.Sound totalCapacity) (call : BaselineCall) :
    ∃ reply after, cache.step call = some (reply, after) ∧
      after.Sound totalCapacity ∧
      after.hits = cache.hits + (baseline.finds call reply).toNat ∧
      after.misses = cache.misses + (baseline.fails call reply).toNat := by
  rcases sound with ⟨members, presents, sound⟩
  rcases sound (stripeFor call.key) with ⟨here, capacity⟩
  have positive : 1 ≤ (members (stripeFor call.key)).capacity := by
    rw [capacity]
    exact Nat.le_max_left 1 _
  rcases here.step positive call with ⟨reply, member, stepped, here', same⟩
  rcases presents.step stepped with ⟨after, stepped', presents'⟩
  rcases LruCache.step_counts stepped with ⟨hits, misses⟩
  rcases LruCache.step_kinds stepped with ⟨found, failed⟩
  have allHits := Family.sum_update LruCache.hits members
    (stripeFor call.key) member
  have allMisses := Family.sum_update LruCache.misses members
    (stripeFor call.key) member
  rw [← presents'.hits, ← presents.hits, hits, found] at allHits
  rw [← presents'.misses, ← presents.misses, misses, failed] at allMisses
  refine ⟨reply, after, stepped', ⟨_, presents', ?_⟩, ?_, ?_⟩
  · apply (Function.forall_update_iff members fun _ member =>
      member.Sound ∧ member.capacity = capOf totalCapacity).mpr
    exact ⟨⟨here', same.trans capacity⟩, fun i _ => sound i⟩
  · change _ = _ + (LruCache.baseline.finds call reply).toNat
    omega
  · change _ = _ + (LruCache.baseline.fails call reply).toNat
    omega

theorem Sound.reset {totalCapacity : Nat} {cache : StripedLruCache}
    (sound : cache.Sound totalCapacity) :
    cache.resetStats.Sound totalCapacity := by
  rcases sound with ⟨members, presents, sound⟩
  refine ⟨fun i => (members i).resetStats,
    ⟨presents.capacity, presents.stripe, ?_, ?_, ?_⟩, fun i => ?_⟩
  · exact Finset.sum_const_zero.symm
  · exact Finset.sum_const_zero.symm
  · exact Finset.sum_const_zero.symm
  · exact ⟨⟨(sound i).1.indexed, (sound i).1.within⟩, (sound i).2⟩

def counted : CountedBaseline StripedLruCache CacheReply where
  toBaselineCache := baseline
  new := new
  Fits _ := True
  bound totalCapacity := max kStripes totalCapacity
  held cache := ∑ i, (cache.stripes i).list.length
  hits cache := cache.hits
  misses cache := cache.misses
  hitRate := hitRate
  Inv := fun totalCapacity cache => cache.Sound totalCapacity
  Defined _ _ := True
  started _ := ⟨_, .new _, fun _ => ⟨.new _, rfl⟩⟩
  stepped sound call _ := sound.step call
  faults _ undefined := absurd trivial undefined
  reset sound := ⟨sound.reset, rfl, rfl⟩
  within := Sound.within
  rated _ := rfl

end StripedLruCache

namespace WTinyLfuCache

theorem Sound.step_counts {cache : WTinyLfuCache} (sound : cache.Sound)
    (call : BaselineCall)
    (defined : ∀ key, call = .get key → cache.ReadsValue key) :
    ∃ reply after, baseline.step cache call = some (reply, after) ∧
      after.Sound ∧ after.limits = cache.limits ∧
      after.stats.hits =
        cache.stats.hits + (baseline.finds call reply).toNat ∧
      after.stats.misses =
        cache.stats.misses + (baseline.fails call reply).toNat := by
  cases call with
  | get key =>
      rcases sound.defined_get (defined key rfl) with
        ⟨reply, after, got, becomes, hit⟩
      have found : baseline.finds (.get key) reply =
          decide (key ∈ cache.segments.keys) := hit
      have failed : baseline.fails (.get key) reply =
          !decide (key ∈ cache.segments.keys) := congrArg not hit
      refine ⟨reply, after, got,
        sound.of_becomes becomes (sound.bounded.get key), becomes.limits, ?_⟩
      rw [becomes.stats, found, failed]
      cases decide (key ∈ cache.segments.keys) <;> exact ⟨rfl, rfl⟩
  | put key value =>
      rcases sound.put key value with ⟨counted, after, -, put, becomes⟩
      rcases inserted_counts cache.stats (cache.segments.put cache.limits
        counted.beats (key, value)).1 with ⟨hits, misses, -, -⟩
      refine ⟨_, after, defined_put put, sound.of_becomes becomes
        (sound.bounded.put counted.beats (key, value)), becomes.limits, ?_⟩
      rw [becomes.stats, hits, misses]
      exact ⟨rfl, rfl⟩

def counted : CountedBaseline WTinyLfuCache TinyLfuReply where
  toBaselineCache := baseline
  new capacity := new capacity .defaultWindow .defaultProbation
  Fits capacity := 2 ≤ capacity ∧ capacity < uint32Size ∧
    BloomDoorkeeper.Provides (doorkeeperBits capacity)
  bound capacity := capacity
  held cache := cache.segments.entries.length
  hits cache := cache.stats.hits
  misses cache := cache.stats.misses
  hitRate := hitRate
  Inv capacity cache := cache.Sound ∧ cache.limits = (StripeConfig.new capacity
    .defaultWindow .defaultProbation).limits
  Defined := ReadsValue
  started fits :=
    have start := Follows.default fits.1 fits.2.1 fits.2.2
    ⟨start.sound, start.sameLimits⟩
  stepped := by
    rintro _ cache ⟨sound, limits⟩ call defined
    rcases sound.step_counts call defined with
      ⟨reply, after, stepped, sound', same, counts⟩
    exact ⟨reply, after, stepped, ⟨sound', same.trans limits⟩, counts⟩
  faults inv := inv.1.undefined_get
  reset := by
    rintro _ cache ⟨sound, limits⟩
    exact ⟨⟨sound.resetStats, limits⟩, rfl, rfl⟩
  within := by
    rintro _ cache ⟨sound, limits⟩
    exact sound.length_le limits
  rated _ := rfl

end WTinyLfuCache

/-! ## Runs -/

namespace CountedBaseline

variable {σ Reply : Type} (counted : CountedBaseline σ Reply)

/-- What is known at rest. The calls of all operations were made one after the
other, and the hits that were counted, and the hit rate, are those of the
operations. -/
structure Scaled (ops : List BenchOp) (told : List (Option Bool))
    (start last : σ) : Prop where
  serial : ∃ (history : List (Sigma fun _ : BaselineCall => Reply))
    (done : List (Threads.Completed BenchOp (Option Bool)
      fun _ : BaselineCall => Reply)),
    Machine.run counted.step (history.map Sigma.fst) start =
        some (history.map Sigma.snd, last) ∧
      (done.flatMap Threads.Completed.performed).Perm history ∧
      (done.map Threads.Completed.call).Perm ops ∧
      done.map Threads.Completed.reply = told ∧
      ∀ one ∈ done, counted.Makes one.call one.performed one.reply
  hits : counted.hits last = told.count (some true)
  misses : counted.misses last = told.count (some false)
  hitRate : counted.hitRate last =
    rate (told.count (some true)) (ops.countP BenchOp.isRead)

section Runs

variable {counted} {capacity : Nat} {cache : σ}

theorem handled_of_defined (inv : counted.Inv capacity cache)
    {call : BaselineCall}
    (defined : ∀ key, call = .get key → counted.Defined cache key) :
    ∃ reply after, counted.handler call cache = some (reply, after) ∧
      counted.Inv capacity after := by
  rcases counted.stepped inv call defined with
    ⟨reply, after, stepped, inv', -⟩
  exact ⟨reply, after, stepped, inv'⟩

theorem defined_of_handled (inv : counted.Inv capacity cache) {key : Key}
    {outcome : Reply × σ} (handled : counted.handler (.get key) cache =
      some outcome) : counted.Defined cache key := by
  by_contra undefined
  rw [BaselineCache.handler, counted.faults inv undefined] at handled
  cases handled

theorem put_ready (inv : counted.Inv capacity cache) (key : Key)
    (value : Value) :
    ∃ reply after, counted.handler (.put key value) cache =
        some (reply, after) ∧ counted.Inv capacity after :=
  handled_of_defined inv nofun

theorem lookUp_ready (inv : counted.Inv capacity cache) {key : Key}
    (defined : counted.Defined cache key) :
    ∃ result after, (counted.lookUp key).run counted.handler cache =
        some (result, after) ∧ counted.Inv capacity after := by
  rcases @handled_of_defined _ _ _ _ _ inv (.get key)
    (fun _ same => BaselineCall.get.inj same ▸ defined) with
      ⟨reply, middle, handled, inv'⟩
  rw [BaselineCache.lookUp, Program.run_bind, Program.run_perform, handled,
    Option.bind_some]
  split
  · exact ⟨some true, middle, rfl, inv'⟩
  · rcases put_ready inv' key ("value_" ++ key) with
      ⟨reply', after, handled', inv''⟩
    refine ⟨some false, after, ?_, inv''⟩
    rw [Program.run_bind, Program.run_perform, handled']
    rfl

theorem serve_ready (_ : List BenchOp) (cache : σ) (op : BenchOp)
    (inv : counted.Inv capacity cache)
    (defined : op.isRead = true → counted.Defined cache op.key) :
    ∃ after, counted.serve cache op = some after ∧
      counted.Inv capacity after := by
  rcases op with ⟨type, key, value⟩
  cases type with
  | put =>
      rcases put_ready inv key value with ⟨reply, after, handled, inv'⟩
      refine ⟨after, ?_, inv'⟩
      rw [BaselineCache.serve, BaselineCache.request, Program.run_bind,
        Program.run_perform, handled]
      rfl
  | get =>
      rcases lookUp_ready inv (defined rfl) with ⟨result, after, ran, inv'⟩
      exact ⟨after, congrArg (Option.map Prod.snd) ran, inv'⟩
  | rmw =>
      rcases lookUp_ready inv (defined rfl) with ⟨result, after, ran, inv'⟩
      exact ⟨after, congrArg (Option.map Prod.snd) ran, inv'⟩

theorem serve_fault (_ : List BenchOp) (cache : σ) (op : BenchOp)
    (inv : counted.Inv capacity cache)
    (undefined : ¬(op.isRead = true → counted.Defined cache op.key)) :
    counted.serve cache op = none := by
  rcases Classical.not_imp.mp undefined with ⟨reads, undefined⟩
  have faults : (counted.lookUp op.key).run counted.handler cache = none := by
    rw [BaselineCache.lookUp, Program.run_bind, Program.run_perform,
      BaselineCache.handler, counted.faults inv undefined]
    rfl
  rcases op with ⟨type, key, value⟩
  cases type with
  | put => cases reads
  | get => exact congrArg (Option.map Prod.snd) faults
  | rmw => exact congrArg (Option.map Prod.snd) faults

section Prepare

variable (ops : List BenchOp)

theorem prepare_iff (inv : counted.Inv capacity cache) :
    (∃ after, counted.prepare ops cache = some after) ↔
      StackDistance.Safely counted.serve
        (fun cache op => op.isRead = true → counted.Defined cache op.key) ops
        cache := by
  constructor
  · rintro ⟨after, prepared⟩
    exact StackDistance.safely_of_foldlM serve_ready serve_fault [] inv prepared
  · intro safely
    rcases safely.foldlM serve_ready [] inv with ⟨last, ran, -⟩
    exact ⟨last, ran⟩

theorem prepare_inv (inv : counted.Inv capacity cache) {after : σ}
    (prepared : counted.prepare ops cache = some after) :
    counted.Inv capacity after := by
  have safely := (prepare_iff ops inv).mp ⟨after, prepared⟩
  rcases safely.foldlM serve_ready [] inv with ⟨last, ran, inv'⟩
  obtain rfl := Option.some.inj (prepared.symm.trans ran)
  exact inv'

end Prepare

theorem handled_counts (inv : counted.Inv capacity cache) {call : BaselineCall}
    {reply : Reply} {after : σ}
    (handled : counted.handler call cache = some (reply, after)) :
    counted.Inv capacity after ∧
      counted.hits after =
        counted.hits cache + (counted.finds call reply).toNat ∧
      counted.misses after =
        counted.misses cache + (counted.fails call reply).toNat := by
  have defined : ∀ key, call = .get key → counted.Defined cache key := by
    rintro key rfl
    exact defined_of_handled inv handled
  rcases counted.stepped inv call defined with
    ⟨reply', after', stepped, inv', counts⟩
  obtain ⟨rfl, rfl⟩ := Prod.mk.inj
    (Option.some.inj (stepped.symm.trans handled))
  exact ⟨inv', counts⟩

theorem counts_of_serial (inv : counted.Inv capacity cache)
    {history : List (Sigma fun _ : BaselineCall => Reply)} {last : σ}
    (serial : Serial counted.handler history cache last) :
    counted.hits last = counted.hits cache +
        history.countP (fun call => counted.finds call.1 call.2) ∧
      counted.misses last = counted.misses cache +
        history.countP (fun call => counted.fails call.1 call.2) := by
  constructor
  · refine (Serial.counts ?_ inv serial).2
    intro call reply cache after inv handled
    rcases handled_counts inv handled with ⟨inv', hits, -⟩
    exact ⟨inv', hits⟩
  · refine (Serial.counts ?_ inv serial).2
    intro call reply cache after inv handled
    rcases handled_counts inv handled with ⟨inv', -, misses⟩
    exact ⟨inv', misses⟩

theorem run_of_serial {history : List (Sigma fun _ : BaselineCall => Reply)}
    {last : σ} (serial : Serial counted.handler history cache last) :
    Machine.run counted.step (history.map Sigma.fst) cache =
      some (history.map Sigma.snd, last) := by
  induction serial with
  | nil state => rfl
  | cons handled serial induction => exact Machine.run_cons handled induction

theorem makes_counts {baseline : BaselineCache σ Reply} {op : BenchOp}
    {calls : List (Sigma fun _ : BaselineCall => Reply)} {told : Option Bool}
    (makes : baseline.Makes op calls told) :
    calls.countP (fun call => baseline.finds call.1 call.2) =
        (decide (told = some true)).toNat ∧
      calls.countP (fun call => baseline.fails call.1 call.2) =
        (decide (told = some false)).toNat ∧
      told.isSome = op.isRead := by
  cases makes with
  | stored type reply =>
      exact ⟨rfl, rfl, (decide_eq_false (not_not_intro type)).symm⟩
  | found type found =>
      refine ⟨?_, ?_, (decide_eq_true type).symm⟩ <;>
        simp [BaselineCache.finds, BaselineCache.fails, found]
  | refilled type missed reply' =>
      refine ⟨?_, ?_, (decide_eq_true type).symm⟩ <;>
        simp [BaselineCache.finds, BaselineCache.fails, missed]

theorem countP_performed {kind : (Sigma fun _ : BaselineCall => Reply) → Bool}
    {tells : Option Bool}
    {history : List (Sigma fun _ : BaselineCall => Reply)}
    {done : List (Threads.Completed BenchOp (Option Bool)
      fun _ : BaselineCall => Reply)}
    (performed : (done.flatMap Threads.Completed.performed).Perm history)
    (each : ∀ one ∈ done,
      one.performed.countP kind = (decide (one.reply = tells)).toNat) :
    history.countP kind =
      (done.map Threads.Completed.reply).count tells := by
  have sums : done.map (List.countP kind ∘ Threads.Completed.performed) =
      done.map fun one => (decide (one.reply = tells)).toNat :=
    List.map_congr_left each
  rw [← performed.countP_eq, List.countP_flatMap, sums, Machine.sum_toNat,
    List.count, List.countP_map]
  apply List.countP_congr
  intro one _
  simp

theorem scaled_of_run {Thread : Type} [DecidableEq Thread]
    (inv : counted.Inv capacity cache) (noHits : counted.hits cache = 0)
    (noMisses : counted.misses cache = 0)
    {moves : List (Threads.Move Thread BenchOp)}
    {replies : List (Option (Option Bool))}
    {last : Threads.State Thread BenchOp (Option Bool) σ
      fun _ : BaselineCall => Reply}
    (ran : counted.threads.run moves (.start cache) = some (replies, last))
    (toRest : last.AtRest) :
    counted.Scaled (moves.filterMap Threads.Move.entered) replies.reduceOption
      cache last.shared := by
  rcases Threads.serial_of_run ran (fun _ => rfl) toRest with
    ⟨history, done, serial, replied, made, calls, performed⟩
  have makes : ∀ one ∈ done,
      counted.Makes one.call one.performed one.reply := fun one member =>
    BaselineCache.makes_of_performs (made one member)
  rcases counts_of_serial inv serial with ⟨hits, misses⟩
  change counted.hits last.shared = counted.hits cache + _ at hits
  change counted.misses last.shared = counted.misses cache + _ at misses
  rw [noHits, Nat.zero_add, countP_performed performed fun one member =>
    (makes_counts (makes one member)).1, replied] at hits
  rw [noMisses, Nat.zero_add, countP_performed performed fun one member =>
    (makes_counts (makes one member)).2.1, replied] at misses
  refine ⟨⟨history, done, run_of_serial serial, performed, calls, replied,
    makes⟩, hits, misses, ?_⟩
  -- Every lookup has told what became of it.
  have reads : replies.reduceOption.count (some true) +
      replies.reduceOption.count (some false) =
        (moves.filterMap Threads.Move.entered).countP BenchOp.isRead := by
    rw [← calls.countP_eq, ← replied, List.countP_map, List.count, List.count,
      List.countP_map, List.countP_map]
    apply Machine.countP_split
    intro one member
    have told := (makes_counts (makes one member)).2.2
    simp only [Function.comp_apply, ← told]
    rcases one.reply with _ | _ | _ <;> rfl
  rw [counted.rated, hits, misses, reads]

theorem inv_of_run {Thread : Type} [DecidableEq Thread]
    (inv : counted.Inv capacity cache)
    {moves : List (Threads.Move Thread BenchOp)}
    {replies : List (Option (Option Bool))}
    {last : Threads.State Thread BenchOp (Option Bool) σ
      fun _ : BaselineCall => Reply}
    (ran : counted.threads.run moves (.start cache) = some (replies, last)) :
    counted.Inv capacity last.shared := by
  have keeps : ∀ (state : Threads.State Thread BenchOp (Option Bool) σ
        fun _ : BaselineCall => Reply) move reply after,
      counted.Inv capacity state.shared → True →
      counted.threads state move = some (reply, after) →
      counted.Inv capacity after.shared := by
    intro state move reply after inv _ stepped
    cases Threads.moved stepped with
    | enter => exact inv
    | perform busy handled => exact (handled_counts inv handled).1
    | leave => exact inv
    | background impossible => cases impossible
  have always : counted.threads.Along (fun _ _ => True) moves (.start cache) :=
    .of_forall (fun _ _ _ => trivial) _
  exact Machine.run_preserves keeps inv always ran

/-- A thread that is in the middle of an operation can go on unless it comes to an
undefined read. -/
theorem ready_iff {Thread : Type} [DecidableEq Thread]
    {state : Threads.State Thread BenchOp (Option Bool) σ
      fun _ : BaselineCall => Reply}
    (inv : counted.Inv capacity state.shared) {thread : Thread}
    (busy : (state.activity thread).isIdle = false) :
    (∃ move, move.mover = some thread ∧
        (counted.threads state move).isSome = true) ↔
      ∀ op key next, state.activity thread = .busy op (.call (.get key) next) →
        counted.Defined state.shared key := by
  constructor
  · rintro ⟨move, mover, goes⟩ op key next here
    rcases Option.isSome_iff_exists.mp goes with ⟨⟨reply, after⟩, moved⟩
    cases Threads.moved moved with
    | enter call idle =>
        cases mover
        rw [idle] at here
        cases here
    | perform busy handled =>
        cases mover
        cases busy.symm.trans here
        exact defined_of_handled inv handled
    | leave busy =>
        cases mover
        cases busy.symm.trans here
    | background => cases mover
  · intro defined
    cases here : state.activity thread with
    | idle =>
        rw [here] at busy
        cases busy
    | busy op program =>
        cases program with
        | pure told =>
            refine ⟨.leave thread, rfl, ?_⟩
            simp only [BaselineCache.threads, Threads.machine, here]
            rfl
        | call instr next =>
            rcases @handled_of_defined _ _ _ _ _ inv instr (by
              rintro key rfl
              exact defined op key next here) with ⟨reply, after, handled, -⟩
            refine ⟨.perform thread, rfl, ?_⟩
            simp only [BaselineCache.threads, Threads.machine, here, handled]
            rfl

end Runs

end CountedBaseline

/-- The baselines that are run with several threads. -/
inductive ScalingPolicy
  | lru
  | stripedLru
  | wTinyLfu
deriving DecidableEq, Repr

namespace ScalingPolicy

abbrev Cache : ScalingPolicy → Type
  | .lru => LruCache
  | .stripedLru => StripedLruCache
  | .wTinyLfu => WTinyLfuCache

abbrev Reply : ScalingPolicy → Type
  | .lru => CacheReply
  | .stripedLru => CacheReply
  | .wTinyLfu => TinyLfuReply

def counted : (policy : ScalingPolicy) →
    CountedBaseline policy.Cache policy.Reply
  | .lru => LruCache.counted
  | .stripedLru => StripedLruCache.counted
  | .wTinyLfu => WTinyLfuCache.counted

/-- The scaling benchmark. One thread prepares a cache, and any number of them
run on it then. Whatever the order of their calls, the cache keeps its bound, and
nothing faults but an undefined read. At rest, the calls could as well have been
made by one thread, and the hit rate is the share of the lookups that found their
key. -/
theorem threads_scaled (policy : ScalingPolicy) {capacity : Nat}
    (fits : policy.counted.Fits capacity) (warmup : List BenchOp) :
    ((∃ cache, policy.counted.prepare warmup (policy.counted.new capacity) =
        some cache) ↔
      StackDistance.Safely policy.counted.serve
        (fun cache op => op.isRead = true → policy.counted.Defined cache op.key)
        warmup (policy.counted.new capacity)) ∧
    ∀ cache, policy.counted.prepare warmup (policy.counted.new capacity) =
        some cache →
      ∀ {Thread : Type} [DecidableEq Thread]
        {moves : List (Threads.Move Thread BenchOp)} {replies last},
        policy.counted.threads.run moves
            (.start (policy.counted.resetStats cache)) =
          some (replies, last) →
        policy.counted.held last.shared ≤ policy.counted.bound capacity ∧
          (∀ thread, (last.activity thread).isIdle = false →
            ((∃ move, move.mover = some thread ∧
                (policy.counted.threads last move).isSome = true) ↔
              ∀ op key next,
                last.activity thread = .busy op (.call (.get key) next) →
                policy.counted.Defined last.shared key)) ∧
          (last.AtRest → policy.counted.Scaled
            (moves.filterMap Threads.Move.entered) replies.reduceOption
            (policy.counted.resetStats cache) last.shared) := by
  have started := policy.counted.started fits
  refine ⟨CountedBaseline.prepare_iff warmup started, ?_⟩
  intro cache prepared Thread _ moves replies last ran
  rcases policy.counted.reset (CountedBaseline.prepare_inv warmup started prepared)
    with ⟨inv, noHits, noMisses⟩
  have inv' := CountedBaseline.inv_of_run inv ran
  exact ⟨policy.counted.within inv',
    fun thread busy => CountedBaseline.ready_iff inv' busy,
    CountedBaseline.scaled_of_run inv noHits noMisses ran⟩

/-- Two threads miss the same key, and both put it. Another one comes to a key in
probation. -/
theorem threads_scaled_sample :
    (∃ cache replies last,
      lru.counted.prepare [{ key := "a" }] (lru.counted.new 2) = some cache ∧
      lru.counted.threads.run [.enter false { key := "b" },
        .enter true { key := "b" }, .perform false, .perform true,
        .perform true, .leave true, .perform false, .leave false,
        .enter true { key := "a" }, .perform true, .leave true]
          (.start (lru.counted.resetStats cache)) = some (replies, last) ∧
      lru.counted.Scaled [{ key := "b" }, { key := "b" }, { key := "a" }]
        [some false, some false, some true] (lru.counted.resetStats cache)
        last.shared) ∧
    ∃ cache replies last,
      wTinyLfu.counted.prepare [⟨.put, "k", "1"⟩] (wTinyLfu.counted.new 3) =
        some cache ∧
      wTinyLfu.counted.threads.run [.enter () { key := "k" }]
          (.start (wTinyLfu.counted.resetStats cache)) = some (replies, last) ∧
      ¬∃ move : Threads.Move Unit BenchOp, move.mover = some () ∧
        (wTinyLfu.counted.threads last move).isSome = true := by
  let moves : List (Threads.Move Bool BenchOp) :=
    [.enter false { key := "b" }, .enter true { key := "b" }, .perform false,
      .perform true, .perform true, .leave true, .perform false, .leave false,
      .enter true { key := "a" }, .perform true, .leave true]
  have runs : ((lru.counted.prepare [{ key := "a" }]
      (lru.counted.new 2)).bind fun cache =>
        (lru.counted.threads.run moves
          (.start (lru.counted.resetStats cache))).map fun outcome =>
            decide (outcome.1.reduceOption =
              [some false, some false, some true] ∧ outcome.2.AtRest)) =
      some true := by decide +kernel
  have stored : (wTinyLfu.counted.prepare [⟨.put, "k", "1"⟩]
      (wTinyLfu.counted.new 3)).map (fun cache =>
        decide ("k" ∈ KeyedList.keys (WTinyLfuCache.segments cache).probation)) =
      some true := by decide +kernel
  constructor
  · rcases Option.bind_eq_some_iff.mp runs with ⟨cache, prepared, runs⟩
    rcases Option.map_eq_some_iff.mp runs with ⟨⟨replies, last⟩, ran, holds⟩
    rcases of_decide_eq_true holds with ⟨told, rested⟩
    have scaled := (threads_scaled .lru (show 1 ≤ 2 by decide)
      [{ key := "a" }]).2 cache prepared ran
    have atRest := scaled.2.2 rested
    rw [told] at atRest
    exact ⟨cache, replies, last, prepared, ran, atRest⟩
  · rcases Option.map_eq_some_iff.mp stored with ⟨cache, prepared, probation⟩
    refine ⟨cache, _, _, prepared, rfl, fun ready => ?_⟩
    have entered : wTinyLfu.counted.threads.run [.enter () { key := "k" }]
        (.start (wTinyLfu.counted.resetStats cache)) = some (_, _) := rfl
    have scaled := (threads_scaled .wTinyLfu (show _ ∧ _ ∧ _ by decide)
      [⟨.put, "k", "1"⟩]).2 cache prepared entered
    exact (scaled.2.1 () rfl).mp ready _ _ _ rfl (of_decide_eq_true probation)

end ScalingPolicy

end Walde
