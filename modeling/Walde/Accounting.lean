import Walde.Coherence
import Walde.StripeAccounts

namespace Walde

open Foundation

/-! # The counters of the engine

Each law is an account with two sides that every step of every client and of
the drainer keeps in balance. -/

/-- Where a lookup goes, as long as the tiers before miss. -/
inductive Tier
  | l1
  | l2
  | backend
deriving DecidableEq, Repr

namespace EngineInstr

def looksIn : EngineInstr → Option Tier
  | .l1Get _ => some .l1
  | .l2Get _ => some .l2
  | .backendGet _ => some .backend
  | _ => none

def goesOnTo : (instr : EngineInstr) → EngineAnswer instr → Option Tier
  | .l1Get _, none => some .l2
  | .l2Get _, none => some .backend
  | _, _ => none

def l1Call : EngineInstr → Option CacheCall
  | .l1Get key => some (.get key)
  | .l1Put key value => some (.put key value)
  | .l1Remove key => some (.remove key)
  | _ => none

end EngineInstr

namespace Tier

def marks (tier : Tier) (found : Option Tier) : Nat :=
  (decide (found = some tier)).toNat

@[simp] theorem marks_none (tier : Tier) : tier.marks none = 0 := rfl

@[simp] theorem marks_some (tier other : Tier) :
    tier.marks (some other) = if tier = other then 1 else 0 := by
  cases tier <;> cases other <;> rfl

theorem marks_ite (tier other : Tier) (condition : Prop)
    [Decidable condition] :
    tier.marks (if condition then some other else none) =
      if tier = other then (decide condition).toNat else 0 := by
  by_cases holds : condition <;> simp [holds]

end Tier

namespace CacheEngine

def l1Hits (engine : CacheEngine) : Nat :=
  ∑ i, (engine.l1.stripe i).stats.hits

def l1Misses (engine : CacheEngine) : Nat :=
  ∑ i, (engine.l1.stripe i).stats.misses

def l1Evictions (engine : CacheEngine) : Nat := engine.l1.totalEvictions

def l2Hits (engine : CacheEngine) : Nat := ∑ i, (engine.l2Stripes i).hits

def l2Misses (engine : CacheEngine) : Nat := ∑ i, (engine.l2Stripes i).misses

def backendReads (engine : CacheEngine) : Nat := engine.backend.reads

def lookups (engine : CacheEngine) : Tier → Nat
  | .l1 => engine.l1Hits + engine.l1Misses
  | .l2 => engine.l2Hits + engine.l2Misses
  | .backend => engine.backendReads

/-- The misses of the tier before. -/
def referred (engine : CacheEngine) : Tier → Nat
  | .l1 => 0
  | .l2 => engine.l1Misses
  | .backend => engine.l2Misses

def stripeCall (xx : XxHash) (i : Fin kNumStripes) (engine : CacheEngine)
    (instr : EngineInstr) : Option (CacheCall × CacheReply) := do
  let call ← instr.l1Call
  let ((reply, _), _) ← engine.l1.call xx call
  if StripedCache.route xx call.key = i then some (call, reply) else none

def inserts (xx : XxHash) (i : Fin kNumStripes) (engine : CacheEngine)
    (instr : EngineInstr) : Bool :=
  match engine.stripeCall xx i instr with
  | some (call, reply) => call.inserted reply
  | none => false

def removes (xx : XxHash) (i : Fin kNumStripes) (engine : CacheEngine)
    (instr : EngineInstr) : Bool :=
  match engine.stripeCall xx i instr with
  | some (call, reply) => call.removed reply
  | none => false

def removesFromMain (xx : XxHash) (i : Fin kNumStripes) (engine : CacheEngine)
    (instr : EngineInstr) : Bool :=
  match engine.stripeCall xx i instr with
  | some (call, reply) =>
      call.removed reply && engine.l1.inMain xx call.key
  | none => false

/-! ## What an instruction counts -/

section Perform

variable {xx : XxHash} {config : CacheEngineConfig}
  {engine after : CacheEngine} {instr : EngineInstr}
  {answer : EngineAnswer instr}

theorem perform_l1 (handled : perform xx instr engine = some (answer, after))
    {call : CacheCall} (isCall : instr.l1Call = some call) :
    ∃ reply offered l1, engine.l1.call xx call = some ((reply, offered), l1) ∧
      after = engine.afterL1 l1 offered ∧
      instr.looksIn = (if call.isGet then some .l1 else none) ∧
      instr.goesOnTo answer =
        if reply = .value none then some .l2 else none := by
  cases instr with
  | l1Get key =>
      cases isCall
      rcases Option.bind_eq_some_iff.mp handled with
        ⟨⟨⟨_, offered⟩, l1⟩, got, equal⟩
      cases equal
      refine ⟨.value answer, offered, l1, ?_, rfl, rfl, ?_⟩
      · rw [StripedCache.call_get, got]
        rfl
      · cases answer <;> rfl
  | l1Put key value =>
      cases isCall
      rcases Option.bind_eq_some_iff.mp handled with
        ⟨⟨⟨_, offered⟩, l1⟩, put, equal⟩
      cases equal
      refine ⟨.changed answer, offered, l1, ?_, rfl, rfl, rfl⟩
      rw [StripedCache.call_put, put]
      rfl
  | l1Remove key =>
      cases isCall
      rcases Option.bind_eq_some_iff.mp handled with
        ⟨⟨⟨_, offered⟩, l1⟩, gone, equal⟩
      cases equal
      refine ⟨.changed answer, offered, l1, ?_, rfl, rfl, rfl⟩
      rw [StripedCache.call_remove, gone]
      rfl
  | _ => cases isCall

theorem perform_other (handled : perform xx instr engine = some (answer, after))
    (noCall : instr.l1Call = none) :
    after.l1 = engine.l1 ∧ after.demotionQueue = engine.demotionQueue ∧
      after.drainer = engine.drainer := by
  cases instr with
  | l1Get key => cases noCall
  | l1Put key value => cases noCall
  | l1Remove key => cases noCall
  | l2Get key =>
      rcases Option.bind_eq_some_iff.mp handled with ⟨_, -, equal⟩
      cases equal
      exact ⟨rfl, rfl, rfl⟩
  | _ =>
      cases handled
      exact ⟨rfl, rfl, rfl⟩

theorem lookups_afterL2 {i : Fin kNumL2Stripes} {stripe : L2Stripe}
    {looked missed : Nat}
    (lookups : stripe.hits + stripe.misses =
      (engine.l2Stripes i).hits + (engine.l2Stripes i).misses + looked)
    (misses : stripe.misses = (engine.l2Stripes i).misses + missed)
    (tier : Tier) :
    (engine.afterL2 i stripe).lookups tier =
        engine.lookups tier + (if tier = .l2 then looked else 0) ∧
      (engine.afterL2 i stripe).referred tier =
        engine.referred tier + if tier = .backend then missed else 0 := by
  have others : ∀ j, j ≠ i →
      (engine.afterL2 i stripe).l2Stripes j = engine.l2Stripes j :=
    fun j different => Function.update_of_ne different _ _
  have here : (engine.afterL2 i stripe).l2Stripes i = stripe := by
    simp [afterL2]
  have allLookups : (engine.afterL2 i stripe).l2Hits +
      (engine.afterL2 i stripe).l2Misses =
        engine.l2Hits + engine.l2Misses + looked := by
    simp only [l2Hits, l2Misses, ← Finset.sum_add_distrib]
    apply sum_gain (i := i)
    · rw [here, lookups]
    · intro j different
      rw [others j different]
  have allMisses : (engine.afterL2 i stripe).l2Misses =
      engine.l2Misses + missed := by
    apply sum_gain (i := i)
    · rw [here, misses]
    · intro j different
      rw [others j different]
  have l1Hits : (engine.afterL2 i stripe).l1Hits = engine.l1Hits := rfl
  have l1Misses : (engine.afterL2 i stripe).l1Misses = engine.l1Misses := rfl
  have reads : (engine.afterL2 i stripe).backendReads = engine.backendReads :=
    rfl
  cases tier with
  | l1 => simp [CacheEngine.lookups, referred, l1Hits, l1Misses]
  | l2 => simp [CacheEngine.lookups, referred, allLookups, l1Misses]
  | backend => simp [CacheEngine.lookups, referred, reads, allMisses]

theorem lookups_afterL2_same {i : Fin kNumL2Stripes} {stripe : L2Stripe}
    (hits : stripe.hits = (engine.l2Stripes i).hits)
    (misses : stripe.misses = (engine.l2Stripes i).misses) (tier : Tier) :
    (engine.afterL2 i stripe).lookups tier = engine.lookups tier ∧
      (engine.afterL2 i stripe).referred tier = engine.referred tier := by
  have lookups : stripe.hits + stripe.misses =
      (engine.l2Stripes i).hits + (engine.l2Stripes i).misses + 0 := by
    rw [hits, misses, Nat.add_zero]
  rcases lookups_afterL2 lookups (misses.trans (Nat.add_zero _).symm) tier with
    ⟨looked, missed⟩
  rw [looked, missed]
  simp

theorem Valid.lookups_afterL1 (valid : engine.Valid xx config)
    {call : CacheCall} {reply : CacheReply} {offered : List DemotionItem}
    {l1 : StripedCache}
    (called : engine.l1.call xx call = some ((reply, offered), l1))
    (tier : Tier) :
    (engine.afterL1 l1 offered).lookups tier = engine.lookups tier +
        tier.marks (if call.isGet then some .l1 else none) ∧
      (engine.afterL1 l1 offered).referred tier = engine.referred tier +
        tier.marks (if reply = .value none then some .l2 else none) := by
  rcases valid.l1 with ⟨policies, l1Valid⟩
  rcases l1Valid.call_numbers called with ⟨counted, others⟩
  have missed : (engine.afterL1 l1 offered).l1Misses =
      engine.l1Misses + (decide (reply = .value none)).toNat :=
    sum_gain counted.misses fun i different =>
      congrArg StripeNumbers.misses (others i different)
  have looked : (engine.afterL1 l1 offered).l1Hits +
      (engine.afterL1 l1 offered).l1Misses =
        engine.l1Hits + engine.l1Misses + call.isGet.toNat := by
    simp only [l1Hits, l1Misses, ← Finset.sum_add_distrib]
    exact sum_gain counted.lookups fun i different =>
      congrArg (fun numbers : StripeNumbers =>
        numbers.hits + numbers.misses) (others i different)
  have l2Hits : (engine.afterL1 l1 offered).l2Hits = engine.l2Hits := rfl
  have l2Misses : (engine.afterL1 l1 offered).l2Misses = engine.l2Misses := rfl
  have reads : (engine.afterL1 l1 offered).backendReads =
      engine.backendReads := rfl
  rw [Tier.marks_ite, Tier.marks_ite]
  cases tier with
  | l1 => simp only [lookups, referred, looked]; simp
  | l2 => simp [lookups, referred, l2Hits, l2Misses, missed]
  | backend => simp [lookups, referred, reads, l2Misses]

theorem lookups_withBackend {backend : InMemoryBackend} {read : Nat}
    (reads : backend.reads = engine.backend.reads + read) (tier : Tier) :
    lookups { engine with backend } tier =
        engine.lookups tier + (if tier = .backend then read else 0) ∧
      referred { engine with backend } tier = engine.referred tier := by
  have backendReads : CacheEngine.backendReads { engine with backend } =
      engine.backendReads + read := reads
  constructor
  · cases tier with
    | backend => simp [lookups, backendReads]
    | _ => exact (Nat.add_zero _).symm
  · cases tier <;> rfl

theorem Valid.perform_lookups (valid : engine.Valid xx config)
    (handled : CacheEngine.perform xx instr engine = some (answer, after))
    (tier : Tier) :
    after.lookups tier = engine.lookups tier + tier.marks instr.looksIn ∧
      after.referred tier =
        engine.referred tier + tier.marks (instr.goesOnTo answer) := by
  cases isCall : instr.l1Call with
  | some call =>
      rcases perform_l1 handled isCall with
        ⟨reply, offered, l1, called, rfl, looksIn, goesOnTo⟩
      rw [looksIn, goesOnTo]
      exact valid.lookups_afterL1 called tier
  | none =>
      cases instr with
      | l1Get key => cases isCall
      | l1Put key value => cases isCall
      | l1Remove key => cases isCall
      | l2Get key =>
          rcases Option.bind_eq_some_iff.mp handled with
            ⟨⟨_, stripe⟩, got, equal⟩
          cases equal
          rcases L2Stripe.get_counts got with ⟨looked, missed⟩
          rcases lookups_afterL2 looked missed tier with ⟨looked, missed⟩
          rw [looked, missed]
          cases answer <;> simp [EngineInstr.looksIn, EngineInstr.goesOnTo]
      | l2Remove key =>
          cases handled
          rcases L2Stripe.remove_counts
              (engine.l2Stripes (l2StripeIndex xx key)) key with ⟨hits, misses⟩
          exact lookups_afterL2_same hits misses tier
      | backendGet key =>
          cases handled
          rcases @lookups_withBackend engine (engine.backend.get key).2 1 rfl
              tier with ⟨looked, missed⟩
          exact ⟨looked.trans (by simp [EngineInstr.looksIn]), missed⟩
      | backendPut key value =>
          cases handled
          rcases @lookups_withBackend engine (engine.backend.put key value).2 0
              rfl tier with ⟨looked, missed⟩
          exact ⟨looked.trans (by simp [EngineInstr.looksIn]), missed⟩
      | backendRemove key =>
          have reads : (engine.backend.remove key).2.reads =
              engine.backend.reads + 0 := by
            unfold InMemoryBackend.remove
            split <;> rfl
          rcases lookups_withBackend reads tier with ⟨looked, missed⟩
          cases handled
          exact ⟨looked.trans (by simp [EngineInstr.looksIn]), missed⟩

theorem Valid.perform_stripe (valid : engine.Valid xx config)
    (handled : CacheEngine.perform xx instr engine = some (answer, after))
    (i : Fin kNumStripes) :
    (∃ call reply, engine.stripeCall xx i instr = some (call, reply) ∧
      (engine.l1.stripe i).numbers.Counted call reply
        (engine.l1.inMain xx call.key) (after.l1.stripe i).numbers) ∨
    (engine.stripeCall xx i instr = none ∧
      (after.l1.stripe i).numbers = (engine.l1.stripe i).numbers) := by
  cases isCall : instr.l1Call with
  | none =>
      right
      rcases perform_other handled isCall with ⟨l1, -, -⟩
      exact ⟨by simp [stripeCall, isCall], by rw [l1]⟩
  | some call =>
      rcases perform_l1 handled isCall with ⟨reply, offered, l1, called, rfl, -⟩
      rcases valid.l1 with ⟨policies, l1Valid⟩
      rcases l1Valid.call_numbers called with ⟨counted, others⟩
      by_cases here : StripedCache.route xx call.key = i
      · left
        subst here
        exact ⟨call, reply, by simp [stripeCall, isCall, called], counted⟩
      · right
        refine ⟨by simp [stripeCall, isCall, called, here], ?_⟩
        exact others i (Ne.symm here)

theorem Valid.perform_evictions (valid : engine.Valid xx config)
    (handled : CacheEngine.perform xx instr engine = some (answer, after)) :
    after.demotionQueue.drops + after.demotionQueue.items.length +
        engine.l1Evictions =
      engine.demotionQueue.drops + engine.demotionQueue.items.length +
        after.l1Evictions ∧ after.drainer = engine.drainer := by
  cases isCall : instr.l1Call with
  | none =>
      rcases perform_other handled isCall with ⟨l1, queue, drainer⟩
      rw [l1Evictions, l1Evictions, l1, queue]
      exact ⟨rfl, drainer⟩
  | some call =>
      rcases perform_l1 handled isCall with ⟨reply, offered, l1, called, rfl, -⟩
      rcases valid.l1 with ⟨policies, l1Valid⟩
      have evictions : (engine.afterL1 l1 offered).l1Evictions =
          engine.l1Evictions + offered.length := l1Valid.call_evictions called
      have pushed : (engine.afterL1 l1 offered).demotionQueue.drops +
          (engine.afterL1 l1 offered).demotionQueue.items.length =
            engine.demotionQueue.drops + engine.demotionQueue.items.length +
              offered.length := valid.queue.tryPush_all_drops offered
      rw [pushed, evictions]
      exact ⟨by omega, rfl⟩

end Perform

/-! ## What the drainer counts -/

section Drain

variable {xx : XxHash} {engine after : CacheEngine}

theorem drain_kept (drained : engine.drain xx = some after) :
    after.l1 = engine.l1 ∧
    after.drainer = (engine.drainer.step engine.demotionQueue).2.1 ∧
    after.demotionQueue = (engine.drainer.step engine.demotionQueue).2.2 ∧
    ∀ tier, after.lookups tier = engine.lookups tier ∧
      after.referred tier = engine.referred tier := by
  unfold drain at drained
  rcases stepped : engine.drainer.step engine.demotionQueue with
    ⟨delivered, drainer, demotionQueue⟩
  rw [stepped] at drained
  have moved : ∀ tier,
      lookups { engine with drainer, demotionQueue } tier =
          engine.lookups tier ∧
        referred { engine with drainer, demotionQueue } tier =
          engine.referred tier := by
    intro tier
    cases tier <;> exact ⟨rfl, rfl⟩
  cases delivered with
  | none =>
      cases drained
      exact ⟨rfl, rfl, rfl, moved⟩
  | some item =>
      rcases Option.bind_eq_some_iff.mp drained with ⟨stripe, put, equal⟩
      cases equal
      refine ⟨rfl, rfl, rfl, fun tier => ?_⟩
      rcases L2Stripe.put_counts put with ⟨hits, misses⟩
      rcases @lookups_afterL2_same { engine with drainer, demotionQueue } _ _
        hits misses tier with ⟨looked, missed⟩
      rw [looked, missed]
      exact moved tier

end Drain

/-! ## Accounts of the engine -/

structure Account where
  credit : CacheEngine → Nat
  debit : CacheEngine → Nat
  gain : CacheEngine → EngineInstr → Bool := fun _ _ => false
  loss : CacheEngine → EngineInstr → Bool := fun _ _ => false

structure Account.Kept (xx : XxHash) (config : CacheEngineConfig)
    (account : Account) : Prop where
  perform : ∀ {engine after instr} {answer : EngineAnswer instr},
    engine.Valid xx config →
    CacheEngine.perform xx instr engine = some (answer, after) →
    account.credit after + account.debit engine +
        (account.loss engine instr).toNat =
      account.credit engine + account.debit after +
        (account.gain engine instr).toNat
  drain : ∀ {engine after}, engine.Valid xx config →
    engine.drain xx = some after →
    account.credit after + account.debit engine =
      account.credit engine + account.debit after

def entriesAccount (xx : XxHash) (i : Fin kNumStripes) : Account where
  credit engine := (engine.l1.stripe i).numbers.size +
    (engine.l1.stripe i).numbers.evictions +
    (engine.l1.stripe i).numbers.rejections
  debit _ := 0
  gain := inserts xx i
  loss := removes xx i

def mainAccount (xx : XxHash) (i : Fin kNumStripes) : Account where
  credit engine := (engine.l1.stripe i).numbers.mainSize +
    (engine.l1.stripe i).numbers.evictions
  debit engine := (engine.l1.stripe i).numbers.admissions
  loss := removesFromMain xx i

/-- The items that L1 evicted. -/
def queueAccount : Account where
  credit engine := engine.demotionQueue.drops +
    engine.demotionQueue.items.length + engine.drainer.drained +
    engine.drainer.uncounted
  debit := l1Evictions

theorem entriesAccount_kept (xx : XxHash) (config : CacheEngineConfig)
    (i : Fin kNumStripes) : (entriesAccount xx i).Kept xx config := by
  constructor
  · intro engine after instr answer valid handled
    simp only [entriesAccount, inserts, removes]
    rcases valid.perform_stripe handled i with
      ⟨call, reply, called, counted⟩ | ⟨none, same⟩
    · rw [called]
      exact counted.entries
    · rw [none, same]
  · intro engine after valid drained
    simp only [entriesAccount, (drain_kept drained).1]

theorem mainAccount_kept (xx : XxHash) (config : CacheEngineConfig)
    (i : Fin kNumStripes) : (mainAccount xx i).Kept xx config := by
  constructor
  · intro engine after instr answer valid handled
    simp only [mainAccount, removesFromMain]
    rcases valid.perform_stripe handled i with
      ⟨call, reply, called, counted⟩ | ⟨none, same⟩
    · rw [called]
      exact counted.main
    · rw [none, same]
  · intro engine after valid drained
    simp only [mainAccount, (drain_kept drained).1]

theorem queueAccount_kept (xx : XxHash) (config : CacheEngineConfig) :
    queueAccount.Kept xx config := by
  constructor
  · intro engine after instr answer valid handled
    rcases valid.perform_evictions handled with ⟨balance, drainer⟩
    simp only [queueAccount, drainer, Bool.toNat_false]
    omega
  · intro engine after valid drained
    rcases drain_kept drained with ⟨l1, drainer, queue, -⟩
    rcases DemotionDrainer.step_accounted valid.queue engine.drainer with
      ⟨drops, accounted⟩
    simp only [queueAccount, l1Evictions, l1, drainer, queue]
    omega

end CacheEngine

namespace EngineThreads

/-! ## Every client -/

variable {Thread : Type}

def performed (state : EngineThreads Thread) :
    Threads.Move Thread CacheCall → Option EngineInstr
  | .perform thread => state.head thread
  | _ => none

def performs (kind : CacheEngine → EngineInstr → Bool)
    (state : EngineThreads Thread) (move : Threads.Move Thread CacheCall) :
    Nat :=
  match performed state move with
  | some instr => (kind state.shared instr).toNat
  | none => 0

@[simp] theorem performs_never :
    (performs fun _ _ => false) =
      fun (_ : EngineThreads Thread) (_ : Threads.Move Thread CacheCall) => 0 := by
  funext state move
  unfold performs
  split <;> rfl

def entersGet : Threads.Move Thread CacheCall → Bool
  | .enter _ call => call.isGet
  | _ => false

def ofEngine (account : CacheEngine.Account) :
    Machine.Account (EngineThreads Thread) (Threads.Move Thread CacheCall) where
  credit state := account.credit state.shared
  debit state := account.debit state.shared
  gain := performs account.gain
  loss := performs account.loss

/-- The lookups in a tier, done or about to be done, against the misses of the
tier before, or against the gets. -/
def tierAccount (clients : Finset Thread) (tier : Tier) :
    Machine.Account (EngineThreads Thread) (Threads.Move Thread CacheCall) where
  credit state := state.shared.lookups tier + ∑ thread ∈ clients,
    tier.marks ((state.head thread).bind EngineInstr.looksIn)
  debit state := state.shared.referred tier
  gain _ move := if tier = .l1 then (entersGet move).toNat else 0

/-- In what is left of a call, a lookup in a tier comes right after a lookup
that missed the tier before. -/
def Chained : EngineProgram CacheReply → Prop
  | .pure _ => True
  | .call instr next => ∀ answer, Chained (next answer) ∧
      (next answer).head.bind EngineInstr.looksIn = instr.goesOnTo answer

theorem request_chained (call : CacheCall) :
    Chained (CacheEngine.request call) ∧
      (CacheEngine.request call).head.bind EngineInstr.looksIn =
        if call.isGet then some .l1 else none := by
  cases call with
  | get key =>
      refine ⟨fun inL1 => ?_, rfl⟩
      cases inL1 with
      | some value => exact ⟨trivial, rfl⟩
      | none =>
          refine ⟨fun inL2 => ?_, rfl⟩
          cases inL2 with
          | some value => exact ⟨fun _ => ⟨trivial, rfl⟩, rfl⟩
          | none =>
              refine ⟨fun inBackend => ?_, rfl⟩
              cases inBackend with
              | some value => exact ⟨fun _ => ⟨trivial, rfl⟩, rfl⟩
              | none => exact ⟨trivial, rfl⟩
  | put key value => exact ⟨fun _ => ⟨fun _ => ⟨trivial, rfl⟩, rfl⟩, rfl⟩
  | remove key =>
      exact ⟨fun _ => ⟨fun _ => ⟨fun _ => ⟨trivial, rfl⟩, rfl⟩, rfl⟩, rfl⟩

/-- What the accounts rest on. -/
structure Orderly (xx : XxHash) (config : CacheEngineConfig)
    (state : EngineThreads Thread) : Prop where
  valid : state.shared.Valid xx config
  chained : Threads.Everywhere (fun _ => Chained) state

section Balance

variable [DecidableEq Thread] {xx : XxHash} {config : CacheEngineConfig}
  {state after : EngineThreads Thread} {label : Threads.Move Thread CacheCall}
  {reply : Option CacheReply}

theorem Orderly.move (orderly : Orderly xx config state)
    (ran : machine xx state label = some (reply, after)) :
    Orderly xx config after := by
  constructor
  · cases Threads.moved ran with
    | enter call idle => exact orderly.valid
    | perform busy handled => exact (orderly.valid.perform handled).1
    | leave busy => exact orderly.valid
    | background stepped => exact (orderly.valid.drained stepped).1
  · exact orderly.chained.move (fun call => (request_chained call).1)
      (fun chained answer => (chained answer).1) ran

theorem Orderly.balances (orderly : Orderly xx config state)
    {account : CacheEngine.Account} (kept : account.Kept xx config)
    (ran : machine xx state label = some (reply, after)) :
    (ofEngine account).Balances state label after := by
  unfold Machine.Account.Balances
  cases Threads.moved ran with
  | enter call idle => rfl
  | @perform thread call instr next answer shared busy handled =>
      have head : state.head thread = some instr :=
        Threads.State.head_of_busy busy
      simp only [ofEngine, performs, performed, head]
      exact kept.perform orderly.valid handled
  | leave busy => rfl
  | background stepped => exact kept.drain orderly.valid stepped

theorem sum_marks (state : EngineThreads Thread) {clients : Finset Thread}
    {thread : Thread} (member : thread ∈ clients) (tier : Tier)
    (shared : CacheEngine)
    (activity : Threads.Activity CacheCall CacheReply EngineAnswer) :
    ∑ other ∈ clients, tier.marks ((Threads.State.head ⟨shared,
          Function.update state.activity thread activity⟩ other).bind
            EngineInstr.looksIn) +
        tier.marks ((state.head thread).bind EngineInstr.looksIn) =
      ∑ other ∈ clients,
          tier.marks ((state.head other).bind EngineInstr.looksIn) +
        tier.marks (activity.head.bind EngineInstr.looksIn) := by
  apply sum_gain_of_mem member
  · rw [Threads.State.head_update_self, Nat.add_comm]
  · intro other different
    rw [Threads.State.head_update_of_ne _ _ _ _ different]
    rfl

theorem Orderly.tier_balances (orderly : Orderly xx config state)
    {clients : Finset Thread} (tier : Tier)
    (known : ∀ thread ∈ label.mover, thread ∈ clients)
    (ran : machine xx state label = some (reply, after)) :
    (tierAccount clients tier).Balances state label after := by
  unfold Machine.Account.Balances tierAccount
  cases Threads.moved ran with
  | @enter thread call idle =>
      have sums := sum_marks state (known thread rfl) tier state.shared
        (.busy call (CacheEngine.request call))
      have before : state.head thread = none :=
        Threads.State.head_of_idle idle
      have started : (Threads.Activity.busy call
          (CacheEngine.request call)).head.bind EngineInstr.looksIn =
            if call.isGet then some .l1 else none := (request_chained call).2
      rw [before, started, Tier.marks_ite] at sums
      simp only [entersGet, Bool.decide_eq_true, Option.bind_none,
        Tier.marks_none] at sums ⊢
      omega
  | @perform thread call instr next answer shared busy handled =>
      have sums := sum_marks state (known thread rfl) tier shared
        (.busy call (next answer))
      have before : state.head thread = some instr :=
        Threads.State.head_of_busy busy
      have goesOn : (Threads.Activity.busy call (next answer)).head.bind
          EngineInstr.looksIn = instr.goesOnTo answer :=
        (orderly.chained thread call _ busy answer).2
      rcases orderly.valid.perform_lookups handled tier with ⟨looked, missed⟩
      rw [before, goesOn, Option.bind_some] at sums
      simp only [entersGet, Bool.toNat_false, ite_self, looked, missed]
      omega
  | @leave thread call reply busy =>
      have sums := sum_marks state (known thread rfl) tier state.shared .idle
      have before : state.head thread = none :=
        Threads.State.head_of_busy busy
      have done : (Threads.Activity.idle : Threads.Activity CacheCall
          CacheReply EngineAnswer).head.bind EngineInstr.looksIn = none := rfl
      rw [before, done, Option.bind_none, Tier.marks_none] at sums
      simp only [entersGet, Bool.toNat_false, ite_self]
      omega
  | @background shared stepped =>
      rcases (CacheEngine.drain_kept stepped).2.2.2 tier with ⟨looked, missed⟩
      simp only [entersGet, Bool.toNat_false, ite_self, looked, missed]
      rfl

end Balance

/-! ## Runs -/

section Runs

variable {clients : Finset Thread} {tier : Tier}

theorem tierAccount_credit {state : EngineThreads Thread}
    (atRest : state.AtRest) :
    (tierAccount clients tier).credit state = state.shared.lookups tier := by
  simp only [tierAccount, atRest.head_eq_none, Option.bind_none,
    Tier.marks_none, Finset.sum_const_zero, Nat.add_zero]

variable [DecidableEq Thread] {xx : XxHash} {config : CacheEngineConfig}
  {moves : List (Threads.Move Thread CacheCall)}
  {replies : List (Option CacheReply)} {state last : EngineThreads Thread}

theorem tierAccount_gain
    (ran : (machine xx).run moves state = some (replies, last)) :
    (machine xx).tally (tierAccount clients tier).gain moves state =
      if tier = .l1 then moves.countP entersGet else 0 := by
  by_cases first : tier = .l1
  · simp only [tierAccount, if_pos first]
    exact Machine.tally_eq_countP entersGet ran
  · simp only [tierAccount, if_neg first]
    exact Machine.tally_zero moves state

theorem tierAccount_loss :
    (machine xx).tally (tierAccount clients tier).loss moves state = 0 :=
  Machine.tally_zero moves state

theorem Orderly.run (orderly : Orderly xx config state)
    (ran : (machine xx).run moves state = some (replies, last)) :
    Orderly xx config last :=
  Machine.run_preserves
    (fun _ _ _ _ orderly _ stepped => orderly.move stepped) orderly
    (.of_forall (fun _ _ _ => trivial) state) ran

theorem Orderly.account_run (orderly : Orderly xx config state)
    (ran : (machine xx).run moves state = some (replies, last))
    {account : CacheEngine.Account} (kept : account.Kept xx config) :
    account.credit last.shared + account.debit state.shared +
        (machine xx).tally (performs account.loss) moves state =
      account.credit state.shared + account.debit last.shared +
        (machine xx).tally (performs account.gain) moves state :=
  Machine.Account.run (ofEngine account)
    (fun orderly _ stepped => ⟨orderly.move stepped,
      orderly.balances kept stepped⟩) orderly
    (.of_forall (fun _ _ _ => trivial) state) ran

/-- From rest to rest, a tier counts a lookup for every miss of the tier
before, and L1 one for every get. -/
theorem Orderly.tier_run (orderly : Orderly xx config state)
    (ran : (machine xx).run moves state = some (replies, last))
    (fromRest : state.AtRest) (toRest : last.AtRest) (tier : Tier) :
    last.shared.lookups tier + state.shared.referred tier =
      state.shared.lookups tier + last.shared.referred tier +
        if tier = .l1 then moves.countP entersGet else 0 := by
  -- The sum of the marks is over the clients that move in the run.
  have known : (machine xx).Along (fun _ label => ∀ thread ∈ label.mover,
      thread ∈ (moves.filterMap Threads.Move.mover).toFinset) moves state := by
    apply Machine.Along.of_forall
    intro _ label member thread mover
    rw [List.mem_toFinset, List.mem_filterMap]
    exact ⟨label, member, mover⟩
  have balance := Machine.Account.run (tierAccount _ tier)
    (fun orderly known stepped => ⟨orderly.move stepped,
      orderly.tier_balances tier known stepped⟩) orderly known ran
  rw [tierAccount_credit toRest, tierAccount_credit fromRest,
    tierAccount_gain ran, tierAccount_loss, Nat.add_zero] at balance
  exact balance

end Runs

/-! ## The books at rest -/

section Books

variable {xx : XxHash} {config : CacheEngineConfig} {engine : CacheEngine}
  {store : AList fun _ : Key => Value}

theorem new_numbers
    (made : CacheEngine.new config (.new store) = some engine)
    (i : Fin kNumStripes) :
    (engine.l1.stripe i).numbers = ⟨0, 0, 0, 0, 0, 0, 0⟩ := by
  rcases Option.map_eq_some_iff.mp made with ⟨l1, l1Made, rfl⟩
  have valid : StripedCache.Valid .sample config.l1Config true _ l1 :=
    .new l1Made
  exact (valid.follows.numbers i).trans rfl

theorem new_tiers_zero
    (made : CacheEngine.new config (.new store) = some engine) (tier : Tier) :
    engine.lookups tier = 0 ∧ engine.referred tier = 0 := by
  have l1Hits : engine.l1Hits = 0 :=
    Finset.sum_eq_zero fun i _ =>
      congrArg StripeNumbers.hits (new_numbers made i)
  have l1Misses : engine.l1Misses = 0 :=
    Finset.sum_eq_zero fun i _ =>
      congrArg StripeNumbers.misses (new_numbers made i)
  have fresh : (∀ i, engine.l2Stripes i = .new) ∧ engine.backendReads = 0 := by
    rcases Option.map_eq_some_iff.mp made with ⟨l1, l1Made, rfl⟩
    exact ⟨fun _ => rfl, rfl⟩
  have l2Hits : engine.l2Hits = 0 :=
    Finset.sum_eq_zero fun i _ => congrArg L2Stripe.hits (fresh.1 i)
  have l2Misses : engine.l2Misses = 0 :=
    Finset.sum_eq_zero fun i _ => congrArg L2Stripe.misses (fresh.1 i)
  cases tier with
  | l1 => exact ⟨by rw [CacheEngine.lookups, l1Hits, l1Misses], rfl⟩
  | l2 => exact ⟨by rw [CacheEngine.lookups, l2Hits, l2Misses], l1Misses⟩
  | backend => exact ⟨fresh.2, l2Misses⟩

variable (xx) in
theorem new_entriesAccount
    (made : CacheEngine.new config (.new store) = some engine)
    (i : Fin kNumStripes) :
    (CacheEngine.entriesAccount xx i).credit engine = 0 := by
  simp only [CacheEngine.entriesAccount, new_numbers made i]

variable (xx) in
theorem new_mainAccount
    (made : CacheEngine.new config (.new store) = some engine)
    (i : Fin kNumStripes) :
    (CacheEngine.mainAccount xx i).credit engine = 0 ∧
      (CacheEngine.mainAccount xx i).debit engine = 0 := by
  simp only [CacheEngine.mainAccount, new_numbers made i, and_self]

theorem new_queueAccount
    (made : CacheEngine.new config (.new store) = some engine) :
    CacheEngine.queueAccount.credit engine = 0 ∧
      CacheEngine.queueAccount.debit engine = 0 := by
  have evictions : ∀ i, (engine.l1.stripe i).stats.evictions = 0 :=
    fun i => congrArg StripeNumbers.evictions (new_numbers made i)
  have none : CacheEngine.queueAccount.debit engine = 0 := by
    simp [CacheEngine.queueAccount, CacheEngine.l1Evictions,
      StripedCache.totalEvictions, evictions]
  refine ⟨?_, none⟩
  rcases Option.map_eq_some_iff.mp made with ⟨l1, l1Made, rfl⟩
  simp [CacheEngine.queueAccount, DemotionDrainer.new, DemotionQueue.new,
    DemotionDrainer.uncounted, DemotionQueue.unlockedSize, uint64Size]

end Books

/-- What the counters of an engine say of the moves from its start. -/
structure Accounts {Thread : Type} [DecidableEq Thread] (xx : XxHash)
    (moves : List (Threads.Move Thread CacheCall)) (start last : CacheEngine) :
    Prop where
  l1 : last.l1Hits + last.l1Misses = moves.countP entersGet
  l2 : last.l2Hits + last.l2Misses = last.l1Misses
  backend : last.backendReads = last.l2Misses
  inserted : ∀ i, (machine xx).tally (performs (CacheEngine.inserts xx i)) moves
      (.start start) =
    (last.l1.stripe i).size + (last.l1.stripe i).stats.evictions +
      (last.l1.stripe i).stats.rejections +
      (machine xx).tally (performs (CacheEngine.removes xx i)) moves
        (.start start)
  admitted : ∀ i, (last.l1.stripe i).stats.admissions =
    (last.l1.stripe i).probationLru.size +
      (last.l1.stripe i).protectedLru.size +
      (last.l1.stripe i).stats.evictions +
      (machine xx).tally (performs (CacheEngine.removesFromMain xx i)) moves
        (.start start)
  evicted : last.l1Evictions =
    last.demotionQueue.drops + last.demotionQueue.size + last.drainer.drained

/-- At every point where no client is in the middle of a call and the drainer
is not in the middle of a batch, the counters account for every lookup, every
entry and every item. -/
theorem accounts_at_rest {Thread : Type} [DecidableEq Thread] (xx : XxHash)
    {config : CacheEngineConfig} {store : AList fun _ : Key => Value}
    {engine : CacheEngine}
    (made : CacheEngine.new config (.new store) = some engine)
    (moves : List (Threads.Move Thread CacheCall))
    {replies : List (Option CacheReply)} {state : EngineThreads Thread}
    (ran : (machine xx).run moves (.start engine) = some (replies, state))
    (atRest : state.AtRest)
    (betweenBatches : ∀ final popped rest,
      state.shared.drainer.phase ≠ .inserting final popped rest) :
    Accounts xx moves engine state.shared := by
  have orderly : Orderly xx config (.start engine : EngineThreads Thread) :=
    ⟨.new made, .start engine⟩
  have tiers : ∀ tier, state.shared.lookups tier =
      state.shared.referred tier +
        if tier = .l1 then moves.countP entersGet else 0 := by
    intro tier
    have balance := orderly.tier_run ran (fun _ => rfl) atRest tier
    rcases new_tiers_zero made tier with ⟨looked, missed⟩
    change _ + engine.referred tier = engine.lookups tier + _ + _ at balance
    rw [looked, missed] at balance
    omega
  have l1 := tiers .l1
  have l2 := tiers .l2
  have backend := tiers .backend
  have noTierBefore : state.shared.referred .l1 = 0 := rfl
  rw [if_pos rfl, noTierBefore, Nat.zero_add] at l1
  rw [if_neg (by decide), Nat.add_zero] at l2 backend
  constructor
  · exact l1
  · exact l2
  · exact backend
  · intro i
    have balance := orderly.account_run ran
      (CacheEngine.entriesAccount_kept xx config i)
    change (state.shared.l1.stripe i).size +
      (state.shared.l1.stripe i).stats.evictions +
      (state.shared.l1.stripe i).stats.rejections + 0 + _ =
        CacheEngine.Account.credit _ engine + 0 + _ at balance
    rw [new_entriesAccount xx made i] at balance
    simp only [CacheEngine.entriesAccount] at balance
    omega
  · intro i
    have balance := orderly.account_run ran
      (CacheEngine.mainAccount_kept xx config i)
    rcases new_mainAccount xx made i with ⟨credit, debit⟩
    change (state.shared.l1.stripe i).probationLru.size +
      (state.shared.l1.stripe i).protectedLru.size +
      (state.shared.l1.stripe i).stats.evictions +
      CacheEngine.Account.debit _ engine + _ =
        CacheEngine.Account.credit _ engine +
          (state.shared.l1.stripe i).stats.admissions + _ at balance
    rw [credit, debit] at balance
    simp only [CacheEngine.mainAccount, performs_never,
      Machine.tally_zero] at balance
    omega
  · have balance := orderly.account_run ran
      (CacheEngine.queueAccount_kept xx config)
    rcases new_queueAccount made with ⟨credit, debit⟩
    have settled := DemotionDrainer.uncounted_eq_zero betweenBatches
    change state.shared.demotionQueue.drops +
      state.shared.demotionQueue.items.length + state.shared.drainer.drained +
      state.shared.drainer.uncounted + CacheEngine.Account.debit _ engine + _ =
        CacheEngine.Account.credit _ engine + state.shared.l1Evictions +
          _ at balance
    rw [credit, debit, settled] at balance
    simp only [CacheEngine.queueAccount, performs_never,
      Machine.tally_zero] at balance
    rw [(orderly.run ran).valid.queue.size_eq]
    omega

/-- Two clients and the drainer: a put, a get that misses every tier, a get that
hits, and a remove. -/
def mixedCalls : List (Threads.Move Bool CacheCall) :=
  [.enter false (.put "k" "1"), .perform false, .enter true (.get "w"),
    .perform true, .background, .perform false, .leave false, .perform true,
    .perform true, .background, .leave true, .enter true (.get "k"),
    .enter false (.remove "k"), .perform true, .perform false, .leave true,
    .perform false, .perform false, .leave false]

theorem accounts_at_rest_sample :
    ∃ engine replies state, CacheEngine.new .sample (.new ∅) = some engine ∧
      (machine .sample).run mixedCalls (.start engine) =
        some (replies, state) ∧
      (state.shared.l1Hits, state.shared.l1Misses,
        state.shared.backendReads) = (1, 1, 1) ∧
      Accounts .sample mixedCalls engine state.shared := by
  have ran : ((CacheEngine.new .sample (.new ∅)).bind fun engine =>
      ((machine .sample).run mixedCalls (.start engine)).map fun outcome =>
        ((outcome.2.shared.l1Hits, outcome.2.shared.l1Misses,
          outcome.2.shared.backendReads), decide outcome.2.AtRest,
            outcome.2.shared.drainer.phase)) =
          some ((1, 1, 1), true, .waiting) := by
    decide +kernel
  rcases Option.bind_eq_some_iff.mp ran with ⟨engine, made, ran⟩
  rcases Option.map_eq_some_iff.mp ran with ⟨⟨replies, state⟩, ran, final⟩
  obtain ⟨counts, atRest, phase⟩ : _ ∧ _ ∧ _ := by
    simpa only [Prod.mk.injEq] using final
  have betweenBatches : ∀ final popped rest,
      state.shared.drainer.phase ≠ .inserting final popped rest := by
    intro final popped rest
    rw [phase]
    nofun
  exact ⟨engine, replies, state, made, ran, by simpa using counts,
    accounts_at_rest .sample made mixedCalls ran (of_decide_eq_true atRest)
      betweenBatches⟩

end EngineThreads

end Walde
