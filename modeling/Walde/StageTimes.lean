import Walde.Instrumentation

namespace Walde

open Foundation

/-! # The stage times of a get

What the timers of a get measure around the locks and the lookups of L1, and
what the breakdown says of it in the end. -/

def Stopwatch.Reports (lockWait lookup : Int) (watch : Stopwatch) : Prop :=
  ∃ bd, watch.breakdown = some bd ∧ bd.lockWaitNs = lockWait ∧
    bd.lookupNs = lookup

def Stopwatch.Shows (holds : LatencyBreakdown → Prop) (watch : Stopwatch) :
    Prop :=
  ∃ bd, watch.breakdown = some bd ∧ holds bd

namespace CacheStripe

open SlabProgram Timed

/-! ## The stripe -/

section Leaves

variable (xx : XxHash) (stripe : CacheStripe)

theorem switch_leaves {α : Type} {idx : Nat} {segment : Segment}
    {next : CacheStripe → Timed SlabProgram α} {watch : Stopwatch}
    {post : α → Stopwatch → Prop}
    (rest : ∀ stripe, Leaves (next stripe) watch post) :
    Leaves ((match segment with
        | .window => do
            let windowLru ← stripe.windowLru.moveToFront idx
            return { stripe with windowLru }
        | .probation => stripe.promoteToProtected idx
        | .protected_ => do
            let protectedLru ← stripe.protectedLru.moveToFront idx
            return { stripe with protectedLru }
        | .free | .l2 => return stripe : Timed SlabProgram CacheStripe) >>= next)
      watch post := by
  refine Leaves.bind (?_ : Leaves _ _ fun _ after => after = watch) ?_
  · cases segment with
    | window => exact leaves_lift_bind fun _ => leaves_pure rfl
    | probation => exact leaves_lift fun _ => rfl
    | protected_ => exact leaves_lift_bind fun _ => leaves_pure rfl
    | free => exact leaves_pure rfl
    | l2 => exact leaves_pure rfl
  · exact fun stripe _ same => same ▸ rest stripe

theorem getTimed_leaves (key : Key) (readings : Nat → Int)
    (bd : LatencyBreakdown) :
    Leaves (stripe.getTimed xx key) ⟨readings, some bd⟩ fun _ after =>
      after = ⟨fun i => readings (i + 4), some { bd with
        lockWaitNs := readings 1 - readings 0
        lookupNs := readings 3 - readings 2 }⟩ := by
  rw [getTimed]
  iterate 4 apply leaves_modifyGet_bind
  cases stripe.indexMap.lookup key with
  | none =>
      iterate 2 apply leaves_modifyGet_bind
      exact leaves_pure rfl
  | some idx =>
      apply leaves_lift_bind
      intro node
      apply switch_leaves
      intro stripe
      iterate 2 apply leaves_modifyGet_bind
      exact leaves_lift_bind fun node => leaves_pure rfl

variable {holds : LatencyBreakdown → Prop}

theorem startTimer_held :
    LeavesHeld (Stopwatch.Shows holds)
      (startTimer : Timed SlabProgram Int) := by
  apply LeavesHeld.bind (.modifyGet fun _ shows' => shows')
  intro timed
  cases timed with
  | true => exact .modifyGet fun _ shows' => shows'
  | false => exact .pure 0

theorem stopTimer_held {start : Int}
    {change : Int → LatencyBreakdown → LatencyBreakdown}
    (kept : ∀ ns bd, holds bd → holds (change ns bd)) :
    LeavesHeld (Stopwatch.Shows holds)
      (stopTimer start change : Timed SlabProgram Unit) := by
  apply LeavesHeld.bind (.modifyGet fun _ shows' => shows')
  intro timed
  cases timed with
  | true =>
      apply LeavesHeld.bind (.modifyGet fun _ shows' => shows')
      intro stop
      apply LeavesHeld.modifyGet
      rintro watch ⟨bd, present, here⟩
      exact ⟨change (stop - start) bd, congrArg (Option.map _) present,
        kept _ bd here⟩
  | false => exact .pure ()

/-- What the times of the admission and of the eviction do not change. -/
structure Unrelated (holds : LatencyBreakdown → Prop) : Prop where
  admission : ∀ ns bd, holds bd →
    holds { bd with admissionNs := bd.admissionNs + ns }
  eviction : ∀ ns bd, holds bd →
    holds { bd with evictionNs := bd.evictionNs + ns }

theorem contestTimed_held (unrelated : Unrelated holds) (candidateIdx : Nat) :
    LeavesHeld (Stopwatch.Shows holds)
      (stripe.contestTimed xx candidateIdx) := by
  rw [contestTimed]
  apply startTimer_held.bind
  intro admitStart
  apply (LeavesHeld.lift _).bind
  intro candidate
  apply (LeavesHeld.lift _).bind
  intro victim
  apply (stopTimer_held unrelated.admission).bind
  intro _
  split
  · apply startTimer_held.bind
    intro evictStart
    apply (LeavesHeld.lift _).bind
    rintro ⟨_, probationLru⟩
    apply (LeavesHeld.lift _).bind
    intro stripe
    apply (LeavesHeld.lift _).bind
    intro _
    apply (LeavesHeld.lift _).bind
    intro probationLru
    apply (stopTimer_held unrelated.eviction).bind
    intro _
    exact .pure _
  · exact .lift _

theorem shrinkWindowTimed_held (unrelated : Unrelated holds) (rounds : Nat) :
    LeavesHeld (Stopwatch.Shows holds)
      (stripe.shrinkWindowTimed xx rounds) := by
  induction rounds generalizing stripe with
  | zero =>
      rw [shrinkWindowTimed]
      split
      · exact .lift _
      · exact .pure _
  | succ rounds induction =>
      rw [shrinkWindowTimed]
      split
      · refine LeavesHeld.bind ?_ fun stripe => induction stripe
        rw [tryAdmitFromWindowTimed]
        apply (LeavesHeld.lift _).bind
        rintro ⟨candidateIdx, windowLru⟩
        dsimp only
        split
        · exact .pure _
        · split
          · exact .lift _
          · split
            · exact .lift _
            · exact contestTimed_held xx _ unrelated candidateIdx
      · exact .pure _

theorem putTimed_shows (key : Key) (value : Value) (readings : Nat → Int)
    (bd : LatencyBreakdown) :
    Leaves (stripe.putTimed xx key value) ⟨readings, some bd⟩ fun _ after =>
      after.Shows fun bd' => bd'.lockWaitNs = readings 1 - readings 0 ∧
        bd'.lookupNs = readings 3 - readings 2 ∧ bd'.path = bd.path := by
  rw [putTimed]
  iterate 4 apply leaves_modifyGet_bind
  dsimp only
  generalize { stripe with cms := stripe.cms.increment xx key }.maybeDecayCms =
    counted
  cases counted.indexMap.lookup key with
  | some idx =>
      apply leaves_lift_bind
      intro _
      apply leaves_lift_bind
      intro node
      apply switch_leaves
      intro stripe
      iterate 2 apply leaves_modifyGet_bind
      exact leaves_pure ⟨_, rfl, rfl, rfl, rfl⟩
  | none =>
      iterate 3 apply leaves_modifyGet_bind
      apply leaves_lift_bind
      intro idx
      iterate 2 apply leaves_modifyGet_bind
      split
      · exact leaves_pure ⟨_, rfl, rfl, rfl, rfl⟩
      · apply leaves_lift_bind
        intro _
        refine Leaves.bind (?_ : Leaves _ _ fun _ after => after.Shows
          fun bd' => bd'.lockWaitNs = readings 1 - readings 0 ∧
            bd'.lookupNs = readings 3 - readings 2 ∧ bd'.path = bd.path) ?_
        · rw [insertIntoWindowTimed]
          apply leaves_lift_bind
          intro windowLru
          exact shrinkWindowTimed_held xx _
            ⟨fun _ _ same => same, fun _ _ same => same⟩ windowLru.size _
            ⟨_, rfl, rfl, rfl, rfl⟩
        · exact fun _ _ shows' => leaves_pure shows'

theorem putTimed_leaves (key : Key) (value : Value) (readings : Nat → Int)
    (bd : LatencyBreakdown) :
    Leaves (stripe.putTimed xx key value) ⟨readings, some bd⟩ fun _ after =>
      after.Reports (readings 1 - readings 0) (readings 3 - readings 2) :=
  (putTimed_shows xx stripe key value readings bd).mono
    fun _ ⟨bd', present, lockWait, lookup, _⟩ =>
      ⟨bd', present, lockWait, lookup⟩

end Leaves

end CacheStripe

namespace StripeSystem

theorem performWith_leaves {count : Nat} {α : Type}
    {allocator : Pool.Allocator SlabAllocator CacheNode}
    {system after : StripeSystem count} {i : Fin count}
    {program : Timed SlabProgram (α × CacheStripe)} {watch last : Stopwatch}
    {post : Stopwatch → Prop} (leaves : Leaves program watch fun _ => post)
    {answer : α} {offered : List DemotionItem}
    (performed : system.performWith allocator i program watch =
      some (((answer, last), offered), after)) : post last := by
  rcases Option.map_eq_some_iff.mp performed with ⟨outcome, ran, same⟩
  have always : (program.run watch >>= fun outcome =>
      pure ((outcome.1.1, outcome.2), outcome.1.2) :
        SlabProgram ((α × Stopwatch) × CacheStripe)).Always
      fun outcome => post outcome.1.2 :=
    (Program.always_bind _ _).mpr leaves
  have lastSame : outcome.1.1.2 = last := congrArg (·.1.1.2) same
  exact lastSame ▸ always.run ran

end StripeSystem

namespace CacheEngine

open Timed

/-! ## The calls of L1 -/

section L1

variable {xx : XxHash} {config : CacheEngineConfig} {engine : CacheEngine}
  {key : Key} {readings : Nat → Int} {bd : LatencyBreakdown}

theorem Valid.l1GetWith (valid : engine.Valid xx config) (key : Key)
    (readings : Nat → Int) (bd : LatencyBreakdown) :
    ∃ after, l1GetWith xx key ⟨readings, some bd⟩ engine =
        some ((engine.l1.peek xx key, ⟨fun i => readings (i + 4), some { bd with
          lockWaitNs := readings 1 - readings 0
          lookupNs := readings 3 - readings 2 }⟩), after) ∧
      after.Valid xx config ∧ after.tiers xx = engine.tiers xx := by
  rcases implements xx config (.l1Get key)
      (fun found tiers => found = engine.l1.peek xx key ∧
        tiers = engine.tiers xx) _ engine ⟨valid, rfl⟩ ⟨rfl, rfl⟩ with
    ⟨found, _, after, performed, ⟨valid', rfl⟩, rfl, same⟩
  rcases (l1GetWith_erases xx key).outcome performed ⟨readings, some bd⟩ with
    ⟨last, completed⟩
  refine ⟨after, ?_, valid', same⟩
  rcases Option.bind_eq_some_iff.mp completed with
    ⟨⟨⟨⟨_, _⟩, _⟩, l1⟩, got, returned⟩
  cases returned
  obtain rfl := StripeSystem.performWith_leaves
    (leaves_modifyGet_bind (CacheStripe.getTimed_leaves xx _ key readings bd)) got
  exact completed

theorem Valid.l1PutWith (valid : engine.Valid xx config) (key : Key)
    (value : Value) (readings : Nat → Int) (bd : LatencyBreakdown) :
    ∃ inserted last after, l1PutWith xx key value ⟨readings, some bd⟩ engine =
        some ((inserted, last), after) ∧
      last.Reports (readings 1 - readings 0) (readings 3 - readings 2) := by
  rcases implements xx config (.l1Put key value) (fun _ _ => True) _ engine
      ⟨valid, rfl⟩ (fun _ _ _ => trivial) with
    ⟨inserted, _, after, performed, -, -⟩
  rcases (l1PutWith_erases xx key value).outcome performed
      ⟨readings, some bd⟩ with ⟨last, completed⟩
  refine ⟨inserted, last, after, completed, ?_⟩
  rcases Option.bind_eq_some_iff.mp completed with
    ⟨⟨⟨⟨_, _⟩, _⟩, l1⟩, put, returned⟩
  cases returned
  exact StripeSystem.performWith_leaves (leaves_modifyGet_bind
    (CacheStripe.putTimed_leaves xx _ key value readings bd)) put

theorem Valid.l2GetWith (valid : engine.Valid xx config) (key : Key)
    (readings : Nat → Int) (bd : LatencyBreakdown) :
    ∃ after, l2GetWith xx key ⟨readings, some bd⟩ engine =
        some ((engine.l2Peek xx key, ⟨fun i => readings (i + 2), some { bd with
          l2Ns := readings 1 - readings 0 }⟩), after) ∧
      after.Valid xx config ∧ after.backend.lookup = engine.backend.lookup := by
  rcases implements xx config (.l2Get key)
      (fun found tiers => found = engine.l2Peek xx key ∧
        tiers.backend = engine.backend.lookup) _ engine ⟨valid, rfl⟩
      ⟨rfl, rfl⟩ with
    ⟨found, _, after, performed, ⟨valid', rfl⟩, rfl, same⟩
  refine ⟨after, ?_, valid', same⟩
  have started : (startTimer : Timed EngineStateM Int) ⟨readings, some bd⟩ engine =
      some ((readings 0, ⟨fun i => readings (i + 1), some bd⟩), engine) := rfl
  exact bind_completed started (bind_completed (lift_completed performed) rfl)

end L1

end CacheEngine

/-! ## What is measured -/

/-- The times that a call measures around each lock of L1 that it takes, and
around each lookup under one. -/
structure L1Times where
  lockWaits : List Int := []
  lookups : List Int := []

/-- A call of L1 with a breakdown reads the clock before and after it takes the
lock, and before and after its lookup. -/
def L1Times.measure (times : L1Times) (watch : Stopwatch) : L1Times :=
  if watch.breakdown.isSome then {
    lockWaits := times.lockWaits ++ [watch.readings 1 - watch.readings 0]
    lookups := times.lookups ++ [watch.readings 3 - watch.readings 2] }
  else times

/-- No time is missing from the breakdown. -/
structure L1Times.Complete (times : L1Times) (bd : LatencyBreakdown) : Prop where
  lockWaits : bd.lockWaitNs = times.lockWaits.sum
  lookups : bd.lookupNs = times.lookups.sum

namespace CacheEngine

open Timed

abbrev Noted := StateT L1Times (Timed EngineStateM)

def noteL1 {α : Type} (call : Timed EngineStateM α) : Noted α :=
  fun times watch => do
    let (answer, last) ← call watch
    return ((answer, times.measure watch), last)

abbrev unnoted {α : Type} (call : Timed EngineStateM α) : Noted α := liftM call

def getNoted (xx : XxHash) (key : Key) : Noted (Option Value) := do
  match ← noteL1 (l1GetWith xx key) with
  | some value => do
      unnoted (record fun bd => { bd with path := .l1Hit })
      return some value
  | none =>
      match ← unnoted (l2GetWith xx key) with
      | some value => do
          unnoted (record fun bd => { bd with path := .l2Hit })
          let _ ← noteL1 (l1PutWith xx key value)
          return some value
      | none =>
          if ← unnoted hasBreakdown then do
            let backendStart ← unnoted now
            let found ← unnoted (instruction xx (.backendGet key))
            let backendEnd ← unnoted now
            unnoted (record fun bd =>
              { bd with backendNs := backendEnd - backendStart })
            match found with
            | some value => do
                unnoted (record fun bd => { bd with path := .backendHit })
                let _ ← noteL1 (l1PutWith xx key value)
                return some value
            | none => do
                unnoted (record fun bd => { bd with path := .miss })
                return none
          else
            match ← unnoted (instruction xx (.backendGet key)) with
            | some value => do
                let _ ← noteL1 (l1PutWith xx key value)
                return some value
            | none => return none

theorem noteL1_erases {α : Type} (call : Timed EngineStateM α) :
    Erases (noteL1 call) call := by
  intro times
  funext watch engine
  change (((call watch engine).bind _).bind _) = _
  cases call watch engine <;> rfl

theorem refillNoted_erases (xx : XxHash) (key : Key) (value : Value) :
    Erases (do
        let _ ← noteL1 (l1PutWith xx key value)
        return some value)
      (do
        let _ ← l1PutWith xx key value
        return some value) :=
  (noteL1_erases _).bind fun _ => .pure _

theorem getNoted_erases (xx : XxHash) (key : Key) :
    Erases (getNoted xx key) (getWith xx key) := by
  apply (noteL1_erases _).bind
  intro inL1
  cases inL1 with
  | some value => exact (Erases.lift _).bind fun _ => .pure _
  | none =>
      apply (Erases.lift _).bind
      intro inL2
      cases inL2 with
      | some value =>
          exact (Erases.lift _).bind fun _ => refillNoted_erases xx key value
      | none =>
          apply (Erases.lift _).bind
          intro present
          cases present with
          | true =>
              apply (Erases.lift _).bind
              intro backendStart
              apply (Erases.lift _).bind
              intro found
              apply (Erases.lift _).bind
              intro backendEnd
              apply (Erases.lift _).bind
              intro _
              cases found with
              | some value =>
                  exact (Erases.lift _).bind fun _ =>
                    refillNoted_erases xx key value
              | none => exact (Erases.lift _).bind fun _ => .pure _
          | false =>
              apply (Erases.lift _).bind
              intro found
              cases found with
              | some value => exact refillNoted_erases xx key value
              | none => exact .pure _

/-! ## What is measured in each case -/

section Completed

variable {xx : XxHash} {config : CacheEngineConfig} {engine after : CacheEngine}
  {key : Key} {readings : Nat → Int} {bd : LatencyBreakdown} {α β : Type}
  {times times' : L1Times} {watch last : Stopwatch} {answer : α}

theorem noted_bind {noted : Noted α} {next : α → Noted β}
    {outcome : Option (((β × L1Times) × Stopwatch) × CacheEngine)}
    (first : noted times watch engine = some (((answer, times'), last), after))
    (rest : next answer times' last after = outcome) :
    (noted >>= next) times watch engine = outcome := by
  change (noted times watch engine).bind _ = outcome
  rw [first]
  exact rest

theorem unnoted_completed {call : Timed EngineStateM α}
    (ran : call watch engine = some ((answer, last), after)) :
    unnoted call times watch engine = some (((answer, times), last), after) := by
  change (call watch engine).bind _ = _
  rw [ran]
  rfl

theorem noteL1_completed {call : Timed EngineStateM α}
    (ran : call watch engine = some ((answer, last), after)) :
    noteL1 call times watch engine =
      some (((answer, times.measure watch), last), after) := by
  change ((call watch engine).bind _) = _
  rw [ran]
  rfl

theorem Valid.refillNoted (valid : engine.Valid xx config) (key : Key)
    (value : Value) :
    ∃ clock bd' after,
      (do
        let _ ← noteL1 (CacheEngine.l1PutWith xx key value)
        return some value : Noted (Option Value)) times ⟨readings, some bd⟩
          engine =
        some (((some value, times.measure ⟨readings, some bd⟩),
          ⟨clock, some bd'⟩), after) ∧
      bd'.lockWaitNs = readings 1 - readings 0 ∧
      bd'.lookupNs = readings 3 - readings 2 := by
  rcases valid.l1PutWith key value readings bd with
    ⟨inserted, ⟨clock, _⟩, after, ran, bd', present, lockWait, lookup⟩
  cases present
  exact ⟨clock, bd', after, noted_bind (noteL1_completed ran) rfl, lockWait,
    lookup⟩

theorem backendNoted {found : Option Value} {next : Option Value → Noted α}
    {outcome : Option (((α × L1Times) × Stopwatch) × CacheEngine)}
    (got : instruction xx (.backendGet key) engine = some (found, after))
    (rest : next found times ⟨fun i => readings (i + 2), some { bd with
      backendNs := readings 1 - readings 0 }⟩ after = outcome) :
    (do
      let backendStart ← unnoted now
      let found ← unnoted (instruction xx (.backendGet key))
      let backendEnd ← unnoted now
      unnoted (record fun bd =>
        { bd with backendNs := backendEnd - backendStart })
      next found) times ⟨readings, some bd⟩ engine = outcome :=
  noted_bind (unnoted_completed rfl)
    (noted_bind (unnoted_completed (lift_completed got))
      (noted_bind (unnoted_completed rfl)
        (noted_bind (unnoted_completed rfl) rest)))

theorem complete_refill {first second : Nat → Int}
    (lockWait : bd.lockWaitNs = second 1 - second 0)
    (lookup : bd.lookupNs = second 3 - second 2) {bd₁ bd₂ : LatencyBreakdown} :
    ((({} : L1Times).measure ⟨first, some bd₁⟩).measure
        ⟨second, some bd₂⟩).Complete bd ↔
      first 1 = first 0 ∧ first 3 = first 2 := by
  constructor
  · rintro ⟨lockWaits, lookups⟩
    simp only [L1Times.measure, Option.isSome_some, ↓reduceIte, List.nil_append,
      List.cons_append, List.sum_cons, List.sum_nil] at lockWaits lookups
    omega
  · rintro ⟨wait, time⟩
    constructor <;>
      simp only [L1Times.measure, Option.isSome_some, ↓reduceIte,
        List.nil_append, List.cons_append, List.sum_cons, List.sum_nil] <;>
      omega

/-- The breakdown is complete unless L1 is refilled and the lookup that missed
took any time. -/
theorem Valid.getNoted (valid : engine.Valid xx config) (key : Key)
    (readings : Nat → Int) :
    ∃ found times clock bd after,
      CacheEngine.getNoted xx key {} ⟨readings, some {}⟩ engine =
        some (((found, times), ⟨clock, some bd⟩), after) ∧
      (times.Complete bd ↔ engine.l1.peek xx key ≠ none ∨
        engine.l2Peek xx key = none ∧ engine.backend.lookup key = none ∨
        readings 1 = readings 0 ∧ readings 3 = readings 2) := by
  rcases valid.l1GetWith key readings {} with
    ⟨engine₁, gotL1, valid₁, tiers⟩
  have l2Same : engine₁.l2Peek xx = engine.l2Peek xx := congrArg Tiers.l2 tiers
  have backendSame : engine₁.backend.lookup = engine.backend.lookup :=
    congrArg Tiers.backend tiers
  have alone : ∀ {bd : LatencyBreakdown},
      bd.lockWaitNs = readings 1 - readings 0 →
      bd.lookupNs = readings 3 - readings 2 →
      (({} : L1Times).measure ⟨readings, some {}⟩).Complete bd := by
    intro bd lockWait lookup
    constructor <;> simp [L1Times.measure, lockWait, lookup]
  cases inL1 : engine.l1.peek xx key with
  | some value =>
      rw [inL1] at gotL1
      refine ⟨_, _, _, _, _, noted_bind (noteL1_completed gotL1)
        (noted_bind (unnoted_completed rfl) rfl), ?_⟩
      exact iff_of_true (alone rfl rfl) (.inl (Option.some_ne_none value))
  | none =>
      rw [inL1] at gotL1
      rcases valid₁.l2GetWith key (fun i => readings (i + 4))
          { ({} : LatencyBreakdown) with
            lockWaitNs := readings 1 - readings 0
            lookupNs := readings 3 - readings 2 } with
        ⟨engine₂, gotL2, valid₂, backendSame'⟩
      rw [l2Same] at gotL2
      cases inL2 : engine.l2Peek xx key with
      | some value =>
          rw [inL2] at gotL2
          rcases valid₂.refillNoted key value with
            ⟨clock, bd, after, refilled, lockWait, lookup⟩
          refine ⟨_, _, _, _, _, noted_bind (noteL1_completed gotL1)
            (noted_bind (unnoted_completed gotL2)
              (noted_bind (unnoted_completed rfl) refilled)), ?_⟩
          rw [complete_refill lockWait lookup]
          simp
      | none =>
          rw [inL2] at gotL2
          have gotBackend : instruction xx (.backendGet key) engine₂ =
              some (engine.backend.lookup key, { engine₂ with
                backend := (engine₂.backend.get key).2 }) := by
            rw [← backendSame, ← backendSame']
            rfl
          have valid₃ := valid₂.withBackend (engine₂.backend.get key).2
          cases inBackend : engine.backend.lookup key with
          | some value =>
              rw [inBackend] at gotBackend
              rcases valid₃.refillNoted key value with
                ⟨clock, bd, after, refilled, lockWait, lookup⟩
              refine ⟨_, _, _, _, _, noted_bind (noteL1_completed gotL1)
                (noted_bind (unnoted_completed gotL2)
                  (noted_bind (unnoted_completed rfl) (backendNoted gotBackend
                    (noted_bind (unnoted_completed rfl) refilled)))), ?_⟩
              rw [complete_refill lockWait lookup]
              simp
          | none =>
              rw [inBackend] at gotBackend
              refine ⟨_, _, _, _, _, noted_bind (noteL1_completed gotL1)
                (noted_bind (unnoted_completed gotL2)
                  (noted_bind (unnoted_completed rfl) (backendNoted gotBackend
                    (noted_bind (unnoted_completed rfl) rfl)))), ?_⟩
              exact iff_of_true (alone rfl rfl) (.inr (.inl ⟨rfl, rfl⟩))

/-- In every state that the engine can reach, a get with a fresh breakdown ends
with all of its waits and lookups in it exactly when no second call of L1
follows, or the first one took no time. -/
theorem getWith_complete_iff {backend : InMemoryBackend}
    (made : CacheEngine.new config backend = some engine)
    {steps : List EngineStep} {replies : List (Option CacheReply)}
    {reached : CacheEngine}
    (ran : engine.run xx steps = some (replies, reached)) (key : Key)
    (readings : Nat → Int) :
    ∃ found times clock bd after,
      CacheEngine.getNoted xx key {} ⟨readings, some {}⟩ reached =
        some (((found, times), ⟨clock, some bd⟩), after) ∧
      getWith xx key ⟨readings, some {}⟩ reached =
        some ((found, ⟨clock, some bd⟩), after) ∧
      (times.Complete bd ↔ reached.l1.peek xx key ≠ none ∨
        reached.l2Peek xx key = none ∧ reached.backend.lookup key = none ∨
        readings 1 = readings 0 ∧ readings 3 = readings 2) := by
  rcases (Valid.new made : engine.Valid xx config).run steps with
    ⟨_, _, ran', valid⟩
  rw [ran] at ran'
  cases ran'
  rcases valid.getNoted key readings with
    ⟨found, times, clock, bd, after, noted, complete⟩
  refine ⟨found, times, clock, bd, after, noted, ?_, complete⟩
  have erased := congrFun (congrFun (getNoted_erases xx key {})
    ⟨readings, some {}⟩) reached
  change (CacheEngine.getNoted xx key {} ⟨readings, some {}⟩ reached).bind _ = _
    at erased
  rw [noted] at erased
  exact erased.symm

theorem getWith_complete_iff_sample :
    ∃ engine, CacheEngine.new .sample (.new ∅) = some engine ∧
      ∃ replies reached,
        engine.run .sample [.call (.put "k" "1")] = some (replies, reached) ∧
      ∃ found times clock bd after,
        CacheEngine.getNoted .sample "k" {} ⟨fun i => i, some {}⟩ reached =
          some (((found, times), ⟨clock, some bd⟩), after) ∧
        getWith .sample "k" ⟨fun i => i, some {}⟩ reached =
          some ((found, ⟨clock, some bd⟩), after) ∧
        (times.Complete bd ↔ reached.l1.peek .sample "k" ≠ none ∨
          reached.l2Peek .sample "k" = none ∧
            reached.backend.lookup "k" = none ∨
          (1 : Int) = 0 ∧ (3 : Int) = 2) := by
  have accepted : ∃ engine, CacheEngine.new .sample (.new ∅) = some engine := by
    have made : (CacheEngine.new .sample (.new ∅)).isSome = true := by
      decide +kernel
    exact Option.isSome_iff_exists.mp made
  rcases accepted with ⟨engine, made⟩
  rcases (Valid.new made : engine.Valid .sample _).run [.call (.put "k" "1")]
    with ⟨replies, reached, ran, -⟩
  exact ⟨engine, made, replies, reached, ran,
    getWith_complete_iff made ran "k" _⟩

/-- The first get of a key of the backend, with a clock that ticks at each
reading, waits twice for one tick, and the breakdown says one. -/
theorem backendHit_incomplete :
    ∃ engine,
      CacheEngine.new .sample (.new (AList.insert "k" "1" ∅)) = some engine ∧
      ∃ found times clock bd after,
        CacheEngine.getNoted .sample "k" {} ⟨fun i => i, some {}⟩ engine =
          some (((found, times), ⟨clock, some bd⟩), after) ∧
        ¬times.Complete bd := by
  have accepted : ∃ engine,
      CacheEngine.new .sample (.new (AList.insert "k" "1" ∅)) = some engine := by
    have made : (CacheEngine.new .sample
        (.new (AList.insert "k" "1" ∅))).isSome = true := by
      decide +kernel
    exact Option.isSome_iff_exists.mp made
  rcases accepted with ⟨engine, made⟩
  rcases new_tiers .sample made with ⟨l1, -, -, backend⟩
  have missed : engine.l1.peek .sample "k" = none := congrFun l1 "k"
  have held : engine.backend.lookup "k" = some "1" :=
    (congrFun backend "k").trans rfl
  rcases (Valid.new made : engine.Valid .sample _).getNoted "k" fun i => i with
    ⟨found, times, clock, bd, after, noted, complete⟩
  refine ⟨engine, made, found, times, clock, bd, after, noted, ?_⟩
  rw [complete, missed, held]
  simp

end Completed

end CacheEngine

end Walde
