import Walde.EngineReplay
import Walde.L1Independence
import Walde.ScanWorkload

namespace Walde

open Foundation

/-! # The engine among the policies

One thread replays the operations, and the drainer runs next to it. -/

theorem compared_queue_lt : 2048 < uint32Size := by decide

def CacheEngineConfig.compared (capacity : Nat) : CacheEngineConfig where
  l1Config := {
    totalCapacity := capacity
    windowPct := .defaultWindow
    probationPct := .defaultProbation }
  l2Capacity := capacity / 2
  demotionQueueSize := 2048
  demotionQueueSize_lt := compared_queue_lt

def BenchCall.calls : BenchCall → List CacheCall
  | .warmUp op =>
      match op.type with
      | .put | .rmw => [.put op.key op.value]
      | .get => [.get op.key]
  | .measured op =>
      match op.type with
      | .put => [.put op.key op.value]
      | .rmw => [.get op.key, .put op.key op.value]
      | .get => [.get op.key]

def BenchOp.keyOnly (op : BenchOp) : BenchOp := { op with value := "" }

/-- A replay of the operations on an engine in front of `backend`. -/
structure WaldeRun (xx : XxHash) (ops : List BenchOp) (warmup capacity : Nat)
    (backend : InMemoryBackend) extends
    BenchRun Unit xx (.compared capacity) backend where
  warms : warm.filterMap Threads.Move.entered =
    (ops.take warmup).map BenchCall.warmUp
  measures : moves.filterMap Threads.Move.entered =
    (measuredOps ops warmup).map BenchCall.measured

/-- What is published of the counters before and after. -/
def PolicyResult.ofEngine (ops : List BenchOp) (warmup capacity : Nat)
    (before after : CacheEngine) : PolicyResult :=
  let benchH1 := after.l1Hits - before.l1Hits
  let benchM1 := after.l1Misses - before.l1Misses
  let benchH2 := after.l2Hits - before.l2Hits
  let benchAdm := after.l1Admissions - before.l1Admissions
  let benchRej := after.l1Rejections - before.l1Rejections
  let benchEv := after.l1Evictions - before.l1Evictions
  { name := "WALDE"
    hitRate := rate (benchH1 + benchH2) (benchH1 + benchM1)
    l1HitRate := rate benchH1 (benchH1 + benchM1)
    l2HitRate := rate benchH2 benchM1
    admissionRate := rate benchAdm (benchAdm + benchRej)
    rejectionRate := rate benchRej (benchAdm + benchRej)
    totalOps := mops ops warmup
    evictions := benchEv
    approxMemory := (capacity + 64) % uint32Size * 128 + 4 * 8192 * 4 +
      capacity / 2 * (10 + 10 + 48 + 64) + capacity * 64 }

/-! ## Against the abstract cache -/

namespace ReadThrough

/-- What an operation does, and what its breakdown says. -/
def benchEffects (xx : XxHash) :
    Threads.Effects BenchCall (Option Measured) ReadThrough where
  effect cache call := call.calls.foldl (step xx) cache
  allowed cache call reply :=
    match call with
    | .warmUp _ => reply = none
    | .measured op => ∃ path, reply = some ⟨op, path⟩ ∧
        if op.isRead then
          (path = .l1Hit ↔ cache.holds xx op.key = true) ∧
            (path = .miss ↔ cache.known op.key = false)
        else path = .miss

theorem Finds.paths {xx : XxHash} {cache : ReadThrough} {key : Key}
    {found : Option Value} {path : LatencyPath}
    (finds : cache.Finds xx key found path) :
    (path = .l1Hit ↔ cache.holds xx key = true) ∧
      (path = .miss ↔ cache.known key = false) := by
  refine ⟨finds.path_l1Hit, finds.path_miss.trans ?_⟩
  rw [← finds.isSome]
  cases found <;> simp

theorem request_bench (xx : XxHash) (call : BenchCall) (cache : ReadThrough) :
    (BenchThreads.request call).wp (spec xx)
      (fun reply last => (benchEffects xx).allowed cache call reply ∧
        last = (benchEffects xx).effect cache call) cache := by
  rcases call with ⟨type, key, value⟩ | ⟨type, key, value⟩
  · cases type with
    | put => exact put_writes ⟨rfl, rfl⟩
    | rmw => exact put_writes ⟨rfl, rfl⟩
    | get =>
        simp only [BenchThreads.request, BenchThreads.warmUp, bind_assoc,
          Program.wp_bind]
        exact get_reads fun _ _ => ⟨rfl, rfl⟩
  · cases type with
    | put => exact put_writes ⟨⟨.miss, rfl, rfl⟩, rfl⟩
    | get =>
        simp only [BenchThreads.request, BenchThreads.measured, bind_assoc,
          Program.wp_bind]
        exact getPath_reads fun outcome finds =>
          ⟨⟨outcome.2, rfl, finds.paths⟩, rfl⟩
    | rmw =>
        simp only [BenchThreads.request, BenchThreads.measured, bind_assoc,
          Program.wp_bind]
        refine getPath_reads fun outcome finds => ?_
        exact put_writes ⟨⟨outcome.2, rfl, finds.paths⟩, rfl⟩

/-- What is seen of an operation where L2 and the backend look the same. -/
structure Seen where
  inL1 : Bool
  found : Bool
deriving DecidableEq, Repr

def sees (xx : XxHash) : ReadThrough → List BenchOp → List Seen
  | _, [] => []
  | cache, op :: rest =>
      ⟨op.isRead && cache.holds xx op.key, op.isRead && cache.known op.key⟩ ::
        sees xx ((benchEffects xx).effect cache (.measured op)) rest

def start (capacity : Nat) (backend : InMemoryBackend) : ReadThrough :=
  .new (.compared capacity) fun key => (backend.lookup key).isSome

def warmed (xx : XxHash) (cache : ReadThrough) (ops : List BenchOp)
    (warmup : Nat) : ReadThrough :=
  (benchEffects xx).after cache ((ops.take warmup).map .warmUp)

def replayed (xx : XxHash) (cache : ReadThrough) (ops : List BenchOp)
    (warmup : Nat) : ReadThrough :=
  (benchEffects xx).after (cache.warmed xx ops warmup)
    ((measuredOps ops warmup).map .measured)

end ReadThrough

def Measured.seen (outcome : Measured) : ReadThrough.Seen where
  inL1 := outcome.path = .l1Hit
  found := outcome.path ≠ .miss

namespace ReadThrough

theorem seen_of_answers {xx : XxHash} {cache : ReadThrough}
    {ops : List BenchOp} {done : List (BenchCall × Option Measured)}
    (answers : (benchEffects xx).Answers cache done)
    (calls : done.map Prod.fst = ops.map BenchCall.measured) :
    (done.map Prod.snd).reduceOption.map Measured.op = ops ∧
      (done.map Prod.snd).reduceOption.map Measured.seen =
        cache.sees xx ops := by
  induction ops generalizing cache done with
  | nil =>
      rw [List.map_nil, List.map_eq_nil_iff] at calls
      subst calls
      exact ⟨rfl, rfl⟩
  | cons op rest induction =>
      rcases List.map_eq_cons_iff.mp calls with
        ⟨⟨call, reply⟩, others, rfl, rfl, callsRest⟩
      rcases answers with ⟨⟨path, rfl, paths⟩, answersRest⟩
      rcases induction answersRest callsRest with ⟨ops, seen⟩
      refine ⟨congrArg (op :: ·) ops, ?_⟩
      have here : Measured.seen ⟨op, path⟩ =
          ⟨op.isRead && cache.holds xx op.key,
            op.isRead && cache.known op.key⟩ := by
        rw [Measured.seen]
        cases read : op.isRead with
        | true =>
            rw [if_pos read] at paths
            simp [paths]
        | false =>
            rw [if_neg (by simp [read])] at paths
            simp [paths]
      rw [List.map_cons, List.reduceOption_cons_of_some, List.map_cons, seen,
        sees, here]

end ReadThrough

namespace WaldeRun

section Replays

variable {xx : XxHash} {ops ops' : List BenchOp} {warmup capacity : Nat}
  {backend backend' : InMemoryBackend}

def result (run : WaldeRun xx ops warmup capacity backend) : PolicyResult :=
  .ofEngine ops warmup capacity run.before.shared run.after.shared

theorem of_attempt (ops : List BenchOp) (warmup : Nat)
    {warm moves : List (Threads.Move Unit BenchCall)} {outcomes : List Measured}
    (completes : BenchRun.attempt xx (.compared capacity) backend warm moves =
      some outcomes)
    (warms : warm.filterMap Threads.Move.entered =
      (ops.take warmup).map BenchCall.warmUp)
    (measures : moves.filterMap Threads.Move.entered =
      (measuredOps ops warmup).map BenchCall.measured) :
    ∃ run : WaldeRun xx ops warmup capacity backend,
      run.measured = outcomes := by
  have measuring : ∀ thread op, .enter thread (.warmUp op) ∉ moves := by
    intro thread op member
    have entered : BenchCall.warmUp op ∈ moves.filterMap Threads.Move.entered :=
      List.mem_filterMap.mpr ⟨_, member, rfl⟩
    rw [measures] at entered
    rcases List.mem_map.mp entered with ⟨other, -, equal⟩
    cases equal
  rcases BenchRun.of_attempt completes measuring with
    ⟨run, rfl, rfl, measured⟩
  exact ⟨⟨run, warms, measures⟩, measured⟩

variable (run : WaldeRun xx ops warmup capacity backend)

include run

theorem shows_before :
    ((ReadThrough.start capacity backend).warmed xx ops warmup).Shows xx
      (.compared capacity) run.before.shared := by
  rcases Threads.Alone.run_answers (fun _ => rfl) (.new run.made)
      ReadThrough.implements
      (fun shows' stepped => shows'.drained stepped)
      (fun _ _ thread _ => Subsingleton.elim thread ())
      (fun call _ => ReadThrough.request_bench xx call) run.warmed
      run.beforeAtRest with ⟨done, -, -, -, shows'⟩
  rw [run.warms] at shows'
  exact shows'

theorem answers :
    run.measured.map Measured.op = measuredOps ops warmup ∧
      run.measured.map Measured.seen =
        ((ReadThrough.start capacity backend).warmed xx ops warmup).sees xx
          (measuredOps ops warmup) ∧
      ((ReadThrough.start capacity backend).replayed xx ops warmup).Shows xx
        (.compared capacity) run.after.shared := by
  rcases Threads.Alone.run_answers run.beforeAtRest
      run.shows_before
      ReadThrough.implements
      (fun shows' stepped => shows'.drained stepped)
      (fun _ _ thread _ => Subsingleton.elim thread ())
      (fun call _ => ReadThrough.request_bench xx call) run.ran
      run.afterAtRest with ⟨done, answers, replied, calls, shows'⟩
  have measured : run.measured = (done.map Prod.snd).reduceOption := by
    rw [replied, BenchRun.measured, BenchThreads.measuredOf, List.reduceOption,
      List.reduceOption, List.filterMap_filterMap]
    rfl
  rw [run.measures] at calls shows'
  rcases ReadThrough.seen_of_answers answers calls with ⟨ops, seen⟩
  exact ⟨measured ▸ ops, measured ▸ seen, shows'⟩

end Replays

/-! ## What a replay depends on -/

theorem sameStats {xx : XxHash} {cache : ReadThrough}
    {config : CacheEngineConfig} {engine engine' : CacheEngine}
    (shows' : cache.Shows xx config engine)
    (shows'' : cache.Shows xx config engine') (i : Fin kNumStripes) :
    (engine'.l1.stripe i).stats = (engine.l1.stripe i).stats := by
  rw [shows'.inL1.stats, shows''.inL1.stats]

section KeyOnly

variable (xx : XxHash) (cache : ReadThrough) (ops : List BenchOp) (warmup : Nat)

end KeyOnly

section Rates

variable {xx : XxHash} {ops : List BenchOp} {warmup capacity : Nat}
  {backend : InMemoryBackend} (run : WaldeRun xx ops warmup capacity backend)

theorem misses_eq : run.after.shared.l1Misses - run.before.shared.l1Misses =
    run.reads - run.took .l1Hit := by
  have reads := run.l1Hits_add_l1Misses
  rw [run.l1Hits_eq] at reads
  rw [← reads, Nat.add_sub_cancel_left]

theorem took_l1Hit_le : run.took .l1Hit ≤ run.reads :=
  (Nat.le_add_right _ _).trans run.took_hits_le

theorem l1HitRate_eq :
    run.result.l1HitRate = rate (run.took .l1Hit) run.reads := by
  rw [result, PolicyResult.ofEngine, run.l1Hits_eq, run.misses_eq,
    Nat.add_sub_cancel' run.took_l1Hit_le]

theorem l2HitRate_eq : run.result.l2HitRate =
    rate (run.took .l2Hit) (run.reads - run.took .l1Hit) := by
  rw [result, PolicyResult.ofEngine, run.l2Hits_eq, run.misses_eq]

theorem hitRate_eq : run.result.hitRate =
    rate (run.took .l1Hit + run.took .l2Hit) run.reads := by
  rw [result, PolicyResult.ofEngine, run.l1Hits_eq, run.l2Hits_eq,
    run.misses_eq, Nat.add_sub_cancel' run.took_l1Hit_le]

/-- The rates are the shares of the reads whose breakdowns say so. -/
theorem result_rates :
    run.result.l1HitRate * run.reads = run.took .l1Hit ∧
      run.result.hitRate * run.reads = run.took .l1Hit + run.took .l2Hit ∧
      run.result.hitRate = run.result.l1HitRate +
        (1 - run.result.l1HitRate) * run.result.l2HitRate ∧
      0 ≤ run.result.l1HitRate ∧ run.result.l1HitRate ≤ run.result.hitRate ∧
      run.result.hitRate ≤ 1 := by
  have within := run.took_hits_le
  rw [run.hitRate_eq, run.l1HitRate_eq, run.l2HitRate_eq]
  generalize run.took .l1Hit = hits at *
  generalize run.took .l2Hit = rescued at *
  obtain ⟨rest, whole⟩ := Nat.exists_eq_add_of_le (Nat.le_of_add_right_le within)
  rw [whole] at within ⊢
  rw [Nat.add_sub_cancel_left]
  refine ⟨?_, ?_, ?_, ?_, ?_, ?_⟩
  · exact rate_mul (Nat.le_add_right hits rest)
  · rw [rate_mul within, Nat.cast_add]
  · exact rate_split (by omega)
  · exact (rate_bounds (Nat.le_add_right hits rest)).1
  · exact rate_mono (Nat.le_add_right hits rescued)
  · exact (rate_bounds within).2

end Rates

/-- A read that finds nothing, and one that hits L1. -/
theorem result_rates_sample :
    ∃ run : WaldeRun .sample [⟨.put, "k", "1"⟩, ⟨.get, "w", ""⟩,
        ⟨.rmw, "k", "2"⟩] 1 192 (.new ∅),
      run.measured.map Measured.path = [.miss, .l1Hit] ∧
      run.result.l1HitRate * run.reads = run.took .l1Hit ∧
      run.result.hitRate ≤ 1 := by
  have completes : BenchRun.attempt .sample (.compared 192) (.new ∅)
      [.enter () (.warmUp ⟨.put, "k", "1"⟩), .perform (), .perform (),
        .leave ()]
      [.enter () (.measured ⟨.get, "w", ""⟩), .perform (), .perform (),
        .perform (), .leave (), .enter () (.measured ⟨.rmw, "k", "2"⟩),
        .perform (), .perform (), .perform (), .leave ()] =
      some [⟨⟨.get, "w", ""⟩, .miss⟩, ⟨⟨.rmw, "k", "2"⟩, .l1Hit⟩] := by
    decide +kernel
  rcases of_attempt [⟨.put, "k", "1"⟩, ⟨.get, "w", ""⟩, ⟨.rmw, "k", "2"⟩] 1
    completes rfl rfl with ⟨run, measured⟩
  rcases result_rates run with ⟨share, -, -, -, -, whole⟩
  exact ⟨run, by rw [measured]; rfl, share, whole⟩

end WaldeRun

end Walde
