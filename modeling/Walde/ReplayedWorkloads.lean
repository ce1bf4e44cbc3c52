import Walde.WaldeReplay

namespace Walde

open Foundation

/-! # Replays of the workloads

What the backends that the benchmarks fill mean for the operations that their
generators emit. -/

/-- The keys that the generators draw. -/
def makeBackend (numKeys : Nat) : InMemoryBackend :=
  (List.range numKeys).foldl (fun backend i =>
    (backend.put ("key_" ++ toString i) ("value_" ++ toString i)).2) (.new ∅)

def makeTraceBackend (keys : List Key) : InMemoryBackend :=
  keys.foldl (fun backend key =>
    (backend.put key ("trace_val_" ++ key)).2) (.new ∅)

theorem isSome_lookup_foldl {α : Type} (keyOf : α → Key) (valueOf : α → Value)
    (items : List α) (backend : InMemoryBackend) (key : Key) :
    ((items.foldl (fun backend item =>
        (backend.put (keyOf item) (valueOf item)).2) backend).lookup key).isSome =
      ((backend.lookup key).isSome || items.any fun item => keyOf item = key) := by
  induction items generalizing backend with
  | nil => rw [List.foldl_nil, List.any_nil, Bool.or_false]
  | cons item rest induction =>
      rw [List.foldl_cons, induction, InMemoryBackend.put_lookup, List.any_cons,
        ← Bool.or_assoc]
      congr 1
      by_cases same : key = keyOf item
      · rw [same, Function.update_self]
        simp
      · rw [Function.update_of_ne same]
        simp [Ne.symm same]

theorem makeBackend_lookup (numKeys : Nat) (key : Key) :
    ((makeBackend numKeys).lookup key).isSome = true ↔
      ∃ index, index < numKeys ∧ ZipfianGenerator.keyOf index = key := by
  have filled := isSome_lookup_foldl (fun i : Nat => "key_" ++ toString i)
    (fun i => "value_" ++ toString i) (List.range numKeys) (.new ∅) key
  rw [makeBackend, filled]
  simp [InMemoryBackend.lookup, InMemoryBackend.new, ZipfianGenerator.keyOf]

theorem makeTraceBackend_lookup (keys : List Key) (key : Key) :
    ((makeTraceBackend keys).lookup key).isSome = true ↔ key ∈ keys := by
  have filled := isSome_lookup_foldl id (fun key => "trace_val_" ++ key) keys
    (.new ∅) key
  rw [makeTraceBackend]
  simp only [id] at filled
  rw [filled]
  simp [InMemoryBackend.lookup, InMemoryBackend.new]

/-! ## Keys that are known by then -/

def BenchOp.writes (key : Key) (op : BenchOp) : Bool :=
  op.type ≠ .get && op.key = key

def BenchCall.op : BenchCall → BenchOp
  | .warmUp op => op
  | .measured op => op

namespace ReadThrough

section Known

variable (xx : XxHash) (cache : ReadThrough) (key : Key)

theorem known_step (call : CacheCall) : (cache.step xx call).known key =
    (cache.known key || call.writes key) := by
  cases call with
  | get other =>
      have kept : (cache.read xx other).known = cache.known := by
        rw [read]
        split
        · rfl
        · split <;> rfl
      rw [step, kept]
      exact (Bool.or_false _).symm
  | put other value =>
      rw [CacheCall.writes]
      change Function.update cache.known other true key = _
      by_cases same : key = other
      · rw [same, Function.update_self]
        simp
      · rw [Function.update_of_ne same]
        simp [Ne.symm same]
  | remove other => exact (Bool.or_false _).symm

theorem known_foldl (calls : List CacheCall) :
    (calls.foldl (step xx) cache).known key =
      (cache.known key || calls.any (CacheCall.writes key)) := by
  induction calls generalizing cache with
  | nil => rw [List.foldl_nil, List.any_nil, Bool.or_false]
  | cons call rest induction =>
      rw [List.foldl_cons, induction, known_step, List.any_cons, Bool.or_assoc]

theorem known_effect (call : BenchCall) :
    ((benchEffects xx).effect cache call).known key =
      (cache.known key || call.op.writes key) := by
  rw [benchEffects, known_foldl]
  rcases call with ⟨type, other, value⟩ | ⟨type, other, value⟩ <;>
    cases type <;>
    simp [BenchCall.calls, BenchCall.op, BenchOp.writes, CacheCall.writes] <;>
    rfl

theorem known_after (calls : List BenchCall) :
    ((benchEffects xx).after cache calls).known key =
      (cache.known key || calls.any fun call => call.op.writes key) := by
  induction calls generalizing cache with
  | nil => exact (Bool.or_false _).symm
  | cons call rest induction =>
      have later := induction ((benchEffects xx).effect cache call)
      rw [known_effect, Bool.or_assoc] at later
      exact later

theorem sees_append (before after : List BenchOp) :
    cache.sees xx (before ++ after) = cache.sees xx before ++
      ((benchEffects xx).after cache (before.map .measured)).sees xx after := by
  induction before generalizing cache with
  | nil => rfl
  | cons op rest induction =>
      rw [List.cons_append, sees, induction]
      rfl

theorem length_sees (ops : List BenchOp) :
    (cache.sees xx ops).length = ops.length := by
  induction ops generalizing cache with
  | nil => rfl
  | cons op rest induction => exact congrArg (· + 1) (induction _)

end Known

end ReadThrough

namespace WaldeRun

section Found

variable {xx : XxHash} {ops : List BenchOp} {warmup capacity : Nat}
  {backend : InMemoryBackend} (run : WaldeRun xx ops warmup capacity backend)
  {before after : List Measured} {outcome : Measured}
  (split : run.measured = before ++ outcome :: after)

include run split

theorem past_prefix : ∃ rest, ops =
    (ops.take warmup ++ before.map Measured.op) ++ outcome.op :: rest := by
  have measured := (run.answers).1
  rw [split, List.map_append, List.map_cons, measuredOps] at measured
  have nonempty : (ops.take (ops.length % uint32Size)).drop warmup ≠ [] := by
    rw [← measured]
    simp
  have within : warmup ≤ ops.length % uint32Size := by
    by_contra beyond
    apply nonempty
    rw [List.drop_eq_nil_iff, List.length_take]
    omega
  have begins : (ops.take (ops.length % uint32Size)).take warmup =
      ops.take warmup := by
    rw [List.take_take, Nat.min_eq_left within]
  refine ⟨after.map Measured.op ++ ops.drop (ops.length % uint32Size), ?_⟩
  have whole := List.take_append_drop warmup
    (ops.take (ops.length % uint32Size))
  rw [begins, ← measured] at whole
  conv_lhs => rw [← List.take_append_drop (ops.length % uint32Size) ops, ← whole]
  simp only [List.append_assoc, List.cons_append]

theorem seen_at : outcome.seen =
    let cache := (ReadThrough.benchEffects xx).after
      ((ReadThrough.start capacity backend).warmed xx ops warmup)
      ((before.map Measured.op).map .measured)
    ⟨outcome.op.isRead && cache.holds xx outcome.op.key,
      outcome.op.isRead && cache.known outcome.op.key⟩ := by
  rcases run.answers with ⟨measured, seen, -⟩
  rw [← measured, split, List.map_append, List.map_append, List.map_cons,
    List.map_cons, ReadThrough.sees_append, ReadThrough.sees] at seen
  have lengths : (before.map Measured.seen).length =
      (((ReadThrough.start capacity backend).warmed xx ops warmup).sees xx
        (before.map Measured.op)).length := by
    rw [ReadThrough.length_sees, List.length_map, List.length_map]
  exact (List.cons.inj (List.append_inj_right seen lengths)).1

/-- A read finds its key if and only if the backend had it or an operation wrote
it before. -/
theorem found_iff (read : outcome.op.isRead = true) :
    outcome.path ≠ .miss ↔
      (backend.lookup outcome.op.key).isSome = true ∨
      ∃ op ∈ ops.take warmup ++ before.map Measured.op,
        op.writes outcome.op.key = true := by
  have seen := congrArg ReadThrough.Seen.found (run.seen_at split)
  dsimp only at seen
  rw [read, Bool.true_and, ReadThrough.known_after, ReadThrough.warmed,
    ReadThrough.known_after, List.any_map (l := ops.take warmup),
    List.any_map (l := before.map Measured.op), Bool.or_assoc] at seen
  have past : outcome.seen.found =
      ((backend.lookup outcome.op.key).isSome ||
        (ops.take warmup ++ before.map Measured.op).any
          (BenchOp.writes outcome.op.key)) := by
    rw [List.any_append]
    exact seen
  rw [← List.any_eq_true, ← Bool.or_eq_true, ← past, Measured.seen,
    decide_eq_true_eq]

end Found

end WaldeRun

/-! ## YCSB -/

namespace BenchWorkloadConfig

variable {config : BenchWorkloadConfig} {draws : BenchDraws}

theorem written_of_inserted {past : List BenchOp}
    (allowed : ∀ before op after, past = before ++ op :: after →
      config.Allows (draws.coin before.length) before op)
    {index : Nat} (beyond : config.numKeys ≤ index)
    (inserted : index < config.numKeys + config.inserted past) :
    ∃ op ∈ past, op.writes (ZipfianGenerator.keyOf index) = true := by
  induction past using List.reverseRecOn with
  | nil =>
      have none : config.inserted [] = 0 := by
        unfold BenchWorkloadConfig.inserted
        split <;> rfl
      omega
  | append_singleton past op induction =>
      have earlier : ∀ before op' after, past = before ++ op' :: after →
          config.Allows (draws.coin before.length) before op' := by
        intro before op' after split
        exact allowed before op' (after ++ [op]) (by rw [split]; simp)
      by_cases sooner : index < config.numKeys + config.inserted past
      · rcases induction earlier sooner with ⟨found, member, writes⟩
        exact ⟨found, List.mem_append_left _ member, writes⟩
      · rw [BenchWorkloadGenerator.inserted_concat] at inserted
        split at inserted
        · rename_i inserts
          have here := (allowed past op [] rfl).key
          rcases here with ⟨index', key, placed⟩
          rw [if_pos inserts] at placed
          obtain rfl : index' = index := by omega
          refine ⟨op, List.mem_append_right _ List.mem_cons_self, ?_⟩
          rw [BenchOp.writes, key, inserts.2]
          simp
        · omega

/-- Every operation but an insertion is on a key that the backend had or that has
been written. -/
theorem known_of_allowed {past : List BenchOp} {op : BenchOp} {coin : ℚ}
    (allowed : ∀ before op after, past = before ++ op :: after →
      config.Allows (draws.coin before.length) before op)
    (here : config.Allows coin past op) (read : op.isRead = true) :
    ((makeBackend config.numKeys).lookup op.key).isSome = true ∨
      ∃ earlier ∈ past, earlier.writes op.key = true := by
  rcases here.key with ⟨index, key, placed⟩
  have noPut : op.type ≠ .put := of_decide_eq_true read
  rw [if_neg (fun both => noPut both.2)] at placed
  rw [key]
  by_cases old : index < config.numKeys
  · exact .inl ((makeBackend_lookup _ _).mpr ⟨index, old, rfl⟩)
  · exact .inr (written_of_inserted allowed (Nat.le_of_not_lt old) placed)

end BenchWorkloadConfig

namespace WaldeRun

/-- No read of a YCSB workload misses all tiers, neither of a key that the backend
had from the beginning nor of one that D has inserted since: every read is
rescued by L1, by L2 or by the backend. -/
theorem generated_found {math : DoubleMath} {config : BenchWorkloadConfig}
    {draws : BenchDraws} {generator : BenchWorkloadGenerator}
    (made : BenchWorkloadGenerator.new math config draws = some generator)
    (inRange : draws.InRange config.numKeys) {count : Nat}
    (keysFit : config.numKeys < uint32Size)
    (room : config.workload = .d → config.numKeys + count < uint32Size)
    {xx : XxHash} {warmup capacity : Nat}
    (run : WaldeRun xx (generator.generateBatch count).1 warmup capacity
      (makeBackend config.numKeys)) :
    (∀ outcome ∈ run.measured, outcome.op.isRead = true →
        outcome.path ≠ .miss) ∧
      run.took .l1Hit + run.took .l2Hit + run.took .backendHit =
        run.reads := by
  rcases BenchWorkloadGenerator.generateBatch_follows made inRange keysFit room
    with ⟨-, -, allowed⟩
  have found : ∀ outcome ∈ run.measured, outcome.op.isRead = true →
      outcome.path ≠ .miss := by
    intro outcome member read
    rcases List.append_of_mem member with ⟨before, after, split⟩
    rcases run.past_prefix split with ⟨rest, emitted⟩
    rw [run.found_iff split read]
    have here := allowed _ _ _ emitted
    refine BenchWorkloadConfig.known_of_allowed (fun before' op after' inPast =>
      allowed before' op (after' ++ outcome.op :: rest) ?_) here read
    rw [emitted, inPast, List.append_assoc, List.cons_append]
  exact ⟨found, run.took_of_found found⟩

/-- A read of a key that was inserted since. -/
theorem generated_found_sample :
    ∃ generator, BenchWorkloadGenerator.new .sample
        BenchWorkloadGenerator.sampleConfig BenchWorkloadGenerator.sampleDraws =
          some generator ∧
      ∃ run : WaldeRun .sample (generator.generateBatch 3).1 1 192
          (makeBackend 2),
        run.measured.map Measured.path = [.miss, .l1Hit] ∧
        (∀ outcome ∈ run.measured, outcome.op.isRead = true →
          outcome.path ≠ .miss) ∧
        run.took .l1Hit + run.took .l2Hit + run.took .backendHit =
          run.reads := by
  have completes : BenchRun.attempt .sample (.compared 192) (makeBackend 2)
      [.enter () (.warmUp ⟨.get, "key_1", ""⟩), .perform (), .perform (),
        .perform (), .perform (), .leave ()]
      [.enter () (.measured ⟨.put, "key_2", "val_2"⟩), .perform (),
        .background, .perform (), .leave (),
        .enter () (.measured ⟨.get, "key_2", ""⟩), .perform (), .leave ()] =
      some [⟨⟨.put, "key_2", "val_2"⟩, .miss⟩,
        ⟨⟨.get, "key_2", ""⟩, .l1Hit⟩] := by
    decide +kernel
  have emits : (BenchWorkloadGenerator.new .sample
      BenchWorkloadGenerator.sampleConfig
      BenchWorkloadGenerator.sampleDraws).map (fun generator =>
        (generator.generateBatch 3).1) = some [⟨.get, "key_1", ""⟩,
          ⟨.put, "key_2", "val_2"⟩, ⟨.get, "key_2", ""⟩] := by
    decide +kernel
  rcases Option.map_eq_some_iff.mp emits with ⟨generator, made, emitted⟩
  rcases of_attempt (generator.generateBatch 3).1 1 completes
    (by rw [emitted]; rfl) (by rw [emitted]; rfl) with ⟨run, measured⟩
  exact ⟨generator, made, run, by rw [measured]; rfl, generated_found made
    ⟨fun _ => one_pos, fun _ => Nat.zero_le _, fun _ => one_pos⟩ (by decide)
    (fun _ => by decide) run⟩

end WaldeRun

/-! ## Scans -/

def ofBurst (key : Key) : Bool := key.toList.take 5 = "scan_".toList

def BenchOp.scans (op : BenchOp) : Bool := ofBurst op.key

theorem ofBurst_scanKey (index : Nat) :
    ofBurst (WorkloadGenerator.scanKey index) = true := by
  rw [ofBurst, WorkloadGenerator.scanKey, String.toList_append]
  simp

theorem ofBurst_keyOf (index : Nat) :
    ofBurst (ZipfianGenerator.keyOf index) = false := by
  rw [ofBurst, ZipfianGenerator.keyOf, String.toList_append]
  simp

/-- The reads of bursts and the operations on the keys of the backend. -/
def ScanOps (numKeys : Nat) (ops : List BenchOp) : Prop :=
  ∀ op ∈ ops, ScanWorkloadGenerator.IsScan op ∨
    ScanWorkloadGenerator.IsDrawn numKeys op

section ScanOps

variable {numKeys warmup : Nat} {ops : List BenchOp} {op : BenchOp}

theorem ScanOps.writes (scanOps : ScanOps numKeys ops) (member : op ∈ ops)
    {key : Key} (writes : op.writes key = true) : ofBurst key = false := by
  rw [BenchOp.writes, Bool.and_eq_true, decide_eq_true_eq, decide_eq_true_eq]
    at writes
  rcases scanOps op member with ⟨get, -⟩ | ⟨-, index, -, drawn⟩
  · exact absurd get writes.1
  · rw [← writes.2, drawn, ofBurst_keyOf]

theorem ScanOps.scans_iff (scanOps : ScanOps numKeys ops) (member : op ∈ ops) :
    op.scans = true ↔ ScanWorkloadGenerator.IsScan op := by
  constructor
  · intro scans
    refine (scanOps op member).resolve_right ?_
    rintro ⟨-, index, -, drawn⟩
    rw [BenchOp.scans, drawn, ofBurst_keyOf] at scans
    cases scans
  · rintro ⟨-, index, scanned⟩
    rw [BenchOp.scans, scanned, ofBurst_scanKey]

theorem ScanOps.type (scanOps : ScanOps numKeys ops) (member : op ∈ ops)
    (scans : op.scans = true) : op.type = .get :=
  ((scanOps.scans_iff member).mp scans).1

theorem filter_take_drop (kept : BenchOp → Bool) (ops : List BenchOp)
    (warmup : Nat) : ops.filter kept =
      (ops.take warmup).filter kept ++ (ops.drop warmup).filter kept := by
  rw [← List.filter_append, List.take_append_drop]

theorem take_unscanned :
    (ops.filter fun op => !op.scans).take
        ((ops.take warmup).countP fun op => !op.scans) =
      (ops.take warmup).filter fun op => !op.scans := by
  rw [filter_take_drop _ ops warmup]
  exact List.take_left' (List.countP_eq_length_filter ..).symm

theorem measuredOps_unscanned (short : ops.length < uint32Size) :
    measuredOps (ops.filter fun op => !op.scans)
        ((ops.take warmup).countP fun op => !op.scans) =
      (measuredOps ops warmup).filter fun op => !op.scans := by
  have fewer : (ops.filter fun op => !op.scans).length < uint32Size :=
    Nat.lt_of_le_of_lt (List.length_filter_le ..) short
  rw [measuredOps, measuredOps, Nat.mod_eq_of_lt short, Nat.mod_eq_of_lt fewer,
    List.take_length, List.take_length]
  rw [filter_take_drop _ ops warmup]
  exact List.drop_left' (List.countP_eq_length_filter ..).symm

end ScanOps

namespace ReadThrough

theorem after_eq_foldl (xx : XxHash) (cache : ReadThrough)
    (calls : List BenchCall) : (benchEffects xx).after cache calls =
      (calls.flatMap BenchCall.calls).foldl (step xx) cache := by
  rw [List.foldl_flatMap]
  rfl

theorem concerns_calls {call : BenchCall}
    (scan : call.op.scans = true → call.op.type = .get) :
    call.calls.filter (CacheCall.concerns fun key => !ofBurst key) =
      if call.op.scans then [] else call.calls := by
  rcases call with ⟨type, key, value⟩ | ⟨type, key, value⟩ <;>
    cases burst : ofBurst key <;> cases type <;>
    simp_all [BenchCall.calls, BenchCall.op, BenchOp.scans, CacheCall.concerns]

theorem filter_calls {calls : List BenchCall}
    (scans : ∀ call ∈ calls, call.op.scans = true → call.op.type = .get) :
    (calls.flatMap BenchCall.calls).filter
        (CacheCall.concerns fun key => !ofBurst key) =
      (calls.filter fun call => !call.op.scans).flatMap BenchCall.calls := by
  induction calls with
  | nil => rfl
  | cons call rest induction =>
      have later := induction fun call member =>
        scans call (List.mem_cons_of_mem _ member)
      rw [List.flatMap_cons, List.filter_append, later,
        concerns_calls (scans call List.mem_cons_self), List.filter_cons]
      cases call.op.scans <;> rfl

theorem writes_of_calls {call : BenchCall} {made : CacheCall}
    (member : made ∈ call.calls) {key : Key} (writes : made.writes key = true) :
    call.op.writes key = true := by
  have any : call.calls.any (CacheCall.writes key) = true :=
    List.any_eq_true.mpr ⟨made, member, writes⟩
  rcases call with ⟨type, other, value⟩ | ⟨type, other, value⟩ <;>
    cases type <;>
    simp_all [BenchCall.calls, BenchCall.op, BenchOp.writes, CacheCall.writes]

theorem start_within (capacity numKeys : Nat) :
    (start capacity (makeBackend numKeys)).Within fun key => !ofBurst key := by
  apply Within.new
  intro key known
  rcases (makeBackend_lookup numKeys key).mp known with ⟨index, -, rfl⟩
  rw [ofBurst_keyOf]
  rfl

theorem after_unscanned (xx : XxHash) {cache : ReadThrough} {numKeys : Nat}
    (within : cache.Within fun key => !ofBurst key) {calls : List BenchCall}
    (scanOps : ScanOps numKeys (calls.map BenchCall.op)) :
    ((benchEffects xx).after cache calls).Alike ((benchEffects xx).after cache
      (calls.filter fun call => !call.op.scans)) := by
  have types : ∀ call ∈ calls, call.op.scans = true → call.op.type = .get :=
    fun call member => scanOps.type (List.mem_map_of_mem member)
  rw [after_eq_foldl, after_eq_foldl, ← filter_calls types]
  apply (unwinding xx _).foldl_filter within within ⟨rfl, fun i => .refl _, rfl⟩
  intro made member key writes
  rcases List.mem_flatMap.mp member with ⟨call, inCalls, member⟩
  rw [scanOps.writes (List.mem_map_of_mem inCalls)
    (writes_of_calls member writes)]
  rfl

theorem filter_map_op (call : BenchOp → BenchCall) (same : ∀ op, (call op).op = op)
    (ops : List BenchOp) :
    (ops.map call).filter (fun call => !call.op.scans) =
      (ops.filter fun op => !op.scans).map call := by
  rw [List.filter_map]
  congr 2
  funext op
  rw [Function.comp_apply, same]

section Unscanned

variable (xx : XxHash) {cache : ReadThrough} {numKeys : Nat} {ops : List BenchOp}
  (within : cache.Within fun key => !ofBurst key)
  (scanOps : ScanOps numKeys ops) (warmup : Nat)

include within scanOps

theorem warmed_unscanned : (cache.warmed xx ops warmup).Alike
    (cache.warmed xx (ops.filter fun op => !op.scans)
      ((ops.take warmup).countP fun op => !op.scans)) := by
  have scans : ScanOps numKeys
      (((ops.take warmup).map BenchCall.warmUp).map BenchCall.op) := by
    intro op member
    rcases List.mem_map.mp member with ⟨call, inCalls, rfl⟩
    rcases List.mem_map.mp inCalls with ⟨op, inTaken, rfl⟩
    exact scanOps op (List.mem_of_mem_take inTaken)
  rw [warmed, warmed, take_unscanned, ← filter_map_op _ fun _ => rfl]
  exact after_unscanned xx within scans

theorem replayed_unscanned (short : ops.length < uint32Size) :
    (cache.replayed xx ops warmup).Alike
      (cache.replayed xx (ops.filter fun op => !op.scans)
        ((ops.take warmup).countP fun op => !op.scans)) := by
  have scans : ScanOps numKeys (((ops.take warmup).map BenchCall.warmUp ++
      (measuredOps ops warmup).map BenchCall.measured).map BenchCall.op) := by
    intro op member
    rcases List.mem_map.mp member with ⟨call, inCalls, rfl⟩
    rcases List.mem_append.mp inCalls with inWarm | inMeasured
    · rcases List.mem_map.mp inWarm with ⟨op, inTaken, rfl⟩
      exact scanOps op (List.mem_of_mem_take inTaken)
    · rcases List.mem_map.mp inMeasured with ⟨op, inRest, rfl⟩
      exact scanOps op (List.mem_of_mem_take (List.mem_of_mem_drop inRest))
  rw [replayed, replayed, warmed, warmed, Threads.Effects.after,
    Threads.Effects.after, Threads.Effects.after, Threads.Effects.after,
    ← List.foldl_append, ← List.foldl_append, take_unscanned,
    measuredOps_unscanned short, ← filter_map_op .warmUp fun _ => rfl,
    ← filter_map_op .measured fun _ => rfl, ← List.filter_append]
  exact after_unscanned xx within scans

end Unscanned

end ReadThrough

namespace WaldeRun

theorem sum_stats_eq {l1 l1' : StripedCache} (same : l1.SameKeys l1')
    (field : StripeStats → Nat)
    (ignores : ∀ stats, field (StripeStats.withoutMisses stats) = field stats) :
    ∑ i, field (l1'.stripe i).stats = ∑ i, field (l1.stripe i).stats := by
  apply Finset.sum_congr rfl
  intro i _
  rw [← ignores, same.stats, ignores]

theorem counts_eq {engine engine' : CacheEngine}
    (same : engine.l1.SameKeys engine'.l1) :
    engine'.l1Hits = engine.l1Hits ∧
      engine'.l1Admissions = engine.l1Admissions ∧
      engine'.l1Rejections = engine.l1Rejections ∧
      engine'.l1Evictions = engine.l1Evictions := by
  have hits := sum_stats_eq same StripeStats.hits fun _ => rfl
  have admissions := sum_stats_eq same StripeStats.admissions fun _ => rfl
  have rejections := sum_stats_eq same StripeStats.rejections fun _ => rfl
  have evictions := sum_stats_eq same StripeStats.evictions fun _ => rfl
  rw [CacheEngine.l1Hits, CacheEngine.l1Hits, CacheEngine.l1Admissions,
    CacheEngine.l1Admissions, CacheEngine.l1Rejections,
    CacheEngine.l1Rejections, CacheEngine.l1Evictions, CacheEngine.l1Evictions,
    StripedCache.totalEvictions, StripedCache.totalEvictions]
  exact ⟨hits, admissions, rejections, evictions⟩

/-- In the scan benchmark the bursts never reach L1: the backend does not have
their keys. L1 ends up like after a replay without them, with the same keys in
the same order and as many hits, and every read of a burst misses all tiers. -/
theorem scans_bypass {math : DoubleMath} {config : ScanWorkloadConfig}
    {zipfDraws coin : Nat → ℚ} {generator generator' : ScanWorkloadGenerator}
    (made : ScanWorkloadGenerator.new math config zipfDraws coin =
      some generator)
    (below_one : ∀ i, zipfDraws i < 1) {depth count : Nat} {ops : List BenchOp}
    (emitted : generator.generateBatch math depth count =
      some (ops, generator'))
    (short : ops.length < uint32Size) {xx : XxHash} {warmup capacity : Nat}
    (run : WaldeRun xx ops warmup capacity (makeBackend config.numKeys))
    (run' : WaldeRun xx (ops.filter fun op => !op.scans)
      ((ops.take warmup).countP fun op => !op.scans) capacity
      (makeBackend config.numKeys)) :
    run.after.shared.l1.SameKeys run'.after.shared.l1 ∧
      run'.took .l1Hit = run.took .l1Hit ∧
      run'.result.admissionRate = run.result.admissionRate ∧
      run'.result.rejectionRate = run.result.rejectionRate ∧
      run'.result.evictions = run.result.evictions ∧
      (∀ outcome ∈ run.measured, outcome.op.scans = true →
        outcome.path = .miss) ∧
      ∀ op ∈ ops, op.scans = true ↔ ScanWorkloadGenerator.IsScan op := by
  rcases Option.map_eq_some_iff.mp made with ⟨zipf, zipfMade, rfl⟩
  have scanOps : ScanOps config.numKeys ops :=
    ScanWorkloadGenerator.generateBatch_keys
      (BenchZipfian.new_ranged zipfMade below_one) emitted
  have within := ReadThrough.start_within capacity config.numKeys
  have before := (ReadThrough.warmed_unscanned xx within scanOps warmup).sameKeys
    run.shows_before.inL1 run'.shows_before.inL1
  have after := (ReadThrough.replayed_unscanned xx within scanOps warmup
    short).sameKeys (run.answers).2.2.inL1
      (run'.answers).2.2.inL1
  rcases counts_eq before with ⟨hits, admissions, rejections, evictions⟩
  rcases counts_eq after with ⟨hits', admissions', rejections', evictions'⟩
  refine ⟨after, ?_, ?_, ?_, ?_, ?_, fun op member => scanOps.scans_iff member⟩
  · rw [← run.l1Hits_eq, ← run'.l1Hits_eq, hits, hits']
  · simp only [result, PolicyResult.ofEngine, admissions, admissions',
      rejections, rejections']
  · simp only [result, PolicyResult.ofEngine, admissions, admissions',
      rejections, rejections']
  · simp only [result, PolicyResult.ofEngine, evictions, evictions']
  · intro outcome member scans
    rcases List.append_of_mem member with ⟨before, after, split⟩
    rcases run.past_prefix split with ⟨rest, whole⟩
    have here : outcome.op ∈ ops := by
      rw [whole]
      simp
    have read : outcome.op.isRead = true := by
      rw [BenchOp.isRead, scanOps.type here scans]
      rfl
    by_contra found
    rcases (run.found_iff split read).mp found with
      known | ⟨op, inPast, writes⟩
    · rcases (makeBackend_lookup _ _).mp known with ⟨index, -, key⟩
      rw [BenchOp.scans, ← key, ofBurst_keyOf] at scans
      cases scans
    · have inOps : op ∈ ops := by
        rw [whole]
        exact List.mem_append_left _ inPast
      rw [BenchOp.scans, scanOps.writes inOps writes] at scans
      cases scans

/-- One operation is drawn, and then a burst begins. -/
theorem scans_bypass_sample :
    ∃ generator outcome,
      ScanWorkloadGenerator.new .sample ScanWorkloadGenerator.sampleConfig
        (fun _ => 0) (fun i => if i = 0 then 9 / 10 else 0) = some generator ∧
      generator.generateBatch .sample 1 2 = some outcome ∧
      ∃ (run : WaldeRun .sample outcome.1 1 192 (makeBackend 2))
        (run' : WaldeRun .sample (outcome.1.filter fun op => !op.scans)
          ((outcome.1.take 1).countP fun op => !op.scans) 192 (makeBackend 2)),
        run.measured = [⟨⟨.get, "scan_1", ""⟩, .miss⟩] ∧
        run.after.shared.l1.SameKeys run'.after.shared.l1 := by
  have completes : BenchRun.attempt .sample (.compared 192) (makeBackend 2)
      [.enter () (.warmUp ⟨.put, "key_0", "val_1"⟩), .perform (), .perform (),
        .leave ()]
      [.enter () (.measured ⟨.get, "scan_1", ""⟩), .perform (), .background,
        .perform (), .perform (), .leave ()] =
      some [⟨⟨.get, "scan_1", ""⟩, .miss⟩] := by
    decide +kernel
  have completes' : BenchRun.attempt .sample (.compared 192) (makeBackend 2)
      [.enter () (.warmUp ⟨.put, "key_0", "val_1"⟩), .perform (), .perform (),
        .leave ()] ([] : List (Threads.Move Unit BenchCall)) = some [] := by
    decide +kernel
  have emits : ((ScanWorkloadGenerator.new .sample
      ScanWorkloadGenerator.sampleConfig (fun _ => 0)
      (fun i => if i = 0 then 9 / 10 else 0)).bind fun generator =>
        (generator.generateBatch .sample 1 2).map Prod.fst) =
      some [⟨.put, "key_0", "val_1"⟩, ⟨.get, "scan_1", ""⟩] := by
    decide +kernel
  rcases Option.bind_eq_some_iff.mp emits with ⟨generator, made, emits⟩
  rcases Option.map_eq_some_iff.mp emits with ⟨⟨ops, generator'⟩, emitted, rfl⟩
  refine ⟨generator, _, made, emitted, ?_⟩
  rcases of_attempt [⟨.put, "key_0", "val_1"⟩, ⟨.get, "scan_1", ""⟩] 1 completes
    rfl rfl with ⟨run, measured⟩
  rcases of_attempt [⟨.put, "key_0", "val_1"⟩] 1 completes' rfl rfl with
    ⟨run', -⟩
  exact ⟨run, run', measured, (scans_bypass made (fun _ => one_pos) emitted
    (by decide) run run').1⟩

end WaldeRun

end Walde
