import Walde.WTinyLfuCapacity

namespace Walde.WTinyLfuCache

open Foundation

/-! # What the hits of the W-TinyLFU baseline read -/

def ReadsLast (calls : List BaselineCall) (cache : WTinyLfuCache) (key : Key) :
    Prop :=
  ∃ value after, cache.step (.get key) = some (.value (some value), after) ∧
    BaselineCall.lastPut key calls = some value

section Reads

variable {calls : List BaselineCall} {cache : WTinyLfuCache} {key : Key}
  {value : Value}

theorem Follows.reads_iff {limits : SegmentLimits}
    (follows : Follows limits calls cache)
    (resident : key ∈ cache.segments.keys) :
    cache.ReadsLast calls key ↔
      key ∉ KeyedList.keys cache.segments.probation := by
  rcases List.mem_map.mp resident with ⟨⟨_, value⟩, member, rfl⟩
  rcases follows.sound.get _ with ⟨reply, after, got, -, answers⟩
  have reply' := answers.found value member
  constructor
  · rintro ⟨value', after', got', -⟩ inProbation
    have same := Option.some.inj (got.symm.trans got')
    rw [reply', if_pos inProbation] at same
    cases (Prod.mk.inj same).1
  · intro elsewhere
    rw [if_neg elsewhere] at reply'
    exact ⟨value, after, reply' ▸ got, follows.values (_, value) member⟩

/-! ## A doorkeeper without bits -/

structure Unprovided (capacity : Nat) (cache : WTinyLfuCache) : Prop where
  map : cache.map = ∅
  nodes : cache.nodes = []
  doorkeeper : cache.doorkeeper = .new (doorkeeperBits capacity)

theorem Unprovided.step {capacity : Nat} (unprovided : cache.Unprovided capacity)
    (fails : ¬BloomDoorkeeper.Provides (doorkeeperBits capacity))
    {call : BaselineCall} {reply : TinyLfuReply} {after : WTinyLfuCache}
    (stepped : cache.step call = some (reply, after)) :
    after.Unprovided capacity := by
  cases call with
  | get key =>
      have missing : cache.map.lookup key = none := by
        rw [unprovided.map]
        rfl
      change cache.get key = _ at stepped
      rw [get, missing] at stepped
      cases stepped
      exact ⟨unprovided.map, unprovided.nodes, unprovided.doorkeeper⟩
  | put key value =>
      rw [put_unprovided unprovided.doorkeeper fails] at stepped
      cases stepped

theorem run_unprovided {capacity : Nat} {windowPct probationPct : Percentage}
    (fails : ¬BloomDoorkeeper.Provides (doorkeeperBits capacity))
    {replies : List TinyLfuReply}
    (ran : step.run calls (new capacity windowPct probationPct) =
      some (replies, cache)) : cache.nodes = [] := by
  have start : (new capacity windowPct probationPct).Unprovided capacity :=
    ⟨rfl, rfl, rfl⟩
  have always : step.Along (fun _ _ => True) calls
      (new capacity windowPct probationPct) :=
    .of_forall (fun _ _ _ => trivial) _
  exact (Machine.run_preserves (fun _ _ _ _ unprovided _ stepped =>
    Unprovided.step unprovided fails stepped) start always ran).nodes

end Reads

/-! ## Reachable states -/

/-- In every state that a run reaches, a resident key is read back exactly when
it is not in probation. A hit there reads from a node that its own promotion
has erased. -/
theorem readsLast_iff {capacity : Nat} (three : 3 ≤ capacity)
    (fits : capacity < uint32Size) {calls : List BaselineCall}
    {replies : List TinyLfuReply} {cache : WTinyLfuCache}
    (ran : step.run calls (new capacity .defaultWindow .defaultProbation) =
      some (replies, cache)) {key : Key}
    (resident : key ∈ cache.segments.keys) :
    cache.ReadsLast calls key ↔
      key ∉ KeyedList.keys cache.segments.probation := by
  by_cases provides : BloomDoorkeeper.Provides (doorkeeperBits capacity)
  · rcases (Follows.default (by omega) fits provides).run calls with
      ⟨replies', cache', ran', follows⟩
    obtain ⟨rfl, rfl⟩ := Prod.mk.inj (Option.some.inj (ran.symm.trans ran'))
    exact follows.reads_iff resident
  · rcases mem_keys.mp resident with ⟨node, member, -⟩
    rw [run_unprovided provides ran] at member
    cases member

/-- The smallest baseline has no window: a new key goes to probation at once,
and a hit moves it to protected. -/
theorem new_three_runs (key : Key) (value : Value) :
    ∃ reply cache, (new 3 .defaultWindow .defaultProbation).step
        (.put key value) = some (reply, cache) ∧
      Follows ⟨0, 3, 2⟩ [.put key value] cache ∧
      cache.segments = ⟨[], [(key, value)], []⟩ ∧
      ∃ reply' cache', cache.step (.get key) = some (reply', cache') ∧
        cache'.segments = ⟨[], [], [(key, value)]⟩ := by
  have start := Follows.default (by decide : 2 ≤ 3) (by decide) (by decide)
  have limits : (StripeConfig.new 3 .defaultWindow .defaultProbation).limits =
      ⟨0, 3, 2⟩ := by decide
  have empty : (new 3 .defaultWindow .defaultProbation).segments =
      Segments.empty := rfl
  rw [limits] at start
  generalize new 3 .defaultWindow .defaultProbation = first at *
  rcases start.step (.put key value) with ⟨reply, cache, stepped, follows⟩
  rcases start.sound.put key value with ⟨counted, after, -, put, becomes⟩
  obtain ⟨rfl, rfl⟩ := Prod.mk.inj (Option.some.inj (stepped.symm.trans put))
  have admitted : first.segments.put ⟨0, 3, 2⟩ counted.beats (key, value) =
      (.admitted, ⟨[], [(key, value)], []⟩) := by
    rw [empty, Segments.put_of_absent (by simp [Segments.keys, KeyedList.keys,
      Segments.entries, Segments.main, Segments.empty])]
    rfl
  rw [start.sameLimits, admitted] at becomes
  rcases follows.sound.get key with ⟨reply', last, got, becomes', -⟩
  refine ⟨_, cache, put, follows, becomes.segments, reply', last, got, ?_⟩
  have promoted : cache.segments.get cache.limits key =
      ⟨[], [], [(key, value)]⟩ := by
    rw [becomes.segments, follows.sameLimits]
    simp [Segments.get, Segments.keys, Segments.entries, Segments.main,
      KeyedList.keys, Segments.touch, Segments.promote, Segments.makeRoom,
      KeyedList.named, KeyedList.without]
  rw [becomes'.segments, promoted]

theorem readsLast_iff_sample :
    ∃ replies cache, step.run [.put "k" "1", .get "k"]
        (new 3 .defaultWindow .defaultProbation) = some (replies, cache) ∧
      (cache.ReadsLast [.put "k" "1", .get "k"] "k" ↔
        "k" ∉ KeyedList.keys cache.segments.probation) := by
  rcases new_three_runs "k" "1" with
    ⟨reply, middle, stepped, -, -, reply', cache, stepped', segments⟩
  have ran : step.run [.put "k" "1", .get "k"] _ =
      some ([reply, reply'], cache) :=
    Machine.run_cons stepped (Machine.run_cons stepped' rfl)
  refine ⟨_, cache, ran, readsLast_iff (by decide) (by decide) ran ?_⟩
  rw [segments]
  decide

/-- The key that was just put is not read back. -/
theorem promoted_read_erased :
    ∃ replies cache, step.run [.put "k" "1"]
        (new 3 .defaultWindow .defaultProbation) = some (replies, cache) ∧
      "k" ∈ cache.segments.keys ∧
      (∃ after, cache.step (.get "k") = some (.erased, after)) ∧
      ¬cache.ReadsLast [.put "k" "1"] "k" := by
  rcases new_three_runs "k" "1" with
    ⟨reply, cache, stepped, follows, segments, -⟩
  have resident : "k" ∈ cache.segments.keys := by
    rw [segments]
    decide
  have inProbation : "k" ∈ KeyedList.keys cache.segments.probation := by
    rw [segments]
    decide
  rcases follows.sound.get "k" with ⟨reply', after, got, -, answers⟩
  have erased := answers.found "1" (by
    rw [segments]
    decide)
  rw [if_pos inProbation] at erased
  refine ⟨_, cache, Machine.run_cons stepped rfl, resident,
    ⟨after, erased ▸ got⟩, ?_⟩
  rw [follows.reads_iff resident]
  exact not_not_intro inProbation

end Walde.WTinyLfuCache
