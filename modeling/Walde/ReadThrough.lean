import Walde.Accounting
import Walde.Availability
import Walde.Foundation.KeyedList
import Walde.Foundation.SoleClient
import Walde.LookupPath

namespace Walde

open Foundation

/-! # L1 as a read-through cache

What L1 keeps and counts depends on the keys of the calls and on which of them
the backend has. Values, the queue, L2 and the drainer have no part in it. -/

namespace Policy

/-! ## A policy without its values -/

def forget (policy : Policy) : Policy :=
  { policy with
    window := KeyedList.mapValues (fun _ => "") policy.window
    probation := KeyedList.mapValues (fun _ => "") policy.probation
    protected_ := KeyedList.mapValues (fun _ => "") policy.protected_ }

section Forget

variable (xx : XxHash) (policy : Policy) (key : Key)

theorem forget_placeOf : policy.forget.placeOf key = policy.placeOf key := by
  have keys : ∀ entries : List Entry,
      (KeyedList.mapValues (fun _ => "") entries).map (·.1) =
        entries.map (·.1) :=
    KeyedList.keys_mapValues _
  simp only [placeOf, forget, keys]

theorem forget_tick : policy.forget.tick = policy.tick.forget := by
  unfold tick
  split <;> rename_i due
  · rw [if_pos (by exact due)]
    rfl
  · rw [if_neg (by exact due)]
    rfl

theorem forget_makeRoom : policy.forget.makeRoom = policy.makeRoom.forget := by
  have length : policy.forget.protected_.length = policy.protected_.length :=
    List.length_map _
  have last : policy.forget.protected_.getLast? =
      policy.protected_.getLast?.map (Prod.map id fun _ => "") :=
    List.getLast?_map
  have front : policy.forget.protected_.dropLast =
      KeyedList.mapValues (fun _ => "") policy.protected_.dropLast :=
    List.map_dropLast.symm
  rw [makeRoom, makeRoom, length, last, front]
  by_cases full : policy.config.protectedCapacity ≤ policy.protected_.length
  · rw [if_pos full, if_pos (by exact full)]
    cases policy.protected_.getLast? <;> rfl
  · rw [if_neg full, if_neg (by exact full)]

theorem forget_promote :
    policy.forget.promote key = (policy.promote key).forget := by
  have removed : { policy.forget with
      probation := without key policy.forget.probation } =
        forget { policy with probation := without key policy.probation } :=
    congrArg (fun probation => { policy.forget with probation })
      (KeyedList.without_mapValues _ key policy.probation)
  have promoted : named key policy.forget.probation =
      KeyedList.mapValues (fun _ => "") (named key policy.probation) :=
    KeyedList.named_mapValues _ key policy.probation
  rw [promote, removed, forget_makeRoom, promoted, promote]
  exact congrArg (fun protected_ : List Entry => { forget (makeRoom { policy with
      probation := without key policy.probation }) with protected_ })
    List.map_append.symm

theorem forget_touch (place : Place) :
    policy.forget.touch key place = (policy.touch key place).forget := by
  have moved : ∀ entries : List Entry,
      moveToFront key (KeyedList.mapValues (fun _ => "") entries) =
        KeyedList.mapValues (fun _ => "") (moveToFront key entries) :=
    KeyedList.moveToFront_mapValues _ key
  cases place with
  | window =>
      exact congrArg (fun window => { policy.forget with window })
        (moved policy.window)
  | probation => exact forget_promote policy key
  | protected_ =>
      exact congrArg (fun protected_ => { policy.forget with protected_ })
        (moved policy.protected_)

theorem forget_get :
    (policy.forget.get xx key).2 = (policy.get xx key).2.forget := by
  have touched := forget_touch (policy.count xx key) key
  rw [get, forget_placeOf, get]
  cases policy.placeOf key with
  | none => rfl
  | some place =>
      exact congrArg (fun rest : Policy => { rest with
        stats := { policy.stats with hits := policy.stats.hits + 1 } })
        (touched place)

theorem forget_overwrite (value : Value) :
    policy.forget.overwrite key "" = (policy.overwrite key value).forget := by
  have assigned : ∀ entries : List Entry,
      assign key "" (KeyedList.mapValues (fun _ => "") entries) =
        KeyedList.mapValues (fun _ => "") (assign key value entries) :=
    fun entries => KeyedList.assign_mapValues (fun _ => "") key entries value
  simp only [overwrite, forget, assigned]

theorem forget_evict : policy.forget.evict = policy.evict.forget := by
  have front : policy.forget.probation.dropLast =
      KeyedList.mapValues (fun _ => "") policy.probation.dropLast :=
    List.map_dropLast.symm
  rw [evict, front]
  rfl

theorem forget_contest (candidate victim : Entry) :
    (policy.forget.contest xx (Prod.map id (fun _ => "") candidate)
        (Prod.map id (fun _ => "") victim)).1 =
      (policy.contest xx candidate victim).1.forget := by
  rw [contest, contest]
  by_cases wins : policy.frequency xx victim.1 < policy.frequency xx candidate.1
  · rw [if_pos wins, if_pos (by exact wins), forget_evict]
    rfl
  · rw [if_neg wins, if_neg (by exact wins)]
    rfl

theorem forget_tryAdmit :
    (policy.forget.tryAdmit xx).1 = (policy.tryAdmit xx).1.forget := by
  have last : ∀ entries : List Entry,
      (KeyedList.mapValues (fun _ => "") entries).getLast? =
        entries.getLast?.map (Prod.map id fun _ => "") :=
    fun _ => List.getLast?_map
  have lastCandidate : policy.forget.window.getLast? = _ := last policy.window
  have popped : { policy.forget with window := policy.forget.window.dropLast } =
      forget { policy with window := policy.window.dropLast } :=
    congrArg (fun window => { policy.forget with window })
      List.map_dropLast.symm
  have sizes : policy.forget.probation.length +
      policy.forget.protected_.length =
        policy.probation.length + policy.protected_.length :=
    congrArg₂ (· + ·) (List.length_map _) (List.length_map _)
  rw [tryAdmit, tryAdmit, lastCandidate]
  cases policy.window.getLast? with
  | none => rfl
  | some candidate =>
      dsimp only [Option.map_some]
      by_cases room : policy.probation.length + policy.protected_.length <
          policy.config.mainCapacity
      · rw [if_pos room, if_pos (by rw [sizes]; exact room), popped]
        rfl
      · have lastVictim : policy.forget.probation.getLast? = _ :=
          last policy.probation
        rw [if_neg room, if_neg (by rw [sizes]; exact room), popped, lastVictim]
        cases policy.probation.getLast? with
        | none => rfl
        | some victim => exact forget_contest xx _ candidate victim

theorem forget_shrinkWindow (rounds : Nat) :
    (policy.forget.shrinkWindow xx rounds).1 =
      (policy.shrinkWindow xx rounds).1.forget := by
  induction rounds generalizing policy with
  | zero => rfl
  | succ rounds induction =>
      have length : policy.forget.window.length = policy.window.length :=
        List.length_map _
      rw [shrinkWindow, shrinkWindow, length]
      by_cases full : policy.config.windowCapacity < policy.window.length
      · rw [if_pos full, if_pos (by exact full)]
        dsimp only
        rw [forget_tryAdmit, induction]
      · rw [if_neg full, if_neg (by exact full)]

theorem forget_insert (value : Value) :
    (policy.forget.insert xx key "").1 = (policy.insert xx key value).1.forget := by
  have length : policy.forget.window.length = policy.window.length :=
    List.length_map _
  have shrunk := forget_shrinkWindow xx
    { policy with window := (key, value) :: policy.window }
    (policy.window.length + 1)
  rw [insert, insert, List.length_cons, length]
  exact shrunk

theorem forget_put (slot : Bool) (value : Value) :
    (policy.forget.put xx slot key "").1 = (policy.put xx slot key value).1 ∧
      (policy.forget.put xx slot key "").2.1 =
        (policy.put xx slot key value).2.1.forget := by
  have counted : (policy.forget.count xx key).tick =
      ((policy.count xx key).tick).forget := forget_tick (policy.count xx key)
  rw [put, counted, forget_placeOf, put]
  generalize (policy.count xx key).tick = policy
  cases policy.placeOf key with
  | none =>
      cases slot with
      | true => exact ⟨rfl, forget_insert xx policy key value⟩
      | false => exact ⟨rfl, rfl⟩
  | some place =>
      refine ⟨rfl, ?_⟩
      dsimp only
      rw [forget_overwrite policy key value, forget_touch]

theorem forget_size : policy.forget.size = policy.size := by
  simp [size, entries, forget, KeyedList.mapValues]

theorem put_slot (slot : Bool) {value : Value} (resident : key ∈ policy.keys) :
    policy.put xx slot key value = policy.put xx true key value := by
  cases slot with
  | true => rfl
  | false =>
      rw [← counted_keys xx policy key, ← placeOf_isSome] at resident
      rcases Option.isSome_iff_exists.mp resident with ⟨place, found⟩
      rw [put, put, ← counted, found]

theorem put_refused {value : Value} (absent : key ∉ policy.keys) :
    policy.put xx false key value = (false, policy.counted xx key, []) := by
  rw [← counted_keys xx policy key, ← placeOf_eq_none] at absent
  rw [put, ← counted, absent]
  rfl

theorem put_stores {slot : Bool} {value : Value} (absent : key ∉ policy.keys) :
    (policy.put xx slot key value).1 = slot := by
  cases slot with
  | false => rw [put_refused xx policy key absent]
  | true =>
      rw [← counted_keys xx policy key, ← placeOf_eq_none] at absent
      rw [put, ← counted, absent]
      rfl

theorem length_keys : policy.keys.length = policy.size := by
  rw [keys, size, List.length_map]

end Forget

end Policy

/-! ## The abstract cache -/

/-- The policies of the stripes on keys alone, the slots that they share, and the
keys that the backend has. -/
structure ReadThrough where
  slabCapacity : Nat
  stripes : Fin kNumStripes → Policy
  known : Key → Bool

namespace ReadThrough

def new (config : CacheEngineConfig) (known : Key → Bool) : ReadThrough where
  slabCapacity := config.l1Config.slabCapacity
  stripes _ := .new (config.l1Config.settings true).config true
  known

variable (xx : XxHash) (cache : ReadThrough) (key : Key)

def holds : Bool :=
  ((cache.stripes (StripedCache.route xx key)).placeOf key).isSome

def look : ReadThrough :=
  { cache with
    stripes := Function.update cache.stripes (StripedCache.route xx key)
      ((cache.stripes (StripedCache.route xx key)).get xx key).2 }

def slot : Bool := ∑ i, (cache.stripes i).size < cache.slabCapacity

def fill : ReadThrough :=
  { cache with
    stripes := Function.update cache.stripes (StripedCache.route xx key)
      ((cache.stripes (StripedCache.route xx key)).put xx cache.slot key "").2.1 }

def stores : Bool :=
  ((cache.stripes (StripedCache.route xx key)).put xx cache.slot key "").1

def learn : ReadThrough :=
  { cache with known := Function.update cache.known key true }

def read : ReadThrough :=
  if cache.holds xx key then cache.look xx key
  else if cache.known key then (cache.look xx key).fill xx key
  else cache.look xx key

def write : ReadThrough := (cache.learn key).fill xx key

def step : CacheCall → ReadThrough
  | .get key => cache.read xx key
  | .put key _ => cache.write xx key
  | .remove _ => cache

/-! ## The programs of the engine -/

/-- What an instruction may answer and do. Nothing is removed. -/
def spec (xx : XxHash) : InstrSpec EngineAnswer ReadThrough
  | .l1Get key, post, cache => ∀ found : Option Value,
      found.isSome = cache.holds xx key →
        (found.isSome = true → cache.known key = true) →
          post found (cache.look xx key)
  | .l1Put key _, post, cache => cache.known key = true ∧
      post (cache.stores xx key) (cache.fill xx key)
  | .l2Get key, post, cache => ∀ found : Option Value,
      (found.isSome = true → cache.known key = true) → post found cache
  | .backendGet key, post, cache => ∀ found : Option Value,
      found.isSome = cache.known key → post found cache
  | .backendPut key _, post, cache => post true (cache.learn key)
  | .l1Remove _, _, _ => False
  | .l2Remove _, _, _ => False
  | .backendRemove _, _, _ => False

structure Finds (found : Option Value) (path : LatencyPath) : Prop where
  isSome : found.isSome = cache.known key
  path_l1Hit : path = .l1Hit ↔ cache.holds xx key = true
  path_miss : path = .miss ↔ found = none

variable {xx cache key}

theorem getPath_reads {post : Option Value × LatencyPath → ReadThrough → Prop}
    (holds : ∀ outcome, cache.Finds xx key outcome.1 outcome.2 →
      post outcome (cache.read xx key)) :
    ((CacheEngine.getPath key).run .miss).wp (spec xx) post cache := by
  intro inL1 hit known
  cases inL1 with
  | some value =>
      have read : cache.read xx key = cache.look xx key := if_pos hit.symm
      exact read ▸ holds (some value, .l1Hit)
        ⟨(known rfl).symm, iff_of_true rfl hit.symm, iff_of_false nofun nofun⟩
  | none =>
      have missed : ¬cache.holds xx key = true := by simp [← hit]
      have filled : cache.known key = true →
          cache.read xx key = (cache.look xx key).fill xx key := by
        intro known
        rw [read, if_neg missed, if_pos known]
      intro inL2 hit
      cases inL2 with
      | some value =>
          have known := hit rfl
          exact ⟨known, filled known ▸ holds (some value, .l2Hit)
            ⟨known.symm, iff_of_false nofun missed, iff_of_false nofun nofun⟩⟩
      | none =>
          intro inBackend hit
          cases inBackend with
          | some value =>
              have known : cache.known key = true := hit.symm
              exact ⟨known, filled known ▸
                holds (some value, .backendHit) ⟨known.symm,
                  iff_of_false nofun missed, iff_of_false nofun nofun⟩⟩
          | none =>
              have unknown : cache.known key = false := hit.symm
              have absent : ¬cache.known key = true := by
                rw [unknown]
                exact Bool.false_ne_true
              have read : cache.read xx key = cache.look xx key := by
                rw [read, if_neg missed, if_neg absent]
              exact read ▸ holds (none, .miss) ⟨unknown.symm,
                iff_of_false nofun missed, iff_of_true rfl rfl⟩

theorem get_reads {post : Option Value → ReadThrough → Prop}
    (holds : ∀ found, found.isSome = cache.known key →
      post found (cache.read xx key)) :
    (CacheEngine.get key).wp (spec xx) post cache := by
  rw [← CacheEngine.getPath_fst key .miss, Program.wp_bind]
  exact getPath_reads fun outcome finds => holds outcome.1 finds.isSome

theorem put_writes {value : Value} {post : Bool → ReadThrough → Prop}
    (holds : post (cache.stores xx key) (cache.write xx key)) :
    (CacheEngine.put key value).wp (spec xx) post cache := by
  refine ⟨?_, holds⟩
  exact Function.update_self ..

variable (xx) in
/-- A read finds its key if the backend has it, and a put tells whether L1 has
stored a new key. -/
def effects : Threads.Effects CacheCall CacheReply ReadThrough where
  effect := step xx
  allowed cache call reply :=
    match call with
    | .get key => ∃ found, reply = .value found ∧
        found.isSome = cache.known key
    | .put key _ => reply = .changed (cache.stores xx key)
    | .remove _ => True

theorem request_answers {call : CacheCall}
    (kept : ∀ key, call ≠ .remove key) (cache : ReadThrough) :
    (CacheEngine.request call).wp (spec xx)
      (fun reply last => (effects xx).allowed cache call reply ∧
        last = cache.step xx call) cache := by
  cases call with
  | get key =>
      rw [CacheEngine.request, Program.wp_bind]
      exact get_reads fun found isSome => ⟨⟨found, rfl, isSome⟩, rfl⟩
  | put key value =>
      rw [CacheEngine.request, Program.wp_bind]
      exact put_writes ⟨rfl, rfl⟩
  | remove key => exact absurd rfl (kept key)

end ReadThrough

/-! ## The engine shows the abstract cache -/

namespace StripedCache

section Policies

variable {xx : XxHash} {config : StripedCacheConfig}
  {policies : Fin kNumStripes → Policy} {cache : StripedCache} {key : Key}

theorem Valid.get_policy (valid : Valid xx config true policies cache) :
    ∃ cache', cache.get xx key = some ((cache.peek xx key, []), cache') ∧
      Valid xx config true (Function.update policies (route xx key)
        ((policies (route xx key)).get xx key).2) cache' := by
  rcases valid.call (route xx key) (.get key) rfl with
    ⟨slot, cache', called, follows⟩
  have keeps := Policy.get_keeps xx (policies (route xx key)) key
  have perm := Policy.get_perm xx (policies (route xx key)) key
  refine ⟨cache', ?_, valid.update follows
    (fun other member => valid.routed _ other ((perm.map _).mem_iff.mp member))
    (Policy.call_config xx (valid.bounded _) slot (.get key)) keeps.2⟩
  rw [call_get] at called
  rcases Option.map_eq_some_iff.mp called with
    ⟨⟨⟨found, offered⟩, after⟩, got, equal⟩
  simp only [Policy.call, Policy.get_fst, Prod.mk.injEq,
    CacheReply.value.injEq] at equal
  obtain ⟨⟨rfl, rfl⟩, rfl⟩ := equal
  rw [got, valid.peek_eq]

theorem Valid.put_slot (valid : Valid xx config true policies cache)
    {value : Value} {slot : Bool} {cache' : StripedCache}
    (found : ∑ i, (policies i).size < config.slabCapacity → slot = true)
    (called : cache.call xx (.put key value) =
      some (((policies (route xx key)).call xx slot (.put key value)).1,
        cache')) :
    (policies (route xx key)).put xx slot key value =
      (policies (route xx key)).put xx
        (∑ i, (policies i).size < config.slabCapacity) key value := by
  by_cases room : ∑ i, (policies i).size < config.slabCapacity
  · rw [found room, decide_eq_true room]
  · rw [decide_eq_false room]
    by_cases resident : key ∈ (policies (route xx key)).keys
    · rw [Policy.put_slot xx _ _ slot resident,
        Policy.put_slot xx _ _ false resident]
    · rcases valid.follows.put_refused SlabAllocator.lawful xx resident
        (Nat.le_of_not_lt room) value with ⟨system', refused⟩
      have same : CacheReply.changed
          ((policies (route xx key)).put xx slot key value).1 =
            .changed false := congrArg (fun outcome => outcome.1.1)
              (Option.some.inj (called.symm.trans refused))
      rw [Policy.put_stores xx _ _ resident] at same
      rw [CacheReply.changed.inj same]

theorem Valid.put_policy (valid : Valid xx config true policies cache)
    (value : Value) :
    let put := (policies (route xx key)).put xx
      (∑ i, (policies i).size < config.slabCapacity) key value
    ∃ offered cache', cache.put xx key value =
        some ((put.1, offered), cache') ∧
      Valid xx config true (Function.update policies (route xx key) put.2.1)
        cache' := by
  have bounded := valid.bounded (route xx key)
  rcases valid.follows.call SlabAllocator.lawful xx (route xx key)
      (.put key value) with ⟨slot, cache', found, called, follows⟩
  have sameSlot := valid.put_slot found called
  have called' : cache.call xx (.put key value) = some _ := called
  rw [call_put] at called'
  rcases Option.map_eq_some_iff.mp called' with
    ⟨⟨⟨inserted, offered⟩, after⟩, put, equal⟩
  have answer : inserted = ((policies (route xx key)).put xx slot key value).1 :=
    CacheReply.changed.inj (congrArg (fun outcome => outcome.1.1) equal)
  obtain rfl : after = cache' := (Prod.mk.inj equal).2
  have routed : ∀ other ∈ ((policies (route xx key)).put xx slot key
      value).2.1.keys, route xx other = route xx key := by
    intro other member
    rcases Policy.mem_keys.mp member with ⟨value', member⟩
    rcases Policy.put_residents xx bounded slot key value member with
      same | ⟨-, member⟩
    · rw [(Prod.mk.inj same).1]
    · exact valid.routed _ other (Policy.mem_keys.mpr ⟨value', member⟩)
  have valid' := valid.update follows routed
    (Policy.call_config xx bounded slot (.put key value))
    (Policy.put_queueAttached xx bounded slot key value)
  dsimp only
  rw [← sameSlot, ← answer]
  exact ⟨offered, after, put, valid'⟩

end Policies

end StripedCache

theorem Tiers.Sourced.mono {source source' : Key → Value → Prop} {tiers : Tiers}
    (sourced : tiers.Sourced source)
    (weaker : ∀ key value, source key value → source' key value) :
    tiers.Sourced source' where
  l1 key value member := weaker key value (sourced.l1 key value member)
  l2 key value member := weaker key value (sourced.l2 key value member)
  inFlight item member := weaker _ _ (sourced.inFlight item member)
  backend key value member := weaker key value (sourced.backend key value member)

/-- The stripes of L1 are the policies of the abstract cache but for the values,
and whatever the tiers hold is known. -/
structure ReadThrough.Shows (xx : XxHash) (config : CacheEngineConfig)
    (cache : ReadThrough) (engine : CacheEngine) : Prop where
  valid : engine.Valid xx config
  stripes : ∃ policies,
    StripedCache.Valid xx config.l1Config true policies engine.l1 ∧
      ∀ i, (policies i).forget = cache.stripes i
  slabCapacity : cache.slabCapacity = config.l1Config.slabCapacity
  backend : ∀ key, (engine.backend.lookup key).isSome = cache.known key
  sourced : (engine.tiers xx).Sourced fun key _ => cache.known key = true

namespace ReadThrough

section Shows

variable {xx : XxHash} {config : CacheEngineConfig} {cache : ReadThrough}
  {engine after : CacheEngine} {key : Key}

theorem Shows.new {backend : InMemoryBackend}
    (made : CacheEngine.new config backend = some engine) :
    Shows xx config (.new config fun key => (backend.lookup key).isSome)
      engine := by
  rcases CacheEngine.new_tiers xx made with ⟨l1, l2, inFlight, held⟩
  rcases Option.map_eq_some_iff.mp made with ⟨cache, cacheMade, rfl⟩
  refine ⟨.new made, ⟨_, .new cacheMade, fun i => rfl⟩, rfl, fun key => rfl, ?_⟩
  constructor
  · rw [l1]
    nofun
  · rw [l2]
    nofun
  · rw [inFlight]
    nofun
  · rw [held]
    intro key value member
    exact Option.isSome_of_mem member

theorem Shows.holds (shows' : Shows xx config cache engine) (key : Key) :
    (engine.l1.peek xx key).isSome = cache.holds xx key := by
  rcases shows'.stripes with ⟨policies, valid, forgets⟩
  rw [valid.peek_eq, ReadThrough.holds, ← forgets, Policy.forget_placeOf,
    Bool.eq_iff_iff, Policy.placeOf_isSome, Option.isSome_iff_ne_none, ne_eq,
    Policy.find_eq_none, not_not]

theorem forgets_update {policies : Fin kNumStripes → Policy}
    {stripes : Fin kNumStripes → Policy}
    (forgets : ∀ i, (policies i).forget = stripes i) {i : Fin kNumStripes}
    {policy stripe : Policy} (forgetsHere : policy.forget = stripe)
    (j : Fin kNumStripes) : (Function.update policies i policy j).forget =
      Function.update stripes i stripe j := by
  by_cases same : j = i
  · subst same
    rw [Function.update_self, Function.update_self, forgetsHere]
  · rw [Function.update_of_ne same, Function.update_of_ne same, forgets]

theorem Shows.look (shows' : Shows xx config cache engine)
    {found : Option Value}
    (handled : CacheEngine.perform xx (.l1Get key) engine = some (found, after)) :
    found.isSome = cache.holds xx key ∧
      (found.isSome = true → cache.known key = true) ∧
      Shows xx config (cache.look xx key) after := by
  rcases shows'.valid.perform handled with ⟨valid', did⟩
  rcases EngineThreads.sourced_instr shows'.sourced (by exact trivial) did with
    ⟨known, sourced'⟩
  rcases shows'.stripes with ⟨policies, valid, forgets⟩
  rcases valid.get_policy with ⟨l1, got, validL1⟩
  rw [CacheEngine.perform, got] at handled
  cases handled
  refine ⟨shows'.holds key, fun found => known _ (Option.some_get found).symm,
    valid', ⟨_, validL1, ?_⟩, shows'.slabCapacity, shows'.backend, sourced'⟩
  apply forgets_update forgets
  rw [← forgets, Policy.forget_get]

theorem Shows.fill (shows' : Shows xx config cache engine)
    (known : cache.known key = true) {value : Value} {inserted : Bool}
    (handled : CacheEngine.perform xx (.l1Put key value) engine =
      some (inserted, after)) :
    inserted = cache.stores xx key ∧
      Shows xx config (cache.fill xx key) after := by
  rcases shows'.valid.perform handled with ⟨valid', did⟩
  have sourced' := (EngineThreads.sourced_instr shows'.sourced
    (by exact known) did).2
  rcases shows'.stripes with ⟨policies, valid, forgets⟩
  rcases valid.put_policy value with ⟨offered, l1, put, validL1⟩
  have slot : cache.slot = decide (∑ i, (policies i).size <
      config.l1Config.slabCapacity) := by
    rw [ReadThrough.slot, shows'.slabCapacity]
    simp only [← forgets, Policy.forget_size]
  rw [← slot] at put validL1
  rw [CacheEngine.perform, put] at handled
  cases handled
  have forgotten := Policy.forget_put xx
    (policies (StripedCache.route xx key)) key cache.slot value
  rw [forgets] at forgotten
  refine ⟨forgotten.1.symm, valid', ⟨_, validL1, ?_⟩, shows'.slabCapacity,
    shows'.backend, sourced'⟩
  exact forgets_update forgets forgotten.2.symm

theorem Shows.learn (shows' : Shows xx config cache engine) {value : Value}
    {stored : Bool}
    (handled : CacheEngine.perform xx (.backendPut key value) engine =
      some (stored, after)) : Shows xx config (cache.learn key) after := by
  rcases shows'.valid.perform handled with ⟨valid', did⟩
  have still : ∀ other, cache.known other = true →
      (cache.learn key).known other = true := by
    apply (Function.forall_update_iff cache.known fun other known =>
      cache.known other = true → known = true).mpr
    exact ⟨fun _ => rfl, fun other _ => id⟩
  have here : (cache.learn key).known key = true := Function.update_self ..
  have sourced' := (EngineThreads.sourced_instr
    (shows'.sourced.mono fun other _ => still other) (by exact here) did).2
  have backend : after.backend.lookup =
      Function.update engine.backend.lookup key (some value) :=
    did (fun _ tiers => tiers.backend = _) rfl
  cases handled
  refine ⟨valid', shows'.stripes, shows'.slabCapacity, fun other => ?_,
    sourced'⟩
  rw [backend]
  by_cases same : other = key
  · subst same
    rw [Function.update_self, here]
    rfl
  · simpa only [ReadThrough.learn, Function.update_of_ne same] using
      shows'.backend other

theorem Shows.frame (shows' : Shows xx config cache engine)
    (valid : after.Valid xx config) (l1 : after.l1 = engine.l1)
    (backend : after.backend.lookup = engine.backend.lookup)
    (sourced : (after.tiers xx).Sourced fun key _ => cache.known key = true) :
    Shows xx config cache after := by
  refine ⟨valid, ?_, shows'.slabCapacity, ?_, sourced⟩
  · rw [l1]
    exact shows'.stripes
  · rw [backend]
    exact shows'.backend

theorem Shows.drained (shows' : Shows xx config cache engine)
    (stepped : engine.drain xx = some after) : Shows xx config cache after := by
  rcases shows'.valid.drained stepped with ⟨valid, drained⟩
  exact shows'.frame valid (CacheEngine.drain_kept stepped).1 drained.backend
    (shows'.sourced.drained drained)

theorem implements :
    Program.Implements (CacheEngine.perform xx) (spec xx) (Shows xx config) := by
  intro instr post cache engine shows' allowed
  rcases shows'.valid.performs instr with ⟨answer, after, handled, -⟩
  rcases shows'.valid.perform handled with ⟨valid', did⟩
  cases instr with
  | l1Get key =>
      rcases shows'.look handled with ⟨hit, known, looked⟩
      exact ⟨answer, _, after, handled, looked, allowed answer hit known⟩
  | l1Put key value =>
      rcases shows'.fill allowed.1 handled with ⟨stored, filled⟩
      exact ⟨answer, _, after, handled, filled, stored ▸ allowed.2⟩
  | l2Get key =>
      rcases EngineThreads.sourced_instr shows'.sourced (by exact trivial)
          did with ⟨known, sourced'⟩
      have l1 : after.l1 = engine.l1 := by
        rcases Option.bind_eq_some_iff.mp handled with ⟨_, -, equal⟩
        cases equal
        rfl
      have backend : after.backend.lookup = engine.backend.lookup :=
        did (fun _ tiers => tiers.backend = _) rfl
      refine ⟨answer, cache, after, handled,
        shows'.frame valid' l1 backend sourced', allowed answer fun found => ?_⟩
      exact known _ (Option.some_get found).symm
  | backendGet key =>
      have found : answer.isSome = cache.known key := by
        rw [← shows'.backend]
        exact did (fun answer _ => answer.isSome = _) rfl
      cases handled
      exact ⟨_, cache, _, rfl, shows'.frame valid' rfl rfl shows'.sourced,
        allowed _ found⟩
  | backendPut key value =>
      have stored : answer = true := did (fun answer _ => answer = true) rfl
      exact ⟨answer, _, after, handled, shows'.learn handled, stored ▸ allowed⟩
  | l1Remove key => exact allowed.elim
  | l2Remove key => exact allowed.elim
  | backendRemove key => exact allowed.elim

/-- L1 has the counts of the abstract cache, and its keys in the same order. -/
structure InL1 (cache : ReadThrough) (l1 : StripedCache) : Prop where
  stats : ∀ i, (l1.stripe i).stats = (cache.stripes i).stats
  keys : ∀ i place, KeyedList.keys (l1.entriesAt i place) =
    KeyedList.keys ((cache.stripes i).entriesAt place)

theorem Shows.inL1 (shows' : Shows xx config cache engine) :
    cache.InL1 engine.l1 := by
  rcases shows'.stripes with ⟨policies, valid, forgets⟩
  rcases valid.follows with ⟨views, lists, follows⟩
  constructor
  · intro i
    rw [← forgets]
    exact (follows.sim i).shows'.stats.symm
  · intro i place
    rw [follows.entriesAt, ← forgets]
    cases place with
    | window => exact (KeyedList.keys_mapValues _ (policies i).window).symm
    | probation => exact (KeyedList.keys_mapValues _ (policies i).probation).symm
    | protected_ =>
        exact (KeyedList.keys_mapValues _ (policies i).protected_).symm

end Shows

end ReadThrough

namespace EngineThreads

section Runs

variable {Thread : Type} [DecidableEq Thread] {xx : XxHash}
  {config : CacheEngineConfig}

variable {backend : InMemoryBackend} {engine : CacheEngine}
  (made : CacheEngine.new config backend = some engine)
  (client : Thread) {moves : List (Threads.Move Thread CacheCall)}
  (own : ∀ move ∈ moves, ∀ thread ∈ move.mover, thread = client)
  (kept : ∀ thread key, .enter thread (.remove key) ∉ moves)
  {replies : List (Option CacheReply)} {last : EngineThreads Thread}
  (ran : (machine xx).run moves (.start engine) = some (replies, last))
  (rested : last.AtRest)

include made own kept ran rested

theorem answers_of_run :
    ∃ done : List (CacheCall × CacheReply),
      (ReadThrough.effects xx).Answers
        (.new config fun key => (backend.lookup key).isSome) done ∧
      done.map Prod.snd = replies.reduceOption ∧
      done.map Prod.fst = moves.filterMap Threads.Move.entered ∧
      ((moves.filterMap Threads.Move.entered).foldl (ReadThrough.step xx)
        (.new config fun key => (backend.lookup key).isSome)).Shows xx config
          last.shared := by
  apply Threads.Alone.run_answers (fun _ => rfl) (.new made)
    ReadThrough.implements
    (fun shows' stepped => shows'.drained stepped) own ?_ ran rested
  intro call member
  rcases List.mem_filterMap.mp member with ⟨move, inMoves, entered⟩
  apply ReadThrough.request_answers
  rintro key rfl
  cases move with
  | enter thread call =>
      cases entered
      exact kept thread key inMoves
  | _ => cases entered

theorem shows_of_run :
    ((moves.filterMap Threads.Move.entered).foldl (ReadThrough.step xx)
      (.new config fun key => (backend.lookup key).isSome)).Shows xx config
        last.shared := by
  rcases answers_of_run made client own kept ran rested with
    ⟨done, -, -, -, shows'⟩
  exact shows'

omit made own kept ran rested

/-- What L1 makes of the calls of one client: it is a read-through cache of the
keys, whatever values there are, and whenever the drainer moves them to L2. Each
read finds its key if the backend has it by then, and each put tells whether
there was a slot for a new key. -/
theorem l1_reads_through {backend : InMemoryBackend} {engine : CacheEngine}
    (made : CacheEngine.new config backend = some engine)
    (client : Thread) {moves : List (Threads.Move Thread CacheCall)}
    (own : ∀ move ∈ moves, ∀ thread ∈ move.mover, thread = client)
    (kept : ∀ thread key, .enter thread (.remove key) ∉ moves)
    {replies : List (Option CacheReply)} {last : EngineThreads Thread}
    (ran : (machine xx).run moves (.start engine) = some (replies, last))
    (rested : last.AtRest) :
    (∃ done : List (CacheCall × CacheReply),
      done.map Prod.fst = moves.filterMap Threads.Move.entered ∧
      done.map Prod.snd = replies.reduceOption ∧
      (ReadThrough.effects xx).Answers
        (.new config fun key => (backend.lookup key).isSome) done) ∧
    ((moves.filterMap Threads.Move.entered).foldl (ReadThrough.step xx)
      (.new config fun key => (backend.lookup key).isSome)).InL1
        last.shared.l1 := by
  rcases answers_of_run made client own kept ran rested with
    ⟨done, answers, replied, calls, shows'⟩
  exact ⟨⟨done, calls, replied, answers⟩, shows'.inL1⟩

end Runs

def readsAndWrites : List (Threads.Move Unit CacheCall) :=
  [.enter () (.put "k" "1"), .perform (), .perform (), .leave (),
    .enter () (.get "w"), .perform (), .perform (), .perform (), .leave (),
    .enter () (.get "k"), .background, .perform (), .leave ()]

theorem l1_reads_through_sample :
    ∃ engine replies last,
      CacheEngine.new .sample (.new ∅) = some engine ∧
      (machine .sample).run readsAndWrites (.start engine) =
        some (replies, last) ∧
      (∃ done : List (CacheCall × CacheReply),
        done.map Prod.fst = [.put "k" "1", .get "w", .get "k"] ∧
        done.map Prod.snd = replies.reduceOption ∧
        (ReadThrough.effects .sample).Answers (.new .sample fun _ => false)
          done) ∧
      (([.put "k" "1", .get "w", .get "k"] : List CacheCall).foldl
        (ReadThrough.step .sample) (.new .sample fun _ => false)).InL1
          last.shared.l1 := by
  have ran : ((CacheEngine.new .sample (.new ∅)).bind fun engine =>
      ((machine .sample).run readsAndWrites (.start engine)).map fun outcome =>
        decide outcome.2.AtRest) = some true := by
    decide +kernel
  rcases Option.bind_eq_some_iff.mp ran with ⟨engine, made, ran⟩
  rcases Option.map_eq_some_iff.mp ran with ⟨⟨replies, last⟩, ran, rested⟩
  exact ⟨engine, replies, last, made, ran,
    l1_reads_through made () (by simp)
      (by simp [readsAndWrites]) ran (of_decide_eq_true rested)⟩

end EngineThreads

end Walde
