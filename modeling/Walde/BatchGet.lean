import Walde.Isolation

namespace Walde

open Foundation

/-! # Batch gets

`batch_get` visits the stripes one after the other. Every one of its gets takes
the mutex of its stripe for itself. -/

/-- One call of a stripe, made under the mutex of the stripe. -/
abbrev LockedCall := Fin kNumStripes × CacheCall

abbrev StripedProgram := Program fun _ : LockedCall => CallResult

def CacheReply.found : CacheReply → Option Value
  | .value found => found
  | .changed _ => none

namespace StripedProgram

/-- `stripes_[s]->get(key)` -/
def get (s : Fin kNumStripes) (key : Key) : StripedProgram (Option Value) := do
  let result ← Program.perform ((s, .get key) : LockedCall)
  return result.1.found

end StripedProgram

namespace StripedCache

def handler (xx : XxHash) : Handler (fun _ : LockedCall => CallResult)
    StripedCache :=
  fun instr cache =>
    StripeSystem.call xx SlabAllocator.allocator cache instr.1 instr.2

section BatchGet

variable (route : Key → Fin kNumStripes) (keys : List Key)

abbrev Results (keys : List Key) := Fin keys.length → Option Value

def stripeGroups : Fin kNumStripes → List (Fin keys.length) :=
  (List.finRange keys.length).foldl (fun groups i =>
    Function.update groups (route (keys.get i))
      (groups (route (keys.get i)) ++ [i])) fun _ => []

/-- The inner loop. -/
def readGroup (s : Fin kNumStripes) :
    List (Fin keys.length) → Results keys → StripedProgram (Results keys)
  | [], results => return results
  | idx :: rest, results => do
      let found ← StripedProgram.get s (keys.get idx)
      readGroup s rest (Function.update results idx found)

/-- The outer loop. -/
def readGroups (groups : Fin kNumStripes → List (Fin keys.length)) :
    List (Fin kNumStripes) → Results keys → StripedProgram (Results keys)
  | [], results => return results
  | s :: rest, results =>
      if (groups s).isEmpty then
        readGroups groups rest results
      else do
        let results ← readGroup keys s (groups s) results
        readGroups groups rest results

def batchGet : StripedProgram (List (Option Value)) := do
  let results ← readGroups keys (stripeGroups route keys)
    (List.finRange kNumStripes) fun _ => none
  return List.ofFn results

def getEach : List Key → StripedProgram (List (Option Value))
  | [] => return []
  | key :: rest => do
      let found ← StripedProgram.get (route key) key
      let others ← getEach rest
      return found :: others

/-! ## The order of the gets -/

theorem stripeGroups_eq (s : Fin kNumStripes) :
    stripeGroups route keys s =
      (List.finRange keys.length).filter fun i => route (keys.get i) = s := by
  have step : ∀ (positions : List (Fin keys.length)) groups,
      positions.foldl (fun (groups : Fin kNumStripes → List _) i =>
          Function.update groups (route (keys.get i))
            (groups (route (keys.get i)) ++ [i])) groups s =
        groups s ++ positions.filter fun i => route (keys.get i) = s := by
    intro positions
    induction positions with
    | nil => simp
    | cons i rest induction =>
        intro groups
        rw [List.foldl_cons, induction]
        by_cases same : route (keys.get i) = s
        · subst same
          simp
        · simp only [Function.update_of_ne (Ne.symm same)]
          rw [List.filter_cons_of_neg (by simpa using same)]
  exact (step _ _).trans (List.nil_append _)

def batchOrder : List (Fin kNumStripes × Fin keys.length) :=
  (List.finRange kNumStripes).flatMap fun s =>
    (stripeGroups route keys s).map fun idx => (s, idx)

variable {route keys} in
theorem mem_batchOrder {s : Fin kNumStripes} {idx : Fin keys.length} :
    (s, idx) ∈ batchOrder route keys ↔ route (keys.get idx) = s := by
  simp [batchOrder, stripeGroups_eq]

def readEach : List (Fin kNumStripes × Fin keys.length) → Results keys →
    StripedProgram (Results keys)
  | [], results => return results
  | (s, idx) :: rest, results => do
      let found ← StripedProgram.get s (keys.get idx)
      readEach rest (Function.update results idx found)

theorem readEach_append (first second : List (Fin kNumStripes × Fin keys.length))
    (results : Results keys) : readEach keys (first ++ second) results =
      readEach keys first results >>= readEach keys second := by
  induction first generalizing results with
  | nil => rfl
  | cons head rest induction =>
      rcases head with ⟨s, idx⟩
      simp only [List.cons_append, readEach, bind_assoc, induction]

theorem readGroup_eq (s : Fin kNumStripes) (group : List (Fin keys.length))
    (results : Results keys) : readGroup keys s group results =
      readEach keys (group.map fun idx => (s, idx)) results := by
  induction group generalizing results with
  | nil => rfl
  | cons idx rest induction =>
      simp only [readGroup, List.map_cons, readEach, induction]

theorem readGroups_eq (groups : Fin kNumStripes → List (Fin keys.length))
    (stripes : List (Fin kNumStripes)) (results : Results keys) :
    readGroups keys groups stripes results = readEach keys
      (stripes.flatMap fun s => (groups s).map fun idx => (s, idx)) results := by
  induction stripes generalizing results with
  | nil => rfl
  | cons s rest induction =>
      rw [readGroups, List.flatMap_cons, readEach_append]
      split
      · rename_i empty
        rw [List.isEmpty_iff.mp empty, induction]
        rfl
      · rw [readGroup_eq]
        exact congrArg _ (funext induction)

/-- The batch reads its keys one by one, in its own order. -/
theorem batchGet_eq : batchGet route keys = do
    let results ← readEach keys (batchOrder route keys) fun _ => none
    return List.ofFn results := by
  rw [batchGet, readGroups_eq]
  rfl

def fill (answers : List (Fin kNumStripes × Fin keys.length × CallResult))
    (results : Results keys) : Results keys :=
  answers.foldl (fun results answer =>
    Function.update results answer.2.1 answer.2.2.1.found) results

variable {keys} in
theorem fill_of_notMem
    {answers : List (Fin kNumStripes × Fin keys.length × CallResult)}
    {idx : Fin keys.length}
    (outside : idx ∉ answers.map fun answer => answer.2.1)
    (results : Results keys) : fill keys answers results idx = results idx := by
  induction answers generalizing results with
  | nil => rfl
  | cons head rest induction =>
      rw [List.map_cons, List.mem_cons, not_or] at outside
      exact (induction outside.2 _).trans (Function.update_of_ne outside.1 _ _)

variable {keys} in
theorem fill_of_mem
    {answers : List (Fin kNumStripes × Fin keys.length × CallResult)}
    (nodup : (answers.map fun answer => answer.2.1).Nodup)
    {s : Fin kNumStripes} {idx : Fin keys.length} {result : CallResult}
    (member : (s, idx, result) ∈ answers) (results : Results keys) :
    fill keys answers results idx = result.1.found := by
  induction answers generalizing results with
  | nil => cases member
  | cons head rest induction =>
      rw [List.map_cons, List.nodup_cons] at nodup
      rcases List.mem_cons.mp member with rfl | member
      · exact (fill_of_notMem nodup.1 _).trans (Function.update_self _ _ _)
      · exact induction nodup.2 member _

/-! ## The gets as calls of the stripes -/

variable {route keys}
variable {xx : XxHash} {cache cache' : StripedCache}

theorem run_get {s : Fin kNumStripes} {key : Key} {result : CallResult}
    (called : StripeSystem.call xx SlabAllocator.allocator cache s (.get key) =
      some (result, cache')) :
    (StripedProgram.get s key).run (handler xx) cache =
      some (result.1.found, cache') := by
  rw [StripedProgram.get, Program.run_bind, Program.run_perform]
  simp only [handler, called]
  rfl

def getsAt (keys : List Key)
    (order : List (Fin kNumStripes × Fin keys.length)) :
    List (Fin kNumStripes × CacheCall) :=
  order.map fun position => (position.1, .get (keys.get position.2))

theorem run_readEach {order : List (Fin kNumStripes × Fin keys.length)}
    {answers : List CallResult} (results : Results keys)
    (ran : StripeSystem.run xx SlabAllocator.allocator (getsAt keys order)
      cache = some (answers, cache')) :
    (readEach keys order results).run (handler xx) cache =
      some (fill keys (Components.answered order answers) results, cache') := by
  induction order generalizing cache answers results with
  | nil =>
      cases ran
      rfl
  | cons head rest induction =>
      rcases head with ⟨s, idx⟩
      rcases StripeSystem.run_cons_eq_some ran with
        ⟨result, middle, others, called, ranRest, rfl⟩
      rw [readEach, Program.run_bind, run_get called]
      exact induction _ ranRest

theorem run_getEach {answers : List CallResult}
    (ran : StripeSystem.run xx SlabAllocator.allocator
      (keys.map fun key => (route key, .get key)) cache =
        some (answers, cache')) :
    (getEach route keys).run (handler xx) cache =
      some (answers.map fun answer => answer.1.found, cache') := by
  induction keys generalizing cache answers with
  | nil =>
      cases ran
      rfl
  | cons key rest induction =>
      rcases StripeSystem.run_cons_eq_some ran with
        ⟨result, middle, others, called, ranRest, rfl⟩
      rw [getEach, Program.run_bind, run_get called]
      simp only [Option.bind_some, Program.run_bind, induction ranRest]
      rfl

def listOrder (route : Key → Fin kNumStripes) (keys : List Key) :
    List (Fin kNumStripes × Fin keys.length) :=
  (List.finRange keys.length).map fun idx => (route (keys.get idx), idx)

theorem getsAt_listOrder : getsAt keys (listOrder route keys) =
    keys.map fun key => (route key, .get key) := by
  rw [getsAt, listOrder, List.map_map]
  calc (List.finRange keys.length).map _
      = ((List.finRange keys.length).map keys.get).map
          fun key => (route key, CacheCall.get key) := by
        rw [List.map_map]
        rfl
    _ = keys.map fun key => (route key, .get key) := by
        rw [List.map_get_finRange]

theorem addressed_batchOrder (s : Fin kNumStripes) :
    Components.addressed s (batchOrder route keys) =
      Components.addressed s (listOrder route keys) := by
  rw [batchOrder, Components.addressed_flatMap (List.nodup_finRange _) _
    (List.mem_finRange s), stripeGroups_eq]
  simp [Components.addressed, listOrder, List.filter_map, Function.comp_def]

theorem gets_getsAt (order : List (Fin kNumStripes × Fin keys.length)) :
    ∀ call ∈ getsAt keys order, ∃ key, call.2 = .get key := by
  intro call member
  rcases List.mem_map.mp member with ⟨position, -, rfl⟩
  exact ⟨_, rfl⟩

theorem ofFn_fill {order : List (Fin kNumStripes × Fin keys.length)}
    {answers answers' : List CallResult}
    (length : answers'.length = keys.length)
    (perm : (Components.answered order answers).Perm
      (Components.answered (listOrder route keys) answers')) :
    List.ofFn (fill keys (Components.answered order answers) fun _ => none) =
      answers'.map fun answer => answer.1.found := by
  have positions : (Components.answered (listOrder route keys) answers').map
      (fun answer => answer.2.1) = List.finRange keys.length := by
    rw [Components.answered_calls (by simp [listOrder, length]), listOrder,
      List.map_map]
    exact List.map_id _
  have nodup : ((Components.answered order answers).map
      fun answer => answer.2.1).Nodup := by
    rw [(perm.map _).nodup_iff, positions]
    exact List.nodup_finRange _
  apply List.ext_getElem
  · simp [length]
  · intro n inside inside'
    rw [List.length_ofFn] at inside
    rw [List.length_map] at inside'
    rw [List.getElem_ofFn, List.getElem_map]
    apply @fill_of_mem _ _ nodup (route (keys.get ⟨n, inside⟩))
    apply perm.mem_iff.mpr
    apply List.mem_iff_getElem.mpr
    refine ⟨n, by simp [Components.answered, listOrder, inside, inside'], ?_⟩
    simp [Components.answered, listOrder]

theorem getEach_agrees {capacity : Nat} {models : Fin kNumStripes → StripeModel}
    (mirrors : cache.Mirrors capacity models) (xx : XxHash)
    (route : Key → Fin kNumStripes) (keys : List Key) :
    ∃ results batched each,
      (batchGet route keys).run (handler xx) cache =
        some (results, batched) ∧
      (getEach route keys).run (handler xx) cache = some (results, each) ∧
      ∀ s, StripeSystem.SameStripe id each s batched s := by
  rcases mirrors.run xx (getsAt keys (batchOrder route keys))
      (.inl (gets_getsAt _)) with ⟨batched, batchRan, batchMirrors, -⟩
  rcases mirrors.run xx (getsAt keys (listOrder route keys))
      (.inl (gets_getsAt _)) with ⟨each, eachRan, eachMirrors, -⟩
  have batchKept := StripeSystem.run_gets_indexMap (gets_getsAt _) batchRan
  have eachKept := StripeSystem.run_gets_indexMap (gets_getsAt _) eachRan
  have positions : ∀ order : List (Fin kNumStripes × Fin keys.length),
      Components.runAll (StripeModel.call xx true) (getsAt keys order) models =
        Components.runAll (fun idx => StripeModel.call xx true
          (.get (keys.get idx))) order models :=
    fun order => Components.runAll_map (StripeModel.call xx true)
      (fun idx => CacheCall.get (keys.get idx)) order models
  rw [positions] at batchRan batchMirrors eachRan eachMirrors
  rw [Components.runAll_state_eq _ addressed_batchOrder] at batchMirrors
  have perm := Components.runAll_perm
    (fun idx => StripeModel.call xx true (.get (keys.get idx)))
    (@addressed_batchOrder route keys) models
  have filled := ofFn_fill (by simp [listOrder]) perm
  rw [getsAt_listOrder] at eachRan
  refine ⟨_, batched, each, ?_, run_getEach eachRan, ?_⟩
  · rw [batchGet_eq, Program.run_bind, run_readEach _ batchRan, ← filled]
    rfl
  · intro s
    apply eachMirrors.sameStripe_of_finds batchMirrors rfl rfl
    intro index held
    rw [batchKept, ← eachKept]
    exact eachMirrors.wellFormed.lookup_key held

/-- With no other client, a batch get is one get after the other: the same
results, and the same stripes. -/
theorem batchGet_run_eq {config : StripedCacheConfig} {demotionQueue : Bool}
    (xx : XxHash) (made : StripedCache.new config demotionQueue = some cache)
    (route : Key → Fin kNumStripes) (calls : List CacheCall)
    (keys : List Key) :
    ∃ past reached results batched each,
      cache.runRouted xx route calls = some (past, reached) ∧
      (batchGet route keys).run (handler xx) reached =
        some (results, batched) ∧
      (getEach route keys).run (handler xx) reached = some (results, each) ∧
      ∀ s, StripeSystem.SameStripe id each s batched s := by
  have fits : config.slabCapacity < uint32Size := Nat.mod_lt _ (by decide)
  have follows := StripeSystem.new_follows fits made
  rcases follows.run SlabAllocator.lawful xx
      (calls.map fun call => (route call.key, call)) with
    ⟨marked, reached, -, -, ran, follows'⟩
  rcases getEach_agrees (StripeSystem.Mirrors.of_follows follows') xx route
      keys with ⟨results, batched, each, batchRan, eachRan, same⟩
  exact ⟨_, reached, results, batched, each, ran, batchRan, eachRan, same⟩

theorem batchGet_run_eq_sample :
    ∃ cache, StripedCache.new .sample true = some cache ∧
      ∃ past reached results batched each,
        cache.runRouted .sample (StripedCache.route .sample)
            [.put "k" "1", .put "w" "2", .put "x" "3", .get "w"] =
          some (past, reached) ∧
        (batchGet (StripedCache.route .sample) ["w", "k", "bu", "w"]).run
          (handler .sample) reached = some (results, batched) ∧
        (getEach (StripedCache.route .sample) ["w", "k", "bu", "w"]).run
          (handler .sample) reached = some (results, each) ∧
        ∀ s, StripeSystem.SameStripe id each s batched s := by
  have accepted : ∃ cache, StripedCache.new .sample true = some cache :=
    StripeSystem.new_eq_some (by decide) fun _ => by decide
  rcases accepted with ⟨cache, made⟩
  exact ⟨cache, made, batchGet_run_eq .sample made _ _ _⟩

end BatchGet

end StripedCache

end Walde
