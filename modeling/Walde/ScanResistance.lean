import Walde.StripeInvariant

namespace Walde

open Foundation

/-! # Scan resistance

A scan puts keys that were never counted before, each of them once. While the
counters of probation are large enough to outlive the decays of the scan, no
scanned key wins a contest. -/

def CacheCall.increments : CacheCall → CacheReply → List Key
  | .put key _, _ => [key]
  | .get key, .value (some _) => [key]
  | _, _ => []

namespace Policy

/-- What the counters say about the keys `seen` so far: only these are
resident, only their counters can be positive, and the next decay is due within
an interval. -/
structure Counts (xx : XxHash) (seen : List Key) (policy : Policy) : Prop where
  resident : ∀ key ∈ policy.keys, key ∈ seen
  untouched : ∀ row < 4, ∀ col, (∀ key ∈ seen, column xx key row ≠ col) →
    policy.table row col = 0
  due : policy.putsSinceDecay < policy.config.decayInterval

theorem Counts.new (xx : XxHash) (config : StripeConfig)
    (queueAttached : Bool) : (new config queueAttached).Counts xx [] where
  resident key member := by simp [keys, entries, Policy.new] at member
  untouched _ _ _ _ := rfl
  due := config.decay_pos

theorem tick_counters (policy : Policy) :
    policy.tick.counters =
      if policy.config.decayInterval ≤ policy.putsSinceDecay + 1 then
        (policy.table.halve, 0)
      else (policy.table, policy.putsSinceDecay + 1) := by
  unfold tick
  split <;> rfl

theorem counters_eq {policy policy' : Policy}
    (equal : policy'.counters = policy.counters) :
    policy'.table = policy.table ∧
      policy'.putsSinceDecay = policy.putsSinceDecay :=
  Prod.mk.inj equal

section Counts

variable {xx : XxHash} {seen : List Key} {policy : Policy}

theorem Counts.count (counts : policy.Counts xx seen) (key : Key) :
    (policy.count xx key).Counts xx (seen ++ [key]) where
  resident other member := List.mem_append_left _ (counts.resident other member)
  untouched row rowLt col apart := by
    have before := counts.untouched row rowLt col fun other member =>
      apart other (List.mem_append_left _ member)
    have different : col ≠ column xx key row := fun equal =>
      apart key (by simp) equal.symm
    change policy.table.bump uint32Size 4 (column xx key) row col = 0
    rw [CountMin.Table.bump_of_ne different, before]
  due := counts.due

theorem Counts.tick (counts : policy.Counts xx seen) :
    policy.tick.Counts xx seen := by
  have counters := policy.tick_counters
  have positive := policy.config.decay_pos
  refine ⟨?_, ?_, ?_⟩
  · simpa [keys] using counts.resident
  · intro row rowLt col apart
    have before := counts.untouched row rowLt col apart
    split at counters
    · rw [(Prod.mk.inj counters).1]
      simp [CountMin.Table.halve, before]
    · rw [(Prod.mk.inj counters).1, before]
  · rw [tick_config]
    split at counters
    · rw [(Prod.mk.inj counters).2]
      exact positive
    · rw [(Prod.mk.inj counters).2]
      omega

theorem Counts.of_counters {policy' : Policy} (counts : policy.Counts xx seen)
    (counters : policy'.counters = policy.counters)
    (config : policy'.config = policy.config)
    (resident : ∀ key ∈ policy'.keys, key ∈ seen) :
    policy'.Counts xx seen := by
  obtain ⟨table, puts⟩ := counters_eq counters
  refine ⟨resident, ?_, ?_⟩
  · rw [table]
    exact counts.untouched
  · rw [puts, config]
    exact counts.due

theorem Counts.put (counts : policy.Counts xx seen) (bounded : policy.Bounded)
    (slot : Bool) (key : Key) (value : Value) :
    (policy.put xx slot key value).2.1.Counts xx (seen ++ [key]) := by
  have counted : (policy.counted xx key).Counts xx (seen ++ [key]) :=
    (counts.count key).tick
  refine counted.of_counters (put_counters xx bounded slot key value) ?_ ?_
  · rw [show (policy.put xx slot key value).2.1.config = policy.config from
      call_config xx bounded slot (.put key value)]
    simp [Policy.counted]
  · intro other member
    rcases mem_keys.mp member with ⟨found, member⟩
    rcases put_residents xx bounded slot key value member with
      same | ⟨-, member⟩
    · rw [(Prod.mk.inj same).1]
      simp
    · exact List.mem_append_left _
        (counts.resident other (mem_keys.mpr ⟨found, member⟩))

theorem Counts.get (counts : policy.Counts xx seen) (bounded : policy.Bounded)
    (key : Key) :
    (policy.get xx key).2.Counts xx
      (seen ++ CacheCall.increments (.get key) (.value (policy.find key))) := by
  have perm := get_perm xx policy key
  have config : (policy.get xx key).2.config = policy.config :=
    call_config xx bounded true (.get key)
  have sameKeys : ∀ other ∈ (policy.get xx key).2.keys, other ∈ policy.keys :=
    fun other member => (perm.map _).mem_iff.mp member
  have counters := get_counters xx policy key
  cases found : policy.find key with
  | none =>
      rw [if_neg (find_eq_none.mp found)] at counters
      have nothing : CacheCall.increments (.get key) (.value none) = [] := rfl
      rw [nothing, List.append_nil]
      exact counts.of_counters counters config fun other member =>
        counts.resident other (sameKeys other member)
  | some value =>
      have resident : key ∈ policy.keys :=
        mem_keys.mpr ⟨value, find_mem found⟩
      rw [if_pos resident] at counters
      exact (counts.count key).of_counters counters config fun other member =>
        List.mem_append_left _ (counts.resident other (sameKeys other member))

theorem Counts.call (counts : policy.Counts xx seen) (bounded : policy.Bounded)
    (slot : Bool) (call : CacheCall) :
    (policy.call xx slot call).2.Counts xx
      (seen ++ call.increments (policy.call xx slot call).1.1) := by
  cases call with
  | get key =>
      have reply : (policy.call xx slot (.get key)).1.1 =
          .value (policy.find key) :=
        congrArg CacheReply.value (get_fst xx policy key)
      rw [reply]
      exact counts.get bounded key
  | put key value => exact counts.put bounded slot key value
  | remove key =>
      have nothing : CacheCall.increments (.remove key)
          (policy.call xx slot (.remove key)).1.1 = [] := rfl
      rw [nothing, List.append_nil]
      refine counts.of_counters rfl rfl fun other member => ?_
      rcases mem_keys.mp member with ⟨found, member⟩
      exact counts.resident other
        (mem_keys.mpr ⟨found, (mem_remove.mp member).2⟩)

end Counts

/-! ## One put of a scan -/

/-- The keys of a scan are new and distinct, and each has a row where no other
counted key shares its column. -/
structure Unseen (xx : XxHash) (seen scan : List Key) (row : Key → Nat) :
    Prop where
  nodup : scan.Nodup
  fresh : ∀ key ∈ scan, key ∉ seen
  row_lt : ∀ key ∈ scan, row key < 4
  alone : ∀ key ∈ scan, ∀ other ∈ seen ++ scan, other ≠ key →
    column xx other (row key) ≠ column xx key (row key)

/-- In the middle of a scan, after the keys `fed`: main is as it was, but for
entries of the old window that took the place of entries of probation. The
counters of probation outweigh those of the scan. -/
structure Scanning (xx : XxHash) (seen scan : List Key) (row : Key → Nat)
    (strength : Nat) (start : Policy) (fed : List Key) (policy : Policy) :
    Prop where
  bounded : policy.Bounded
  config : policy.config = start.config
  counts : policy.Counts xx (seen ++ fed)
  protected_ : policy.protected_ = start.protected_
  size : policy.probation.length = start.probation.length
  window : ∀ entry ∈ policy.window, entry ∈ start.window ∨ entry.1 ∈ fed
  moved : ∃ newcomers leavers,
    newcomers ++ start.probation = policy.probation ++ leavers ∧
      newcomers ⊆ start.window
  weak : ∀ key ∈ fed, policy.table (row key) (column xx key (row key)) ≤ 1
  strong : ∃ decays,
    decays * start.config.decayInterval + policy.putsSinceDecay =
      start.putsSinceDecay + fed.length ∧
    ∀ entry ∈ policy.probation,
      2 ^ (strength - decays) ≤ policy.frequency xx entry.1

section Scanning

variable {xx : XxHash} {seen scan fed : List Key} {row : Key → Nat}
  {strength : Nat} {start policy : Policy}

theorem Unseen.bump_ne (unseen : Unseen xx seen scan row) {key other : Key}
    (inScan : key ∈ scan) (otherInScan : other ∈ scan) (different : other ≠ key)
    (table : CountMin.Table) :
    table.bump uint32Size 4 (column xx other) (row key)
        (column xx key (row key)) =
      table (row key) (column xx key (row key)) :=
  CountMin.Table.bump_of_ne fun equal =>
    unseen.alone key inScan other (List.mem_append_right _ otherInScan)
      different equal.symm

theorem Scanning.bump_weak
    (scanning : Scanning xx seen scan row strength start fed policy)
    (unseen : Unseen xx seen scan row) {key : Key} {rest : List Key}
    (scanned : scan = fed ++ key :: rest) :
    ∀ other ∈ fed ++ [key],
      (policy.table.bump uint32Size 4 (column xx key)) (row other)
        (column xx other (row other)) ≤ 1 := by
  have keyInScan : key ∈ scan := by simp [scanned]
  have notFed : key ∉ fed := by
    have nodup := unseen.nodup
    rw [scanned] at nodup
    intro member
    exact List.disjoint_of_nodup_append nodup member (by simp)
  intro other member
  rcases List.mem_append.mp member with inFed | atKey
  · have different : key ≠ other := by
      rintro rfl
      exact notFed inFed
    rw [unseen.bump_ne (by simp [scanned, inFed]) keyInScan different]
    exact scanning.weak other inFed
  · obtain rfl : other = key := by simpa using atKey
    -- nobody has counted in this column yet
    have zero : policy.table (row other) (column xx other (row other)) = 0 := by
      apply scanning.counts.untouched _ (unseen.row_lt other keyInScan)
      intro earlier inSeen
      refine unseen.alone other keyInScan earlier ?_ ?_
      · rcases List.mem_append.mp inSeen with old | inFed
        · exact List.mem_append_left _ old
        · exact List.mem_append_right _ (by simp [scanned, inFed])
      · rintro rfl
        rcases List.mem_append.mp inSeen with old | inFed
        · exact unseen.fresh earlier keyInScan old
        · exact notFed inFed
    unfold CountMin.Table.bump
    split
    · rw [zero]
      decide
    · rw [zero]
      decide

theorem frequency_le_count {key other : Key}
    (noWrap : ∀ row < 4,
      policy.table row (column xx key row) + 1 < uint32Size) :
    policy.frequency xx other ≤ (policy.count xx key).frequency xx other := by
  unfold frequency
  rw [CountMin.Table.le_least_iff]
  refine ⟨CountMin.Table.least_le_top, fun row rowLt => ?_⟩
  exact (CountMin.Table.least_le rowLt).trans
    (CountMin.Table.le_bump fun rowLt atColumn => by
      rw [atColumn]
      exact noWrap row rowLt)

theorem le_frequency_halve (policy : Policy) {bound : Nat} {key : Key}
    (strong : bound * 2 ≤ policy.frequency xx key) :
    bound ≤ policy.table.halve.least (uint32Size - 1) 4 (column xx key) := by
  unfold frequency at strong
  rw [CountMin.Table.le_least_iff] at strong ⊢
  refine ⟨by omega, fun row rowLt => ?_⟩
  exact (Nat.le_div_iff_mul_le (by decide)).mpr (strong.2 row rowLt)

theorem Scanning.counted
    (scanning : Scanning xx seen scan row strength start fed policy)
    (unseen : Unseen xx seen scan row) {key : Key} {rest : List Key}
    (scanned : scan = fed ++ key :: rest)
    (due : start.putsSinceDecay < start.config.decayInterval)
    (budget : scan.length ≤ strength * start.config.decayInterval)
    (noWrap : ∀ row < 4,
      policy.table row (column xx key row) + 1 < uint32Size) :
    Scanning xx seen scan row strength start (fed ++ [key])
      (policy.counted xx key) := by
  have bumped := scanning.bump_weak unseen scanned
  have counters := (policy.count xx key).tick_counters
  have interval : (policy.count xx key).config.decayInterval =
      start.config.decayInterval := by
    rw [count_config, scanning.config]
  have sameTable : (policy.count xx key).table =
      policy.table.bump uint32Size 4 (column xx key) := rfl
  have samePuts : (policy.count xx key).putsSinceDecay =
      policy.putsSinceDecay := rfl
  rw [interval, sameTable, samePuts] at counters
  refine ⟨scanning.bounded.counted xx key, ?_, ?_, ?_, ?_, ?_, ?_, ?_, ?_⟩
  · rw [counted_config, scanning.config]
  · rw [← List.append_assoc]
    exact (scanning.counts.count key).tick
  · rw [counted_protected, scanning.protected_]
  · rw [counted_probation, scanning.size]
  · intro entry member
    rw [counted_window] at member
    rcases scanning.window entry member with old | inFed
    · exact .inl old
    · exact .inr (List.mem_append_left _ inFed)
  · rw [counted_probation]
    exact scanning.moved
  · intro other member
    have before := bumped other member
    split at counters <;> rw [Policy.counted, (Prod.mk.inj counters).1]
    · exact (Nat.div_le_self _ _).trans before
    · exact before
  · rcases scanning.strong with ⟨decays, clock, strong⟩
    have kept : ∀ entry ∈ policy.probation, 2 ^ (strength - decays) ≤
        (policy.count xx key).frequency xx entry.1 := fun entry member =>
      (strong entry member).trans (frequency_le_count noWrap)
    have length : fed.length + 1 ≤ scan.length := by simp [scanned]
    rw [counted_probation, List.length_append, List.length_singleton]
    split at counters
    · rename_i decayed
      -- the puts so far do not add up to more decays than the strength
      have few : decays + 1 ≤ strength := by
        have product : (decays + 1) * start.config.decayInterval <
            (strength + 1) * start.config.decayInterval := by
          rw [Nat.add_mul, Nat.add_mul]
          omega
        exact Nat.le_of_lt_succ (Nat.lt_of_mul_lt_mul_right product)
      have exact' : policy.putsSinceDecay + 1 =
          start.config.decayInterval := by
        have within := scanning.counts.due
        rw [scanning.config] at within
        omega
      refine ⟨decays + 1, ?_, fun entry member => ?_⟩
      · rw [Policy.counted, (Prod.mk.inj counters).2, Nat.add_mul]
        omega
      · unfold frequency
        rw [Policy.counted, (Prod.mk.inj counters).1]
        apply le_frequency_halve (policy.count xx key)
        have double : 2 ^ (strength - (decays + 1)) * 2 =
            2 ^ (strength - decays) := by
          rw [← Nat.pow_succ]
          congr 1
          omega
        rw [double]
        exact kept entry member
    · refine ⟨decays, ?_, fun entry member => ?_⟩
      · rw [Policy.counted, (Prod.mk.inj counters).2]
        omega
      · unfold frequency
        rw [Policy.counted, (Prod.mk.inj counters).1]
        exact kept entry member

/-- What an insertion does to a full main: nothing, or a stronger entry of the
window takes the place of the last entry of probation. -/
theorem insert_full (xx : XxHash) {policy : Policy} (bounded : policy.Bounded)
    (full : policy.config.mainCapacity ≤
      policy.probation.length + policy.protected_.length)
    (key : Key) (value : Value) :
    (policy.insert xx key value).1.protected_ = policy.protected_ ∧
    (policy.insert xx key value).1.window ⊆ (key, value) :: policy.window ∧
    ((policy.insert xx key value).1.probation = policy.probation ∨
      ∃ others victim candidate, policy.probation = others ++ [victim] ∧
        candidate ∈ (key, value) :: policy.window ∧
        policy.frequency xx victim.1 < policy.frequency xx candidate.1 ∧
        (policy.insert xx key value).1.probation = candidate :: others) := by
  rcases insert_cases xx bounded key value with
    ⟨-, equal⟩ | ⟨front, candidate, -, shape, equal⟩ <;> rw [equal]
  · exact ⟨rfl, List.Subset.refl _, .inl rfl⟩
  · rw [shape]
    rcases tryAdmit_cases xx (policy.pushWindow (key, value)) shape with
      ⟨room, -⟩ | ⟨-, -, admitted⟩ |
        ⟨others, victim, occupied, -, beats, admitted⟩
    · exact absurd room (Nat.not_lt_of_le full)
    · rw [admitted]
      exact ⟨rfl, List.subset_append_left _ _, .inl rfl⟩
    · rw [admitted]
      exact ⟨rfl, List.subset_append_left _ _,
        .inr ⟨others, victim, candidate, occupied, by simp, beats, rfl⟩⟩

theorem Scanning.insert
    (scanning : Scanning xx seen scan row strength start fed policy)
    (unseen : Unseen xx seen scan row) (fedScan : fed ⊆ scan)
    (full : start.config.mainCapacity ≤
      start.probation.length + start.protected_.length)
    {key : Key} (value : Value) (isFed : key ∈ fed) :
    Scanning xx seen scan row strength start fed
      (policy.insert xx key value).1 := by
  have bounded := scanning.bounded
  have counters := insert_counters xx bounded key value
  have config := insert_config xx bounded key value
  obtain ⟨table, puts⟩ := counters_eq counters
  have frequency : ∀ other, (policy.insert xx key value).1.frequency xx other =
      policy.frequency xx other := by
    intro other
    rw [Policy.frequency, Policy.frequency, table]
  have counts : (policy.insert xx key value).1.Counts xx (seen ++ fed) := by
    refine scanning.counts.of_counters counters config fun other member => ?_
    rcases mem_keys.mp member with ⟨found, member⟩
    rcases List.mem_cons.mp (insert_residents xx bounded key value member) with
      same | member
    · rw [(Prod.mk.inj same).1]
      exact List.mem_append_right _ isFed
    · exact scanning.counts.resident other (mem_keys.mpr ⟨found, member⟩)
  have window : ∀ entry ∈ (key, value) :: policy.window,
      entry ∈ start.window ∨ entry.1 ∈ fed := by
    intro entry member
    rcases List.mem_cons.mp member with rfl | member
    · exact .inr isFed
    · exact scanning.window entry member
  have weak : ∀ other ∈ fed,
      (policy.insert xx key value).1.table (row other)
        (column xx other (row other)) ≤ 1 := by
    rw [table]
    exact scanning.weak
  have stillFull : policy.config.mainCapacity ≤
      policy.probation.length + policy.protected_.length := by
    rw [scanning.config, scanning.size, scanning.protected_]
    exact full
  rcases scanning.strong with ⟨decays, clock, strong⟩
  rcases insert_full xx bounded stillFull key value with
    ⟨protected_, fromWindow, probation⟩
  have windowAfter : ∀ entry ∈ (policy.insert xx key value).1.window,
      entry ∈ start.window ∨ entry.1 ∈ fed := fun entry member =>
    window entry (fromWindow member)
  rw [← puts] at clock
  rcases probation with same | ⟨others, victim, candidate, before, inWindow,
    wins, after⟩
  · refine ⟨bounded.insert xx key value, config.trans scanning.config, counts,
      protected_.trans scanning.protected_, ?_, windowAfter, ?_, weak, decays,
      clock, ?_⟩
    · rw [same, scanning.size]
    · rw [same]
      exact scanning.moved
    · simp only [frequency, same]
      exact strong
  · have stronger := strong victim (by simp [before])
    -- a scanned key is too weak to win
    have old : candidate ∈ start.window := by
      rcases window candidate inWindow with old | scanned
      · exact old
      · have least : policy.frequency xx candidate.1 ≤ 1 :=
          (CountMin.Table.least_le (unseen.row_lt _ (fedScan scanned))).trans
            (scanning.weak _ scanned)
        have positive := Nat.one_le_two_pow (n := strength - decays)
        omega
    refine ⟨bounded.insert xx key value, config.trans scanning.config, counts,
      protected_.trans scanning.protected_, ?_, windowAfter, ?_, weak, decays,
      clock, ?_⟩
    · rw [after, ← scanning.size, before]
      simp
    · rcases scanning.moved with ⟨newcomers, leavers, exchange, subset⟩
      refine ⟨candidate :: newcomers, victim :: leavers, ?_, ?_⟩
      · rw [after, List.cons_append, exchange, before]
        simp
      · intro entry member
        rcases List.mem_cons.mp member with rfl | member
        · exact old
        · exact subset member
    · simp only [frequency, after]
      intro entry member
      rcases List.mem_cons.mp member with rfl | member
      · exact stronger.trans wins.le
      · exact strong entry (by simp [before, member])

theorem Scanning.put
    (scanning : Scanning xx seen scan row strength start fed policy)
    (unseen : Unseen xx seen scan row) {key : Key} {rest : List Key}
    (scanned : scan = fed ++ key :: rest)
    (full : start.config.mainCapacity ≤
      start.probation.length + start.protected_.length)
    (due : start.putsSinceDecay < start.config.decayInterval)
    (budget : scan.length ≤ strength * start.config.decayInterval)
    (noWrap : ∀ row < 4,
      policy.table row (column xx key row) + 1 < uint32Size)
    (slot : Bool) (value : Value) :
    Scanning xx seen scan row strength start (fed ++ [key])
      (policy.put xx slot key value).2.1 := by
  have counted := scanning.counted unseen scanned due budget noWrap
  have absent : key ∉ policy.keys := by
    intro resident
    have nodup := unseen.nodup
    rw [scanned] at nodup
    rcases List.mem_append.mp (scanning.counts.resident key resident) with
      old | inFed
    · exact unseen.fresh key (by simp [scanned]) old
    · exact List.disjoint_of_nodup_append nodup inFed (by simp)
  rcases put_cases xx slot policy key value with
    ⟨place, found, -⟩ | ⟨-, -, equal⟩ | ⟨-, -, equal⟩
  · have resident : key ∈ policy.keys := by
      rw [← counted_keys xx policy key, ← placeOf_isSome, found]
      rfl
    exact absurd resident absent
  · rw [equal]
    refine counted.insert unseen ?_ full value (by simp)
    intro other member
    rw [scanned]
    rcases List.mem_append.mp member with inFed | atKey
    · simp [inFed]
    · obtain rfl : other = key := by simpa using atKey
      simp
  · rw [equal]
    exact counted

end Scanning

end Policy

namespace StripeSystem

variable {count : Nat}

/-! ## Whole scans -/

def incremented (i : Fin count) :
    List (Fin count × CacheCall) → List CallResult → List Key
  | (j, call) :: calls, result :: results =>
      (if j = i then call.increments result.1 else []) ++
        incremented i calls results
  | _, _ => []

def puts (i : Fin count) (scan : List Entry) : List (Fin count × CacheCall) :=
  scan.map fun entry => (i, .put entry.1 entry.2)

/-- None of the puts of a scan makes a counter of its stripe wrap. -/
def NoCounterWraps (xx : XxHash) (i : Fin count) :
    List Entry → StripeSystem count → Prop
  | [], _ => True
  | (key, value) :: rest, system =>
      (∀ row < 4, (system.stripe i).cms.counters ((system.stripe i).cms.slot row
        ((system.stripe i).cms.hash xx key row)) + 1 < uint32Size) ∧
      ∀ result after, system.call xx SlabAllocator.allocator i
        (.put key value) = some (result, after) →
          NoCounterWraps xx i rest after

instance NoCounterWraps.decidable (xx : XxHash) (i : Fin count) :
    ∀ (scan : List Entry) (system : StripeSystem count),
      Decidable (NoCounterWraps xx i scan system)
  | [], _ => .isTrue trivial
  | (key, value) :: rest, system =>
      have : ∀ outcome : CallResult × StripeSystem count,
          Decidable (NoCounterWraps xx i rest outcome.2) :=
        fun outcome => decidable xx i rest outcome.2
      decidable_of_iff ((∀ row < 4, (system.stripe i).cms.counters
          ((system.stripe i).cms.slot row
            ((system.stripe i).cms.hash xx key row)) + 1 < uint32Size) ∧
        ∀ outcome ∈ system.call xx SlabAllocator.allocator i (.put key value),
          NoCounterWraps xx i rest outcome.2)
        (and_congr_right fun _ => Prod.forall)

theorem NoCounterWraps.prefix {xx : XxHash} {i : Fin count}
    {fed rest : List Entry} {system : StripeSystem count}
    (noWrap : NoCounterWraps xx i (fed ++ rest) system) :
    NoCounterWraps xx i fed system := by
  induction fed generalizing system with
  | nil => trivial
  | cons head tail induction =>
      exact ⟨noWrap.1, fun result after called =>
        induction (noWrap.2 result after called)⟩

/-- What a scan of the keys `scan` leaves alone: none of them enters main,
protected stays as it is, main stays full, and probation changes only by
entries of the old window that come in at its front, each for one that goes at
its end. -/
structure Resists (before : StripeSystem count) (i : Fin count)
    (scan : List Key) (after : StripeSystem count) : Prop where
  notAdmitted : ∀ key ∈ scan,
    key ∉ (after.entriesAt i .probation).map (·.1) ∧
      key ∉ (after.entriesAt i .protected_).map (·.1)
  protected_ : after.entriesAt i .protected_ = before.entriesAt i .protected_
  full : (after.stripe i).probationLru.size + (after.stripe i).protectedLru.size =
    (after.stripe i).config.mainCapacity
  probation : ∃ newcomers leavers,
    newcomers ++ before.entriesAt i .probation =
      after.entriesAt i .probation ++ leavers ∧
    newcomers.length = leavers.length ∧
    newcomers ⊆ before.entriesAt i .window

theorem Follows.run_counts {xx : XxHash} {capacity : Nat} {i : Fin count}
    {seen : List Key} {system system' : StripeSystem count}
    {policies : Fin count → Policy} (follows : system.Follows capacity policies)
    (counts : (policies i).Counts xx seen)
    {history : List (Fin count × CacheCall)} {results : List CallResult}
    (reached : system.run xx SlabAllocator.allocator history =
      some (results, system')) :
    ∃ policies', system'.Follows capacity policies' ∧
      (policies' i).Counts xx (seen ++ incremented i history results) := by
  induction history generalizing seen system policies results with
  | nil =>
      cases reached
      exact ⟨policies, follows, by simpa [incremented] using counts⟩
  | cons head rest induction =>
      rcases head with ⟨j, call⟩
      rcases run_cons_eq_some reached with
        ⟨result, middle, others, called, ranRest, rfl⟩
      rcases follows.called SlabAllocator.lawful called with
        ⟨slot, rfl, middleFollows⟩
      rw [incremented, ← List.append_assoc]
      refine induction middleFollows ?_ ranRest
      by_cases same : j = i
      · subst same
        rcases follows with ⟨views, lists, shows'⟩
        rw [if_pos rfl, Function.update_self]
        exact counts.call (shows'.bounded j) slot call
      · rw [if_neg same, List.append_nil, Function.update_of_ne (Ne.symm same)]
        exact counts

section Shows

variable {capacity : Nat} {system : StripeSystem count}
  {views : Fin count → SlabView} {lists : Fin count → Place → List Nat}
  {policies : Fin count → Policy}

theorem Shows.hash_eq (shows' : system.Shows capacity views lists policies)
    (xx : XxHash) (i : Fin count) (key : Key) (row : Nat) :
    (system.stripe i).cms.hash xx key row = Policy.column xx key row := by
  rw [CountMinSketch.hash, Policy.column, (shows'.sim i).shows'.width]

theorem Shows.counter (shows' : system.Shows capacity views lists policies)
    (xx : XxHash) (i : Fin count) (key : Key) {row : Nat} (rowLt : row < 4) :
    (system.stripe i).cms.counters ((system.stripe i).cms.slot row
        ((system.stripe i).cms.hash xx key row)) =
      (policies i).table row (Policy.column xx key row) := by
  have shown := (shows'.sim i).shows'
  have rowDepth : row < (system.stripe i).cms.depth := by
    rw [shown.depth]
    exact rowLt
  rw [shown.table.counter row rowDepth _ (shown.table.hash_lt key row),
    shows'.hash_eq xx i]

end Shows

section Scan

variable {capacity : Nat} {xx : XxHash} {i : Fin count}
  {seen scan : List Key} {row : Key → Nat} {strength : Nat} {start : Policy}

theorem scan_run (unseen : Policy.Unseen xx seen scan row)
    (full : start.config.mainCapacity ≤
      start.probation.length + start.protected_.length)
    (due : start.putsSinceDecay < start.config.decayInterval)
    (budget : scan.length ≤ strength * start.config.decayInterval)
    (next : List Entry) {fed later : List Key}
    (scanned : scan = fed ++ (next.map (·.1) ++ later))
    {system : StripeSystem count} {policies : Fin count → Policy}
    (follows : system.Follows capacity policies)
    (scanning : Policy.Scanning xx seen scan row strength start fed (policies i))
    (noWrap : NoCounterWraps xx i next system) :
    ∃ results after policies',
      system.run xx SlabAllocator.allocator (puts i next) =
        some (results, after) ∧
      after.Follows capacity policies' ∧
      Policy.Scanning xx seen scan row strength start (fed ++ next.map (·.1))
        (policies' i) := by
  induction next generalizing fed system policies with
  | nil => exact ⟨[], system, policies, rfl, follows, by simpa using scanning⟩
  | cons entry rest induction =>
      rcases entry with ⟨key, value⟩
      rcases follows.call SlabAllocator.lawful xx i (.put key value) with
        ⟨slot, middle, -, called, middleFollows⟩
      have room : ∀ row < 4, (policies i).table row
          (Policy.column xx key row) + 1 < uint32Size := by
        rcases follows with ⟨views, lists, shows'⟩
        intro row rowLt
        rw [← shows'.counter xx i key rowLt]
        exact noWrap.1 row rowLt
      have fedOne : Policy.Scanning xx seen scan row strength start
          (fed ++ [key]) (Function.update policies i
            ((policies i).call xx slot (.put key value)).2 i) := by
        rw [Function.update_self]
        exact scanning.put unseen scanned full due budget room slot value
      rcases induction (by simpa using scanned) middleFollows fedOne
          (noWrap.2 _ _ called) with
        ⟨results, after, policies', ran, afterFollows, final⟩
      exact ⟨_, after, policies', run_cons called ran, afterFollows,
        by simpa using final⟩

end Scan

theorem Scanning.start {seen scan : List Key} {row : Key → Nat}
    {strength : Nat} {xx : XxHash} {start : Policy} (bounded : start.Bounded)
    (counts : start.Counts xx seen)
    (strong : ∀ entry ∈ start.probation,
      2 ^ strength ≤ start.frequency xx entry.1) :
    Policy.Scanning xx seen scan row strength start [] start where
  bounded := bounded
  config := rfl
  counts := by simpa using counts
  protected_ := rfl
  size := rfl
  window _ member := .inl member
  moved := ⟨[], [], by simp, by simp⟩
  weak := by simp
  strong := ⟨0, by simp, strong⟩

theorem Resists.of_scanning {capacity : Nat} {xx : XxHash} {i : Fin count}
    {seen scan fed : List Key} {row : Key → Nat} {strength : Nat}
    {before after : StripeSystem count} {policies policies' : Fin count → Policy}
    (follows : before.Follows capacity policies)
    (follows' : after.Follows capacity policies')
    (counts : (policies i).Counts xx seen)
    (fresh : ∀ key ∈ scan, key ∉ seen)
    (full : (before.stripe i).probationLru.size +
      (before.stripe i).protectedLru.size =
        (before.stripe i).config.mainCapacity)
    (scanning : Policy.Scanning xx seen scan row strength (policies i) fed
      (policies' i)) :
    before.Resists i scan after := by
  rcases follows with ⟨views, lists, shows'⟩
  rcases follows' with ⟨views', lists', shows''⟩
  have probation : before.entriesAt i .probation = (policies i).probation :=
    shows'.entriesAt i .probation
  have window : before.entriesAt i .window = (policies i).window :=
    shows'.entriesAt i .window
  have protected_ : before.entriesAt i .protected_ = (policies i).protected_ :=
    shows'.entriesAt i .protected_
  have probation' : after.entriesAt i .probation = (policies' i).probation :=
    shows''.entriesAt i .probation
  have protected' : after.entriesAt i .protected_ = (policies' i).protected_ :=
    shows''.entriesAt i .protected_
  rcases scanning.moved with ⟨newcomers, leavers, exchange, subset⟩
  have notOld : ∀ key ∈ scan, ∀ entry ∈ (policies i).entries,
      entry.1 ≠ key := by
    rintro key inScan entry member rfl
    exact fresh entry.1 inScan
      (counts.resident entry.1 (List.mem_map_of_mem member))
  constructor
  · intro key inScan
    rw [probation', protected', scanning.protected_]
    constructor
    · intro member
      rcases List.mem_map.mp member with ⟨entry, member, same⟩
      have came : entry ∈ newcomers ++ (policies i).probation := by
        rw [exchange]
        exact List.mem_append_left _ member
      refine notOld key inScan entry (Policy.mem_entries.mpr ?_) same
      rcases List.mem_append.mp came with new | old
      · exact .inl (subset new)
      · exact .inr (.inl old)
    · intro member
      rcases List.mem_map.mp member with ⟨entry, member, same⟩
      exact notOld key inScan entry
        (Policy.mem_entries.mpr (.inr (.inr member))) same
  · rw [protected', protected_, scanning.protected_]
  · have sizes := (shows''.sim i).size_eq
    have sizesBefore := (shows'.sim i).size_eq
    have probationSize : (after.stripe i).probationLru.size = _ :=
      sizes .probation
    have protectedSize : (after.stripe i).protectedLru.size = _ :=
      sizes .protected_
    have probationBefore : (before.stripe i).probationLru.size = _ :=
      sizesBefore .probation
    have protectedBefore : (before.stripe i).protectedLru.size = _ :=
      sizesBefore .protected_
    rw [probationBefore, protectedBefore,
      ← (shows'.sim i).shows'.config] at full
    rw [probationSize, protectedSize, ← (shows''.sim i).shows'.config,
      scanning.config, ← full]
    change (policies' i).probation.length + (policies' i).protected_.length = _
    rw [scanning.size, scanning.protected_]
    rfl
  · rw [probation, probation', window]
    refine ⟨newcomers, leavers, exchange, ?_, subset⟩
    have lengths := congrArg List.length exchange
    rw [List.length_append, List.length_append, scanning.size] at lengths
    omega

/-- Take any state that any run of any stripes reaches, a stripe whose main is
full, and counters of at least `2 ^ strength` in its probation. A scan of at
most `strength` decay intervals of new keys, each alone in some row of the
sketch, is resisted from its first put to its last. -/
theorem scan_resistance (xx : XxHash) {slabCapacity : Nat}
    (fits : slabCapacity < uint32Size) {settings : Fin count → StripeSettings}
    {fresh : StripeSystem count}
    (made : StripeSystem.new slabCapacity settings = some fresh)
    (history : List (Fin count × CacheCall)) {results : List CallResult}
    {before : StripeSystem count}
    (reached : fresh.run xx SlabAllocator.allocator history =
      some (results, before)) (i : Fin count)
    (full : (before.stripe i).probationLru.size +
      (before.stripe i).protectedLru.size =
        (before.stripe i).config.mainCapacity) (strength : Nat)
    (strong : ∀ entry ∈ before.entriesAt i .probation,
      2 ^ strength ≤ (before.stripe i).cms.estimate xx entry.1)
    (scan : List Entry)
    (budget : scan.length ≤
      strength * (before.stripe i).config.decayInterval)
    (distinct : (scan.map (·.1)).Nodup)
    (unseen : ∀ key ∈ scan.map (·.1), key ∉ incremented i history results)
    (alone : ∀ key ∈ scan.map (·.1), ∃ row < 4,
      ∀ other ∈ incremented i history results ++ scan.map (·.1),
        other ≠ key → (before.stripe i).cms.hash xx other row ≠
          (before.stripe i).cms.hash xx key row)
    (noWrap : NoCounterWraps xx i scan before) :
    ∀ fed rest, scan = fed ++ rest → ∃ results after,
      before.run xx SlabAllocator.allocator (puts i fed) =
        some (results, after) ∧
      before.Resists i (scan.map (·.1)) after := by
  rcases (new_follows fits made).run_counts
      (.new xx (settings i).config (settings i).demotionQueue) reached with
    ⟨policies, follows, counts⟩
  rcases id follows with ⟨views, lists, shows'⟩
  have shown := (shows'.sim i).shows'
  have sizes := (shows'.sim i).size_eq
  have probation : before.entriesAt i .probation = (policies i).probation :=
    shows'.entriesAt i .probation
  simp only [shows'.hash_eq xx i] at alone
  choose! row rowLt apart using alone
  have stillFull : (policies i).config.mainCapacity ≤
      (policies i).probation.length + (policies i).protected_.length := by
    have probationSize : (before.stripe i).probationLru.size =
        (policies i).probation.length := sizes .probation
    have protectedSize : (before.stripe i).protectedLru.size =
        (policies i).protected_.length := sizes .protected_
    rw [shown.config, ← full, probationSize, protectedSize]
  have strongPolicy : ∀ entry ∈ (policies i).probation,
      2 ^ strength ≤ (policies i).frequency xx entry.1 := by
    intro entry member
    rw [← shown.frequency]
    exact strong entry (probation ▸ member)
  rintro fed rest rfl
  rcases scan_run ⟨distinct, unseen, rowLt, apart⟩ stillFull counts.due
      (by rwa [List.length_map, shown.config]) fed
      (by rw [List.map_append, List.nil_append]) follows
      (Scanning.start ((shows'.bounded i)) counts strongPolicy)
      noWrap.prefix with
    ⟨results', after, policies', ran, follows', scanning⟩
  exact ⟨results', after, ran,
    .of_scanning follows follows' counts unseen full scanning⟩

/-- Three keys with a count of at least two fill the main of the smallest
stripe, two calls before a decay. -/
def hotKeys : List (Fin 1 × CacheCall) :=
  [(0, .put "k" "1"), (0, .remove "k"), (0, .put "k" "1"), (0, .put "w" "1"),
    (0, .remove "w"), (0, .put "w" "1"), (0, .put "x" "1"), (0, .remove "x"),
    (0, .put "x" "1"), (0, .put "k" "2"), (0, .put "k" "3"), (0, .put "w" "2"),
    (0, .put "w" "3"), (0, .put "w" "4"), (0, .put "x" "2"), (0, .put "x" "3")]

/-- A scan of four keys, with the decay at its second put. -/
theorem scan_resistance_sample :
    ∃ fresh results before,
      StripeSystem.new 4 (fun _ : Fin 1 => .sample) = some fresh ∧
      fresh.run .sample SlabAllocator.allocator hotKeys =
        some (results, before) ∧
      (before.stripe 0).opsSinceDecay + 2 =
        (before.stripe 0).config.decayInterval ∧
      ∀ fed rest, [("b", "1"), ("p", "2"), ("z", "3"), ("bh", "4")] =
          fed ++ rest → ∃ results after,
        before.run .sample SlabAllocator.allocator (puts 0 fed) =
          some (results, after) ∧
        before.Resists 0 ["b", "p", "z", "bh"] after := by
  have facts : ((StripeSystem.new 4 fun _ : Fin 1 => .sample).bind fun fresh =>
      (fresh.run .sample SlabAllocator.allocator hotKeys).map fun outcome =>
        decide (((outcome.2.stripe 0).opsSinceDecay + 2 =
            (outcome.2.stripe 0).config.decayInterval ∧
          (outcome.2.stripe 0).probationLru.size +
            (outcome.2.stripe 0).protectedLru.size =
              (outcome.2.stripe 0).config.mainCapacity ∧
          (∀ entry ∈ outcome.2.entriesAt 0 .probation,
            2 ^ 1 ≤ (outcome.2.stripe 0).cms.estimate .sample entry.1) ∧
          4 ≤ 1 * (outcome.2.stripe 0).config.decayInterval) ∧
          (∀ key ∈ ["b", "p", "z", "bh"],
            key ∉ incremented 0 hotKeys outcome.1) ∧
          (∀ key ∈ ["b", "p", "z", "bh"], ∃ row < 4,
            ∀ other ∈ incremented 0 hotKeys outcome.1 ++ ["b", "p", "z", "bh"],
              other ≠ key →
              (outcome.2.stripe 0).cms.hash .sample other row ≠
                (outcome.2.stripe 0).cms.hash .sample key row) ∧
          NoCounterWraps .sample 0
            [("b", "1"), ("p", "2"), ("z", "3"), ("bh", "4")] outcome.2)) =
        some true := by
    decide +kernel
  rcases Option.bind_eq_some_iff.mp facts with ⟨fresh, made, facts⟩
  rcases Option.map_eq_some_iff.mp facts with
    ⟨⟨results, before⟩, reached, facts⟩
  obtain ⟨⟨decays, full, strong, budget⟩, unseen, alone, room⟩ :=
    of_decide_eq_true facts
  exact ⟨fresh, results, before, made, reached, decays,
    scan_resistance .sample (by decide) made _ reached 0 full 1 strong
      [("b", "1"), ("p", "2"), ("z", "3"), ("bh", "4")] budget (by decide)
      unseen alone room⟩

end StripeSystem

end Walde
