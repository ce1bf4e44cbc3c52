import Walde.StripeInvariant
import Walde.StripeSketch

namespace Walde

open Foundation

/-! # The bounds of the segments

Probation has no limit of its own. What keeps it from being empty while main is
full is the limit on protected. -/

structure StripeConfig.Balanced (config : StripeConfig) : Prop where
  probation_pos : 1 ≤ config.probationCapacity
  main_eq : config.protectedCapacity + config.probationCapacity =
    config.mainCapacity
  protected_pos : 1 ≤ config.protectedCapacity

theorem StripeConfig.Balanced.new {capacity : Nat}
    (fits : capacity < uint32Size) {windowPct probationPct : Percentage}
    (smaller : (StripeConfig.new capacity windowPct probationPct).probationCapacity <
      (StripeConfig.new capacity windowPct probationPct).mainCapacity) :
    (StripeConfig.new capacity windowPct probationPct).Balanced := by
  have split := (StripeConfig.new capacity windowPct probationPct).split
  have total : (StripeConfig.new capacity windowPct probationPct).totalCapacity =
      capacity := rfl
  have positive : 1 ≤
      (StripeConfig.new capacity windowPct probationPct).probationCapacity :=
    Nat.le_max_left _ _
  have room : (StripeConfig.new capacity windowPct probationPct).protectedCapacity =
      ((StripeConfig.new capacity windowPct probationPct).mainCapacity + uint32Size -
        (StripeConfig.new capacity windowPct probationPct).probationCapacity) %
          uint32Size := rfl
  generalize StripeConfig.new capacity windowPct probationPct = config at *
  have below : config.mainCapacity - config.probationCapacity < uint32Size := by
    omega
  have wrapped : config.protectedCapacity =
      config.mainCapacity - config.probationCapacity := by
    rw [room, Nat.add_comm, Nat.add_sub_assoc (Nat.le_of_lt smaller),
      Nat.add_mod_left, Nat.mod_eq_of_lt below]
  exact ⟨positive, by omega, by omega⟩

namespace Policy

/-! ## The limit on protected -/

def ProtectedFits (policy : Policy) : Prop :=
  policy.protected_.length ≤ policy.config.protectedCapacity

theorem named_length_le {key : Key} {entries : List Entry}
    (nodup : (entries.map (·.1)).Nodup) : (named key entries).length ≤ 1 := by
  induction entries with
  | nil => exact Nat.zero_le _
  | cons head tail induction =>
      rw [List.map_cons, List.nodup_cons] at nodup
      by_cases same : head.1 = key
      · subst same
        have nobody : named head.1 tail = [] := by
          rw [named, List.filter_eq_nil_iff]
          intro entry member equal
          have equal : entry.1 = head.1 := by simpa using equal
          exact nodup.1 (equal ▸ List.mem_map_of_mem member)
        have first : named head.1 (head :: tail) =
            head :: named head.1 tail := by
          simp [named]
        rw [first, nobody, List.length_singleton]
      · have others : named key (head :: tail) = named key tail := by
          simp [named, same]
        rw [others]
        exact induction nodup.2

section Limit

variable {policy : Policy}

theorem Distinct.probation (distinct : policy.Distinct) :
    (policy.probation.map (·.1)).Nodup := by
  refine distinct.sublist (List.Sublist.map _ ?_)
  exact (List.sublist_append_right _ _).trans (List.sublist_append_left _ _)

theorem makeRoom_protected (fits : policy.ProtectedFits)
    (positive : 1 ≤ policy.config.protectedCapacity) :
    policy.makeRoom.protected_.length + 1 ≤
      policy.config.protectedCapacity := by
  unfold ProtectedFits at fits
  unfold makeRoom
  by_cases full : policy.config.protectedCapacity ≤ policy.protected_.length
  · rw [if_pos full]
    rcases List.eq_nil_or_concat policy.protected_ with
      empty | ⟨front, last, shape⟩
    · rw [empty] at full
      simp only [List.length_nil] at full
      omega
    · rw [List.concat_eq_append] at shape
      rw [shape] at fits ⊢
      simpa using fits
  · rw [if_neg full]
    omega

theorem ProtectedFits.touch (fits : policy.ProtectedFits)
    (distinct : policy.Distinct)
    (positive : 1 ≤ policy.config.protectedCapacity) (key : Key)
    (place : Place) : (policy.touch key place).ProtectedFits := by
  unfold ProtectedFits
  rw [touch_config]
  cases place with
  | window => exact fits
  | probation =>
      have promoted : (named key policy.probation).length ≤ 1 :=
        named_length_le distinct.probation
      have left : ({ policy with
          probation := without key policy.probation } : Policy).ProtectedFits :=
        fits
      have room := makeRoom_protected left positive
      have config : ({ policy with
          probation := without key policy.probation } : Policy).config =
            policy.config := rfl
      rw [config] at room
      change (named key policy.probation ++ _).length ≤ _
      rw [List.length_append]
      omega
  | protected_ =>
      rw [Policy.touch, (moveToFront_perm key policy.protected_).length_eq]
      exact fits

theorem ProtectedFits.counted (fits : policy.ProtectedFits) (xx : XxHash)
    (key : Key) : (policy.counted xx key).ProtectedFits := by
  unfold ProtectedFits
  rw [counted_protected, counted_config]
  exact fits

theorem insert_protected (xx : XxHash) (bounded : policy.Bounded) (key : Key)
    (value : Value) :
    (policy.insert xx key value).1.protected_ = policy.protected_ := by
  rcases insert_frame xx bounded key value with
    ⟨window, probation, stats, equal⟩
  rw [equal]

theorem ProtectedFits.put (fits : policy.ProtectedFits)
    (bounded : policy.Bounded) (distinct : policy.Distinct)
    (positive : 1 ≤ policy.config.protectedCapacity) (xx : XxHash)
    (slot : Bool) (key : Key) (value : Value) :
    (policy.put xx slot key value).2.1.ProtectedFits := by
  have counted := fits.counted xx key
  rcases put_cases xx slot policy key value with
    ⟨place, -, equal⟩ | ⟨-, -, equal⟩ | ⟨-, -, equal⟩ <;> rw [equal]
  · have distinctCounted : (policy.counted xx key).Distinct :=
      distinct.of_perm (by simp)
    refine ProtectedFits.touch ?_ (distinctCounted.overwrite key value)
      (by simpa [overwrite] using positive) key place
    simpa [ProtectedFits, overwrite, assign] using counted
  · unfold ProtectedFits
    rw [insert_protected xx (bounded.counted xx key),
      insert_config xx (bounded.counted xx key)]
    exact counted
  · exact counted

theorem ProtectedFits.call (fits : policy.ProtectedFits)
    (bounded : policy.Bounded) (distinct : policy.Distinct)
    (positive : 1 ≤ policy.config.protectedCapacity) (xx : XxHash)
    (slot : Bool) (call : CacheCall) :
    (policy.call xx slot call).2.ProtectedFits := by
  cases call with
  | get key =>
      change (policy.get xx key).2.ProtectedFits
      unfold Policy.get
      split
      · exact fits
      · have counted : (policy.count xx key).Distinct :=
          distinct.of_perm (.refl _)
        have countFits : (policy.count xx key).ProtectedFits := fits
        exact countFits.touch counted positive key _
  | put key value =>
      exact fits.put bounded distinct positive xx slot key value
  | remove key =>
      exact (List.length_filter_le _ policy.protected_).trans fits

theorem call_queueAttached (bounded : policy.Bounded) (xx : XxHash)
    (slot : Bool) (call : CacheCall) :
    (policy.call xx slot call).2.queueAttached = policy.queueAttached := by
  cases call with
  | get key => exact (get_keeps xx policy key).2
  | put key value => exact put_queueAttached xx bounded slot key value
  | remove key => rfl

structure Configured (policy : Policy) (settings : StripeSettings) : Prop where
  config : policy.config = settings.config
  queue : policy.queueAttached = settings.demotionQueue

theorem Configured.call {settings : StripeSettings}
    (configured : policy.Configured settings)
    (bounded : policy.Bounded) (xx : XxHash) (slot : Bool)
    (call : CacheCall) : (policy.call xx slot call).2.Configured settings :=
  ⟨(call_config xx bounded slot call).trans configured.config,
    (call_queueAttached bounded xx slot call).trans configured.queue⟩

theorem ProtectedFits.victim (fits : policy.ProtectedFits)
    (balanced : policy.config.Balanced)
    (full : policy.config.mainCapacity ≤
      policy.probation.length + policy.protected_.length) :
    0 < policy.probation.length := by
  have main := balanced.main_eq
  have positive := balanced.probation_pos
  unfold ProtectedFits at fits
  omega

end Limit

end Policy

/-! ## A put without its guards

The straight-line put: it takes at most one candidate out of the window, and it
has no answer for a candidate that meets a full main without a victim. -/

namespace CacheStripe

open SlabProgram

def admitOnce (xx : XxHash) (stripe : CacheStripe) : SlabProgram CacheStripe := do
  let (candidateIdx, windowLru) ← stripe.windowLru.popBack
  assert (candidateIdx ≠ kInvalidIndex)
  let stripe := { stripe with windowLru }
  let mainSize := stripe.probationLru.size + stripe.protectedLru.size
  if mainSize < stripe.config.mainCapacity then
    stripe.admitCandidate candidateIdx
  else do
    assert (stripe.probationLru.empty = false)
    stripe.contest xx candidateIdx

def insertOnce (xx : XxHash) (stripe : CacheStripe) (idx : Nat) :
    SlabProgram CacheStripe := do
  let windowLru ← stripe.windowLru.pushFront idx
  let stripe := { stripe with windowLru }
  if stripe.config.windowCapacity < windowLru.size then do
    let stripe ← stripe.admitOnce xx
    assert (stripe.windowLru.size ≤ stripe.config.windowCapacity)
    return stripe
  else
    return stripe

def insertNewOnce (xx : XxHash) (stripe : CacheStripe) (key : Key)
    (value : Value) : SlabProgram (Bool × CacheStripe) := do
  let idx ← allocate
  if idx = kInvalidIndex then
    return (false, stripe)
  else
    modifyNode idx fun node =>
      { node with key := key, value := value, segment := .window }
    let stripe := { stripe with indexMap := stripe.indexMap.insert key idx }
    let stripe ← stripe.insertOnce xx idx
    return (true, stripe)

def putOnce (xx : XxHash) (stripe : CacheStripe) (key : Key) (value : Value) :
    SlabProgram (Bool × CacheStripe) :=
  let stripe := { stripe with cms := stripe.cms.increment xx key }
  let stripe := stripe.maybeDecayCms
  match stripe.indexMap.lookup key with
  | some idx => do
      modifyNode idx fun node => { node with value := value }
      let stripe ← stripe.promoteWithinSegment idx
      return (false, stripe)
  | none => stripe.insertNewOnce xx key value

structure Guarded (stripe : CacheStripe) : Prop where
  window : stripe.windowLru.size ≤ stripe.config.windowCapacity
  ends : stripe.windowLru.head ≠ kInvalidIndex →
    stripe.windowLru.tail ≠ kInvalidIndex
  victim : stripe.config.mainCapacity ≤
    stripe.probationLru.size + stripe.protectedLru.size →
      stripe.probationLru.empty = false

section Guarded

variable {stripe : CacheStripe}

theorem always_assert {α : Type} {condition : Prop} [Decidable condition]
    {next : Unit → SlabProgram α} {post : α → Prop} :
    (assert condition >>= next).Always post ↔
      (condition → (next ()).Always post) := by
  unfold assert
  split
  · rename_i holds
    exact ⟨fun always _ => always, fun always => always holds⟩
  · rename_i fails
    exact ⟨fun _ holds => absurd holds fails,
      fun _ impossible => impossible.elim⟩

theorem pushFront_always (lru : IntrusiveLru) (idx : Nat)
    (ends : lru.head ≠ kInvalidIndex → lru.tail ≠ kInvalidIndex) :
    (lru.pushFront idx).Always fun pushed =>
      pushed.size = lru.size + 1 ∧ pushed.tail ≠ kInvalidIndex := by
  rw [IntrusiveLru.pushFront, always_assert]
  intro valid
  rw [Program.always_bind]
  apply Program.Always.of_forall
  intro _
  split
  · rename_i occupied
    rw [Program.always_bind]
    apply Program.Always.of_forall
    intro _
    exact ⟨rfl, ends occupied⟩
  · exact ⟨rfl, valid⟩

theorem unlinkBefore_always (lru : IntrusiveLru) (idx : Nat) :
    (lru.unlinkBefore idx).Always fun after => after.size = lru.size := by
  rw [IntrusiveLru.unlinkBefore, Program.always_bind]
  apply Program.Always.of_forall
  intro node
  split
  · rw [Program.always_bind]
    apply Program.Always.of_forall
    intro _
    exact rfl
  · exact rfl

theorem unlinkAfter_always (lru : IntrusiveLru) (idx : Nat) :
    (lru.unlinkAfter idx).Always fun after => after.size = lru.size := by
  rw [IntrusiveLru.unlinkAfter, Program.always_bind]
  apply Program.Always.of_forall
  intro node
  split
  · rw [Program.always_bind]
    apply Program.Always.of_forall
    intro _
    exact rfl
  · exact rfl

theorem remove_always (lru : IntrusiveLru) (idx : Nat) :
    (lru.remove idx).Always fun after => after.size = lru.size - 1 := by
  rw [IntrusiveLru.remove, always_assert]
  intro _
  rw [always_assert]
  intro _
  rw [Program.always_bind]
  refine (unlinkBefore_always lru idx).mono fun before sizeBefore => ?_
  rw [Program.always_bind]
  refine (unlinkAfter_always before idx).mono fun after sizeAfter => ?_
  rw [Program.always_bind]
  apply Program.Always.of_forall
  intro _
  change after.size - 1 = lru.size - 1
  rw [sizeAfter, sizeBefore]

theorem popBack_always (lru : IntrusiveLru) (occupied : lru.tail ≠ kInvalidIndex) :
    lru.popBack.Always fun popped =>
      popped.1 ≠ kInvalidIndex ∧ popped.2.size = lru.size - 1 := by
  rw [IntrusiveLru.popBack, if_neg occupied, Program.always_bind]
  exact (remove_always lru lru.tail).mono fun after size => ⟨occupied, size⟩

theorem tryAdmitFromWindow_windowSize (xx : XxHash) (stripe : CacheStripe)
    (occupied : stripe.windowLru.tail ≠ kInvalidIndex) :
    (stripe.tryAdmitFromWindow xx).Always fun after =>
      after.windowSize = (stripe.config, stripe.windowLru.size - 1) := by
  rw [tryAdmitFromWindow, Program.always_bind]
  refine (popBack_always stripe.windowLru occupied).mono ?_
  rintro ⟨candidateIdx, windowLru⟩ ⟨valid, size⟩
  have popped : ({ stripe with windowLru } : CacheStripe).windowSize =
      (stripe.config, stripe.windowLru.size - 1) :=
    congrArg (Prod.mk stripe.config) size
  simp only [if_neg valid]
  rw [← popped]
  split
  · exact (admitCandidate_keeps _ candidateIdx).mono fun _ kept => kept.2
  · split
    · exact (rejectCandidate_keeps _ candidateIdx).mono fun _ kept => kept.2
    · exact (contest_keeps xx _ candidateIdx).mono fun _ kept => kept.2

theorem assert_bind {α : Type} {condition : Prop} [Decidable condition]
    (holds : condition) (next : Unit → SlabProgram α) :
    (assert condition >>= next) = next () := by
  rw [assert, if_pos holds]
  rfl

theorem tryAdmitFromWindow_eq (xx : XxHash) (stripe : CacheStripe)
    (occupied : stripe.windowLru.tail ≠ kInvalidIndex)
    (victim : stripe.config.mainCapacity ≤
      stripe.probationLru.size + stripe.protectedLru.size →
        stripe.probationLru.empty = false) :
    stripe.tryAdmitFromWindow xx = stripe.admitOnce xx := by
  rw [tryAdmitFromWindow, admitOnce]
  refine (popBack_always stripe.windowLru occupied).bind_congr ?_
  rintro ⟨candidateIdx, windowLru⟩ ⟨valid, -⟩
  dsimp only
  rw [if_neg valid, assert_bind valid]
  split
  · rfl
  · rename_i full
    have someVictim := victim (Nat.le_of_not_lt full)
    rw [if_neg (by simp [someVictim]), assert_bind someVictim]

theorem Guarded.insertIntoWindow_eq (guarded : stripe.Guarded) (xx : XxHash)
    (idx : Nat) : stripe.insertIntoWindow xx idx = stripe.insertOnce xx idx := by
  rw [insertIntoWindow, insertOnce]
  refine (pushFront_always stripe.windowLru idx guarded.ends).bind_congr ?_
  rintro windowLru ⟨size, occupied⟩
  dsimp only
  rw [size, shrinkWindow]
  dsimp only
  rw [size]
  split
  · have sameRound := tryAdmitFromWindow_eq xx { stripe with windowLru }
      occupied guarded.victim
    have once := tryAdmitFromWindow_windowSize xx { stripe with windowLru }
      occupied
    rw [sameRound] at once ⊢
    refine once.bind_congr fun after windowSize => ?_
    have config : after.config = stripe.config := congrArg Prod.fst windowSize
    have left : after.windowLru.size = windowLru.size - 1 :=
      congrArg Prod.snd windowSize
    have small : after.windowLru.size ≤ after.config.windowCapacity := by
      have window := guarded.window
      rw [config]
      omega
    -- the next check of the loop ends it
    rw [assert_bind small]
    cases stripe.windowLru.size <;>
      rw [shrinkWindow, if_neg (Nat.not_lt_of_le small)]
  · rfl

theorem Guarded.insertNew_eq (guarded : stripe.Guarded) (xx : XxHash)
    (key : Key) (value : Value) :
    stripe.insertNew xx key value = stripe.insertNewOnce xx key value := by
  have keyed : ∀ idx, ({ stripe with
      indexMap := stripe.indexMap.insert key idx } : CacheStripe).Guarded :=
    fun idx => ⟨guarded.window, guarded.ends, guarded.victim⟩
  rw [insertNew, insertNewOnce]
  simp only [(keyed _).insertIntoWindow_eq]

theorem Guarded.counted (guarded : stripe.Guarded) (xx : XxHash) (key : Key) :
    ({ stripe with cms := stripe.cms.increment xx key } :
      CacheStripe).maybeDecayCms.Guarded := by
  unfold maybeDecayCms
  split <;> exact ⟨guarded.window, guarded.ends, guarded.victim⟩

theorem Guarded.put_eq (guarded : stripe.Guarded) (xx : XxHash) (key : Key)
    (value : Value) : stripe.put xx key value = stripe.putOnce xx key value := by
  have sameInsert := (guarded.counted xx key).insertNew_eq xx key value
  cases found : ({ stripe with cms := stripe.cms.increment xx key } :
      CacheStripe).maybeDecayCms.indexMap.lookup key with
  | none => simp only [put, putOnce, found, sameInsert]
  | some idx => simp only [put, putOnce, found]

end Guarded

end CacheStripe

/-! ## Reachable stripes -/

namespace StripeSystem

variable {count capacity : Nat} {system : StripeSystem count}
  {views : Fin count → SlabView} {lists : Fin count → Place → List Nat}
  {policies : Fin count → Policy}

theorem Shows.guarded (shows' : system.Shows capacity views lists policies)
    (i : Fin count) (fits : (policies i).ProtectedFits)
    (balanced : (policies i).config.Balanced) :
    (system.stripe i).Guarded := by
  have size := (shows'.sim i).size_eq
  have config := (shows'.sim i).shows'.config
  have holds := shows'.holds i
  have window : (system.stripe i).windowLru.size = _ := size .window
  have probation : (system.stripe i).probationLru.size = _ := size .probation
  have protected_ : (system.stripe i).protectedLru.size = _ := size .protected_
  refine ⟨?_, ?_, ?_⟩
  · rw [window, ← config]
    exact (shows'.bounded i).window
  · intro occupied empty
    have nobody := (holds .window).tail_invalid_iff.mp empty
    apply occupied
    simpa [IntrusiveLru.nextLink, CacheStripe.lru] using
      (holds .window).ring.next_sentinel_eq_iff.mpr nobody
  · rw [probation, protected_, ← config]
    intro full
    have victim := fits.victim balanced full
    rw [IntrusiveLru.empty, probation]
    exact beq_false_of_ne (Nat.ne_of_gt victim)

theorem Reachable.protectedFits {xx : XxHash}
    (fits : capacity < uint32Size) {settings : Fin count → StripeSettings}
    {i : Fin count} (positive : 1 ≤ (settings i).config.protectedCapacity)
    (reachable : Reachable xx capacity settings system) :
    ∃ policies, system.Follows capacity policies ∧
      (policies i).Configured (settings i) ∧ (policies i).ProtectedFits := by
  refine reachable.keeps fits (fun policy =>
    policy.Configured (settings i) ∧ policy.ProtectedFits)
    ⟨⟨rfl, rfl⟩, Nat.zero_le _⟩ ?_
  rintro policy slot call bounded distinct ⟨configured, protectedFits⟩
  refine ⟨configured.call bounded xx slot call, ?_⟩
  have room : 0 < policy.config.protectedCapacity := by
    rw [configured.config]
    exact positive
  exact protectedFits.call bounded distinct room xx slot call

/-- After any run the segments are within their capacities and a full main has
a victim. (Probation always gets a slot.) The next put never faults, and it does
what the put without guards does, where a second round of the overflow loop and
a candidate without a victim are faults. -/
theorem segments_bounded (xx : XxHash) {slabCapacity : Nat}
    (fits : slabCapacity < uint32Size) {settings : Fin count → StripeSettings}
    {i : Fin count} (word : (settings i).capacity < uint32Size)
    (probation_lt : (settings i).config.probationCapacity <
      (settings i).config.mainCapacity)
    (reachable : Reachable xx slabCapacity settings system) :
    let stripe := system.stripe i
    let config := (settings i).config
    stripe.windowLru.size ≤ config.windowCapacity ∧
    stripe.probationLru.size + stripe.protectedLru.size ≤
      config.mainCapacity ∧
    stripe.protectedLru.size ≤ config.protectedCapacity ∧
    stripe.size ≤ (settings i).capacity ∧
    (stripe.probationLru.size + stripe.protectedLru.size =
      config.mainCapacity → 0 < stripe.probationLru.size) ∧
    ∀ key value, stripe.put xx key value = stripe.putOnce xx key value ∧
      (system.perform SlabAllocator.allocator i
        (stripe.putOnce xx key value)).isSome := by
  have balanced : (settings i).config.Balanced := .new word probation_lt
  rcases reachable.protectedFits fits balanced.protected_pos with
    ⟨policies, follows, ⟨config, -⟩, protectedFits⟩
  have follows' := follows
  rcases follows with ⟨views, lists, shows'⟩
  rw [← config] at balanced
  have guarded := shows'.guarded i protectedFits balanced
  have size := (shows'.sim i).size_eq
  have window : (system.stripe i).windowLru.size = _ := size .window
  have probation : (system.stripe i).probationLru.size = _ := size .probation
  have protected_ : (system.stripe i).protectedLru.size = _ := size .protected_
  have bounded := shows'.bounded i
  have total : (settings i).config.totalCapacity = (settings i).capacity := rfl
  dsimp only
  rw [window, probation, protected_, shows'.size_eq i, ← total, ← config]
  refine ⟨bounded.window, bounded.main, protectedFits, bounded.size_le, ?_, ?_⟩
  · intro full
    exact protectedFits.victim balanced (Nat.le_of_eq full.symm)
  · intro key value
    have same := guarded.put_eq xx key value
    refine ⟨same, ?_⟩
    rcases follows'.call SlabAllocator.lawful xx i (.put key value) with
      ⟨slot, system', -, called, -⟩
    -- the call is the put with its reply wrapped
    rw [← same]
    rw [StripeSystem.call, perform, CacheStripe.call, Program.run_bind] at called
    rw [perform, Option.isSome_map]
    cases ran : ((system.stripe i).put xx key value).run
        SlabAllocator.allocator.handler (system.slab, []) with
    | none => simp [ran] at called
    | some outcome => rfl

/-- A stripe of three slots, all of them in main. -/
theorem segments_bounded_sample :
    ∃ start results, ∃ system : StripeSystem 1,
      StripeSystem.new 4 (fun _ => .sample) = some start ∧
      start.run .sample SlabAllocator.allocator [(0, .put "k" "1"),
        (0, .put "w" "1"), (0, .get "k"), (0, .put "x" "1"),
        (0, .put "bu" "1")] = some (results, system) ∧
      let stripe := system.stripe 0
      let config := StripeSettings.sample.config
      stripe.windowLru.size ≤ config.windowCapacity ∧
      stripe.probationLru.size + stripe.protectedLru.size ≤
        config.mainCapacity ∧
      stripe.protectedLru.size ≤ config.protectedCapacity ∧
      stripe.size ≤ StripeSettings.sample.capacity ∧
      (stripe.probationLru.size + stripe.protectedLru.size =
        config.mainCapacity → 0 < stripe.probationLru.size) ∧
      ∀ key value,
        stripe.put .sample key value = stripe.putOnce .sample key value ∧
        (system.perform SlabAllocator.allocator 0
          (stripe.putOnce .sample key value)).isSome := by
  rcases exists_run .sample (by decide : 0 < 4) (by decide)
      (fun _ : Fin 1 => (by decide : 3 ≤ StripeSettings.sample.capacity)) _ with
    ⟨start, results, system, made, ran⟩
  have reachable : Reachable .sample 4 (fun _ => .sample) system :=
    ⟨start, _, results, made, ran⟩
  exact ⟨start, results, system, made, ran,
    segments_bounded .sample (i := 0) (by decide) (by decide) (by decide)
      reachable⟩

end StripeSystem

end Walde
