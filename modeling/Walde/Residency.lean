import Walde.SegmentBounds

namespace Walde

open Foundation

/-! # Which keys leave a stripe

Everything here is about what can be read off a stripe between two calls. -/

structure Reading where
  stored : Key → Option Value
  window : List Entry
  probation : List Entry
  protected_ : List Entry

/-- How the insertion of a new key ends for the other keys, with what it offers
to the demotion queue. The last entries are the least recently used. -/
inductive Reading.Inserted (mainCapacity : Nat) (estimate : Key → Nat)
    (before after : Reading) (key : Key) : List DemotionItem → Prop
  | roomy
      (kept : ∀ other, other ≠ key → after.stored other = before.stored other) :
      Inserted mainCapacity estimate before after key []
  | windowLoses (loser winner : Entry)
      (full : before.probation.length + before.protected_.length = mainCapacity)
      (windowLast : before.window.getLast? = some loser)
      (probationLast : before.probation.getLast? = some winner)
      (contest : estimate loser.1 ≤ estimate winner.1)
      (different : loser.1 ≠ key)
      (left : after.stored loser.1 = none)
      (kept : ∀ other, other ≠ key → other ≠ loser.1 →
        after.stored other = before.stored other) :
      Inserted mainCapacity estimate before after key []
  | probationLoses (loser winner : Entry)
      (full : before.probation.length + before.protected_.length = mainCapacity)
      (windowLast : before.window.getLast? = some winner)
      (probationLast : before.probation.getLast? = some loser)
      (contest : estimate loser.1 < estimate winner.1)
      (different : loser.1 ≠ key)
      (last : before.stored loser.1 = some loser.2)
      (left : after.stored loser.1 = none)
      (front : after.probation.head? = some winner)
      (kept : ∀ other, other ≠ key → other ≠ loser.1 →
        after.stored other = before.stored other) :
      Inserted mainCapacity estimate before after key
        [⟨loser.1, loser.2, estimate loser.1⟩]

/-- What a call does to what is stored. For a put, `estimate` is read after the
key was counted and the counters decayed, if they did. -/
inductive Reading.Called (mainCapacity available : Nat)
    (estimate : Key → Key → Nat) (before after : Reading) :
    CacheCall → CallResult → Prop
  | get (key : Key) (reply : CacheReply)
      (kept : after.stored = before.stored) :
      Called mainCapacity available estimate before after (.get key) (reply, [])
  | remove (key : Key) (reply : CacheReply)
      (removed : after.stored = Function.update before.stored key none) :
      Called mainCapacity available estimate before after (.remove key)
        (reply, [])
  | update (key : Key) (value : Value) (resident : before.stored key ≠ none)
      (updated : after.stored =
        Function.update before.stored key (some value)) :
      Called mainCapacity available estimate before after (.put key value)
        (.changed false, [])
  | insert (key : Key) (value : Value) (offered : List DemotionItem)
      (absent : before.stored key = none)
      (inserted : after.stored key = some value)
      (others : before.Inserted mainCapacity (estimate key) after key offered) :
      Called mainCapacity available estimate before after (.put key value)
        (.changed true, offered)
  | refuse (key : Key) (value : Value) (absent : before.stored key = none)
      (noSlot : available = 0) (kept : after.stored = before.stored) :
      Called mainCapacity available estimate before after (.put key value)
        (.changed false, [])

namespace Policy

def reading (policy : Policy) : Reading where
  stored := policy.find
  window := policy.window
  probation := policy.probation
  protected_ := policy.protected_

section Insert

variable {policy after : Policy} {key : Key} {value : Value}
  {lost : List Entry}

theorem Distinct.find_kept (distinct : policy.Distinct)
    (absent : key ∉ policy.keys)
    (perm : ((key, value) :: policy.entries).Perm (after.entries ++ lost))
    (other : Key) (kept : other ∉ lost.map (·.1)) :
    after.find other = if other = key then some value else policy.find other := by
  have before : (((key, value) :: policy.entries).map (·.1)).Nodup :=
    List.nodup_cons.mpr ⟨absent, distinct⟩
  have afterDistinct : after.Distinct := by
    rw [(perm.map _).nodup_iff, List.map_append] at before
    exact before.of_append_left
  have same : ∀ found, (other, found) ∈ after.entries ↔
      (other, found) ∈ (key, value) :: policy.entries := by
    intro found
    rw [perm.mem_iff, List.mem_append]
    refine ⟨.inl, fun member => member.resolve_right fun inLost => ?_⟩
    exact kept (List.mem_map_of_mem inLost)
  apply Option.ext
  intro found
  rw [afterDistinct.find_eq_some, same, List.mem_cons, Prod.mk.injEq]
  by_cases atKey : other = key
  · subst atKey
    have notBefore : (other, found) ∉ policy.entries := fun member =>
      absent (mem_keys.mpr ⟨found, member⟩)
    simp [notBefore, eq_comm]
  · simp [atKey, distinct.find_eq_some]

theorem Distinct.find_lost (distinct : policy.Distinct)
    (absent : key ∉ policy.keys)
    (perm : ((key, value) :: policy.entries).Perm (after.entries ++ lost))
    {loser : Entry} (inLost : loser ∈ lost) : after.find loser.1 = none := by
  have before : (((key, value) :: policy.entries).map (·.1)).Nodup :=
    List.nodup_cons.mpr ⟨absent, distinct⟩
  rw [(perm.map _).nodup_iff, List.map_append] at before
  rw [find_eq_none]
  intro resident
  exact List.disjoint_of_nodup_append before resident
    (List.mem_map_of_mem inLost)

theorem overflow_last {front : List Entry} {candidate : Entry}
    (positive : 0 < policy.window.length)
    (shape : (key, value) :: policy.window = front ++ [candidate]) :
    policy.window.getLast? = some candidate ∧ candidate ∈ policy.window := by
  have last : ((key, value) :: policy.window).getLast? = some candidate := by
    simp [shape]
  rw [List.getLast?_cons_of_ne_nil (List.ne_nil_of_length_pos positive)] at last
  exact ⟨last, List.mem_of_getLast? last⟩

theorem insert_inserted (xx : XxHash) (bounded : policy.Bounded)
    (distinct : policy.Distinct) (protectedFits : policy.ProtectedFits)
    (balanced : policy.config.Balanced)
    (windowed : 1 ≤ policy.config.windowCapacity)
    (attached : policy.queueAttached = true) (absent : key ∉ policy.keys)
    (value : Value) :
    (policy.insert xx key value).1.find key = some value ∧
      policy.reading.Inserted policy.config.mainCapacity (policy.frequency xx)
        (policy.insert xx key value).1.reading key
        (policy.insert xx key value).2 := by
  rcases insert_changes xx bounded key value with
    ⟨lost, perm, ⟨rfl, offered, -⟩ |
      ⟨front, candidate, overflow, shape, full, outcome⟩⟩
  · have kept : ∀ other, _ := fun other =>
      distinct.find_kept absent perm other (by simp)
    rw [offered]
    refine ⟨by simp [kept], .roomy fun other different => ?_⟩
    exact (kept other).trans (if_neg different)
  · rcases overflow_last (by omega) shape with ⟨windowLast, inWindow⟩
    have main : policy.probation.length + policy.protected_.length =
        policy.config.mainCapacity := Nat.le_antisymm bounded.main full
    have inKeys : ∀ entry : Entry, entry ∈ policy.entries → entry.1 ≠ key := by
      rintro entry member rfl
      exact absent (mem_keys.mpr ⟨entry.2, member⟩)
    rcases outcome with ⟨weak, rfl, offered⟩ |
      ⟨others, victim, probation, beats, rfl, moved, offered⟩
    · have different := inKeys candidate (mem_entries.mpr (.inl inWindow))
      have kept : ∀ other, other ≠ candidate.1 → _ := fun other notLost =>
        distinct.find_kept absent perm other (by simpa using notLost)
      rcases List.eq_nil_or_concat policy.probation with
        empty | ⟨others, victim, probation⟩
      · have someVictim := protectedFits.victim balanced full
        simp [empty] at someVictim
      · rw [List.concat_eq_append] at probation
        rw [offered]
        refine ⟨(kept key (Ne.symm different)).trans (if_pos rfl), ?_⟩
        refine .windowLoses candidate victim main windowLast ?_
          (weak others victim probation) different
          (distinct.find_lost absent perm (by simp)) ?_
        · simp [reading, probation]
        · intro other notKey notLost
          exact (kept other notLost).trans (if_neg notKey)
    · have resident : victim ∈ policy.entries :=
        mem_entries.mpr (.inr (.inl (by simp [probation])))
      have different := inKeys victim resident
      have kept : ∀ other, other ≠ victim.1 → _ := fun other notLost =>
        distinct.find_kept absent perm other (by simpa using notLost)
      rw [offered, offer, if_pos attached]
      refine ⟨(kept key (Ne.symm different)).trans (if_pos rfl), ?_⟩
      refine .probationLoses victim candidate main windowLast ?_ beats different
        (distinct.find_eq_some.mpr resident)
        (distinct.find_lost absent perm (by simp)) ?_ ?_
      · simp [reading, probation]
      · simp [reading, moved]
      · intro other notKey notLost
        exact (kept other notLost).trans (if_neg notKey)

theorem Distinct.find_overwrite (distinct : policy.Distinct) (value : Value)
    (resident : key ∈ policy.keys) :
    (policy.overwrite key value).find =
      Function.update policy.find key (some value) := by
  funext other
  apply Option.ext
  intro found
  rw [(distinct.overwrite key value).find_eq_some, mem_overwrite]
  by_cases same : other = key
  · subst same
    simp [resident, eq_comm]
  · simp [same, distinct.find_eq_some]

theorem Distinct.find_remove (distinct : policy.Distinct) (key : Key) :
    (policy.remove key).2.find = Function.update policy.find key none := by
  funext other
  apply Option.ext
  intro found
  rw [(distinct.remove key).find_eq_some, mem_remove]
  by_cases same : other = key
  · subst same
    simp
  · simp [same, distinct.find_eq_some]

theorem call_called (xx : XxHash) (bounded : policy.Bounded)
    (distinct : policy.Distinct) (protectedFits : policy.ProtectedFits)
    (balanced : policy.config.Balanced)
    (windowed : 1 ≤ policy.config.windowCapacity)
    (attached : policy.queueAttached = true) {slot : Bool} {available : Nat}
    (noSlot : slot = false → available = 0) (call : CacheCall) :
    policy.reading.Called policy.config.mainCapacity available
      (fun key => (policy.counted xx key).frequency xx)
      (policy.call xx slot call).2.reading call (policy.call xx slot call).1 := by
  cases call with
  | get key => exact .get key _ (distinct.find_perm (get_perm xx policy key))
  | remove key => exact .remove key _ (distinct.find_remove key)
  | put key value =>
      have counted : (policy.counted xx key).Distinct :=
        distinct.of_perm (by simp)
      have sameFind : (policy.counted xx key).find = policy.find :=
        distinct.find_perm (by simp)
      have sameReading : (policy.counted xx key).reading = policy.reading := by
        simp [reading, sameFind]
      have unfolded : policy.call xx slot (.put key value) =
          ((.changed (policy.put xx slot key value).1,
            (policy.put xx slot key value).2.2),
            (policy.put xx slot key value).2.1) := rfl
      rw [unfolded]
      rcases put_cases xx slot policy key value with
        ⟨place, found, equal⟩ | ⟨absent, -, equal⟩ | ⟨absent, full, equal⟩ <;>
        rw [equal]
      · have resident : key ∈ (policy.counted xx key).keys := by
          rw [← placeOf_isSome, found]
          rfl
        refine .update key value ?_ ?_
        · rw [counted_keys] at resident
          exact mt find_eq_none.mp (not_not_intro resident)
        · have moved := (counted.overwrite key value).find_perm
            (touch_perm ((policy.counted xx key).overwrite key value) key place)
          change Policy.find _ = Function.update policy.find key (some value)
          rw [moved, counted.find_overwrite value resident, sameFind]
      · have inserted := insert_inserted xx (bounded.counted xx key) counted
          (protectedFits.counted xx key) (by simpa using balanced)
          (by simpa using windowed) (by simpa using attached)
          (by simpa using absent) value
        rw [sameReading, counted_config] at inserted
        exact .insert key value _ (find_eq_none.mpr absent) inserted.1
          inserted.2
      · exact .refuse key value (find_eq_none.mpr absent) (noSlot full) sameFind

end Insert

end Policy

/-! ## Protected keys -/

structure Reading.Lawful (reading : Reading) : Prop where
  listed : ∀ entry ∈ reading.protected_,
    reading.stored entry.1 = some entry.2
  window : ∀ entry ∈ reading.protected_, entry.1 ∉ reading.window.map (·.1)
  probation : ∀ entry ∈ reading.protected_,
    entry.1 ∉ reading.probation.map (·.1)

theorem Policy.Distinct.lawful {policy : Policy} (distinct : policy.Distinct) :
    policy.reading.Lawful := by
  have parts := distinct
  rw [Policy.Distinct, Policy.keys, Policy.entries, List.append_assoc,
    List.map_append, List.map_append, List.nodup_append,
    List.nodup_append] at parts
  rcases parts with ⟨-, ⟨-, -, mainApart⟩, windowApart⟩
  refine ⟨fun entry member => ?_, fun entry member inWindow => ?_,
    fun entry member inProbation => ?_⟩
  · exact distinct.find_eq_some.mpr
      (Policy.mem_entries.mpr (.inr (.inr member)))
  · exact windowApart _ inWindow _
      (List.mem_append_right _ (List.mem_map_of_mem member)) rfl
  · exact mainApart _ inProbation _ (List.mem_map_of_mem member) rfl

theorem Reading.Called.protected_stays {mainCapacity available : Nat}
    {estimate : Key → Key → Nat} {before after : Reading} {call : CacheCall}
    {result : CallResult} (lawful : before.Lawful)
    (called : before.Called mainCapacity available estimate after call result)
    {entry : Entry} (member : entry ∈ before.protected_)
    (notRemoved : call ≠ .remove entry.1) : after.stored entry.1 ≠ none := by
  have stored : before.stored entry.1 ≠ none := by
    rw [lawful.listed entry member]
    simp
  cases called with
  | get key reply kept => rwa [kept]
  | remove key reply removed =>
      have different : entry.1 ≠ key := by
        rintro rfl
        exact notRemoved rfl
      rwa [removed, Function.update_of_ne different]
  | update key value resident updated =>
      rw [updated]
      by_cases same : entry.1 = key
      · rw [same, Function.update_self]
        simp
      · rwa [Function.update_of_ne same]
  | refuse key value absent noSlot kept => rwa [kept]
  | insert key value offered absent inserted others =>
      have different : entry.1 ≠ key := by
        rintro rfl
        exact stored absent
      cases others with
      | roomy kept => rwa [kept _ different]
      | windowLoses loser winner full windowLast probationLast contest
          notKey left kept =>
          have survives : entry.1 ≠ loser.1 := by
            intro same
            apply lawful.window entry member
            rw [same]
            exact List.mem_map_of_mem (List.mem_of_getLast? windowLast)
          rwa [kept _ different survives]
      | probationLoses loser winner full windowLast probationLast contest
          notKey last left front kept =>
          have survives : entry.1 ≠ loser.1 := by
            intro same
            apply lawful.probation entry member
            rw [same]
            exact List.mem_map_of_mem (List.mem_of_getLast? probationLast)
          rwa [kept _ different survives]

/-! ## Reachable stripes -/

/-- The sketch in which a put of a key looks up the frequencies. -/
def CacheStripe.countedCms (xx : XxHash) (stripe : CacheStripe) (key : Key) :
    CountMinSketch :=
  ({ stripe with cms := stripe.cms.increment xx key } :
    CacheStripe).maybeDecayCms.cms

namespace StripeSystem

variable {count capacity : Nat} {system : StripeSystem count}
  {views : Fin count → SlabView} {lists : Fin count → Place → List Nat}
  {policies : Fin count → Policy}

def stored (system : StripeSystem count) (i : Fin count) (key : Key) :
    Option Value :=
  ((system.stripe i).indexMap.lookup key).map fun index =>
    (system.slab.pool index).value

def reading (system : StripeSystem count) (i : Fin count) : Reading where
  stored := system.stored i
  window := system.entriesAt i .window
  probation := system.entriesAt i .probation
  protected_ := system.entriesAt i .protected_

theorem Shows.reading (shows' : system.Shows capacity views lists policies)
    (i : Fin count) : system.reading i = (policies i).reading := by
  rw [StripeSystem.reading, Policy.reading, shows'.entriesAt,
    shows'.entriesAt, shows'.entriesAt]
  congr 1
  funext key
  exact shows'.find i key

theorem Shows.estimate (shows' : system.Shows capacity views lists policies)
    (xx : XxHash) (i : Fin count) (key other : Key) :
    ((system.stripe i).countedCms xx key).estimate xx other =
      ((policies i).counted xx key).frequency xx other :=
  ((shows'.sim i).count xx key).tick.shows'.frequency xx other

/-- Every call stores, overwrites and removes what it is asked to. The only
other key that can leave is the loser of a contest between the last of the
window and the last of probation, for a new key while main is full; the loser
is offered to the demotion queue if it was in probation. -/
theorem only_losers_leave (xx : XxHash) {slabCapacity : Nat}
    (fits : slabCapacity < uint32Size) {settings : Fin count → StripeSettings}
    {i : Fin count} (word : (settings i).capacity < uint32Size)
    (windowed : 1 ≤ (settings i).config.windowCapacity)
    (probation_lt : (settings i).config.probationCapacity <
      (settings i).config.mainCapacity)
    (attached : (settings i).demotionQueue = true)
    (reachable : Reachable xx slabCapacity settings system)
    (call : CacheCall) :
    ∃ result system',
      system.call xx SlabAllocator.allocator i call = some (result, system') ∧
      (system.reading i).Called (settings i).config.mainCapacity
        system.slab.available
        (fun key => ((system.stripe i).countedCms xx key).estimate xx)
        (system'.reading i) call result ∧
      ∀ entry ∈ (system.reading i).protected_, call ≠ .remove entry.1 →
        (system'.reading i).stored entry.1 ≠ none := by
  have balanced : (settings i).config.Balanced := .new word probation_lt
  rcases reachable.protectedFits fits balanced.protected_pos with
    ⟨policies, follows, ⟨config, queue⟩, protectedFits⟩
  rcases follows.call SlabAllocator.lawful xx i call with
    ⟨slot, system', found, called, follows'⟩
  rcases follows with ⟨views, lists, shows'⟩
  rcases follows' with ⟨views', lists', after⟩
  have noSlot : slot = false → system.slab.available = 0 := by
    rintro rfl
    have total := shows'.available_add
    simp only [shows'.size_eq] at total
    have full : ¬∑ j, (policies j).size < slabCapacity := fun room =>
      absurd (found room) (by simp)
    omega
  have step := Policy.call_called xx (shows'.bounded i) (shows'.distinct i)
    protectedFits (by rwa [config]) (by rwa [config]) (queue.trans attached)
    noSlot call
  have reading' := after.reading i
  rw [Function.update_self] at reading'
  rw [← shows'.reading i, ← reading', config] at step
  have estimates : (fun key => ((policies i).counted xx key).frequency xx) =
      fun key => ((system.stripe i).countedCms xx key).estimate xx := by
    funext key other
    exact (shows'.estimate xx i key other).symm
  rw [estimates] at step
  refine ⟨_, system', called, step, fun entry member notRemoved => ?_⟩
  have lawful := (shows'.distinct i).lawful
  rw [← shows'.reading i] at lawful
  exact step.protected_stays lawful member notRemoved

/-- A window of one slot in front of three. The key in the window was put twice,
and wins against the last one of probation. -/
theorem only_losers_leave_sample :
    let settings : StripeSettings := { StripeSettings.sample with capacity := 4 }
    ∃ start results, ∃ system : StripeSystem 1,
      StripeSystem.new 8 (fun _ => settings) = some start ∧
      start.run .sample SlabAllocator.allocator [(0, .put "k" "1"),
        (0, .put "w" "1"), (0, .put "x" "1"), (0, .get "w"), (0, .put "b" "1"),
        (0, .put "b" "2")] = some (results, system) ∧
      ∃ result system',
        system.call .sample SlabAllocator.allocator 0 (.put "bu" "1") =
          some (result, system') ∧
        (system.reading 0).Called settings.config.mainCapacity
          system.slab.available
          (fun key => ((system.stripe 0).countedCms .sample key).estimate
            .sample)
          (system'.reading 0) (.put "bu" "1") result ∧
        (∀ entry ∈ (system.reading 0).protected_,
          CacheCall.put "bu" "1" ≠ .remove entry.1 →
          (system'.reading 0).stored entry.1 ≠ none) ∧
        result = (.changed true, [⟨"k", "1", 1⟩]) := by
  intro settings
  have runs : ((StripeSystem.new 8 fun _ : Fin 1 => settings).bind fun start =>
      (start.run .sample SlabAllocator.allocator [(0, .put "k" "1"),
        (0, .put "w" "1"), (0, .put "x" "1"), (0, .get "w"), (0, .put "b" "1"),
        (0, .put "b" "2")]).bind fun outcome =>
        (outcome.2.call .sample SlabAllocator.allocator 0 (.put "bu" "1")).map
          Prod.fst) = some (.changed true, [⟨"k", "1", 1⟩]) := by
    decide +kernel
  rcases Option.bind_eq_some_iff.mp runs with ⟨start, made, runs⟩
  rcases Option.bind_eq_some_iff.mp runs with ⟨⟨results, system⟩, ran, runs⟩
  rcases Option.map_eq_some_iff.mp runs with ⟨⟨result, system'⟩, called, same⟩
  have reachable : Reachable .sample 8 (fun _ => settings) system :=
    ⟨start, _, results, made, ran⟩
  rcases only_losers_leave .sample (i := 0) (by decide) (by decide) (by decide)
      (by decide) rfl reachable (.put "bu" "1") with
    ⟨result', system'', called', told, stays⟩
  cases called.symm.trans called'
  exact ⟨start, results, system, made, ran, result, system', called, told,
    stays, same⟩

end StripeSystem

end Walde
