import Walde.Residency

namespace Walde

open Foundation

/-! # Reading back what was put

A new key enters the window first. A stripe whose window has no slot passes it
on to the contest at once. -/

/-- The next put of the key has a place for it. -/
def Reading.Lasting (config : StripeConfig) (estimate : Key → Nat)
    (before : Reading) (key : Key) : Prop :=
  1 ≤ config.windowCapacity ∨ before.stored key ≠ none ∨
    before.probation.length + before.protected_.length < config.mainCapacity ∨
    ∃ last, before.probation.getLast? = some last ∧
      estimate last.1 < estimate key

namespace Policy

variable {policy : Policy} {key : Key}

theorem insert_find_iff (xx : XxHash) (bounded : policy.Bounded)
    (distinct : policy.Distinct) (absent : key ∉ policy.keys) (value : Value) :
    (policy.insert xx key value).1.find key = some value ↔
      policy.reading.Lasting policy.config (policy.frequency xx) key := by
  have unstored : policy.find key = none := find_eq_none.mpr absent
  rcases insert_changes xx bounded key value with
    ⟨lost, perm, ⟨rfl, -, room⟩ |
      ⟨front, candidate, overflow, shape, full, outcome⟩⟩
  · refine iff_of_true ?_ ?_
    · rw [distinct.find_kept absent perm key (by simp), if_pos rfl]
    · rcases room with room | room
      · exact .inl (by omega)
      · exact .inr (.inr (.inl room))
  · have inWindow : 1 ≤ policy.config.windowCapacity →
        candidate ∈ policy.window :=
      fun windowed => (overflow_last (by omega) shape).2
    have fromEntries : ∀ entry ∈ policy.entries, key ≠ entry.1 := by
      rintro entry member rfl
      exact absent (mem_keys.mpr ⟨entry.2, member⟩)
    -- without a window the new entry is the candidate
    have ownCandidate : policy.config.windowCapacity = 0 →
        candidate = (key, value) := by
      intro noWindow
      have fits := bounded.window
      have empty : policy.window = [] := List.eq_nil_of_length_eq_zero (by omega)
      rw [empty] at shape
      cases front with
      | nil => exact (List.cons.inj shape).1.symm
      | cons head tail => simp at shape
    rcases outcome with ⟨weak, rfl, -⟩ | ⟨others, victim, probation, beats, rfl, -⟩
    · by_cases windowed : 1 ≤ policy.config.windowCapacity
      · have different := fromEntries candidate
          (mem_entries.mpr (.inl (inWindow windowed)))
        refine iff_of_true ?_ (.inl windowed)
        rw [distinct.find_kept absent perm key (by simpa using different),
          if_pos rfl]
      · have own := ownCandidate (by omega)
        have left := distinct.find_lost absent perm
          (List.mem_singleton_self candidate)
        rw [own] at left
        refine iff_of_false (by simp [left]) ?_
        rintro (windowed' | resident | room | ⟨last, atEnd, wins⟩)
        · exact windowed windowed'
        · exact resident unstored
        · exact absurd room (Nat.not_lt_of_le full)
        · rcases List.getLast?_eq_some_iff.mp atEnd with ⟨others, probation⟩
          have loses := weak others last probation
          rw [own] at loses
          exact absurd wins (Nat.not_lt_of_le loses)
    · have different := fromEntries victim
        (mem_entries.mpr (.inr (.inl (by simp [probation]))))
      refine iff_of_true ?_ ?_
      · rw [distinct.find_kept absent perm key (by simpa using different),
          if_pos rfl]
      · by_cases windowed : 1 ≤ policy.config.windowCapacity
        · exact .inl windowed
        · have own := ownCandidate (by omega)
          rw [own] at beats
          exact .inr (.inr (.inr ⟨victim, by simp [reading, probation], beats⟩))

theorem put_find_iff (xx : XxHash) (bounded : policy.Bounded)
    (distinct : policy.Distinct) (key : Key) (value : Value) :
    (policy.put xx true key value).2.1.find key = some value ↔
      policy.reading.Lasting policy.config
        ((policy.counted xx key).frequency xx) key := by
  have counted : (policy.counted xx key).Distinct := distinct.of_perm (by simp)
  have sameFind : (policy.counted xx key).find = policy.find :=
    distinct.find_perm (by simp)
  rcases put_cases xx true policy key value with
    ⟨place, found, equal⟩ | ⟨absent, -, equal⟩ | ⟨-, full, -⟩
  · have resident : key ∈ policy.keys := by
      rw [← counted_keys xx policy key, ← placeOf_isSome, found]
      rfl
    have after := distinct.put xx bounded true key value
    refine iff_of_true ?_ (.inr (.inl (mt find_eq_none.mp
      (not_not_intro resident))))
    exact after.find_eq_some.mpr (put_resident xx true value resident)
  · have inserted := insert_find_iff xx (bounded.counted xx key) counted
      (by simpa using absent) value
    rw [equal, inserted]
    simp [Reading.Lasting, reading, sameFind]
  · cases full

end Policy

namespace StripeConfig

theorem new_window_pos_iff {capacity : Nat} (enough : 3 ≤ capacity)
    (windowPct probationPct : Percentage) :
    1 ≤ (StripeConfig.new capacity windowPct probationPct).windowCapacity ↔
      4 ≤ capacity := by
  change 1 ≤ clampWindow capacity (windowPct.scale capacity) ↔ 4 ≤ capacity
  unfold clampWindow
  split
  · omega
  · omega

end StripeConfig

namespace StripeSystem

variable {count : Nat} {system : StripeSystem count}

/-- With a free slot a put can be read back at once, whatever the percentages,
but for a new key in a stripe of three slots, none of them the window's, when
main is full and the key does not beat the last of probation. -/
theorem put_get_iff (xx : XxHash) {slabCapacity : Nat}
    (fits : slabCapacity < uint32Size) {settings : Fin count → StripeSettings}
    {i : Fin count} (enough : 3 ≤ (settings i).capacity)
    (reachable : Reachable xx slabCapacity settings system)
    (slot : 0 < system.slab.available) (key : Key) (value : Value) :
    ∃ inserted middle found last,
      system.call xx SlabAllocator.allocator i (.put key value) =
        some (inserted, middle) ∧
      middle.call xx SlabAllocator.allocator i (.get key) =
        some (found, last) ∧
      (found.1 = .value (some value) ↔
        4 ≤ (settings i).capacity ∨ (system.reading i).stored key ≠ none ∨
        (system.reading i).probation.length +
          (system.reading i).protected_.length <
            (settings i).config.mainCapacity ∨
        ∃ loser, (system.reading i).probation.getLast? = some loser ∧
          ((system.stripe i).countedCms xx key).estimate xx loser.1 <
            ((system.stripe i).countedCms xx key).estimate xx key) := by
  rcases reachable.keeps fits (fun policy => policy.Configured (settings i))
      ⟨rfl, rfl⟩ (fun policy slot call bounded distinct configured =>
        configured.call bounded xx slot call) with
    ⟨policies, follows, ⟨config, -⟩⟩
  rcases follows.call SlabAllocator.lawful xx i (.put key value) with
    ⟨found, middle, room, called, follows'⟩
  rcases follows'.call SlabAllocator.lawful xx i (.get key) with
    ⟨hit, last, -, called', -⟩
  rcases follows with ⟨views, lists, shows'⟩
  have total := shows'.available_add
  simp only [shows'.size_eq] at total
  obtain rfl : found = true := room (by omega)
  refine ⟨_, middle, _, last, called, called', ?_⟩
  rw [Function.update_self]
  have answer : ∀ policy : Policy, (policy.call xx hit (.get key)).1.1 =
      .value (policy.find key) := fun policy =>
    congrArg CacheReply.value (Policy.get_fst xx policy key)
  have window := StripeConfig.new_window_pos_iff enough (settings i).windowPct
    (settings i).probationPct
  have readBack := Policy.put_find_iff xx (shows'.bounded i)
    (shows'.distinct i) key value
  rw [Reading.Lasting, config, StripeSettings.config, window,
    ← shows'.reading i] at readBack
  simp only [← shows'.estimate xx i] at readBack
  rw [answer, CacheReply.value.injEq]
  exact readBack

theorem put_get_iff_sample :
    ∃ start results, ∃ system : StripeSystem 1,
      StripeSystem.new 8 (fun _ => .sample) = some start ∧
      start.run .sample SlabAllocator.allocator
        [(0, .put "k" "1"), (0, .put "w" "1")] = some (results, system) ∧
      ∃ inserted middle found last,
        system.call .sample SlabAllocator.allocator 0 (.put "bu" "1") =
          some (inserted, middle) ∧
        middle.call .sample SlabAllocator.allocator 0 (.get "bu") =
          some (found, last) ∧
        (found.1 = .value (some "1") ↔
          4 ≤ StripeSettings.sample.capacity ∨
          (system.reading 0).stored "bu" ≠ none ∨
          (system.reading 0).probation.length +
            (system.reading 0).protected_.length <
              StripeSettings.sample.config.mainCapacity ∨
          ∃ loser, (system.reading 0).probation.getLast? = some loser ∧
            ((system.stripe 0).countedCms .sample "bu").estimate .sample
                loser.1 <
              ((system.stripe 0).countedCms .sample "bu").estimate .sample
                "bu") := by
  have ran : ((StripeSystem.new 8 (fun _ : Fin 1 => .sample)).bind fun start =>
      (start.run .sample SlabAllocator.allocator
        [(0, .put "k" "1"), (0, .put "w" "1")]).map fun outcome =>
          outcome.2.slab.available) = some 6 := by
    decide +kernel
  rcases Option.bind_eq_some_iff.mp ran with ⟨start, made, ran⟩
  rcases Option.map_eq_some_iff.mp ran with ⟨⟨results, system⟩, ran, left⟩
  have reachable : Reachable .sample 8 (fun _ => .sample) system :=
    ⟨start, _, results, made, ran⟩
  have slot : 0 < system.slab.available := by
    rw [left]
    decide
  exact ⟨start, results, system, made, ran,
    put_get_iff .sample (i := 0) (by decide) (by decide) reachable slot _ _⟩

/-- Three keys fill main; the fourth is admitted nowhere. -/
theorem fourthKey_unreadable :
    ∃ start results, ∃ system : StripeSystem 1, ∃ inserted middle found last,
      StripeSystem.new 8 (fun _ => .sample) = some start ∧
      start.run .sample SlabAllocator.allocator [(0, .put "k" "1"),
        (0, .put "w" "1"), (0, .put "x" "1")] = some (results, system) ∧
      0 < system.slab.available ∧
      system.call .sample SlabAllocator.allocator 0 (.put "bu" "1") =
        some (inserted, middle) ∧
      inserted.1 = .changed true ∧
      middle.call .sample SlabAllocator.allocator 0 (.get "bu") =
        some (found, last) ∧
      found.1 = .value none := by
  have ran : ((StripeSystem.new 8 (fun _ : Fin 1 => .sample)).bind fun start =>
      (start.run .sample SlabAllocator.allocator [(0, .put "k" "1"),
        (0, .put "w" "1"), (0, .put "x" "1")]).bind fun outcome =>
      (outcome.2.call .sample SlabAllocator.allocator 0
        (.put "bu" "1")).bind fun put =>
      (put.2.call .sample SlabAllocator.allocator 0 (.get "bu")).map
        fun get => (outcome.2.slab.available, put.1.1, get.1.1)) =
      some (5, .changed true, .value none) := by
    decide +kernel
  rcases Option.bind_eq_some_iff.mp ran with ⟨start, made, ran⟩
  rcases Option.bind_eq_some_iff.mp ran with ⟨⟨results, system⟩, ran, after⟩
  rcases Option.bind_eq_some_iff.mp after with ⟨⟨inserted, middle⟩, put, after⟩
  rcases Option.map_eq_some_iff.mp after with ⟨⟨found, last⟩, get, replies⟩
  simp only [Prod.mk.injEq] at replies
  rcases replies with ⟨left, putReply, getReply⟩
  refine ⟨start, results, system, inserted, middle, found, last, made, ran, ?_,
    put, putReply, get, getReply⟩
  rw [left]
  decide

end StripeSystem

end Walde
