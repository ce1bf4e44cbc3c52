import Walde.StripeSystem

namespace Walde

open Foundation

/-! # A stripe with a slab of its own is the policy -/

namespace Policy

/-- The policy where every put finds a slot. -/
def run (xx : XxHash) : List CacheCall → Policy → List CallResult × Policy
  | [], policy => ([], policy)
  | call :: rest, policy =>
      let after := policy.call xx true call
      let final := after.2.run xx rest
      (after.1 :: final.1, final.2)

theorem runAll_single (xx : XxHash)
    (marked : List (Bool × Fin 1 × CacheCall))
    (slots : ∀ mark ∈ marked, mark.1 = true) (policies : Fin 1 → Policy) :
    (runAll xx marked policies).1 =
        ((policies 0).run xx (marked.map (·.2.2))).1 ∧
      (runAll xx marked policies).2 0 =
        ((policies 0).run xx (marked.map (·.2.2))).2 := by
  induction marked generalizing policies with
  | nil => exact ⟨rfl, rfl⟩
  | cons mark rest induction =>
      rcases mark with ⟨slot, i, call⟩
      have slotHere : slot = true := slots _ List.mem_cons_self
      have here : i = 0 := Subsingleton.elim i 0
      subst slotHere here
      have tail := induction
        (fun mark member => slots mark (List.mem_cons_of_mem _ member))
        (Function.update policies 0 ((policies 0).call xx true call).2)
      rw [Function.update_self] at tail
      exact ⟨congrArg (_ :: ·) tail.1, tail.2⟩

end Policy

/-- On a slab with one slot more than its capacity, a stripe gives the replies
of the policy, offers the same items to the demotion queue and counts the
same. -/
theorem StripeSystem.run_refines (xx : XxHash) (settings : StripeSettings)
    (capacity : 3 ≤ settings.capacity) {slabCapacity : Nat}
    (enough : settings.capacity + 1 ≤ slabCapacity)
    (fits : slabCapacity < uint32Size) (calls : List CacheCall) :
    ∃ system system',
      StripeSystem.new slabCapacity (fun _ : Fin 1 => settings) =
        some system ∧
      system.run xx SlabAllocator.allocator (calls.map fun call => (0, call)) =
        some (((Policy.new settings.config settings.demotionQueue).run xx
          calls).1, system') ∧
      (system'.stripe 0).stats =
        ((Policy.new settings.config settings.demotionQueue).run xx
          calls).2.stats := by
  have positive : 0 < slabCapacity := by omega
  rcases new_eq_some positive (fun _ : Fin 1 => capacity) with ⟨system, made⟩
  rcases (new_follows fits made).run SlabAllocator.lawful xx
      (calls.map fun call => (0, call)) with
    ⟨marked, system', unmarked, room, ran, views, lists, shows'⟩
  have slots : ∀ mark ∈ marked, mark.1 = true := by
    apply room
    change ∑ _i : Fin 1, settings.capacity < slabCapacity
    simpa using Nat.lt_of_succ_le enough
  have sameCalls : marked.map (·.2.2) = calls := by
    have second := congrArg (List.map Prod.snd) unmarked
    simpa [Function.comp_def] using second
  have single := Policy.runAll_single xx marked slots
    (policies fun _ : Fin 1 => settings)
  rw [sameCalls] at single
  refine ⟨system, system', made, ?_, ?_⟩
  · rw [ran, single.1]
    rfl
  · rw [← (shows'.sim 0).shows'.stats, single.2]
    rfl

theorem StripeSystem.run_refines_sample :
    ∃ system system',
      StripeSystem.new 4 (fun _ : Fin 1 => .sample) = some system ∧
      system.run .sample SlabAllocator.allocator ([.put "k" "1", .get "k",
        .remove "k", .get "k"].map fun call => (0, call)) =
        some (((Policy.new StripeSettings.sample.config true).run .sample
          [.put "k" "1", .get "k", .remove "k", .get "k"]).1, system') ∧
      (system'.stripe 0).stats =
        ((Policy.new StripeSettings.sample.config true).run .sample
          [.put "k" "1", .get "k", .remove "k", .get "k"]).2.stats :=
  run_refines .sample .sample (by decide) (by decide) (by decide) _

end Walde
