import Walde.Foundation.Segmented
import Walde.PolicyInvariant

namespace Walde

open Foundation

/-! # The policy as a segmented cache -/

def StripeStats.looked (stats : StripeStats) (hit : Bool) : StripeStats :=
  if hit then { stats with hits := stats.hits + 1 }
  else { stats with misses := stats.misses + 1 }

def StripeStats.inserted (stats : StripeStats) : Admission → StripeStats
  | .kept => stats
  | .admitted => { stats with admissions := stats.admissions + 1 }
  | .rejected => { stats with rejections := stats.rejections + 1 }
  | .replaced => { stats with
      evictions := stats.evictions + 1
      admissions := stats.admissions + 1 }

def StripeConfig.limits (config : StripeConfig) : SegmentLimits where
  window := config.windowCapacity
  main := config.mainCapacity
  protected_ := config.protectedCapacity

namespace Policy

def segments (policy : Policy) : Segments Key Value where
  window := policy.window
  probation := policy.probation
  protected_ := policy.protected_

def beats (xx : XxHash) (policy : Policy) (candidate victim : Key) : Bool :=
  policy.frequency xx victim < policy.frequency xx candidate

section Segments

variable (xx : XxHash) {policy : Policy} {key : Key} {value : Value}
  {place : Place}

theorem keys_segments (policy : Policy) : policy.segments.keys = policy.keys := by
  rw [Segments.keys, Segments.entries, Segments.main, ← List.append_assoc]
  rfl

theorem counted_segments (policy : Policy) (key : Key) :
    (policy.counted xx key).segments = policy.segments := by
  rw [segments, counted_window, counted_probation, counted_protected]
  rfl

theorem makeRoom_segments (policy : Policy) :
    policy.makeRoom.segments =
      policy.segments.makeRoom policy.config.protectedCapacity := by
  have protected_ : policy.segments.protected_ = policy.protected_ := rfl
  rw [makeRoom, Segments.makeRoom, protected_]
  split
  · cases policy.protected_.getLast? <;> rfl
  · rfl

theorem promote_segments (policy : Policy) (key : Key) :
    (policy.promote key).segments =
      policy.segments.promote policy.config.protectedCapacity key := by
  have roomy := makeRoom_segments
    { policy with probation := without key policy.probation }
  exact congrArg (fun rest : Segments Key Value => { rest with
    protected_ := KeyedList.named key policy.probation ++ rest.protected_ })
    roomy

theorem touch_segments (found : policy.placeOf key = some place) :
    (policy.touch key place).segments =
      policy.segments.touch policy.config.protectedCapacity key := by
  rw [placeOf] at found
  unfold Segments.touch
  change _ = if key ∈ policy.window.map (·.1) then _
    else if key ∈ policy.probation.map (·.1) then _ else _
  split at found
  · rename_i inWindow
    cases found
    rw [if_pos inWindow]
    rfl
  · rename_i notInWindow
    rw [if_neg notInWindow]
    split at found
    · rename_i inProbation
      cases found
      rw [if_pos inProbation]
      exact promote_segments policy key
    · rename_i notInProbation
      rw [if_neg notInProbation]
      split at found
      · cases found
        rfl
      · cases found

theorem placeOf_overwrite (policy : Policy) (key other : Key) (value : Value) :
    (policy.overwrite key value).placeOf other = policy.placeOf other := by
  have same : ∀ entries : List Entry,
      (assign key value entries).map (·.1) = entries.map (·.1) :=
    KeyedList.keys_assign key value
  simp only [placeOf, overwrite, same]

theorem tryAdmit_segments (policy : Policy) :
    (policy.tryAdmit xx).1.segments =
        (policy.segments.overflow policy.config.mainCapacity
          (policy.beats xx)).2 ∧
      (policy.tryAdmit xx).1.stats =
        policy.stats.inserted (policy.segments.overflow policy.config.mainCapacity
          (policy.beats xx)).1 := by
  have window : policy.segments.window = policy.window := rfl
  have probation : policy.segments.probation = policy.probation := rfl
  have main : policy.segments.main.length =
      policy.probation.length + policy.protected_.length :=
    List.length_append
  rw [tryAdmit, Segments.overflow, window, probation, main]
  cases policy.window.getLast? with
  | none => exact ⟨rfl, rfl⟩
  | some candidate =>
      dsimp only
      by_cases room : policy.probation.length + policy.protected_.length <
          policy.config.mainCapacity
      · rw [if_pos room, if_pos room]
        exact ⟨rfl, rfl⟩
      · rw [if_neg room, if_neg room]
        cases policy.probation.getLast? with
        | none => exact ⟨rfl, rfl⟩
        | some victim =>
            dsimp only
            by_cases wins : policy.frequency xx victim.1 <
                policy.frequency xx candidate.1
            · have beats : policy.beats xx candidate.1 victim.1 = true :=
                decide_eq_true wins
              rw [if_pos beats, contest, if_pos (by exact wins)]
              exact ⟨rfl, rfl⟩
            · have loses : ¬policy.beats xx candidate.1 victim.1 = true :=
                fun beats => wins (of_decide_eq_true beats)
              rw [if_neg loses, contest, if_neg (by exact wins)]
              exact ⟨rfl, rfl⟩

theorem insert_segments (bounded : policy.Bounded) (key : Key) (value : Value) :
    (policy.insert xx key value).1.segments =
        (policy.segments.insert policy.config.limits (policy.beats xx)
          (key, value)).2 ∧
      (policy.insert xx key value).1.stats =
        policy.stats.inserted (policy.segments.insert policy.config.limits
          (policy.beats xx) (key, value)).1 := by
  rw [insert_eq xx bounded]
  by_cases room : policy.window.length < policy.config.windowCapacity
  · rw [if_pos room, Segments.insert_of_room room]
    exact ⟨rfl, rfl⟩
  · have full : policy.config.limits.window ≤ policy.segments.window.length :=
      Nat.le_of_not_lt room
    rw [if_neg room, Segments.insert, if_pos full]
    exact tryAdmit_segments xx (policy.pushWindow (key, value))

theorem get_segments (policy : Policy) (key : Key) :
    (policy.get xx key).2.segments =
        policy.segments.get policy.config.limits key ∧
      (policy.get xx key).2.stats =
        policy.stats.looked (decide (key ∈ policy.segments.keys)) := by
  rw [Segments.get, keys_segments, get]
  cases found : policy.placeOf key with
  | none =>
      have missing := placeOf_eq_none.mp found
      rw [if_neg missing, decide_eq_false missing]
      exact ⟨rfl, rfl⟩
  | some place =>
      have resident := placeOf_isSome.mp (Option.isSome_of_mem found)
      have sameFound : (policy.count xx key).placeOf key = some place := found
      have touched := touch_segments sameFound
      rw [if_pos resident, decide_eq_true resident]
      exact ⟨touched, rfl⟩

theorem put_segments (bounded : policy.Bounded) (key : Key) (value : Value) :
    (policy.put xx true key value).2.1.segments =
        (policy.segments.put policy.config.limits
          ((policy.counted xx key).beats xx) (key, value)).2 ∧
      (policy.put xx true key value).2.1.stats =
        policy.stats.inserted (policy.segments.put policy.config.limits
          ((policy.counted xx key).beats xx) (key, value)).1 := by
  have config : (policy.counted xx key).config = policy.config :=
    counted_config xx policy key
  have segments := counted_segments xx policy key
  have stats := counted_stats xx policy key
  have counted := bounded.counted xx key
  rw [← config, ← segments, ← stats, put, ← Policy.counted, Segments.put,
    keys_segments]
  generalize policy.counted xx key = policy at *
  cases found : policy.placeOf key with
  | none =>
      have missing := placeOf_eq_none.mp found
      rw [if_neg missing]
      exact insert_segments xx counted key value
  | some place =>
      have resident := placeOf_isSome.mp (Option.isSome_of_mem found)
      rw [if_pos resident]
      rw [← placeOf_overwrite policy key key value] at found
      exact ⟨touch_segments found, touch_stats _ key place⟩

end Segments

end Policy

end Walde
