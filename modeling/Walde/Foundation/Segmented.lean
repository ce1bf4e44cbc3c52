import Walde.Foundation.KeyedList

namespace Foundation

/-! # A window in front of a segmented list

New entries enter a window. What overflows it competes for main, which is split
into probation and protected. How often a key was used is left open: a contest
is decided by what the keys are. -/

structure SegmentLimits where
  window : Nat
  main : Nat
  protected_ : Nat
deriving DecidableEq, Repr

@[ext] structure Segments (κ ν : Type) where
  window : List (κ × ν)
  probation : List (κ × ν)
  protected_ : List (κ × ν)

/-- What an insertion does besides entering the window. -/
inductive Admission
  | kept
  | admitted
  | rejected
  | replaced
deriving DecidableEq, Repr

def Admission.lost : Admission → Nat
  | .kept | .admitted => 0
  | .rejected | .replaced => 1

namespace Segments

variable {κ ν : Type}

def empty : Segments κ ν where
  window := []
  probation := []
  protected_ := []

def main (segments : Segments κ ν) : List (κ × ν) :=
  segments.probation ++ segments.protected_

def entries (segments : Segments κ ν) : List (κ × ν) :=
  segments.window ++ segments.main

def keys (segments : Segments κ ν) : List κ := KeyedList.keys segments.entries

/-- The last of a full protected segment goes back to probation. -/
def makeRoom (limit : Nat) (segments : Segments κ ν) : Segments κ ν :=
  if limit ≤ segments.protected_.length then
    match segments.protected_.getLast? with
    | some demoted => { segments with
        probation := demoted :: segments.probation
        protected_ := segments.protected_.dropLast }
    | none => segments
  else segments

/-- What overflows the window enters a main that has room, or takes the place
of a victim that it beats. -/
def overflow (room : Nat) (beats : κ → κ → Bool) (segments : Segments κ ν) :
    Admission × Segments κ ν :=
  match segments.window.getLast? with
  | none => (.kept, segments)
  | some candidate =>
      let window := segments.window.dropLast
      if segments.main.length < room then
        (.admitted, { segments with
          window
          probation := candidate :: segments.probation })
      else
        match segments.probation.getLast? with
        | none => (.rejected, { segments with window })
        | some victim =>
            if beats candidate.1 victim.1 then
              (.replaced, { segments with
                window
                probation := candidate :: segments.probation.dropLast })
            else (.rejected, { segments with window })

def push (entry : κ × ν) (segments : Segments κ ν) : Segments κ ν :=
  { segments with window := entry :: segments.window }

def insert (limits : SegmentLimits) (beats : κ → κ → Bool) (entry : κ × ν)
    (segments : Segments κ ν) : Admission × Segments κ ν :=
  if limits.window ≤ segments.window.length then
    (segments.push entry).overflow limits.main beats
  else (.kept, segments.push entry)

def contestants (room : Nat) (segments : Segments κ ν) : Option (κ × κ) :=
  if segments.main.length < room then none
  else do
    let candidate ← segments.window.getLast?
    let victim ← segments.probation.getLast?
    return (candidate.1, victim.1)

variable [DecidableEq κ]

def promote (limit : Nat) (key : κ) (segments : Segments κ ν) : Segments κ ν :=
  let rest := makeRoom limit { segments with
    probation := KeyedList.without key segments.probation }
  { rest with
    protected_ := KeyedList.named key segments.probation ++ rest.protected_ }

def touch (limit : Nat) (key : κ) (segments : Segments κ ν) : Segments κ ν :=
  if key ∈ KeyedList.keys segments.window then
    { segments with window := KeyedList.moveToFront key segments.window }
  else if key ∈ KeyedList.keys segments.probation then
    segments.promote limit key
  else
    { segments with
      protected_ := KeyedList.moveToFront key segments.protected_ }

def get (limits : SegmentLimits) (key : κ) (segments : Segments κ ν) :
    Segments κ ν :=
  if key ∈ segments.keys then segments.touch limits.protected_ key else segments

def overwrite (entry : κ × ν) (segments : Segments κ ν) : Segments κ ν where
  window := KeyedList.assign entry.1 entry.2 segments.window
  probation := KeyedList.assign entry.1 entry.2 segments.probation
  protected_ := KeyedList.assign entry.1 entry.2 segments.protected_

def put (limits : SegmentLimits) (beats : κ → κ → Bool) (entry : κ × ν)
    (segments : Segments κ ν) : Admission × Segments κ ν :=
  if entry.1 ∈ segments.keys then
    (.kept, (segments.overwrite entry).touch limits.protected_ entry.1)
  else segments.insert limits beats entry

def contest (limits : SegmentLimits) (entry : κ × ν)
    (segments : Segments κ ν) : Option (κ × κ) :=
  if entry.1 ∉ segments.keys ∧ limits.window ≤ segments.window.length then
    (segments.push entry).contestants limits.main
  else none

/-! ## Verdicts -/

section Verdicts

variable {limits : SegmentLimits} {beats beats' : κ → κ → Bool}
  {entry : κ × ν} {segments : Segments κ ν}

omit [DecidableEq κ] in
theorem overflow_congr {room : Nat}
    (same : ∀ pair ∈ segments.contestants room,
      beats pair.1 pair.2 = beats' pair.1 pair.2) :
    segments.overflow room beats = segments.overflow room beats' := by
  unfold overflow
  cases last : segments.window.getLast? with
  | none => rfl
  | some candidate =>
      dsimp only
      by_cases roomy : segments.main.length < room
      · rw [if_pos roomy, if_pos roomy]
      · rw [if_neg roomy, if_neg roomy]
        cases lastVictim : segments.probation.getLast? with
        | none => rfl
        | some victim =>
            have here := same (candidate.1, victim.1) (by
              rw [contestants, if_neg roomy, last, lastVictim]
              rfl)
            dsimp only at here ⊢
            rw [here]

/-- Only the verdict on the contest matters to a put. -/
theorem put_congr (same : ∀ pair ∈ segments.contest limits entry,
      beats pair.1 pair.2 = beats' pair.1 pair.2) :
    segments.put limits beats entry = segments.put limits beats' entry := by
  unfold put
  by_cases resident : entry.1 ∈ segments.keys
  · rw [if_pos resident, if_pos resident]
  · rw [if_neg resident, if_neg resident, insert, insert]
    by_cases full : limits.window ≤ segments.window.length
    · rw [if_pos full, if_pos full]
      apply overflow_congr
      intro pair member
      apply same
      rwa [contest, if_pos ⟨resident, full⟩]
    · rw [if_neg full, if_neg full]

end Verdicts

omit [DecidableEq κ] in
theorem insert_of_room {limits : SegmentLimits} {segments : Segments κ ν}
    (room : segments.window.length < limits.window) (beats : κ → κ → Bool)
    (entry : κ × ν) :
    segments.insert limits beats entry = (.kept, segments.push entry) :=
  if_neg (Nat.not_le_of_lt room)

theorem put_of_absent {limits : SegmentLimits} {segments : Segments κ ν}
    {entry : κ × ν} (absent : entry.1 ∉ segments.keys) (beats : κ → κ → Bool) :
    segments.put limits beats entry = segments.insert limits beats entry :=
  if_neg absent

/-! ## Bounds -/

structure Bounded (limits : SegmentLimits) (segments : Segments κ ν) : Prop where
  window : segments.window.length ≤ limits.window
  main : segments.main.length ≤ limits.main

section Bounds

variable {limits : SegmentLimits} {beats : κ → κ → Bool} {entry : κ × ν}
  {segments : Segments κ ν} {key : κ}

omit [DecidableEq κ] in
theorem Bounded.empty (limits : SegmentLimits) :
    (empty : Segments κ ν).Bounded limits :=
  ⟨Nat.zero_le _, Nat.zero_le _⟩

omit [DecidableEq κ] in
theorem Bounded.length_le (bounded : segments.Bounded limits) :
    segments.entries.length ≤ limits.window + limits.main := by
  have window := bounded.window
  have main := bounded.main
  rw [entries, List.length_append]
  omega

omit [DecidableEq κ] in
theorem makeRoom_main_perm (limit : Nat) (segments : Segments κ ν) :
    (segments.makeRoom limit).main.Perm segments.main := by
  rw [makeRoom]
  split
  · rcases List.eq_nil_or_concat segments.protected_ with
      empty | ⟨front, demoted, shape⟩
    · simp [empty, main]
    · rw [List.concat_eq_append] at shape
      simp only [shape, List.getLast?_append, List.getLast?_singleton,
        Option.some_or, List.dropLast_concat, main, List.cons_append]
      rw [← List.append_assoc]
      exact (List.perm_append_singleton _ _).symm
  · exact .refl _

omit [DecidableEq κ] in
@[simp] theorem makeRoom_window (limit : Nat) (segments : Segments κ ν) :
    (segments.makeRoom limit).window = segments.window := by
  rw [makeRoom]
  split
  · split <;> rfl
  · rfl

theorem promote_main_perm (limit : Nat) (key : κ) (segments : Segments κ ν) :
    (segments.promote limit key).main.Perm segments.main := by
  let rest : Segments κ ν := { segments with
    probation := KeyedList.without key segments.probation }
  have roomy := makeRoom_main_perm limit rest
  have split := KeyedList.named_append_without_perm key segments.probation
  have swap : ((rest.makeRoom limit).probation ++
      (KeyedList.named key segments.probation ++
        (rest.makeRoom limit).protected_)).Perm
      (KeyedList.named key segments.probation ++
        (rest.makeRoom limit).main) := by
    rw [main, ← List.append_assoc, ← List.append_assoc]
    exact List.perm_append_comm.append_right _
  refine (swap.trans (roomy.append_left _)).trans ?_
  change (KeyedList.named key segments.probation ++
    (KeyedList.without key segments.probation ++ segments.protected_)).Perm _
  rw [← List.append_assoc]
  exact split.append_right _

theorem touch_window_perm (limit : Nat) (key : κ) (segments : Segments κ ν) :
    (segments.touch limit key).window.Perm segments.window := by
  rw [touch]
  split
  · exact KeyedList.moveToFront_perm key segments.window
  · split
    · change (makeRoom limit _).window.Perm _
      rw [makeRoom_window]
    · exact .refl _

theorem touch_main_perm (limit : Nat) (key : κ) (segments : Segments κ ν) :
    (segments.touch limit key).main.Perm segments.main := by
  rw [touch]
  split
  · exact .refl _
  · split
    · exact promote_main_perm limit key segments
    · exact (KeyedList.moveToFront_perm key segments.protected_).append_left _

theorem touch_perm (limit : Nat) (key : κ) (segments : Segments κ ν) :
    (segments.touch limit key).entries.Perm segments.entries :=
  (touch_window_perm limit key segments).append
    (touch_main_perm limit key segments)

theorem overwrite_entries (entry : κ × ν) (segments : Segments κ ν) :
    (segments.overwrite entry).entries =
      KeyedList.assign entry.1 entry.2 segments.entries := by
  simp only [entries, main, overwrite, KeyedList.assign, List.map_append]

theorem Bounded.touch (bounded : segments.Bounded limits) (limit : Nat)
    (key : κ) : (segments.touch limit key).Bounded limits where
  window := by
    rw [(touch_window_perm limit key segments).length_eq]
    exact bounded.window
  main := by
    rw [(touch_main_perm limit key segments).length_eq]
    exact bounded.main

theorem Bounded.overwrite (bounded : segments.Bounded limits)
    (entry : κ × ν) : (segments.overwrite entry).Bounded limits where
  window := by simpa [Segments.overwrite, KeyedList.assign] using bounded.window
  main := by
    simpa [Segments.main, Segments.overwrite, KeyedList.assign] using bounded.main

omit [DecidableEq κ] in
theorem overflow_main_length {room : Nat}
    (within : segments.main.length ≤ room) :
    (segments.overflow room beats).2.main.length ≤ room := by
  rw [overflow]
  cases segments.window.getLast? with
  | none => exact within
  | some candidate =>
      dsimp only
      split
      · rename_i roomy
        exact roomy
      · rcases List.eq_nil_or_concat segments.probation with
          empty | ⟨others, victim, shape⟩
        · rw [empty]
          simpa [main, empty] using within
        · rw [List.concat_eq_append] at shape
          have last : segments.probation.getLast? = some victim := by
            simp [shape]
          rw [last]
          dsimp only
          split
          · rw [main, shape, List.length_append, List.length_append] at within
            rw [main, shape, List.dropLast_concat, List.length_append]
            exact within
          · exact within

omit [DecidableEq κ] in
theorem overflow_window (room : Nat) (beats : κ → κ → Bool)
    (segments : Segments κ ν) :
    (segments.overflow room beats).2.window = segments.window.dropLast := by
  rw [overflow]
  cases last : segments.window.getLast? with
  | none =>
      rw [List.getLast?_eq_none_iff] at last
      simp [last]
  | some candidate =>
      dsimp only
      split
      · rfl
      · cases segments.probation.getLast? with
        | none => rfl
        | some victim =>
            dsimp only
            split <;> rfl

omit [DecidableEq κ] in
theorem Bounded.insert (bounded : segments.Bounded limits)
    (beats : κ → κ → Bool) (entry : κ × ν) :
    (segments.insert limits beats entry).2.Bounded limits := by
  have window := bounded.window
  rw [Segments.insert]
  split
  · refine ⟨?_, overflow_main_length bounded.main⟩
    rw [overflow_window, List.length_dropLast, push, List.length_cons]
    omega
  · rename_i roomy
    exact ⟨Nat.lt_of_not_le roomy, bounded.main⟩

theorem Bounded.get (bounded : segments.Bounded limits) (key : κ) :
    (segments.get limits key).Bounded limits := by
  rw [Segments.get]
  split
  · exact bounded.touch limits.protected_ key
  · exact bounded

theorem Bounded.put (bounded : segments.Bounded limits)
    (beats : κ → κ → Bool) (entry : κ × ν) :
    (segments.put limits beats entry).2.Bounded limits := by
  rw [Segments.put]
  split
  · exact (bounded.overwrite entry).touch limits.protected_ entry.1
  · exact bounded.insert beats entry

end Bounds

/-! ## Members -/

section Members

variable {limits : SegmentLimits} {beats : κ → κ → Bool} {entry other : κ × ν}
  {segments : Segments κ ν}

omit [DecidableEq κ] in
theorem mem_entries : other ∈ segments.entries ↔ other ∈ segments.window ∨
    other ∈ segments.probation ∨ other ∈ segments.protected_ := by
  simp [entries, main]

omit [DecidableEq κ] in
theorem mem_of_mem_overflow {room : Nat}
    (member : other ∈ (segments.overflow room beats).2.entries) :
    other ∈ segments.entries := by
  rw [overflow] at member
  cases last : segments.window.getLast? with
  | none => simpa only [last] using member
  | some candidate =>
      have inWindow := List.mem_of_getLast? last
      have front : other ∈ segments.window.dropLast → other ∈ segments.window :=
        fun inFront => (List.dropLast_sublist _).subset inFront
      have others : other ∈ segments.probation.dropLast →
          other ∈ segments.probation :=
        fun inOthers => (List.dropLast_sublist _).subset inOthers
      rw [last] at member
      dsimp only at member
      split at member
      · simp only [mem_entries, List.mem_cons] at member ⊢
        grind
      · cases lastVictim : segments.probation.getLast? with
        | none =>
            rw [lastVictim] at member
            simp only [mem_entries] at member ⊢
            grind
        | some victim =>
            rw [lastVictim] at member
            dsimp only at member
            split at member <;>
              simp only [mem_entries, List.mem_cons] at member ⊢ <;> grind

theorem get_perm (limits : SegmentLimits) (key : κ) (segments : Segments κ ν) :
    (segments.get limits key).entries.Perm segments.entries := by
  rw [get]
  split
  · exact touch_perm limits.protected_ key segments
  · exact .refl _

theorem mem_of_mem_put
    (member : other ∈ (segments.put limits beats entry).2.entries) :
    other = entry ∨ other.1 ≠ entry.1 ∧ other ∈ segments.entries := by
  rw [put] at member
  split at member
  · rw [(touch_perm _ _ _).mem_iff, overwrite_entries, KeyedList.assign,
      List.mem_map] at member
    rcases member with ⟨before, inside, rfl⟩
    by_cases same : before.1 = entry.1
    · rw [if_pos same]
      exact .inl rfl
    · rw [if_neg same]
      exact .inr ⟨same, inside⟩
  · rename_i absent
    have pushed : other ∈ (segments.push entry).entries := by
      rw [insert] at member
      split at member
      · exact mem_of_mem_overflow member
      · exact member
    rw [mem_entries, push, List.mem_cons, or_assoc] at pushed
    rcases pushed with same | inside
    · exact .inl same
    · rw [← mem_entries] at inside
      refine .inr ⟨?_, inside⟩
      intro same
      exact absent (same ▸ List.mem_map_of_mem inside)

end Members

/-! ## Lengths -/

section Lengths

variable {limits : SegmentLimits} {beats : κ → κ → Bool} {entry : κ × ν}
  {segments : Segments κ ν}

omit [DecidableEq κ] in
theorem overflow_length (room : Nat) (beats : κ → κ → Bool)
    (segments : Segments κ ν) :
    (segments.overflow room beats).2.entries.length +
        (segments.overflow room beats).1.lost =
      segments.entries.length := by
  have lengths : ∀ other : Segments κ ν, other.entries.length =
      other.window.length + (other.probation.length +
        other.protected_.length) := by
    intro other
    rw [entries, main, List.length_append, List.length_append]
  rw [lengths, lengths, overflow]
  cases last : segments.window.getLast? with
  | none => rfl
  | some candidate =>
      have window : 0 < segments.window.length :=
        List.length_pos_of_mem (List.mem_of_getLast? last)
      dsimp only
      split
      · simp only [List.length_dropLast, List.length_cons, Admission.lost]
        omega
      · cases lastVictim : segments.probation.getLast? with
        | none =>
            simp only [List.length_dropLast, Admission.lost]
            omega
        | some victim =>
            have probation : 0 < segments.probation.length :=
              List.length_pos_of_mem (List.mem_of_getLast? lastVictim)
            dsimp only
            split
            · simp only [List.length_dropLast, List.length_cons, Admission.lost]
              omega
            · simp only [List.length_dropLast, Admission.lost]
              omega

theorem put_length (limits : SegmentLimits) (beats : κ → κ → Bool)
    (entry : κ × ν) (segments : Segments κ ν) :
    (segments.put limits beats entry).2.entries.length +
        (segments.put limits beats entry).1.lost =
      segments.entries.length +
        (decide (entry.1 ∉ segments.keys)).toNat := by
  rw [put]
  by_cases resident : entry.1 ∈ segments.keys
  · rw [if_pos resident, decide_eq_false (not_not_intro resident)]
    change (touch _ _ _).entries.length = _
    rw [(touch_perm _ _ _).length_eq, overwrite_entries, KeyedList.assign,
      List.length_map]
    rfl
  · rw [if_neg resident, decide_eq_true resident, insert]
    split
    · rw [overflow_length]
      rfl
    · rfl

theorem get_length (limits : SegmentLimits) (key : κ) (segments : Segments κ ν) :
    (segments.get limits key).entries.length = segments.entries.length :=
  (get_perm limits key segments).length_eq

end Lengths

end Segments

end Foundation
