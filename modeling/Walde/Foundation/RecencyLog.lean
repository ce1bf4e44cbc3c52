import Walde.Foundation.Recency

namespace Foundation.Recency

/-! # Histories of a recency list -/

section Events

variable {α β : Type}

/-- The oldest event of a history comes first. -/
inductive Event (α β : Type)
  | entered (key : α) (value : β)
  | left (key : α)

def Event.key : Event α β → α
  | .entered key _ => key
  | .left key => key

def Event.entry : Event α β → List (α × β)
  | .entered key value => [(key, value)]
  | .left _ => []

/-- The last event about a key is that it entered with a value. -/
def Live (log : List (Event α β)) (key : α) (value : β) : Prop :=
  ∃ early late, log = early ++ .entered key value :: late ∧
    ∀ event ∈ late, event.key ≠ key

/-- The keys that entered and were not mentioned again, the newest first. -/
def standing [DecidableEq α] : List (Event α β) → List (α × β)
  | [] => []
  | .entered key value :: later =>
      if ∃ event ∈ later, event.key = key then standing later
      else standing later ++ [(key, value)]
  | .left _ :: later => standing later

end Events

variable {α β : Type} [DecidableEq α] {list : AList fun _ : α => β} {key : α}
  {value : β}

theorem mem_standing {log : List (Event α β)} :
    (key, value) ∈ standing log ↔ Live log key value := by
  induction log with
  | nil => simp [standing, Live]
  | cons head later induction =>
      -- the witness is in the tail, or it is the head
      have split : Live (head :: later) key value ↔ Live later key value ∨
          head = .entered key value ∧ ∀ event ∈ later, event.key ≠ key := by
        constructor
        · rintro ⟨early, late, shape, last⟩
          cases early with
          | nil =>
              obtain ⟨rfl, rfl⟩ := List.cons.inj shape
              exact .inr ⟨rfl, last⟩
          | cons first early =>
              obtain ⟨rfl, rfl⟩ := List.cons.inj shape
              exact .inl ⟨early, late, rfl, last⟩
        · rintro (⟨early, late, rfl, last⟩ | ⟨rfl, last⟩)
          · exact ⟨head :: early, late, rfl, last⟩
          · exact ⟨[], later, rfl, last⟩
      rw [split]
      cases head with
      | left other => simpa [standing] using induction
      | entered other held =>
          rw [standing]
          by_cases again : ∃ event ∈ later, event.key = other
          · rw [if_pos again, induction]
            refine ⟨.inl, fun live => live.resolve_right ?_⟩
            rintro ⟨same, last⟩
            cases same
            rcases again with ⟨event, member, same⟩
            exact last event member same
          · rw [if_neg again, List.mem_append, induction,
              List.mem_singleton, Prod.mk.injEq]
            apply or_congr_right
            constructor
            · rintro ⟨rfl, rfl⟩
              exact ⟨rfl, fun event member same => again ⟨event, member, same⟩⟩
            · rintro ⟨same, -⟩
              cases same
              exact ⟨rfl, rfl⟩

theorem standing_concat (log : List (Event α β)) (last : Event α β) :
    standing (log ++ [last]) =
      last.entry ++ (standing log).filter (·.1 ≠ last.key) := by
  induction log with
  | nil => cases last <;> simp [standing, Event.entry]
  | cons head later induction =>
      rw [List.cons_append]
      cases head with
      | left other => exact induction
      | entered other held =>
          rw [standing, standing, induction]
          by_cases atLast : last.key = other
          · rw [if_pos ⟨last, by simp, atLast⟩]
            split
            · rfl
            · simp [List.filter_append, atLast]
          · have sameCase : (∃ event ∈ later ++ [last], event.key = other) ↔
                ∃ event ∈ later, event.key = other := by
              simp [atLast]
            by_cases again : ∃ event ∈ later, event.key = other
            · rw [if_pos again, if_pos (sameCase.mpr again)]
            · rw [if_neg again, if_neg (mt sameCase.mp again)]
              simp [List.filter_append, Ne.symm atLast]

/-! ## Entries as pairs -/

def pairs (list : AList fun _ : α => β) : List (α × β) :=
  list.entries.map fun entry => (entry.1, entry.2)

theorem mem_pairs :
    (key, value) ∈ pairs list ↔ list.lookup key = some value := by
  rw [← Option.mem_def, AList.mem_lookup_iff, pairs, List.mem_map]
  constructor
  · rintro ⟨⟨found, held⟩, member, equal⟩
    cases equal
    exact member
  · exact fun member => ⟨_, member, rfl⟩

theorem pairs_erase :
    pairs (list.erase key) = (pairs list).filter (·.1 ≠ key) := by
  have nodup := list.nodupKeys
  change (list.entries.kerase key).map _ = (list.entries.map _).filter _
  generalize list.entries = entries at nodup
  induction entries with
  | nil => rfl
  | cons head tail induction =>
      rw [List.nodupKeys_cons] at nodup
      by_cases here : key = head.1
      · have others : ∀ entry ∈ tail, entry.1 ≠ key := by
          rintro entry member rfl
          exact nodup.1 (here ▸ List.mem_keys_of_mem member)
        rw [List.kerase_cons_eq here, List.map_cons, List.filter_cons_of_neg
          (by simp [here]), List.filter_eq_self.mpr]
        intro pair inTail
        rcases List.mem_map.mp inTail with ⟨entry, member, rfl⟩
        simpa using others entry member
      · rw [List.kerase_cons_ne here, List.map_cons, List.map_cons,
          List.filter_cons_of_pos (by simpa using Ne.symm here),
          induction nodup.2]

theorem pairs_insert : pairs (list.insert key value) =
    (key, value) :: (pairs list).filter (·.1 ≠ key) := by
  rw [← pairs_erase]
  rfl

/-! ## What a step adds to the history -/

theorem keys_departed_erase :
    (list.keys.filter fun other => other ∉ list.erase key) =
      if key ∈ list then [key] else [] := by
  have sameFilter : (list.keys.filter fun other => other ∉ list.erase key) =
      list.keys.filter (· == key) := by
    apply List.filter_congr
    intro other member
    have listed : other ∈ list := member
    rw [Bool.eq_iff_iff]
    simp [AList.mem_erase, listed]
  rw [sameFilter, List.filter_beq]
  by_cases member : key ∈ list
  · rw [if_pos member, List.count_eq_one_of_mem list.keys_nodup member,
      List.replicate_one]
  · rw [if_neg member, List.count_eq_zero_of_not_mem member,
      List.replicate_zero]

theorem keys_departed_insert :
    (list.keys.filter fun other => other ∉ list.insert key value) = [] := by
  rw [List.filter_eq_nil_iff]
  intro other member
  have listed : other ∈ list := member
  simp [AList.mem_insert, listed]

theorem keys_departed_full (absent : key ∉ list) {oldest : Sigma fun _ : α => β}
    (last : list.entries.getLast? = some oldest) :
    (list.keys.filter fun other =>
      other ∉ (dropOldest list).insert key value) = [oldest.1] := by
  have oldestListed : oldest.1 ∈ list :=
    List.mem_keys_of_mem (List.mem_of_getLast? last)
  have sameFilter : (list.keys.filter fun other =>
      other ∉ (dropOldest list).insert key value) =
      list.keys.filter fun other => other ∉ list.erase oldest.1 := by
    apply List.filter_congr
    intro other member
    have different : other ≠ key := by
      rintro rfl
      exact absent member
    rw [dropOldest_eq_erase last]
    simp [AList.mem_insert, different]
  rw [sameFilter, keys_departed_erase, if_pos oldestListed]

section Standing

variable {log : List (Event α β)}

theorem standing_erase (key : α) (holds : pairs list = standing log) :
    pairs (list.erase key) = standing
      (log ++ (if key ∈ list then [key] else []).map .left) := by
  by_cases member : key ∈ list
  · rw [if_pos member, List.map_singleton, standing_concat, ← holds,
      pairs_erase]
    rfl
  · have same : list.erase key = list :=
      AList.ext (List.kerase_of_notMem_keys member)
    rw [if_neg member, same, List.map_nil, List.append_nil, holds]

theorem standing_insert (holds : pairs list = standing log) :
    pairs (list.insert key value) = standing (log ++ [.entered key value]) := by
  rw [standing_concat, ← holds, pairs_insert]
  rfl

theorem standing_insertWithin {capacity : Nat} (positive : 0 < capacity)
    (holds : pairs list = standing log) :
    pairs (insertWithin capacity key value list) = standing (log ++
      ((list.keys.filter fun other =>
        other ∉ insertWithin capacity key value list).map .left ++
        [.entered key value])) := by
  unfold insertWithin
  split
  · rw [keys_departed_insert]
    exact standing_insert holds
  · rename_i full
    have absent : key ∉ list := fun member => full (.inl member)
    cases last : list.entries.getLast? with
    | none =>
        have empty := List.getLast?_eq_none_iff.mp last
        exact absurd (.inr (by simpa [size, empty] using positive)) full
    | some oldest =>
        have dropped := standing_erase oldest.1 holds
        have listed : oldest.1 ∈ list :=
          List.mem_keys_of_mem (List.mem_of_getLast? last)
        rw [if_pos listed, List.map_singleton, ← dropOldest_eq_erase last]
          at dropped
        rw [keys_departed_full absent last, ← List.append_assoc]
        exact standing_insert dropped

end Standing

end Foundation.Recency
