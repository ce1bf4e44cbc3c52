import Mathlib.Data.List.Dedup
import Mathlib.Data.List.Nodup

namespace Foundation.KeyedList

/-! # Lists of keys with values

The front of a list is its most recent entry. -/

variable {κ ν : Type} [DecidableEq κ]

omit [DecidableEq κ] in
def keys (entries : List (κ × ν)) : List κ := entries.map (·.1)

omit [DecidableEq κ] in
theorem mem_keys {key : κ} {value : ν} {entries : List (κ × ν)}
    (member : (key, value) ∈ entries) : key ∈ keys entries :=
  List.mem_map.mpr ⟨_, member, rfl⟩

def named (key : κ) (entries : List (κ × ν)) : List (κ × ν) :=
  entries.filter fun entry => entry.1 = key

def without (key : κ) (entries : List (κ × ν)) : List (κ × ν) :=
  entries.filter fun entry => entry.1 ≠ key

def moveToFront (key : κ) (entries : List (κ × ν)) : List (κ × ν) :=
  named key entries ++ without key entries

def assign (key : κ) (value : ν) (entries : List (κ × ν)) : List (κ × ν) :=
  entries.map fun entry => if entry.1 = key then (key, value) else entry

section Entries

variable {key : κ} {value : ν} {entries : List (κ × ν)}

theorem named_append_without_perm (key : κ) (entries : List (κ × ν)) :
    (named key entries ++ without key entries).Perm entries := by
  have split := List.filter_append_perm
    (fun entry : κ × ν => decide (entry.1 = key)) entries
  simpa [named, without] using split

theorem moveToFront_perm (key : κ) (entries : List (κ × ν)) :
    (moveToFront key entries).Perm entries :=
  named_append_without_perm key entries

@[simp] theorem keys_assign (key : κ) (value : ν) (entries : List (κ × ν)) :
    keys (assign key value entries) = keys entries := by
  rw [keys, keys, assign, List.map_map]
  apply List.map_congr_left
  intro entry _
  by_cases same : entry.1 = key <;> simp [same]

theorem keys_without (key : κ) (entries : List (κ × ν)) :
    keys (without key entries) = (keys entries).filter (· ≠ key) := by
  rw [keys, keys, without, List.filter_map]
  rfl

theorem named_eq_nil (absent : key ∉ keys entries) :
    named key entries = [] := by
  apply List.filter_eq_nil_iff.mpr
  intro entry member
  rw [decide_eq_true_eq]
  rintro rfl
  exact absent (List.mem_map_of_mem member)

theorem mem_assign (member : key ∈ keys entries) :
    (key, value) ∈ assign key value entries := by
  rcases List.mem_map.mp member with ⟨entry, inside, rfl⟩
  exact List.mem_map.mpr ⟨entry, inside, if_pos rfl⟩

theorem without_assign (key : κ) (value : ν) (entries : List (κ × ν)) :
    without key (assign key value entries) = without key entries := by
  induction entries with
  | nil => rfl
  | cons head tail induction =>
      rw [assign, List.map_cons]
      by_cases here : head.1 = key
      · rw [if_pos here, without, List.filter_cons_of_neg (by simp), without,
          List.filter_cons_of_neg (by simpa using here)]
        exact induction
      · rw [if_neg here, without, List.filter_cons_of_pos (by simpa using here),
          without, List.filter_cons_of_pos (by simpa using here)]
        exact congrArg (head :: ·) induction

theorem named_eq_singleton (distinct : (keys entries).Nodup)
    (member : (key, value) ∈ entries) : named key entries = [(key, value)] := by
  induction entries with
  | nil => cases member
  | cons head tail induction =>
      rw [keys, List.map_cons, List.nodup_cons] at distinct
      rcases List.mem_cons.mp member with rfl | member
      · have rest : named key tail = [] := named_eq_nil distinct.1
        rw [named, List.filter_cons_of_pos (by simp)]
        exact congrArg ((key, value) :: ·) rest
      · have different : head.1 ≠ key := fun same =>
          distinct.1 (same ▸ List.mem_map_of_mem (f := (·.1)) member)
        rw [named, List.filter_cons_of_neg (by simpa using different)]
        exact induction distinct.2 member

end Entries

/-! ## Other values for the same keys -/

section MapValues

variable {ν' : Type} (f : ν → ν') (key : κ)

omit [DecidableEq κ] in
def mapValues (entries : List (κ × ν)) : List (κ × ν') :=
  entries.map (Prod.map id f)

variable (entries : List (κ × ν))

omit [DecidableEq κ] in
@[simp] theorem keys_mapValues : keys (mapValues f entries) = keys entries := by
  rw [keys, keys, mapValues, List.map_map]
  rfl

@[simp] theorem named_mapValues :
    named key (mapValues f entries) = mapValues f (named key entries) :=
  List.filter_map

@[simp] theorem without_mapValues :
    without key (mapValues f entries) = mapValues f (without key entries) :=
  List.filter_map

@[simp] theorem moveToFront_mapValues : moveToFront key (mapValues f entries) =
    mapValues f (moveToFront key entries) := by
  rw [moveToFront, named_mapValues, without_mapValues, moveToFront]
  exact List.map_append.symm

@[simp] theorem assign_mapValues (value : ν) :
    assign key (f value) (mapValues f entries) =
      mapValues f (assign key value entries) := by
  rw [assign, mapValues, mapValues, assign, List.map_map, List.map_map]
  apply List.map_congr_left
  intro entry _
  by_cases same : entry.1 = key <;> simp [same]

end MapValues

/-! ## The most recently used keys -/

def recent (uses : List κ) : List κ := uses.dedup.reverse

section Recent

variable {key : κ} {uses : List κ}

theorem recent_nodup (uses : List κ) : (recent uses).Nodup :=
  List.nodup_reverse.mpr (List.nodup_dedup uses)

theorem dedup_concat (key : κ) (uses : List κ) :
    (uses ++ [key]).dedup = uses.dedup.filter (· ≠ key) ++ [key] := by
  induction uses with
  | nil => rfl
  | cons first later induction =>
      rw [List.cons_append]
      by_cases again : first ∈ later
      · rw [List.dedup_cons_of_mem again,
          List.dedup_cons_of_mem (List.mem_append_left _ again), induction]
      · rw [List.dedup_cons_of_notMem again]
        by_cases last : first = key
        · subst last
          rw [List.dedup_cons_of_mem (by simp), induction,
            List.filter_cons_of_neg (by simp)]
        · rw [List.dedup_cons_of_notMem (by simp [again, last]), induction,
            List.filter_cons_of_pos (by simpa using last), List.cons_append]

theorem recent_concat (key : κ) (uses : List κ) :
    recent (uses ++ [key]) = key :: (recent uses).filter (· ≠ key) := by
  rw [recent, dedup_concat, List.reverse_append, List.reverse_singleton,
    List.singleton_append, recent, List.filter_reverse]

theorem filter_take_of_mem {keys : List κ} {count : Nat} (distinct : keys.Nodup)
    (member : key ∈ keys.take count) :
    (keys.take count).filter (· ≠ key) =
      (keys.filter (· ≠ key)).take (count - 1) := by
  induction keys generalizing count with
  | nil => simp at member
  | cons first rest induction =>
      rw [List.nodup_cons] at distinct
      cases count with
      | zero => simp at member
      | succ count =>
          rw [List.take_succ_cons] at member ⊢
          by_cases here : first = key
          · subst here
            have absent : ∀ {keys : List κ}, first ∉ keys →
                keys.filter (· ≠ first) = keys := by
              intro keys absent
              apply List.filter_eq_self.mpr
              intro other inKeys
              rw [decide_eq_true_eq]
              rintro rfl
              exact absent inKeys
            rw [List.filter_cons_of_neg (by simp),
              List.filter_cons_of_neg (by simp), absent distinct.1,
              absent (mt List.mem_of_mem_take distinct.1), Nat.add_sub_cancel]
          · have inRest : key ∈ rest.take count :=
              (List.mem_cons.mp member).resolve_left (Ne.symm here)
            cases count with
            | zero => simp at inRest
            | succ count =>
                rw [List.filter_cons_of_pos (by simpa using here),
                  List.filter_cons_of_pos (by simpa using here),
                  induction distinct.2 inRest, Nat.add_sub_cancel,
                  Nat.add_sub_cancel, List.take_succ_cons]

theorem take_filter_of_notMem {keys : List κ} {count : Nat}
    (absent : key ∉ keys.take count) :
    (keys.filter (· ≠ key)).take (count - 1) = keys.take (count - 1) := by
  induction keys generalizing count with
  | nil => rfl
  | cons first rest induction =>
      cases count with
      | zero => rfl
      | succ count =>
          rw [List.take_succ_cons, List.mem_cons, not_or] at absent
          rw [List.filter_cons_of_pos (by simpa using Ne.symm absent.1),
            Nat.add_sub_cancel]
          cases count with
          | zero => rfl
          | succ count =>
              rw [List.take_succ_cons, List.take_succ_cons]
              exact congrArg (first :: ·) (induction absent.2)

end Recent

/-! ## Least recently used eviction -/

/-- A use of a key that has this value from now on. A new key pushes out the
least recent ones while the list is full. -/
def use (capacity : Nat) (key : κ) (value : ν) (entries : List (κ × ν)) :
    List (κ × ν) :=
  if key ∈ keys entries then (key, value) :: without key entries
  else (key, value) :: entries.take (capacity - 1)

section Use

variable {capacity : Nat} {key : κ} {value : ν} {entries : List (κ × ν)}
  {uses : List κ}

theorem keys_use (positive : 1 ≤ capacity)
    (holds : keys entries = (recent uses).take capacity) :
    keys (use capacity key value entries) =
      (recent (uses ++ [key])).take capacity := by
  rw [recent_concat, ← Nat.sub_add_cancel positive, List.take_succ_cons,
    Nat.sub_add_cancel positive, use, holds]
  by_cases member : key ∈ (recent uses).take capacity
  · rw [if_pos member, keys, List.map_cons]
    change key :: keys (without key entries) = _
    rw [keys_without, holds, filter_take_of_mem (recent_nodup uses) member]
  · rw [if_neg member, keys, List.map_cons, List.map_take]
    change key :: (keys entries).take (capacity - 1) = _
    rw [holds, take_filter_of_notMem member, List.take_take,
      Nat.min_eq_left (Nat.sub_le capacity 1)]

theorem moveToFront_eq_use (distinct : (keys entries).Nodup)
    (member : (key, value) ∈ entries) :
    moveToFront key entries = use capacity key value entries := by
  rw [moveToFront, named_eq_singleton distinct member, use,
    if_pos (mem_keys member)]
  rfl

theorem moveToFront_assign (distinct : (keys entries).Nodup)
    (member : key ∈ keys entries) :
    moveToFront key (assign key value entries) =
      use capacity key value entries := by
  have inside : (key, value) ∈ assign key value entries := mem_assign member
  rw [← keys_assign key value entries] at distinct
  have moved : moveToFront key (assign key value entries) =
      use capacity key value (assign key value entries) :=
    moveToFront_eq_use distinct inside
  rw [moved, use, if_pos (mem_keys inside), without_assign, use, if_pos member]

theorem mem_use {entry : κ × ν} (member : entry ∈ use capacity key value entries) :
    entry = (key, value) ∨ entry.1 ≠ key ∧ entry ∈ entries := by
  rw [use] at member
  split at member
  · rcases List.mem_cons.mp member with same | member
    · exact .inl same
    · rcases List.mem_filter.mp member with ⟨inside, different⟩
      exact .inr ⟨by simpa using different, inside⟩
  · rename_i absent
    rcases List.mem_cons.mp member with same | member
    · exact .inl same
    · have inside := List.mem_of_mem_take member
      refine .inr ⟨?_, inside⟩
      rintro rfl
      exact absent (List.mem_map_of_mem inside)

end Use

end Foundation.KeyedList
