import Mathlib.Data.List.AList

namespace Foundation.Recency

/-! # Bounded recency lists

An association list with the newest entry first, as `AList.insert` keeps it,
and with a bound on the number of its entries. -/

variable {α β : Type}

def size (list : AList fun _ : α => β) : Nat := list.entries.length

@[simp] theorem size_empty : size (∅ : AList fun _ : α => β) = 0 := rfl

theorem size_keys (list : AList fun _ : α => β) :
    list.keys.length = size list := List.length_map _

def dropOldest (list : AList fun _ : α => β) : AList fun _ : α => β where
  entries := list.entries.dropLast
  nodupKeys := list.nodupKeys.sublist (List.dropLast_sublist list.entries)

variable [DecidableEq α]

/-- Make `key` the newest entry. A new key pushes the oldest one out of a list
that is full. -/
def insertWithin (capacity : Nat) (key : α) (value : β)
    (list : AList fun _ : α => β) : AList fun _ : α => β :=
  if key ∈ list ∨ size list < capacity then list.insert key value
  else (dropOldest list).insert key value

variable {list : AList fun _ : α => β} {key other : α} {value : β}
  {capacity : Nat}

theorem size_erase_le : size (list.erase key) ≤ size list :=
  (List.kerase_sublist key list.entries).length_le

theorem size_erase_of_mem (member : key ∈ list) :
    size (list.erase key) = size list - 1 := by
  rw [← size_keys, AList.keys_erase, List.length_erase_of_mem member,
    size_keys]

theorem size_insert_of_mem (member : key ∈ list) :
    size (list.insert key value) = size list := by
  have nonempty : 0 < list.keys.length := List.length_pos_of_mem member
  rw [← size_keys, AList.keys_insert, List.length_cons,
    List.length_erase_of_mem member, ← size_keys]
  omega

theorem size_insert_of_notMem (absent : key ∉ list) :
    size (list.insert key value) = size list + 1 := by
  rw [size, AList.entries_insert_of_notMem absent]
  rfl

theorem insertWithin_of_room (room : key ∈ list ∨ size list < capacity) :
    insertWithin capacity key value list = list.insert key value :=
  if_pos room

theorem insertWithin_of_full (absent : key ∉ list)
    (full : capacity ≤ size list) :
    insertWithin capacity key value list =
      (dropOldest list).insert key value := by
  refine if_neg ?_
  rintro (member | room)
  · exact absent member
  · exact Nat.not_lt_of_le full room

theorem dropOldest_eq_erase {oldest : Sigma fun _ : α => β}
    (last : list.entries.getLast? = some oldest) :
    dropOldest list = list.erase oldest.1 := by
  rcases List.getLast?_eq_some_iff.mp last with ⟨newer, split⟩
  have nodup := list.nodupKeys
  rw [split, List.nodupKeys_iff_pairwise, List.pairwise_append] at nodup
  have absent : oldest.1 ∉ newer.keys := by
    intro member
    rcases List.exists_of_mem_keys member with ⟨value, member⟩
    exact nodup.2.2 _ member oldest List.mem_cons_self rfl
  apply AList.ext
  change list.entries.dropLast = list.entries.kerase oldest.1
  rw [split, List.dropLast_concat, List.kerase_append_right absent,
    List.kerase_cons_eq rfl, List.append_nil]

/-! ## Lookups -/

theorem lookup_dropOldest :
    (dropOldest list).lookup key = list.lookup key ∨
      (dropOldest list).lookup key = none := by
  cases found : (dropOldest list).lookup key with
  | none => exact .inr rfl
  | some kept =>
      left
      have member := AList.mem_lookup_iff.mp found
      exact (AList.mem_lookup_iff.mpr
        (List.dropLast_subset list.entries member)).symm

theorem lookup_insertWithin :
    (insertWithin capacity key value list).lookup key = some value := by
  unfold insertWithin
  split <;> exact AList.lookup_insert _

theorem lookup_insertWithin_ne (different : other ≠ key) :
    (insertWithin capacity key value list).lookup other = list.lookup other ∨
      (insertWithin capacity key value list).lookup other = none := by
  unfold insertWithin
  split
  · exact .inl (AList.lookup_insert_ne different)
  · rw [AList.lookup_insert_ne different]
    exact lookup_dropOldest

theorem mem_of_mem_insertWithin
    (member : other ∈ insertWithin capacity key value list) :
    other = key ∨ other ∈ list := by
  by_cases same : other = key
  · exact .inl same
  · right
    rw [← AList.lookup_isSome] at member ⊢
    have outcome : (insertWithin capacity key value list).lookup other = _ ∨ _ :=
      lookup_insertWithin_ne same
    rcases outcome with kept | gone
    · rwa [kept] at member
    · rw [gone] at member
      cases member

theorem size_insertWithin_le (positive : 0 < capacity)
    (within : size list ≤ capacity) :
    size (insertWithin capacity key value list) ≤ capacity := by
  unfold insertWithin
  split
  · rename_i fits
    by_cases member : key ∈ list
    · rwa [size_insert_of_mem member]
    · rw [size_insert_of_notMem member]
      exact fits.resolve_left member
  · rename_i full
    have fewer : (dropOldest list).keys ⊆ list.keys :=
      ((List.dropLast_sublist list.entries).map _).subset
    have absent : key ∉ dropOldest list := fun member =>
      full (.inl (fewer member))
    have dropped : size (dropOldest list) = size list - 1 :=
      List.length_dropLast
    rw [size_insert_of_notMem absent, dropped]
    omega

/-! ## Lists whose entries carry the keys of another list -/

theorem kerase_map {γ δ : Type} [DecidableEq γ]
    {entries : List (Sigma fun _ : α => β)}
    {change : (Sigma fun _ : α => β) → Sigma fun _ : γ => δ} {key : α} {name : γ}
    (same : ∀ entry ∈ entries, key = entry.1 ↔ name = (change entry).1) :
    (entries.kerase key).map change = (entries.map change).kerase name := by
  induction entries with
  | nil => rfl
  | cons head tail induction =>
      have tailSame := induction fun entry member =>
        same entry (List.mem_cons_of_mem _ member)
      have headSame := same head List.mem_cons_self
      by_cases here : key = head.1
      · rw [List.kerase_cons_eq here, List.map_cons,
          List.kerase_cons_eq (headSame.mp here)]
      · rw [List.kerase_cons_ne here, List.map_cons, List.map_cons,
          List.kerase_cons_ne fun found => here (headSame.mpr found), tailSame]

end Foundation.Recency
