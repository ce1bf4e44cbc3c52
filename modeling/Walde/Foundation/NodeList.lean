import Mathlib.Data.List.AList
import Walde.Foundation.KeyedList
import Walde.Foundation.Recency

namespace Foundation.NodeList

/-! # Linked lists with an index of iterators

The nodes of one or several linked lists. A node has an identity of its own,
its address, which an iterator keeps; an index finds the iterator of a name. -/

structure Node (α : Type) where
  address : Nat
  item : α
deriving DecidableEq, Repr

variable {α κ : Type}

/-- The item that an iterator leads to, unless its node is gone. -/
def deref (nodes : List (Node α)) (address : Nat) : Option α :=
  (nodes.find? fun node => node.address = address).map Node.item

def at' (address : Nat) (nodes : List (Node α)) : List (Node α) :=
  nodes.filter fun node => node.address = address

def erase (address : Nat) (nodes : List (Node α)) : List (Node α) :=
  nodes.filter fun node => node.address ≠ address

def toFront (address : Nat) (nodes : List (Node α)) : List (Node α) :=
  at' address nodes ++ erase address nodes

def Node.modify (address : Nat) (change : α → α) (node : Node α) : Node α :=
  if node.address = address then { node with item := change node.item }
  else node

def modify (address : Nat) (change : α → α) (nodes : List (Node α)) :
    List (Node α) :=
  nodes.map (Node.modify address change)

@[simp] theorem Node.modify_address (address : Nat) (change : α → α)
    (node : Node α) : (node.modify address change).address = node.address := by
  rw [Node.modify]
  split <;> rfl

theorem Node.modify_item {β : Type} {view : α → β} {change : α → α}
    (kept : ∀ item, view (change item) = view item) (address : Nat)
    (node : Node α) : view (node.modify address change).item = view node.item := by
  rw [Node.modify]
  split
  · exact kept node.item
  · rfl

theorem toFront_perm (address : Nat) (nodes : List (Node α)) :
    (toFront address nodes).Perm nodes := by
  have split := List.filter_append_perm
    (fun node : Node α => decide (node.address = address)) nodes
  simpa [toFront, at', erase] using split

@[simp] theorem erase_append (address : Nat) (left right : List (Node α)) :
    erase address (left ++ right) = erase address left ++ erase address right :=
  List.filter_append _ _

@[simp] theorem modify_append (address : Nat) (change : α → α)
    (left right : List (Node α)) :
    modify address change (left ++ right) =
      modify address change left ++ modify address change right :=
  List.map_append

theorem erase_eq_self {address : Nat} {nodes : List (Node α)}
    (absent : ∀ node ∈ nodes, node.address ≠ address) :
    erase address nodes = nodes :=
  List.filter_eq_self.mpr (by simpa using absent)

theorem deref_of_mem {nodes : List (Node α)} {node : Node α}
    (addresses : (nodes.map Node.address).Nodup) (member : node ∈ nodes) :
    deref nodes node.address = some node.item := by
  have first : (nodes.find? fun other => other.address = node.address) =
      some node := by
    cases result : nodes.find? fun other => other.address = node.address with
    | none =>
        exact absurd (List.find?_eq_none.mp result node member) (by simp)
    | some other =>
        have same : other.address = node.address := by
          simpa using List.find?_some result
        exact congrArg some (List.inj_on_of_nodup_map addresses
          (List.mem_of_find?_eq_some result) member same)
  rw [deref, first]
  rfl

theorem deref_eq_none {address : Nat} {nodes : List (Node α)}
    (absent : ∀ node ∈ nodes, node.address ≠ address) :
    deref nodes address = none := by
  rw [deref, List.find?_eq_none.mpr (by simpa using absent)]
  rfl

theorem erase_middle {left right : List (Node α)} {node : Node α}
    (addresses : ((left ++ node :: right).map Node.address).Nodup) :
    erase node.address (left ++ node :: right) = left ++ right := by
  rw [List.map_append, List.map_cons, List.nodup_middle, List.nodup_cons,
    List.mem_append, not_or] at addresses
  have apart : ∀ {nodes : List (Node α)},
      node.address ∉ nodes.map Node.address →
      erase node.address nodes = nodes := by
    intro nodes absent
    apply erase_eq_self
    intro other member same
    exact absent (same ▸ List.mem_map_of_mem member)
  have here : erase node.address [node] = [] := by simp [erase]
  rw [List.append_cons, erase_append, erase_append, here, List.append_nil,
    apart addresses.1.1, apart addresses.1.2]

theorem erase_last {nodes : List (Node α)} {node : Node α}
    (addresses : (nodes.map Node.address).Nodup)
    (last : nodes.getLast? = some node) :
    erase node.address nodes = nodes.dropLast := by
  rcases List.eq_nil_or_concat nodes with rfl | ⟨front, other, rfl⟩
  · cases last
  · rw [List.concat_eq_append] at *
    obtain rfl : other = node := by simpa using last
    rw [erase_middle addresses, List.append_nil, List.dropLast_concat]

variable [DecidableEq κ]

/-- The index has for every name the address of the node of that name, and an
address below `next` is never used again. -/
structure Indexed (name : α → κ) (index : AList fun _ : κ => Nat) (next : Nat)
    (nodes : List (Node α)) : Prop where
  addresses : (nodes.map Node.address).Nodup
  found : ∀ key address, index.lookup key = some address ↔
    ∃ node ∈ nodes, node.address = address ∧ name node.item = key
  used : ∀ node ∈ nodes, node.address < next

theorem Indexed.empty (name : α → κ) (next : Nat) :
    Indexed name ∅ next ([] : List (Node α)) where
  addresses := List.nodup_nil
  found := by simp
  used := by simp

section Indexed

variable {name : α → κ} {index : AList fun _ : κ => Nat} {next address : Nat}
  {nodes other : List (Node α)} {key : κ} {node : Node α}

theorem Indexed.perm (indexed : Indexed name index next nodes)
    (same : nodes.Perm other) : Indexed name index next other where
  addresses := (same.map _).nodup_iff.mp indexed.addresses
  found key address := by simp only [indexed.found, same.mem_iff]
  used node member := indexed.used node (same.mem_iff.mpr member)

theorem Indexed.lookup_of_mem (indexed : Indexed name index next nodes)
    (member : node ∈ nodes) :
    index.lookup (name node.item) = some node.address :=
  (indexed.found _ _).mpr ⟨node, member, rfl, rfl⟩

theorem Indexed.lookup_eq_none (indexed : Indexed name index next nodes) :
    index.lookup key = none ↔ ∀ node ∈ nodes, name node.item ≠ key := by
  constructor
  · rintro absent node member rfl
    rw [indexed.lookup_of_mem member] at absent
    cases absent
  · intro absent
    apply Option.eq_none_iff_forall_ne_some.mpr
    intro address found
    rcases (indexed.found key address).mp found with ⟨node, member, -, same⟩
    exact absent node member same

theorem Indexed.address_iff (indexed : Indexed name index next nodes)
    (found : index.lookup key = some address) (member : node ∈ nodes) :
    node.address = address ↔ name node.item = key := by
  have here := indexed.lookup_of_mem member
  constructor
  · rintro rfl
    rcases (indexed.found key _).mp found with ⟨other, member', same, rfl⟩
    rw [List.inj_on_of_nodup_map indexed.addresses member' member same]
  · rintro rfl
    rw [here] at found
    exact Option.some.inj found

theorem Indexed.names (indexed : Indexed name index next nodes) :
    (nodes.map fun node => name node.item).Nodup := by
  have nodes' : nodes.Nodup := indexed.addresses.of_map _
  refine nodes'.map_on fun left leftMember right rightMember same => ?_
  have leftFound := indexed.lookup_of_mem leftMember
  rw [same, indexed.lookup_of_mem rightMember] at leftFound
  exact List.inj_on_of_nodup_map indexed.addresses leftMember rightMember
    (Option.some.inj leftFound).symm

theorem Indexed.size (indexed : Indexed name index next nodes) :
    Recency.size index = nodes.length := by
  have same : index.keys.Perm (nodes.map fun node => name node.item) := by
    rw [List.perm_ext_iff_of_nodup index.keys_nodup indexed.names]
    intro key
    change key ∈ index ↔ _
    rw [← AList.lookup_isSome, Option.isSome_iff_exists, List.mem_map]
    simp only [indexed.found]
    constructor
    · rintro ⟨_, node, member, -, same⟩
      exact ⟨node, member, same⟩
    · rintro ⟨node, member, same⟩
      exact ⟨_, node, member, rfl, same⟩
  rw [← Recency.size_keys, same.length_eq, List.length_map]

theorem Indexed.deref (indexed : Indexed name index next nodes)
    (member : node ∈ nodes) :
    deref nodes node.address = some node.item :=
  deref_of_mem indexed.addresses member

theorem Indexed.of_labels (indexed : Indexed name index next nodes)
    (same : (nodes.map fun node => (node.address, name node.item)).Perm
      (other.map fun node => (node.address, name node.item))) :
    Indexed name index next other where
  addresses := by
    have addresses := same.map Prod.fst
    rw [List.map_map, List.map_map] at addresses
    exact addresses.nodup_iff.mp indexed.addresses
  found key address := by
    have labels : ∀ nodes : List (Node α),
        (∃ node ∈ nodes, node.address = address ∧ name node.item = key) ↔
          (address, key) ∈
            nodes.map fun node => (node.address, name node.item) := by
      intro nodes
      simp only [List.mem_map, Prod.mk.injEq]
    rw [indexed.found, labels, labels, same.mem_iff]
  used node member := by
    have label := same.mem_iff.mpr (List.mem_map_of_mem member)
    rcases List.mem_map.mp label with ⟨before, member, equal⟩
    rw [← (Prod.mk.inj equal).1]
    exact indexed.used before member

theorem Indexed.reinsert (indexed : Indexed name index next nodes)
    (found : index.lookup key = some address) :
    Indexed name (index.insert key address) next nodes where
  addresses := indexed.addresses
  found other otherAddress := by
    rw [← indexed.found]
    by_cases same : other = key
    · subst same
      rw [AList.lookup_insert, found]
    · rw [AList.lookup_insert_ne same]
  used := indexed.used

theorem Indexed.push (indexed : Indexed name index next nodes) (item : α)
    (absent : index.lookup (name item) = none) :
    Indexed name (index.insert (name item) next) (next + 1)
      (⟨next, item⟩ :: nodes) where
  addresses := by
    rw [List.map_cons, List.nodup_cons]
    refine ⟨?_, indexed.addresses⟩
    intro member
    rcases List.mem_map.mp member with ⟨node, member, same⟩
    exact Nat.ne_of_lt (indexed.used node member) same
  found := by
    intro key address
    by_cases same : key = name item
    · subst same
      rw [AList.lookup_insert, Option.some.injEq]
      constructor
      · rintro rfl
        exact ⟨_, List.mem_cons_self, rfl, rfl⟩
      · rintro ⟨node, member, rfl, sameName⟩
        rcases List.mem_cons.mp member with rfl | member
        · rfl
        · exact absurd sameName (indexed.lookup_eq_none.mp absent node member)
    · rw [AList.lookup_insert_ne same, indexed.found]
      constructor
      · rintro ⟨node, member, here⟩
        exact ⟨node, List.mem_cons_of_mem _ member, here⟩
      · rintro ⟨node, member, sameAddress, rfl⟩
        rcases List.mem_cons.mp member with rfl | member
        · exact absurd rfl same
        · exact ⟨node, member, sameAddress, rfl⟩
  used := by
    intro node member
    rcases List.mem_cons.mp member with rfl | member
    · exact Nat.lt_succ_self _
    · exact Nat.lt_succ_of_lt (indexed.used node member)

theorem Indexed.erase (indexed : Indexed name index next nodes)
    (found : index.lookup key = some address) :
    Indexed name (index.erase key) next (erase address nodes) where
  addresses :=
    indexed.addresses.sublist (List.filter_sublist.map Node.address)
  found := by
    intro other otherAddress
    have split : (∃ node ∈ NodeList.erase address nodes,
        node.address = otherAddress ∧ name node.item = other) ↔
        other ≠ key ∧ ∃ node ∈ nodes,
          node.address = otherAddress ∧ name node.item = other := by
      simp only [NodeList.erase, List.mem_filter, decide_eq_true_eq]
      constructor
      · rintro ⟨node, ⟨member, different⟩, sameAddress, rfl⟩
        exact ⟨mt (indexed.address_iff found member).mpr different, node,
          member, sameAddress, rfl⟩
      · rintro ⟨different, node, member, sameAddress, rfl⟩
        exact ⟨node, ⟨member,
          mt (indexed.address_iff found member).mp different⟩, sameAddress, rfl⟩
    rw [split, ← indexed.found]
    by_cases same : other = key
    · subst same
      rw [AList.lookup_erase]
      simp
    · rw [AList.lookup_erase_ne same]
      simp [same]
  used node member := indexed.used node (List.mem_of_mem_filter member)

theorem Indexed.modify (indexed : Indexed name index next nodes)
    {change : α → α} (kept : ∀ item, name (change item) = name item)
    (address : Nat) :
    Indexed name index next (modify address change nodes) where
  addresses := by
    rw [NodeList.modify, List.map_map]
    have same : Node.address ∘ Node.modify address change = Node.address := by
      funext node
      exact Node.modify_address address change node
    rw [same]
    exact indexed.addresses
  found := by
    intro key other
    rw [indexed.found]
    constructor
    · rintro ⟨node, member, sameAddress, sameName⟩
      refine ⟨node.modify address change, List.mem_map_of_mem member, ?_, ?_⟩
      · rw [Node.modify_address, sameAddress]
      · rw [Node.modify_item kept, sameName]
    · rintro ⟨_, member, sameAddress, sameName⟩
      rcases List.mem_map.mp member with ⟨node, inNodes, rfl⟩
      rw [Node.modify_address] at sameAddress
      rw [Node.modify_item kept] at sameName
      exact ⟨node, inNodes, sameAddress, sameName⟩
  used := by
    intro node member
    rcases List.mem_map.mp member with ⟨before, inNodes, rfl⟩
    rw [Node.modify_address]
    exact indexed.used before inNodes

end Indexed

/-! ## Nodes as entries -/

section Entries

variable {ν : Type} {view : α → κ × ν} {nodes : List (Node α)} {address : Nat}
  {key : κ}

omit [DecidableEq κ] in
def entries (view : α → κ × ν) (nodes : List (Node α)) : List (κ × ν) :=
  nodes.map fun node => view node.item

theorem entries_at'
    (same : ∀ node ∈ nodes, node.address = address ↔ (view node.item).1 = key) :
    entries view (at' address nodes) = KeyedList.named key (entries view nodes) := by
  rw [entries, entries, at', KeyedList.named, List.filter_map]
  congr 1
  apply List.filter_congr
  intro node member
  exact decide_eq_decide.mpr (same node member)

theorem entries_erase
    (same : ∀ node ∈ nodes, node.address = address ↔ (view node.item).1 = key) :
    entries view (erase address nodes) =
      KeyedList.without key (entries view nodes) := by
  rw [entries, entries, erase, KeyedList.without, List.filter_map]
  congr 1
  apply List.filter_congr
  intro node member
  exact decide_eq_decide.mpr (not_congr (same node member))

theorem entries_toFront
    (same : ∀ node ∈ nodes, node.address = address ↔ (view node.item).1 = key) :
    entries view (toFront address nodes) =
      KeyedList.moveToFront key (entries view nodes) := by
  rw [KeyedList.moveToFront, ← entries_at' same, ← entries_erase same]
  exact List.map_append

theorem entries_modify
    (same : ∀ node ∈ nodes, node.address = address ↔ (view node.item).1 = key)
    {value : ν} {change : α → α}
    (changed : ∀ item, view (change item) = ((view item).1, value)) :
    entries view (modify address change nodes) =
      KeyedList.assign key value (entries view nodes) := by
  rw [entries, entries, modify, KeyedList.assign, List.map_map, List.map_map]
  apply List.map_congr_left
  intro node member
  simp only [Function.comp_apply, Node.modify]
  by_cases here : node.address = address
  · rw [if_pos here, if_pos ((same node member).mp here), changed,
      (same node member).mp here]
  · rw [if_neg here, if_neg (mt (same node member).mpr here)]

end Entries

end Foundation.NodeList
