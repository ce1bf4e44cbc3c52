import Walde.PolicySegments
import Walde.WTinyLfuCache

namespace Walde

open Foundation
open Foundation.NodeList (Node Indexed)

/-! # The baseline as a segmented cache

Every operation does to the entries of the three lists what the segmented cache
does, and keeps the map in step with the nodes. -/

def TinyLfuEntry.entry (entry : TinyLfuEntry) : Entry := (entry.key, entry.value)

namespace WTinyLfuCache

def entries (nodes : List (Node TinyLfuEntry)) : List Entry :=
  NodeList.entries TinyLfuEntry.entry nodes

def segments (cache : WTinyLfuCache) : Segments Key Value where
  window := entries cache.window
  probation := entries cache.probation
  protected_ := entries cache.protected_

def limits (cache : WTinyLfuCache) : SegmentLimits where
  window := cache.windowCapacity
  main := (cache.probationCapacity + cache.protectedCapacity) % uint32Size
  protected_ := cache.protectedCapacity

def beats (cache : WTinyLfuCache) (candidate victim : Key) : Bool :=
  TinyLfuSketch.estimate cache.cms candidate >
    TinyLfuSketch.estimate cache.cms victim

/-! ## Nodes and keys -/

theorem mem_nodes {cache : WTinyLfuCache} {node : Node TinyLfuEntry} :
    node ∈ cache.nodes ↔ ∃ place, node ∈ cache.nodesAt place := by
  simp only [nodes, List.mem_append]
  constructor
  · rintro (member | member | member)
    · exact ⟨.window, member⟩
    · exact ⟨.probation, member⟩
    · exact ⟨.protected_, member⟩
  · rintro ⟨place, member⟩
    cases place with
    | window => exact .inl member
    | probation => exact .inr (.inl member)
    | protected_ => exact .inr (.inr member)

theorem mem_keys_entries {nodes : List (Node TinyLfuEntry)} {key : Key} :
    key ∈ KeyedList.keys (entries nodes) ↔
      ∃ node ∈ nodes, node.item.key = key := by
  simp [KeyedList.keys, entries, NodeList.entries, TinyLfuEntry.entry]

theorem entries_append (left right : List (Node TinyLfuEntry)) :
    entries (left ++ right) = entries left ++ entries right := List.map_append

theorem getLast?_entries (nodes : List (Node TinyLfuEntry)) :
    (entries nodes).getLast? =
      nodes.getLast?.map fun node => node.item.entry :=
  List.getLast?_map

theorem dropLast_entries (nodes : List (Node TinyLfuEntry)) :
    (entries nodes).dropLast = entries nodes.dropLast :=
  List.map_dropLast.symm

theorem entries_nodes (cache : WTinyLfuCache) :
    cache.segments.entries = entries cache.nodes := by
  rw [nodes, entries_append, entries_append]
  rfl

theorem mem_keys {cache : WTinyLfuCache} {key : Key} :
    key ∈ cache.segments.keys ↔ ∃ node ∈ cache.nodes, node.item.key = key := by
  rw [Segments.keys, entries_nodes, mem_keys_entries]

/-- The map finds every node of the lists, and the tag of a node names the list
that it is on. -/
structure Linked (cache : WTinyLfuCache) : Prop where
  indexed : Indexed TinyLfuEntry.key cache.map cache.nextAddress cache.nodes
  tag : ∀ place, ∀ node ∈ cache.nodesAt place, node.item.segment = place

structure Becomes (cache after : WTinyLfuCache)
    (segments : Segments Key Value) (stats : StripeStats) : Prop where
  linked : after.Linked
  segments : after.segments = segments
  stats : after.stats = stats
  limits : after.limits = cache.limits
  ready : cache.doorkeeper.Ready → after.doorkeeper.Ready

section Linked

variable {cache : WTinyLfuCache} {key : Key} {it : Nat}
  {node other : Node TinyLfuEntry}

theorem Linked.lookup_eq_none (linked : cache.Linked) :
    cache.map.lookup key = none ↔ key ∉ cache.segments.keys := by
  rw [linked.indexed.lookup_eq_none, mem_keys]
  simp

theorem Linked.place_unique (linked : cache.Linked) {place place' : Place}
    (member : node ∈ cache.nodesAt place)
    (member' : other ∈ cache.nodesAt place')
    (same : node.item.key = other.item.key) : place = place' := by
  have equal : node = other := List.inj_on_of_nodup_map linked.indexed.names
    (mem_nodes.mpr ⟨place, member⟩) (mem_nodes.mpr ⟨place', member'⟩) same
  rw [← linked.tag place node member, equal, linked.tag place' other member']

theorem Linked.mem_keys_iff (linked : cache.Linked) {place : Place}
    (place' : Place) (member : node ∈ cache.nodesAt place) :
    node.item.key ∈ KeyedList.keys (entries (cache.nodesAt place')) ↔
      place' = place := by
  rw [mem_keys_entries]
  constructor
  · rintro ⟨other, member', same⟩
    exact linked.place_unique member' member same
  · rintro rfl
    exact ⟨node, member, rfl⟩

theorem Linked.address_iff (linked : cache.Linked)
    (found : cache.map.lookup key = some it) (place : Place) :
    ∀ node ∈ cache.nodesAt place, node.address = it ↔
      (TinyLfuEntry.entry node.item).1 = key := fun _ member =>
  linked.indexed.address_iff found (mem_nodes.mpr ⟨place, member⟩)

theorem nodesAt_sublist (cache : WTinyLfuCache) (place : Place) :
    (cache.nodesAt place).Sublist cache.nodes := by
  cases place with
  | window => exact List.sublist_append_left _ _
  | probation =>
      exact (List.sublist_append_left _ _).trans (List.sublist_append_right _ _)
  | protected_ =>
      exact (List.sublist_append_right _ _).trans (List.sublist_append_right _ _)

theorem Linked.addresses_at (linked : cache.Linked) (place : Place) :
    ((cache.nodesAt place).map Node.address).Nodup :=
  linked.indexed.addresses.sublist ((cache.nodesAt_sublist place).map _)

theorem Linked.keys_at (linked : cache.Linked) (place : Place) :
    (KeyedList.keys (entries (cache.nodesAt place))).Nodup := by
  rw [KeyedList.keys, entries, NodeList.entries, List.map_map]
  exact linked.indexed.names.sublist ((cache.nodesAt_sublist place).map _)

theorem Linked.reordered (linked : cache.Linked) {after : WTinyLfuCache}
    {place : Place} {list : List (Node TinyLfuEntry)}
    (perm : list.Perm (cache.nodesAt place))
    (lists : after.nodesAt = Function.update cache.nodesAt place list)
    (map : after.map = cache.map)
    (next : after.nextAddress = cache.nextAddress) :
    after.Linked ∧ after.nodes.Perm cache.nodes := by
  have everywhere : ∀ other,
      (after.nodesAt other).Perm (cache.nodesAt other) := by
    intro other
    rw [lists]
    by_cases same : other = place
    · rw [same, Function.update_self]
      exact perm
    · rw [Function.update_of_ne same]
  have all : after.nodes.Perm cache.nodes :=
    (everywhere .window).append
      ((everywhere .probation).append (everywhere .protected_))
  refine ⟨⟨?_, ?_⟩, all⟩
  · rw [map, next]
    exact linked.indexed.perm all.symm
  · intro other node member
    exact linked.tag other node ((everywhere other).mem_iff.mp member)

theorem Linked.erased (linked : cache.Linked) {place : Place}
    (member : node ∈ cache.nodesAt place) {after : WTinyLfuCache}
    (lists : after.nodesAt = Function.update cache.nodesAt place
      (NodeList.erase node.address (cache.nodesAt place)))
    (map : after.map = cache.map.erase node.item.key)
    (next : after.nextAddress = cache.nextAddress) :
    after.Linked ∧ after.nodes = NodeList.erase node.address cache.nodes := by
  have inNodes : node ∈ cache.nodes := mem_nodes.mpr ⟨place, member⟩
  have found := linked.indexed.lookup_of_mem inNodes
  have everywhere : ∀ other, after.nodesAt other =
      NodeList.erase node.address (cache.nodesAt other) := by
    intro other
    rw [lists]
    by_cases same : other = place
    · rw [same, Function.update_self]
    · rw [Function.update_of_ne same]
      refine (NodeList.erase_eq_self fun other' inOther sameAddress => ?_).symm
      exact same (linked.place_unique inOther member
        ((linked.address_iff found other other' inOther).mp sameAddress))
  have rest : after.nodes = NodeList.erase node.address cache.nodes := by
    rw [nodes, nodes, NodeList.erase_append, NodeList.erase_append]
    exact congrArg₂ _ (everywhere .window)
      (congrArg₂ _ (everywhere .probation) (everywhere .protected_))
  refine ⟨⟨?_, ?_⟩, rest⟩
  · rw [map, next, rest]
    exact linked.indexed.erase found
  · intro other other' inOther
    rw [everywhere] at inOther
    exact linked.tag other other' (List.mem_of_mem_filter inOther)

theorem nodes_perm_of_push {after : WTinyLfuCache} {place : Place}
    (lists : after.nodesAt =
      Function.update cache.nodesAt place (node :: cache.nodesAt place)) :
    (node :: cache.nodes).Perm after.nodes := by
  have shape : after.nodes = after.nodesAt .window ++
      (after.nodesAt .probation ++ after.nodesAt .protected_) := rfl
  rw [shape, lists]
  cases place with
  | window => exact .refl _
  | probation =>
      have middle : (cache.window ++
          node :: (cache.probation ++ cache.protected_)).Perm
            (node :: cache.nodes) := List.perm_middle
      exact middle.symm
  | protected_ =>
      have middle : (cache.window ++ cache.probation ++
          node :: cache.protected_).Perm
            (node :: (cache.window ++ cache.probation ++ cache.protected_)) :=
        List.perm_middle
      rw [List.append_assoc, List.append_assoc] at middle
      exact middle.symm

theorem Linked.pushed (linked : cache.Linked) (entry : TinyLfuEntry)
    (absent : cache.map.lookup entry.key = none) {after : WTinyLfuCache}
    (lists : after.nodesAt = Function.update cache.nodesAt entry.segment
      (⟨cache.nextAddress, entry⟩ :: cache.nodesAt entry.segment))
    (map : after.map = cache.map.insert entry.key cache.nextAddress)
    (next : after.nextAddress = cache.nextAddress + 1) :
    after.Linked ∧
      (⟨cache.nextAddress, entry⟩ :: cache.nodes).Perm after.nodes := by
  have perm := nodes_perm_of_push lists
  refine ⟨⟨?_, ?_⟩, perm⟩
  · rw [map, next]
    exact (linked.indexed.push entry absent).perm perm
  · intro place node member
    rw [lists] at member
    by_cases same : place = entry.segment
    · rw [same, Function.update_self] at member
      rcases List.mem_cons.mp member with rfl | inside
      · exact same.symm
      · exact (linked.tag entry.segment node inside).trans same.symm
    · rw [Function.update_of_ne same] at member
      exact linked.tag place node member

end Linked

/-! ## Promotion -/

section Promotion

variable {cache : WTinyLfuCache} {key : Key} {it : Nat}
  {node : Node TinyLfuEntry}

def label (node : Node TinyLfuEntry) : Nat × Key := (node.address, node.item.key)

theorem demoted_perm (window probation front : List (Node TinyLfuEntry))
    {demoted moved : Node TinyLfuEntry} (same : label moved = label demoted) :
    ((window ++ (moved :: probation ++ front)).map label).Perm
      ((window ++ (probation ++ (front ++ [demoted]))).map label) := by
  have main : ((moved :: probation ++ front).map label).Perm
      ((probation ++ (front ++ [demoted])).map label) := by
    rw [← List.append_assoc, List.cons_append, List.map_cons, same]
    exact ((List.perm_append_singleton demoted _).map label).symm
  simpa only [List.map_append] using main.append_left (window.map label)

theorem Linked.makeRoomInProtected (linked : cache.Linked)
    (roomy : 1 ≤ cache.protectedCapacity) :
    ∃ after, cache.makeRoomInProtected = some after ∧
      cache.Becomes after (cache.segments.makeRoom cache.protectedCapacity)
        cache.stats ∧
      (after.nodes.map label).Perm (cache.nodes.map label) ∧
      after.nextAddress = cache.nextAddress := by
  have length : cache.segments.protected_.length = cache.protected_.length :=
    List.length_map _
  by_cases full : cache.protectedCapacity ≤ cache.protected_.length
  · rcases List.eq_nil_or_concat cache.protected_ with
      empty | ⟨front, demoted, shape⟩
    · rw [empty, List.length_nil] at full
      omega
    · rw [List.concat_eq_append] at shape
      have last : cache.protected_.getLast? = some demoted := by simp [shape]
      have rest : cache.protected_.dropLast = front := by simp [shape]
      let moved : Node TinyLfuEntry :=
        { demoted with item := { demoted.item with segment := .probation } }
      let after : WTinyLfuCache := { cache with
        probation := moved :: cache.probation
        protected_ := front
        map := cache.map.insert demoted.item.key demoted.address }
      have labels : (after.nodes.map label).Perm (cache.nodes.map label) := by
        have before : cache.nodes =
            cache.window ++ (cache.probation ++ (front ++ [demoted])) := by
          rw [← shape]
          rfl
        rw [before]
        exact demoted_perm cache.window cache.probation front rfl
      have inNodes : demoted ∈ cache.nodes := by simp [nodes, shape]
      refine ⟨after, ?_, ⟨⟨?_, ?_⟩, ?_, rfl, rfl, id⟩, labels, rfl⟩
      · rw [WTinyLfuCache.makeRoomInProtected, if_pos full, last, rest]
        rfl
      · exact (linked.indexed.reinsert
          (linked.indexed.lookup_of_mem inNodes)).of_labels labels.symm
      · intro place other member
        cases place with
        | window => exact linked.tag .window other member
        | probation =>
            rcases List.mem_cons.mp member with rfl | member
            · rfl
            · exact linked.tag .probation other member
        | protected_ =>
            apply linked.tag .protected_ other
            change other ∈ cache.protected_
            rw [shape]
            exact List.mem_append_left _ member
      · have lastEntry : cache.segments.protected_.getLast? = _ :=
          getLast?_entries cache.protected_
        have restEntries : cache.segments.protected_.dropLast = _ :=
          dropLast_entries cache.protected_
        rw [Segments.makeRoom, if_pos (by omega), lastEntry, restEntries, last,
          rest]
        rfl
  · refine ⟨cache, ?_, ⟨linked, ?_, rfl, rfl, id⟩, .refl _, rfl⟩
    · rw [WTinyLfuCache.makeRoomInProtected, if_neg full]
    · rw [Segments.makeRoom, if_neg (by omega)]

theorem Linked.gone (linked : cache.Linked) (inNodes : node ∈ cache.nodes)
    {nodes : List (Node TinyLfuEntry)}
    (labels : (nodes.map label).Perm
      ((NodeList.erase node.address cache.nodes).map label)) :
    ∀ other ∈ nodes, other.address ≠ node.address ∧
      other.item.key ≠ node.item.key := by
  intro other member
  have found := linked.indexed.lookup_of_mem inNodes
  have inLabels := labels.mem_iff.mp (List.mem_map_of_mem member)
  rcases List.mem_map.mp inLabels with ⟨before, rest, equal⟩
  obtain ⟨sameAddress, sameKey⟩ := Prod.mk.inj equal
  rw [NodeList.erase, List.mem_filter, decide_eq_true_eq] at rest
  rw [← sameAddress, ← sameKey]
  exact ⟨rest.2, mt (linked.indexed.address_iff found rest.1).mpr rest.2⟩

theorem Linked.promoteToProtected (linked : cache.Linked)
    (roomy : 1 ≤ cache.protectedCapacity) (member : node ∈ cache.probation) :
    ∃ after, cache.promoteToProtected node.address = some after ∧
      cache.Becomes after
        (cache.segments.promote cache.protectedCapacity node.item.key)
        cache.stats ∧
      NodeList.deref after.nodes node.address = none := by
  have inNodes : node ∈ cache.nodes := mem_nodes.mpr ⟨.probation, member⟩
  have found := linked.indexed.lookup_of_mem inNodes
  have deref : NodeList.deref cache.probation node.address = some node.item :=
    NodeList.deref_of_mem (linked.addresses_at .probation) member
  let middle : WTinyLfuCache := { cache with
    map := cache.map.erase node.item.key
    probation := NodeList.erase node.address cache.probation }
  have onList : node ∈ cache.nodesAt .probation := member
  have lists : middle.nodesAt = Function.update cache.nodesAt .probation
      (NodeList.erase node.address cache.probation) := by
    funext other
    cases other <;> rfl
  have erased := linked.erased onList lists rfl rfl
  rcases erased.1.makeRoomInProtected roomy with
    ⟨spacious, made, becomes, labels, next⟩
  rw [erased.2] at labels
  have gone := linked.gone inNodes labels
  have absent : spacious.map.lookup node.item.key = none :=
    becomes.linked.indexed.lookup_eq_none.mpr fun other inSpacious =>
      (gone other inSpacious).2
  let entry : TinyLfuEntry := { node.item with segment := .protected_ }
  let after : WTinyLfuCache := { spacious with
    protected_ := ⟨spacious.nextAddress, entry⟩ :: spacious.protected_
    map := spacious.map.insert entry.key spacious.nextAddress
    nextAddress := spacious.nextAddress + 1 }
  have lists' : after.nodesAt = Function.update spacious.nodesAt .protected_
      (⟨spacious.nextAddress, entry⟩ :: spacious.protected_) := by
    funext other
    cases other <;> rfl
  have pushed := becomes.linked.pushed entry absent lists' rfl rfl
  refine ⟨after, ?_, ⟨pushed.1, ?_, becomes.stats, becomes.limits,
    becomes.ready⟩, ?_⟩
  · rw [WTinyLfuCache.promoteToProtected, deref]
    change (middle.makeRoomInProtected >>= _) = _
    rw [made]
    rfl
  · have without : middle.segments = { cache.segments with
        probation :=
          KeyedList.without node.item.key cache.segments.probation } :=
      congrArg (fun probation => ({ cache.segments with probation } :
          Segments Key Value))
        (NodeList.entries_erase (linked.address_iff found .probation))
    have named : KeyedList.named node.item.key cache.segments.probation =
        [TinyLfuEntry.entry node.item] :=
      KeyedList.named_eq_singleton (linked.keys_at .probation)
        (List.mem_map_of_mem member)
    change Segments.mk spacious.segments.window spacious.segments.probation
      (TinyLfuEntry.entry node.item :: spacious.segments.protected_) = _
    rw [becomes.segments, without, Segments.promote, named]
    rfl
  · apply NodeList.deref_eq_none
    intro other inAfter
    rcases List.mem_cons.mp (pushed.2.mem_iff.mpr inAfter) with rfl | inSpacious
    · have used := linked.indexed.used node inNodes
      change spacious.nextAddress ≠ node.address
      rw [next]
      exact Nat.ne_of_gt used
    · exact (gone other inSpacious).1

theorem Linked.spliced (linked : cache.Linked) {place : Place}
    (member : node ∈ cache.nodesAt place) {after : WTinyLfuCache}
    (lists : after.nodesAt = Function.update cache.nodesAt place
      (NodeList.toFront node.address (cache.nodesAt place)))
    (map : after.map = cache.map)
    (next : after.nextAddress = cache.nextAddress) :
    after.Linked ∧ NodeList.deref after.nodes node.address = some node.item := by
  have inNodes : node ∈ cache.nodes := mem_nodes.mpr ⟨place, member⟩
  have reordered := linked.reordered
    (NodeList.toFront_perm node.address (cache.nodesAt place)) lists map next
  have inAfter : node ∈ after.nodes := reordered.2.mem_iff.mpr inNodes
  exact ⟨reordered.1, reordered.1.indexed.deref inAfter⟩

/-- A use of a node. Of a node in probation nothing is left to be read. -/
theorem Linked.moveWithinSegment (linked : cache.Linked)
    (roomy : 1 ≤ cache.protectedCapacity) {place : Place}
    (member : node ∈ cache.nodesAt place) :
    ∃ after, cache.moveWithinSegment node.address place = some after ∧
      cache.Becomes after
        (cache.segments.touch cache.protectedCapacity node.item.key)
        cache.stats ∧
      NodeList.deref after.nodes node.address =
        if place = .probation then none else some node.item := by
  have inNodes : node ∈ cache.nodes := mem_nodes.mpr ⟨place, member⟩
  have found := linked.indexed.lookup_of_mem inNodes
  have deref := NodeList.deref_of_mem (linked.addresses_at place) member
  have toFront := NodeList.entries_toFront (linked.address_iff found place)
  have inWindow : node.item.key ∈ KeyedList.keys cache.segments.window ↔
      .window = place := linked.mem_keys_iff .window member
  have inProbation : node.item.key ∈ KeyedList.keys cache.segments.probation ↔
      .probation = place := linked.mem_keys_iff .probation member
  cases place with
  | window =>
      let after : WTinyLfuCache := { cache with
        window := NodeList.toFront node.address cache.window }
      have lists : after.nodesAt = Function.update cache.nodesAt .window
          (NodeList.toFront node.address cache.window) := by
        funext other
        cases other <;> rfl
      have spliced := linked.spliced member lists rfl rfl
      refine ⟨after, ?_, ⟨spliced.1, ?_, rfl, rfl, id⟩, spliced.2⟩
      · change (NodeList.deref cache.window _ >>= _) = _
        change NodeList.deref cache.window _ = _ at deref
        rw [deref]
        rfl
      · rw [Segments.touch, if_pos (inWindow.mpr rfl)]
        exact congrArg (fun window => ({ cache.segments with window } :
          Segments Key Value)) toFront
  | probation =>
      rcases linked.promoteToProtected roomy member with
        ⟨after, promoted, becomes, erased⟩
      refine ⟨after, promoted, ?_, erased⟩
      rw [Segments.touch, if_neg (mt inWindow.mp (by simp)),
        if_pos (inProbation.mpr rfl)]
      exact becomes
  | protected_ =>
      let after : WTinyLfuCache := { cache with
        protected_ := NodeList.toFront node.address cache.protected_ }
      have lists : after.nodesAt = Function.update cache.nodesAt .protected_
          (NodeList.toFront node.address cache.protected_) := by
        funext other
        cases other <;> rfl
      have spliced := linked.spliced member lists rfl rfl
      refine ⟨after, ?_, ⟨spliced.1, ?_, rfl, rfl, id⟩, spliced.2⟩
      · change (NodeList.deref cache.protected_ _ >>= _) = _
        change NodeList.deref cache.protected_ _ = _ at deref
        rw [deref]
        rfl
      · rw [Segments.touch, if_neg (mt inWindow.mp (by simp)),
          if_neg (mt inProbation.mp (by simp))]
        exact congrArg (fun protected_ => ({ cache.segments with protected_ } :
          Segments Key Value)) toFront

theorem Linked.assign (linked : cache.Linked)
    (found : cache.map.lookup key = some it) (value : Value) :
    cache.Becomes (cache.assign it value)
      (cache.segments.overwrite (key, value)) cache.stats := by
  let change : TinyLfuEntry → TinyLfuEntry := fun entry => { entry with value }
  have keeps : ∀ entry, (change entry).key = entry.key := fun _ => rfl
  have keepsTag : ∀ entry, (change entry).segment = entry.segment := fun _ => rfl
  have changed : ∀ entry, (change entry).entry = (entry.entry.1, value) :=
    fun _ => rfl
  have nodesAt : ∀ place, (cache.assign it value).nodesAt place =
      NodeList.modify it change (cache.nodesAt place) := by
    intro place
    cases place <;> rfl
  have assigned : ∀ place, entries (NodeList.modify it change
      (cache.nodesAt place)) =
        KeyedList.assign key value (entries (cache.nodesAt place)) :=
    fun place => NodeList.entries_modify (linked.address_iff found place) changed
  refine ⟨⟨?_, ?_⟩, ?_, rfl, rfl, id⟩
  · have indexed := linked.indexed.modify keeps it
    rw [nodes, NodeList.modify_append, NodeList.modify_append] at indexed
    exact indexed
  · intro place other member
    rw [nodesAt] at member
    rcases List.mem_map.mp member with ⟨before, inside, rfl⟩
    exact (Node.modify_item keepsTag it before).trans
      (linked.tag place before inside)
  · exact Segments.ext (assigned .window) (assigned .probation)
      (assigned .protected_)

end Promotion

/-! ## Admission -/

section Admission

variable {cache : WTinyLfuCache} {key : Key}
  {candidate victim : Node TinyLfuEntry}

theorem Linked.dropCandidate (linked : cache.Linked)
    (last : cache.window.getLast? = some candidate) :
    cache.Becomes (cache.dropCandidate candidate.item)
      { cache.segments with window := cache.segments.window.dropLast }
      cache.stats := by
  have member : candidate ∈ cache.nodesAt .window := List.mem_of_getLast? last
  have erased := NodeList.erase_last (linked.addresses_at .window) last
  have lists : (cache.dropCandidate candidate.item).nodesAt =
      Function.update cache.nodesAt .window
        (NodeList.erase candidate.address (cache.nodesAt .window)) := by
    rw [erased]
    funext other
    cases other <;> rfl
  refine ⟨(linked.erased member lists rfl rfl).1, ?_, rfl, rfl, id⟩
  change _ = Segments.mk (entries cache.window).dropLast _ _
  rw [dropLast_entries]
  rfl

theorem Linked.evictVictim (linked : cache.Linked)
    (last : cache.probation.getLast? = some victim) :
    cache.Becomes (cache.evictVictim victim.item)
      { cache.segments with probation := cache.segments.probation.dropLast }
      { cache.stats with evictions := cache.stats.evictions + 1 } := by
  have member : victim ∈ cache.nodesAt .probation := List.mem_of_getLast? last
  have erased := NodeList.erase_last (linked.addresses_at .probation) last
  have lists : (cache.evictVictim victim.item).nodesAt =
      Function.update cache.nodesAt .probation
        (NodeList.erase victim.address (cache.nodesAt .probation)) := by
    rw [erased]
    funext other
    cases other <;> rfl
  refine ⟨(linked.erased member lists rfl rfl).1, ?_, rfl, rfl, id⟩
  change _ = Segments.mk _ (entries cache.probation).dropLast _
  rw [dropLast_entries]
  rfl

theorem Linked.admitCandidate (linked : cache.Linked) (entry : TinyLfuEntry)
    (absent : cache.map.lookup entry.key = none) :
    cache.Becomes (cache.admitCandidate entry)
      { cache.segments with
        probation := entry.entry :: cache.segments.probation }
      { cache.stats with admissions := cache.stats.admissions + 1 } := by
  let admitted : TinyLfuEntry := { entry with segment := .probation }
  have lists : (cache.admitCandidate entry).nodesAt =
      Function.update cache.nodesAt .probation
        (⟨cache.nextAddress, admitted⟩ :: cache.probation) := by
    funext other
    cases other <;> rfl
  have pushed := linked.pushed admitted absent lists rfl rfl
  exact ⟨pushed.1, rfl, rfl, rfl, id⟩

theorem Linked.pushWindow (linked : cache.Linked) (value : Value)
    (absent : cache.map.lookup key = none) :
    cache.Becomes (cache.pushWindow key value)
      (cache.segments.push (key, value)) cache.stats := by
  let entry : TinyLfuEntry := { key, value, segment := .window }
  have lists : (cache.pushWindow key value).nodesAt =
      Function.update cache.nodesAt .window
        (⟨cache.nextAddress, entry⟩ :: cache.window) := by
    funext other
    cases other <;> rfl
  have pushed := linked.pushed entry absent lists rfl rfl
  exact ⟨pushed.1, rfl, rfl, rfl, id⟩

theorem Becomes.trans {middle after : WTinyLfuCache}
    {segments segments' : Segments Key Value} {stats stats' : StripeStats}
    (first : cache.Becomes middle segments stats)
    (second : middle.Becomes after segments' stats') :
    cache.Becomes after segments' stats' where
  linked := second.linked
  segments := second.segments
  stats := second.stats
  limits := second.limits.trans first.limits
  ready := fun ready => second.ready (first.ready ready)

theorem Becomes.reject {after : WTinyLfuCache}
    {segments : Segments Key Value} {stats : StripeStats}
    (becomes : cache.Becomes after segments stats) :
    cache.Becomes after.rejectCandidate segments
      { stats with rejections := stats.rejections + 1 } where
  linked := ⟨becomes.linked.indexed, becomes.linked.tag⟩
  segments := becomes.segments
  stats := by
    rw [← becomes.stats]
    rfl
  limits := becomes.limits
  ready := becomes.ready

theorem Becomes.admitted {after : WTinyLfuCache}
    {segments : Segments Key Value} {stats : StripeStats} {entry : TinyLfuEntry}
    (becomes : cache.Becomes after segments stats)
    (absent : after.map.lookup entry.key = none) :
    cache.Becomes (after.admitCandidate entry)
      { segments with probation := entry.entry :: segments.probation }
      { stats with admissions := stats.admissions + 1 } := by
  have admitted := becomes.linked.admitCandidate entry absent
  rw [becomes.segments, becomes.stats] at admitted
  exact becomes.trans admitted

theorem main_length (cache : WTinyLfuCache) :
    cache.segments.main.length =
      cache.probation.length + cache.protected_.length := by
  rw [Segments.main, List.length_append]
  exact congrArg₂ (· + ·) (List.length_map _) (List.length_map _)

theorem Linked.tryAdmitFromWindow (linked : cache.Linked)
    (within : cache.segments.main.length ≤ cache.limits.main) :
    cache.Becomes cache.tryAdmitFromWindow
      (cache.segments.overflow cache.limits.main cache.beats).2
      (cache.stats.inserted
        (cache.segments.overflow cache.limits.main cache.beats).1) := by
  have small : cache.limits.main < uint32Size := Nat.mod_lt _ (by decide)
  have capacities : (cache.probationCapacity + cache.protectedCapacity) %
      uint32Size = cache.limits.main := rfl
  have mainSize : (cache.probation.length + cache.protected_.length) %
      uint32Size = cache.segments.main.length := by
    rw [← main_length]
    exact Nat.mod_eq_of_lt (by omega)
  rw [WTinyLfuCache.tryAdmitFromWindow, Segments.overflow]
  have lastEntry : cache.segments.window.getLast? = _ :=
    getLast?_entries cache.window
  have lastVictim : cache.segments.probation.getLast? = _ :=
    getLast?_entries cache.probation
  rw [lastEntry, lastVictim]
  cases last : cache.window.getLast? with
  | none => exact ⟨linked, rfl, rfl, rfl, id⟩
  | some candidate =>
      have dropped := linked.dropCandidate last
      dsimp only [Option.map_some]
      rw [mainSize, capacities]
      by_cases room : cache.segments.main.length < cache.limits.main
      · rw [if_pos room, if_pos room]
        exact dropped.admitted (AList.lookup_erase _ _)
      · rw [if_neg room, if_neg room]
        cases lastOfProbation : cache.probation.getLast? with
        | none => exact dropped.reject
        | some victim =>
            dsimp only [Option.map_some]
            by_cases wins : TinyLfuSketch.estimate cache.cms candidate.item.key >
                TinyLfuSketch.estimate cache.cms victim.item.key
            · have beats : cache.beats candidate.item.entry.1
                  victim.item.entry.1 = true := decide_eq_true wins
              rw [if_pos wins, if_pos beats]
              have evicted := linked.evictVictim lastOfProbation
              have both : (cache.evictVictim victim.item).Becomes _ _ _ :=
                evicted.linked.dropCandidate last
              rw [evicted.segments, evicted.stats] at both
              exact (evicted.trans both).admitted (AList.lookup_erase _ _)
            · have loses : ¬cache.beats candidate.item.entry.1
                  victim.item.entry.1 = true :=
                fun beats => wins (of_decide_eq_true beats)
              rw [if_neg wins, if_neg loses]
              exact dropped.reject

theorem shrinkWindow_of_le (rounds : Nat)
    (small : cache.window.length ≤ cache.windowCapacity) :
    shrinkWindow rounds cache = some cache := by
  cases rounds <;> rw [shrinkWindow, if_neg (Nat.not_lt_of_le small)]

theorem shrinkWindow_once (rounds : Nat)
    (full : cache.windowCapacity < cache.window.length)
    (small : cache.tryAdmitFromWindow.window.length ≤
      cache.tryAdmitFromWindow.windowCapacity) :
    shrinkWindow (rounds + 1) cache = some cache.tryAdmitFromWindow := by
  rw [shrinkWindow, if_pos full]
  exact shrinkWindow_of_le rounds small

theorem window_length (cache : WTinyLfuCache) :
    cache.segments.window.length = cache.window.length :=
  List.length_map _

theorem Linked.insert (linked : cache.Linked)
    (bounded : cache.segments.Bounded cache.limits) (value : Value)
    (absent : cache.map.lookup key = none) :
    ∃ after, shrinkWindow (cache.pushWindow key value).window.length
        (cache.pushWindow key value) = some after ∧
      cache.Becomes after
        (cache.segments.insert cache.limits cache.beats (key, value)).2
        (cache.stats.inserted
          (cache.segments.insert cache.limits cache.beats (key, value)).1) := by
  have pushed := linked.pushWindow value absent
  have length : (cache.pushWindow key value).window.length =
      cache.window.length + 1 := rfl
  have window := bounded.window
  change _ ≤ cache.windowCapacity at window
  rw [window_length] at window
  rw [Segments.insert, window_length, length]
  by_cases full : cache.limits.window ≤ cache.window.length
  · rw [if_pos full]
    have main : (cache.pushWindow key value).segments.main.length ≤
        (cache.pushWindow key value).limits.main := by
      rw [pushed.segments, pushed.limits]
      exact bounded.main
    have admitted := pushed.linked.tryAdmitFromWindow main
    rw [pushed.segments, pushed.stats, pushed.limits] at admitted
    refine ⟨_, shrinkWindow_once _ ?_ ?_, pushed.trans admitted⟩
    · change cache.windowCapacity < cache.window.length + 1
      exact Nat.lt_succ_of_le full
    · have capacity :
          (cache.pushWindow key value).tryAdmitFromWindow.windowCapacity =
            cache.windowCapacity :=
        congrArg SegmentLimits.window (pushed.trans admitted).limits
      rw [capacity, ← window_length, admitted.segments,
        Segments.overflow_window, List.length_dropLast, Segments.push,
        List.length_cons, window_length, Nat.add_sub_cancel]
      exact window
  · rw [if_neg full]
    refine ⟨_, shrinkWindow_of_le _ ?_, pushed⟩
    exact Nat.lt_of_not_le full

end Admission

/-! ## Calls -/

theorem recordAccess_of_ready {cache : WTinyLfuCache}
    (ready : cache.doorkeeper.Ready) (key : Key) :
    ∃ doorkeeper cms opsSinceDecay, cache.recordAccess key =
        some { cache with doorkeeper, cms, opsSinceDecay } ∧
      doorkeeper.Ready := by
  rcases ready.containsAndAdd key with ⟨seenBefore, doorkeeper, added, ready'⟩
  rw [recordAccess, added]
  simp only [Option.bind_eq_bind, Option.bind_some, maybeDecay]
  split
  · exact ⟨_, _, _, rfl, ready'.reset⟩
  · exact ⟨_, _, _, rfl, ready'⟩

structure Sound (cache : WTinyLfuCache) : Prop where
  linked : cache.Linked
  bounded : cache.segments.Bounded cache.limits
  roomy : 1 ≤ cache.protectedCapacity
  ready : cache.doorkeeper.Ready

section Calls

variable {cache : WTinyLfuCache}

theorem Sound.of_becomes (sound : cache.Sound) {after : WTinyLfuCache}
    {segments : Segments Key Value} {stats : StripeStats}
    (becomes : cache.Becomes after segments stats)
    (bounded : segments.Bounded cache.limits) : after.Sound where
  linked := becomes.linked
  bounded := by
    rw [becomes.segments, becomes.limits]
    exact bounded
  roomy := by
    have same : after.protectedCapacity = cache.protectedCapacity :=
      congrArg SegmentLimits.protected_ becomes.limits
    rw [same]
    exact sound.roomy
  ready := becomes.ready sound.ready

theorem Sound.recordAccess (sound : cache.Sound) (key : Key) :
    ∃ counted, cache.recordAccess key = some counted ∧ counted.Sound ∧
      counted.map = cache.map ∧
      cache.Becomes counted cache.segments cache.stats := by
  rcases recordAccess_of_ready sound.ready key with
    ⟨doorkeeper, cms, opsSinceDecay, recorded, ready⟩
  have linked : Linked { cache with doorkeeper, cms, opsSinceDecay } :=
    ⟨sound.linked.indexed, sound.linked.tag⟩
  exact ⟨_, recorded, ⟨linked, sound.bounded, sound.roomy, ready⟩, rfl,
    ⟨linked, rfl, rfl, rfl, fun _ => ready⟩⟩

/-- What a get answers: nothing for a key that is not there, and for one in
probation what was in a node that is erased by then. -/
structure Answers (segments : Segments Key Value) (key : Key)
    (reply : TinyLfuReply) : Prop where
  missing : key ∉ segments.keys → reply = .value none
  found : ∀ value, (key, value) ∈ segments.entries →
    reply = if key ∈ KeyedList.keys segments.probation then .erased
      else .value (some value)

theorem Sound.distinct (sound : cache.Sound) : cache.segments.keys.Nodup := by
  rw [Segments.keys, entries_nodes, KeyedList.keys, entries, NodeList.entries,
    List.map_map]
  exact sound.linked.indexed.names

theorem Sound.hit (sound : cache.Sound) {node : Node TinyLfuEntry}
    (inNodes : node ∈ cache.nodes) :
    ∃ reply after, cache.hit node.address = some (reply, after) ∧
      cache.Becomes after
        (cache.segments.touch cache.protectedCapacity node.item.key)
        (cache.stats.looked true) ∧
      reply = if node.item.key ∈ KeyedList.keys cache.segments.probation then
        .erased else .value (some node.item.value) := by
  rcases mem_nodes.mp inNodes with ⟨place, member⟩
  rcases sound.linked.moveWithinSegment sound.roomy member with
    ⟨after, moved, becomes, reads⟩
  refine ⟨after.read node.address, { after with
    stats := { after.stats with hits := after.stats.hits + 1 } }, ?_,
    ⟨⟨becomes.linked.indexed, becomes.linked.tag⟩, becomes.segments, ?_,
      becomes.limits, becomes.ready⟩, ?_⟩
  · rw [WTinyLfuCache.hit, sound.linked.indexed.deref inNodes]
    change (cache.moveWithinSegment _ node.item.segment >>= _) = _
    rw [sound.linked.tag place node member, moved]
    rfl
  · rw [becomes.stats]
    rfl
  · have inProbation : node.item.key ∈
        KeyedList.keys cache.segments.probation ↔ .probation = place :=
      sound.linked.mem_keys_iff .probation member
    rw [read, reads]
    by_cases probation : place = .probation
    · rw [if_pos probation, if_pos (inProbation.mpr probation.symm)]
    · rw [if_neg probation, if_neg (mt inProbation.mp (Ne.symm probation))]

theorem Sound.get (sound : cache.Sound) (key : Key) :
    ∃ reply after, cache.get key = some (reply, after) ∧
      cache.Becomes after (cache.segments.get cache.limits key)
        (cache.stats.looked (key ∈ cache.segments.keys)) ∧
      Answers cache.segments key reply := by
  by_cases resident : key ∈ cache.segments.keys
  · rcases sound.recordAccess key with ⟨counted, recorded, sound', map, same⟩
    have resident' := resident
    rw [← same.segments] at resident'
    rcases mem_keys.mp resident' with ⟨node, inNodes, rfl⟩
    have found : cache.map.lookup node.item.key = some node.address := by
      rw [← map]
      exact sound'.linked.indexed.lookup_of_mem inNodes
    have capacity : counted.protectedCapacity = cache.limits.protected_ :=
      congrArg SegmentLimits.protected_ same.limits
    rcases sound'.hit inNodes with ⟨reply, after, hit, becomes, answer⟩
    rw [same.segments, same.stats, capacity] at becomes
    rw [same.segments] at answer
    refine ⟨reply, after, ?_, ?_, fun absent => absurd resident absent, ?_⟩
    · rw [WTinyLfuCache.get]
      simp only [found, recorded, Option.bind_eq_bind, Option.bind_some]
      exact hit
    · rw [Segments.get, if_pos resident, decide_eq_true resident]
      exact same.trans becomes
    · intro value member
      have here : node.item.entry ∈ cache.segments.entries := by
        rw [← same.segments, entries_nodes]
        exact List.mem_map_of_mem inNodes
      have value' : node.item.value = value := (Prod.mk.inj
        (List.inj_on_of_nodup_map sound.distinct here member rfl)).2
      rw [answer, value']
  · have missing := sound.linked.lookup_eq_none.mpr resident
    refine ⟨.value none, { cache with
      stats := { cache.stats with misses := cache.stats.misses + 1 } }, ?_,
      ⟨⟨sound.linked.indexed, sound.linked.tag⟩, ?_, ?_, rfl, id⟩,
      fun _ => rfl, ?_⟩
    · rw [WTinyLfuCache.get, missing]
    · rw [Segments.get, if_neg resident]
      rfl
    · rw [decide_eq_false resident]
      rfl
    · intro value member
      exact absurd (KeyedList.mem_keys member) resident

theorem Sound.store (sound : cache.Sound) (key : Key) (value : Value) :
    ∃ after, cache.store key value =
        some (.changed (decide (key ∉ cache.segments.keys)), after) ∧
      cache.Becomes after
        (cache.segments.put cache.limits cache.beats (key, value)).2
        (cache.stats.inserted (cache.segments.put cache.limits cache.beats
          (key, value)).1) := by
  rw [Segments.put]
  by_cases resident : key ∈ cache.segments.keys
  · rcases mem_keys.mp resident with ⟨node, inNodes, rfl⟩
    rcases mem_nodes.mp inNodes with ⟨place, member⟩
    have found := sound.linked.indexed.lookup_of_mem inNodes
    have assigned := sound.linked.assign found value
    let change : TinyLfuEntry → TinyLfuEntry := fun entry =>
      { entry with value }
    have member' : node.modify node.address change ∈
        (cache.assign node.address value).nodesAt place := by
      cases place <;> exact List.mem_map_of_mem member
    have same : node.modify node.address change =
        { node with item := change node.item } := if_pos rfl
    rw [same] at member'
    rcases assigned.linked.moveWithinSegment sound.roomy member' with
      ⟨after, moved, becomes, -⟩
    rw [assigned.segments, assigned.stats] at becomes
    refine ⟨after, ?_, ?_⟩
    · have deref := sound.linked.indexed.deref inNodes
      have tag := sound.linked.tag place node member
      have old : decide (node.item.key ∉ cache.segments.keys) = false :=
        decide_eq_false (not_not_intro resident)
      rw [WTinyLfuCache.store, old]
      simp only [found, deref, tag, Option.bind_eq_bind, Option.bind_some]
      change ((cache.assign _ value).moveWithinSegment _ place >>= _) = _
      rw [moved]
      rfl
    · rw [if_pos resident]
      exact assigned.trans becomes
  · have missing := sound.linked.lookup_eq_none.mpr resident
    rcases sound.linked.insert sound.bounded value missing with
      ⟨after, shrunk, becomes⟩
    refine ⟨after, ?_, ?_⟩
    · rw [WTinyLfuCache.store, decide_eq_true resident]
      simp only [missing, shrunk, Option.bind_eq_bind, Option.bind_some]
      rfl
    · rw [if_neg resident]
      exact becomes

theorem Sound.put (sound : cache.Sound) (key : Key) (value : Value) :
    ∃ counted after, cache.recordAccess key = some counted ∧
      cache.put key value =
        some (.changed (decide (key ∉ cache.segments.keys)), after) ∧
      cache.Becomes after
        (cache.segments.put cache.limits counted.beats (key, value)).2
        (cache.stats.inserted (cache.segments.put cache.limits counted.beats
          (key, value)).1) := by
  rcases sound.recordAccess key with ⟨counted, recorded, sound', -, same⟩
  rcases sound'.store key value with ⟨after, stored, becomes⟩
  rw [same.segments] at stored
  rw [same.segments, same.stats, same.limits] at becomes
  refine ⟨counted, after, recorded, ?_, same.trans becomes⟩
  rw [WTinyLfuCache.put, recorded]
  exact stored

end Calls

end WTinyLfuCache

end Walde
