import Mathlib.Data.List.Chain
import Mathlib.Data.List.Nodup

namespace Foundation

/-! # Doubly linked lists as rings

A doubly linked list whose ends are marked by a sentinel is a ring through the
sentinel: the head is the sentinel's next element and the tail its previous
one. Insertion and removal then have no special cases at the ends. -/

section RingList

variable {ι : Type} {next prev next' prev' : ι → ι} {sentinel : ι}
  {members : List ι}

def Linked (next prev : ι → ι) (left right : ι) : Prop :=
  next left = right ∧ prev right = left

/-- Starting at the sentinel, the links visit exactly `members`, in order, and
come back to the sentinel. -/
structure Ring (next prev : ι → ι) (sentinel : ι) (members : List ι) :
    Prop where
  linked : (sentinel :: (members ++ [sentinel])).IsChain (Linked next prev)
  nodup : (sentinel :: members).Nodup

/-- A chain survives when its elements but the last keep their next link and
its elements but the first keep their previous one. -/
theorem isChain_linked_congr {items : List ι}
    (chain : items.IsChain (Linked next prev))
    (nextSame : ∀ item ∈ items.dropLast, next' item = next item)
    (prevSame : ∀ item ∈ items.tail, prev' item = prev item) :
    items.IsChain (Linked next' prev') := by
  induction items with
  | nil => exact .nil
  | cons first rest induction =>
      cases rest with
      | nil => exact .singleton _
      | cons second rest =>
          rw [List.isChain_cons_cons] at chain ⊢
          refine ⟨⟨?_, ?_⟩, induction chain.2 ?_ ?_⟩
          · rw [nextSame first (by simp), chain.1.1]
          · rw [prevSame second (by simp), chain.1.2]
          · intro item member
            exact nextSame item (by simp [List.dropLast, member])
          · intro item member
            exact prevSame item (List.mem_of_mem_tail member)

namespace Ring

theorem sentinel_notMem (ring : Ring next prev sentinel members) :
    sentinel ∉ members := (List.nodup_cons.mp ring.nodup).1

theorem members_nodup (ring : Ring next prev sentinel members) :
    members.Nodup := (List.nodup_cons.mp ring.nodup).2

theorem nil (nextSentinel : next sentinel = sentinel)
    (prevSentinel : prev sentinel = sentinel) : Ring next prev sentinel [] := by
  constructor
  · simp [Linked, nextSentinel, prevSentinel]
  · simp

theorem congr (ring : Ring next prev sentinel members)
    (nextSame : ∀ item ∈ sentinel :: members, next' item = next item)
    (prevSame : ∀ item ∈ sentinel :: members, prev' item = prev item) :
    Ring next' prev' sentinel members := by
  refine ⟨isChain_linked_congr ring.linked ?_ ?_, ring.nodup⟩
  · intro item member
    apply nextSame
    rwa [← List.cons_append, List.dropLast_concat] at member
  · intro item member
    apply prevSame
    simpa [or_comm] using member

theorem reverse (ring : Ring next prev sentinel members) :
    Ring prev next sentinel members.reverse := by
  constructor
  · have turned : sentinel :: (members.reverse ++ [sentinel]) =
        (sentinel :: (members ++ [sentinel])).reverse := by simp
    rw [turned, List.isChain_reverse]
    exact ring.linked.imp fun _ _ link => ⟨link.2, link.1⟩
  · simpa using ring.nodup

theorem next_sentinel (ring : Ring next prev sentinel members) :
    next sentinel = members.headD sentinel := by
  have linked := ring.linked
  cases members with
  | nil => simpa [Linked] using (List.isChain_cons_cons.mp linked).1.1
  | cons first rest => exact (List.isChain_cons_cons.mp linked).1.1

theorem prev_sentinel (ring : Ring next prev sentinel members) :
    prev sentinel = members.getLastD sentinel := by
  have last := ring.reverse.next_sentinel
  rw [last]
  induction members using List.reverseRecOn <;> simp

theorem next_sentinel_eq_iff (ring : Ring next prev sentinel members) :
    next sentinel = sentinel ↔ members = [] := by
  rw [ring.next_sentinel]
  cases members with
  | nil => simp
  | cons first rest =>
      have different : first ≠ sentinel := by
        rintro rfl
        exact ring.sentinel_notMem (by simp)
      simp [different]

theorem prev_sentinel_eq_iff (ring : Ring next prev sentinel members) :
    prev sentinel = sentinel ↔ members = [] := by
  simpa using ring.reverse.next_sentinel_eq_iff

theorem next_sentinel_mem (ring : Ring next prev sentinel members) :
    next sentinel ∈ sentinel :: members := by
  rw [ring.next_sentinel]
  cases members <;> simp

theorem next_mem (ring : Ring next prev sentinel members) {item : ι}
    (member : item ∈ members) : next item ∈ sentinel :: members := by
  rcases List.append_of_mem member with ⟨before, after, rfl⟩
  have linked := ring.linked
  cases after with
  | nil =>
      have split : sentinel :: (before ++ [item] ++ [sentinel]) =
          (sentinel :: before) ++ item :: sentinel :: [] := by simp
      rw [split, List.isChain_append_cons_cons] at linked
      simp [linked.2.1.1]
  | cons following after =>
      have split : sentinel :: (before ++ item :: following :: after ++
          [sentinel]) =
          (sentinel :: before) ++ item :: following :: (after ++ [sentinel]) := by
        simp
      rw [split, List.isChain_append_cons_cons] at linked
      simp [linked.2.1.1]

theorem next_map {κ : Type} {nextOther prevOther : κ → κ} {sentinelOther : κ}
    {rename : ι → κ} (ring : Ring next prev sentinel members)
    (ring' : Ring nextOther prevOther sentinelOther (members.map rename))
    {item : ι} (member : item ∈ members) :
    (next item = sentinel ∧ nextOther (rename item) = sentinelOther) ∨
      (next item ∈ members ∧
        nextOther (rename item) = rename (next item)) := by
  rcases List.append_of_mem member with ⟨before, after, rfl⟩
  have linked := ring.linked
  have linked' := ring'.linked
  cases after with
  | nil =>
      have split : sentinel :: (before ++ [item] ++ [sentinel]) =
          (sentinel :: before) ++ item :: sentinel :: [] := by simp
      have split' : sentinelOther :: ((before ++ [item]).map rename ++
          [sentinelOther]) = (sentinelOther :: before.map rename) ++
            rename item :: sentinelOther :: [] := by simp
      rw [split, List.isChain_append_cons_cons] at linked
      rw [split', List.isChain_append_cons_cons] at linked'
      exact .inl ⟨linked.2.1.1, linked'.2.1.1⟩
  | cons following after =>
      have split : sentinel :: (before ++ item :: following :: after ++
          [sentinel]) =
          (sentinel :: before) ++ item :: following :: (after ++ [sentinel]) := by
        simp
      have split' : sentinelOther :: ((before ++ item :: following :: after).map
          rename ++ [sentinelOther]) = (sentinelOther :: before.map rename) ++
            rename item :: rename following ::
              (after.map rename ++ [sentinelOther]) := by simp
      rw [split, List.isChain_append_cons_cons] at linked
      rw [split', List.isChain_append_cons_cons] at linked'
      rw [linked.2.1.1, linked'.2.1.1]
      exact .inr ⟨by simp, rfl⟩

theorem prev_map {κ : Type} {nextOther prevOther : κ → κ} {sentinelOther : κ}
    {rename : ι → κ} (ring : Ring next prev sentinel members)
    (ring' : Ring nextOther prevOther sentinelOther (members.map rename))
    {item : ι} (member : item ∈ members) :
    (prev item = sentinel ∧ prevOther (rename item) = sentinelOther) ∨
      (prev item ∈ members ∧
        prevOther (rename item) = rename (prev item)) := by
  have reversed := ring'.reverse
  rw [← List.map_reverse] at reversed
  simpa using ring.reverse.next_map reversed (List.mem_reverse.mpr member)

theorem prev_mem (ring : Ring next prev sentinel members) {item : ι}
    (member : item ∈ members) : prev item ∈ sentinel :: members := by
  simpa using ring.reverse.next_mem (List.mem_reverse.mpr member)

theorem next_ne_self (ring : Ring next prev sentinel members) {item : ι}
    (member : item ∈ members) : next item ≠ item := by
  rcases List.append_of_mem member with ⟨before, after, rfl⟩
  have nodup := ring.nodup
  have linked := ring.linked
  have whole : sentinel :: (before ++ item :: after ++ [sentinel]) =
      (sentinel :: before) ++ item :: (after ++ [sentinel]) := by simp
  rw [whole, List.isChain_append] at linked
  have fromItem := (List.isChain_cons.mp linked.2.1).1
  cases after with
  | nil =>
      rw [(fromItem sentinel (by simp)).1]
      grind
  | cons following after =>
      rw [(fromItem following (by simp)).1]
      grind

theorem prev_ne_self (ring : Ring next prev sentinel members) {item : ι}
    (member : item ∈ members) : prev item ≠ item := by
  simpa using ring.reverse.next_ne_self (List.mem_reverse.mpr member)

/-! ## The two edits of a ring -/

theorem pushFront (ring : Ring next prev sentinel members) {item : ι}
    (fresh : item ∉ sentinel :: members)
    (nextItem : next' item = next sentinel)
    (prevItem : prev' item = sentinel)
    (nextSentinel : next' sentinel = item)
    (prevHead : prev' (next sentinel) = item)
    (nextSame : ∀ other ∈ members, next' other = next other)
    (prevSame : ∀ other ∈ sentinel :: members, other ≠ next sentinel →
      prev' other = prev other) :
    Ring next' prev' sentinel (item :: members) := by
  have linked := ring.linked
  rw [ring.next_sentinel] at nextItem prevHead prevSame
  have tailChain : (members ++ [sentinel]).IsChain (Linked next' prev') := by
    apply isChain_linked_congr linked.tail
    · intro other member
      apply nextSame
      simpa using member
    · intro other member
      cases members with
      | nil => simp at member
      | cons first rest =>
          have inRest : other ∈ rest ∨ other = sentinel := by
            simpa using member
          apply prevSame
          · rcases inRest with inRest | rfl <;> simp [*]
          · have nodup := ring.nodup
            rintro rfl
            rcases inRest with inRest | equal
            · simp [inRest] at nodup
            · simp [equal] at nodup
  constructor
  · rw [List.cons_append, List.isChain_cons_cons]
    refine ⟨⟨nextSentinel, prevItem⟩, ?_⟩
    cases members with
    | nil =>
        exact .cons_cons ⟨by simpa using nextItem, by simpa using prevHead⟩
          tailChain
    | cons first rest =>
        exact .cons_cons ⟨by simpa using nextItem, by simpa using prevHead⟩
          tailChain
  · have nodup := ring.nodup
    simp only [List.nodup_cons, List.mem_cons] at nodup fresh ⊢
    exact ⟨fun member => member.elim (fun equal => fresh (.inl equal.symm))
        nodup.1, fun member => fresh (.inr member), nodup.2⟩

theorem unlink [DecidableEq ι] (ring : Ring next prev sentinel members)
    {item : ι} (member : item ∈ members)
    (nextBefore : next' (prev item) = next item)
    (prevAfter : prev' (next item) = prev item)
    (nextSame : ∀ other ∈ sentinel :: members, other ≠ item →
      other ≠ prev item → next' other = next other)
    (prevSame : ∀ other ∈ sentinel :: members, other ≠ item →
      other ≠ next item → prev' other = prev other) :
    Ring next' prev' sentinel (members.erase item) := by
  rcases List.append_of_mem member with ⟨before, after, rfl⟩
  have nodup : (sentinel :: before ++ item :: after).Nodup := ring.nodup
  have notBefore : item ∉ before := by grind
  have erased : (before ++ item :: after).erase item = before ++ after := by
    rw [List.erase_append_right _ notBefore]
    simp
  rw [erased]
  have whole : sentinel :: (before ++ item :: after ++ [sentinel]) =
      (sentinel :: before) ++ item :: (after ++ [sentinel]) := by simp
  have linked := ring.linked
  rw [whole, List.isChain_append] at linked
  obtain ⟨front, back, toItem⟩ := linked
  obtain ⟨fromItem, back⟩ := List.isChain_cons.mp back
  -- the neighbours of `item` are the last of the front and the first of the back
  have prevItem : (sentinel :: before).getLast? = some (prev item) := by
    obtain ⟨left, last⟩ := List.getLast?_isSome.mpr
      (List.cons_ne_nil sentinel before) |> Option.isSome_iff_exists.mp
    rw [last, (toItem left last item rfl).2]
  have nextItem : (after ++ [sentinel]).head? = some (next item) := by
    obtain ⟨right, first⟩ : ∃ right, (after ++ [sentinel]).head? = some right := by
      cases after <;> simp
    rw [first, (fromItem right first).1]
  have prevMem : prev item ∈ sentinel :: before := List.mem_of_getLast? prevItem
  have nextMem : next item ∈ after ++ [sentinel] := List.mem_of_head? nextItem
  constructor
  · rw [List.append_assoc, ← List.cons_append, List.isChain_append]
    refine ⟨isChain_linked_congr front ?_ ?_,
      isChain_linked_congr back ?_ ?_, ?_⟩
    · intro other inFront
      have inWhole := (List.dropLast_sublist _).subset inFront
      have notLast : other ≠ prev item := by
        have frontNodup : (sentinel :: before).Nodup := by grind
        rw [← List.dropLast_append_getLast? _ prevItem] at frontNodup
        grind
      exact nextSame other (by grind) (by grind) notLast
    · intro other inBefore
      simp only [List.tail_cons] at inBefore
      exact prevSame other (by grind) (by grind) (by grind)
    · intro other inAfter
      rw [List.dropLast_concat] at inAfter
      exact nextSame other (by grind) (by grind) (by grind)
    · intro other inBack
      have inWhole := List.mem_of_mem_tail inBack
      have notFirst : other ≠ next item := by
        have backNodup : (after ++ [sentinel]).Nodup := by grind
        rw [← List.cons_head?_tail nextItem] at backNodup
        grind
      exact prevSame other (by grind) (by grind) notFirst
    · intro left last right first
      have leftEqual : left = prev item := by
        rw [prevItem] at last
        exact (Option.mem_some_iff.mp last).symm
      have rightEqual : right = next item := by
        rw [nextItem] at first
        exact (Option.mem_some_iff.mp first).symm
      subst leftEqual rightEqual
      exact ⟨nextBefore, prevAfter⟩
  · grind

/-! ## Walking -/

def walk (step : ι → ι) : Nat → ι → List ι
  | 0, _ => []
  | count + 1, start => start :: walk step count (step start)

theorem walk_chain {items : List ι} {start : ι} {last : ι}
    (chain : (start :: (items ++ [last])).IsChain (Linked next prev)) :
    walk next items.length (next start) = items := by
  induction items generalizing start with
  | nil => rfl
  | cons first rest induction =>
      rw [List.cons_append, List.isChain_cons_cons] at chain
      simp only [List.length_cons, walk, chain.1.1]
      rw [induction chain.2]

theorem walk_next (ring : Ring next prev sentinel members) :
    walk next members.length (next sentinel) = members :=
  walk_chain ring.linked

/-! ## Walking to the sentinel -/

section WalkUntil

variable [DecidableEq ι]

/-- The elements met before `stop`, at most `fuel` of them. -/
def walkUntil (stop : ι) (step : ι → ι) : Nat → ι → List ι
  | 0, _ => []
  | fuel + 1, start =>
      if start = stop then []
      else start :: walkUntil stop step fuel (step start)

theorem walkUntil_congr {stop : ι} {step step' : ι → ι}
    (same : ∀ item, item ≠ stop → step' item = step item) (fuel : Nat)
    (start : ι) :
    walkUntil stop step' fuel start = walkUntil stop step fuel start := by
  induction fuel generalizing start with
  | zero => rfl
  | succ fuel induction =>
      rw [walkUntil, walkUntil]
      split
      · rfl
      · rename_i inside
        rw [same start inside, induction]

theorem walkUntil_chain {items : List ι} {start last : ι}
    (chain : (start :: (items ++ [last])).IsChain (Linked next prev))
    (outside : last ∉ items) {fuel : Nat} (enough : items.length < fuel) :
    walkUntil last next fuel (next start) = items := by
  induction items generalizing start fuel with
  | nil =>
      have atLast : next start = last := by
        simpa [Linked] using (List.isChain_cons_cons.mp chain).1.1
      cases fuel with
      | zero => simp at enough
      | succ fuel => rw [atLast, walkUntil, if_pos rfl]
  | cons first rest induction =>
      rw [List.cons_append, List.isChain_cons_cons] at chain
      rw [List.mem_cons, not_or] at outside
      cases fuel with
      | zero => simp at enough
      | succ fuel =>
          rw [chain.1.1, walkUntil, if_neg (Ne.symm outside.1),
            induction chain.2 outside.2 (by simpa using enough)]

theorem walkUntil_next (ring : Ring next prev sentinel members) {fuel : Nat}
    (enough : members.length < fuel) :
    walkUntil sentinel next fuel (next sentinel) = members :=
  walkUntil_chain ring.linked ring.sentinel_notMem enough

theorem walkUntil_prev (ring : Ring next prev sentinel members) {fuel : Nat}
    (enough : members.length < fuel) :
    walkUntil sentinel prev fuel (prev sentinel) = members.reverse :=
  ring.reverse.walkUntil_next (by simpa using enough)

end WalkUntil

end Ring

end RingList

end Foundation
