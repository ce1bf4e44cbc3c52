import Walde.Policy

namespace Walde.Policy

open Foundation

/-! # What the policy keeps -/

theorem named_append_without_perm (key : Key) (entries : List Entry) :
    (named key entries ++ without key entries).Perm entries := by
  have split := List.filter_append_perm
    (fun entry : Entry => decide (entry.1 = key)) entries
  simpa [named, without] using split

theorem moveToFront_perm (key : Key) (entries : List Entry) :
    (moveToFront key entries).Perm entries :=
  named_append_without_perm key entries

/-! ## Promotion moves entries around -/

@[simp] theorem count_config (xx : XxHash) (policy : Policy) (key : Key) :
    (policy.count xx key).config = policy.config := rfl

@[simp] theorem tick_config (policy : Policy) :
    policy.tick.config = policy.config := by
  unfold tick
  split <;> rfl

@[simp] theorem tick_entries (policy : Policy) :
    policy.tick.entries = policy.entries := by
  unfold tick
  split <;> rfl

@[simp] theorem count_entries (xx : XxHash) (policy : Policy) (key : Key) :
    (policy.count xx key).entries = policy.entries := rfl

@[simp] theorem makeRoom_config (policy : Policy) :
    policy.makeRoom.config = policy.config := by
  unfold makeRoom
  split
  · split <;> rfl
  · rfl

@[simp] theorem makeRoom_window (policy : Policy) :
    policy.makeRoom.window = policy.window := by
  unfold makeRoom
  split
  · split <;> rfl
  · rfl

theorem makeRoom_main_perm (policy : Policy) :
    (policy.makeRoom.probation ++ policy.makeRoom.protected_).Perm
      (policy.probation ++ policy.protected_) := by
  unfold makeRoom
  split
  · split
    · rename_i demoted last
      have shape : policy.protected_ = policy.protected_.dropLast ++ [demoted] :=
        (List.dropLast_append_getLast? demoted last).symm
      rw [List.cons_append]
      conv_rhs => rw [shape, ← List.append_assoc]
      exact (List.perm_append_singleton _ _).symm
    · exact .refl _
  · exact .refl _

theorem promote_main_perm (policy : Policy) (key : Key) :
    ((policy.promote key).probation ++ (policy.promote key).protected_).Perm
      (policy.probation ++ policy.protected_) := by
  have room := makeRoom_main_perm
    { policy with probation := without key policy.probation }
  have parts := named_append_without_perm key policy.probation
  rw [promote]
  calc
    List.Perm _ (named key policy.probation ++
        ((makeRoom { policy with
          probation := without key policy.probation }).probation ++
        (makeRoom { policy with
          probation := without key policy.probation }).protected_)) :=
      List.perm_append_comm_assoc _ _ _
    List.Perm _ (named key policy.probation ++
        (without key policy.probation ++ policy.protected_)) :=
      room.append_left _
    List.Perm _ (policy.probation ++ policy.protected_) := by
      rw [← List.append_assoc]
      exact parts.append_right _

@[simp] theorem promote_window (policy : Policy) (key : Key) :
    (policy.promote key).window = policy.window := by
  rw [promote, makeRoom_window]

@[simp] theorem touch_config (policy : Policy) (key : Key) (place : Place) :
    (policy.touch key place).config = policy.config := by
  cases place <;> simp [touch, promote]

theorem touch_window_perm (policy : Policy) (key : Key) (place : Place) :
    (policy.touch key place).window.Perm policy.window := by
  cases place with
  | window => exact moveToFront_perm key policy.window
  | probation => rw [touch, promote_window]
  | protected_ => exact .refl _

theorem touch_main_perm (policy : Policy) (key : Key) (place : Place) :
    ((policy.touch key place).probation ++
      (policy.touch key place).protected_).Perm
        (policy.probation ++ policy.protected_) := by
  cases place with
  | window => exact .refl _
  | probation => exact promote_main_perm policy key
  | protected_ => exact (moveToFront_perm key policy.protected_).append_left _

theorem touch_perm (policy : Policy) (key : Key) (place : Place) :
    (policy.touch key place).entries.Perm policy.entries := by
  simp only [entries, List.append_assoc]
  exact (touch_window_perm policy key place).append
    (touch_main_perm policy key place)

/-! ## The segments stay within their capacities -/

structure Bounded (policy : Policy) : Prop where
  window : policy.window.length ≤ policy.config.windowCapacity
  main : policy.probation.length + policy.protected_.length ≤
    policy.config.mainCapacity

theorem Bounded.new (config : StripeConfig) (queueAttached : Bool) :
    (new config queueAttached).Bounded := ⟨Nat.zero_le _, Nat.zero_le _⟩

theorem Bounded.of_perm {policy policy' : Policy} (bounded : policy.Bounded)
    (config : policy'.config = policy.config)
    (window : policy'.window.Perm policy.window)
    (main : (policy'.probation ++ policy'.protected_).Perm
      (policy.probation ++ policy.protected_)) : policy'.Bounded := by
  have mainLength := main.length_eq
  rw [List.length_append, List.length_append] at mainLength
  constructor
  · rw [config, window.length_eq]
    exact bounded.window
  · rw [config, mainLength]
    exact bounded.main

theorem Bounded.count {policy : Policy} (bounded : policy.Bounded)
    (xx : XxHash) (key : Key) : (policy.count xx key).Bounded :=
  ⟨bounded.window, bounded.main⟩

theorem Bounded.tick {policy : Policy} (bounded : policy.Bounded) :
    policy.tick.Bounded := by
  unfold Policy.tick
  split <;> exact ⟨bounded.window, bounded.main⟩

theorem Bounded.touch {policy : Policy} (bounded : policy.Bounded) (key : Key)
    (place : Place) : (policy.touch key place).Bounded :=
  bounded.of_perm (touch_config policy key place)
    (touch_window_perm policy key place) (touch_main_perm policy key place)

theorem Bounded.overwrite {policy : Policy} (bounded : policy.Bounded)
    (key : Key) (value : Value) : (policy.overwrite key value).Bounded := by
  constructor <;> simp only [Policy.overwrite, assign, List.length_map]
  · exact bounded.window
  · exact bounded.main

theorem Bounded.remove {policy : Policy} (bounded : policy.Bounded)
    (key : Key) : (policy.remove key).2.Bounded := by
  have fewer : ∀ entries : List Entry,
      (without key entries).length ≤ entries.length := fun entries =>
    List.length_filter_le _ entries
  constructor
  · exact (fewer policy.window).trans bounded.window
  · exact (Nat.add_le_add (fewer policy.probation)
      (fewer policy.protected_)).trans bounded.main

theorem Bounded.get {policy : Policy} (bounded : policy.Bounded)
    (xx : XxHash) (key : Key) : (policy.get xx key).2.Bounded := by
  unfold Policy.get
  split
  · exact ⟨bounded.window, bounded.main⟩
  · have touched := (bounded.count xx key).touch key
    exact ⟨(touched _).window, (touched _).main⟩

/-! ## Admission -/

/-- What one round of the overflow loop does: the last entry of the window is
admitted to a main segment with room, or it beats the last entry of probation
and takes its room, or it is dropped. -/
theorem tryAdmit_cases (xx : XxHash) (policy : Policy) {front : List Entry}
    {candidate : Entry} (shape : policy.window = front ++ [candidate]) :
    (policy.probation.length + policy.protected_.length <
        policy.config.mainCapacity ∧
      policy.tryAdmit xx = (admitCandidate { policy with window := front } candidate,
        [])) ∨
    (policy.config.mainCapacity ≤
        policy.probation.length + policy.protected_.length ∧
      (∀ others victim, policy.probation = others ++ [victim] →
        policy.frequency xx candidate.1 ≤ policy.frequency xx victim.1) ∧
      policy.tryAdmit xx = (reject { policy with window := front }, [])) ∨
    ∃ others victim, policy.probation = others ++ [victim] ∧
      policy.config.mainCapacity ≤
        policy.probation.length + policy.protected_.length ∧
      policy.frequency xx victim.1 < policy.frequency xx candidate.1 ∧
      policy.tryAdmit xx =
        ({ policy with
            window := front
            probation := candidate :: others
            stats := { policy.stats with
              evictions := policy.stats.evictions + 1
              admissions := policy.stats.admissions + 1 } },
          policy.offer xx victim) := by
  have last : policy.window.getLast? = some candidate := by simp [shape]
  have rest : policy.window.dropLast = front := by simp [shape]
  unfold tryAdmit
  simp only [last, rest]
  by_cases room : policy.probation.length + policy.protected_.length <
      policy.config.mainCapacity
  · rw [if_pos room]
    exact .inl ⟨room, rfl⟩
  · rw [if_neg room]
    have full := Nat.le_of_not_lt room
    rcases List.eq_nil_or_concat policy.probation with
      empty | ⟨others, victim, occupied⟩
    · rw [empty]
      exact .inr (.inl ⟨by simpa [empty] using full, by simp, rfl⟩)
    · rw [List.concat_eq_append] at occupied
      have lastVictim : policy.probation.getLast? = some victim := by
        simp [occupied]
      rw [lastVictim]
      by_cases beats : policy.frequency xx victim.1 <
          policy.frequency xx candidate.1
      · refine .inr (.inr ⟨others, victim, occupied, full, beats, ?_⟩)
        dsimp only
        rw [contest, if_pos (by exact beats)]
        simp [evict, admitCandidate, occupied]
        rfl
      · refine .inr (.inl ⟨full, ?_, ?_⟩)
        · intro others' victim' again
          have same := (List.append_inj_right' (occupied.symm.trans again) rfl)
          simp only [List.cons.injEq, and_true] at same
          subst same
          omega
        · dsimp only
          rw [contest, if_neg (by exact beats)]

theorem tryAdmit_frame (xx : XxHash) (policy : Policy) :
    ∃ window probation stats, (policy.tryAdmit xx).1 =
      { policy with window, probation, stats } := by
  rcases List.eq_nil_or_concat policy.window with empty | ⟨front, last, shape⟩
  · refine ⟨policy.window, policy.probation, policy.stats, ?_⟩
    simp only [tryAdmit, empty, List.getLast?_nil]
    rw [← empty]
  · rw [List.concat_eq_append] at shape
    rcases tryAdmit_cases xx policy shape with
      ⟨-, equal⟩ | ⟨-, -, equal⟩ | ⟨_, _, -, -, -, equal⟩ <;>
      rw [equal] <;> exact ⟨_, _, _, rfl⟩

@[simp] theorem tryAdmit_config (xx : XxHash) (policy : Policy) :
    (policy.tryAdmit xx).1.config = policy.config := by
  rcases tryAdmit_frame xx policy with ⟨window, probation, stats, equal⟩
  rw [equal]

theorem tryAdmit_window (xx : XxHash) (policy : Policy) :
    (policy.tryAdmit xx).1.window = policy.window.dropLast := by
  rcases List.eq_nil_or_concat policy.window with empty | ⟨front, last, shape⟩
  · simp [tryAdmit, empty]
  · rw [List.concat_eq_append] at shape
    rcases tryAdmit_cases xx policy shape with
      ⟨-, equal⟩ | ⟨-, -, equal⟩ | ⟨_, _, -, -, -, equal⟩ <;>
      simp [equal, shape, admitCandidate, reject]

theorem shrinkWindow_stop (xx : XxHash) (rounds : Nat) (policy : Policy)
    (small : policy.window.length ≤ policy.config.windowCapacity) :
    policy.shrinkWindow xx rounds = (policy, []) := by
  cases rounds with
  | zero => rfl
  | succ rounds => rw [shrinkWindow, if_neg (Nat.not_lt_of_le small)]

def pushWindow (policy : Policy) (candidate : Entry) : Policy :=
  { policy with window := candidate :: policy.window }

theorem insert_eq (xx : XxHash) {policy : Policy} (bounded : policy.Bounded)
    (key : Key) (value : Value) :
    policy.insert xx key value =
      if policy.window.length < policy.config.windowCapacity then
        (policy.pushWindow (key, value), [])
      else (policy.pushWindow (key, value)).tryAdmit xx := by
  have length : (policy.pushWindow (key, value)).window.length =
      policy.window.length + 1 := rfl
  have config : (policy.pushWindow (key, value)).config = policy.config := rfl
  change (policy.pushWindow (key, value)).shrinkWindow xx
    (policy.pushWindow (key, value)).window.length = _
  by_cases room : policy.window.length < policy.config.windowCapacity
  · rw [if_pos room]
    apply shrinkWindow_stop
    rw [length, config]
    omega
  · have fits := bounded.window
    rw [if_neg room, length, shrinkWindow, length, config, if_pos (by omega)]
    have stop := shrinkWindow_stop xx policy.window.length
      ((policy.pushWindow (key, value)).tryAdmit xx).1 (by
        rw [tryAdmit_window, List.length_dropLast, tryAdmit_config, length,
          config]
        omega)
    dsimp only
    rw [stop, List.append_nil]

theorem insert_cases (xx : XxHash) {policy : Policy}
    (bounded : policy.Bounded) (key : Key) (value : Value) :
    (policy.window.length < policy.config.windowCapacity ∧
      policy.insert xx key value = (policy.pushWindow (key, value), [])) ∨
    ∃ front candidate, policy.config.windowCapacity ≤ policy.window.length ∧
      (key, value) :: policy.window = front ++ [candidate] ∧
      policy.insert xx key value =
        (policy.pushWindow (key, value)).tryAdmit xx := by
  rw [insert_eq xx bounded]
  by_cases room : policy.window.length < policy.config.windowCapacity
  · rw [if_pos room]
    exact .inl ⟨room, rfl⟩
  · rw [if_neg room]
    rcases List.eq_nil_or_concat ((key, value) :: policy.window) with
      empty | ⟨front, candidate, shape⟩
    · simp at empty
    · rw [List.concat_eq_append] at shape
      exact .inr ⟨front, candidate, Nat.le_of_not_lt room, shape, rfl⟩

theorem insert_frame (xx : XxHash) {policy : Policy} (bounded : policy.Bounded)
    (key : Key) (value : Value) :
    ∃ window probation stats, (policy.insert xx key value).1 =
      { policy with window, probation, stats } := by
  rcases insert_cases xx bounded key value with
    ⟨-, equal⟩ | ⟨front, candidate, -, shape, equal⟩
  · rw [equal]
    exact ⟨_, _, _, rfl⟩
  · rw [equal]
    exact tryAdmit_frame xx (policy.pushWindow (key, value))

theorem Bounded.insert {policy : Policy} (bounded : policy.Bounded)
    (xx : XxHash) (key : Key) (value : Value) :
    (policy.insert xx key value).1.Bounded := by
  rcases insert_cases xx bounded key value with
    ⟨room, equal⟩ | ⟨front, candidate, -, shape, equal⟩
  · rw [equal]
    exact ⟨room, bounded.main⟩
  · have window : front.length ≤ policy.config.windowCapacity := by
      have lengths := congrArg List.length shape
      simp only [List.length_cons, List.length_append, List.length_nil]
        at lengths
      have fits := bounded.window
      omega
    have main := bounded.main
    rw [equal]
    rcases tryAdmit_cases xx (policy.pushWindow (key, value)) shape with
      ⟨room, equal⟩ | ⟨-, -, equal⟩ | ⟨others, victim, occupied, -, -, equal⟩
    · rw [equal]
      refine ⟨window, ?_⟩
      simp only [admitCandidate, pushWindow, List.length_cons] at room ⊢
      omega
    · rw [equal]
      exact ⟨window, main⟩
    · rw [equal]
      refine ⟨window, ?_⟩
      have probation : policy.probation = others ++ [victim] := occupied
      simp only [probation, List.length_append, List.length_cons,
        List.length_nil] at main
      simpa [pushWindow] using main

/-! ## Which entries are resident -/

theorem mem_entries {policy : Policy} {entry : Entry} :
    entry ∈ policy.entries ↔ entry ∈ policy.window ∨
      entry ∈ policy.probation ∨ entry ∈ policy.protected_ := by
  simp [entries]

theorem mem_entries_of_mem_entriesAt {policy : Policy} {place : Place}
    {entry : Entry} (member : entry ∈ policy.entriesAt place) :
    entry ∈ policy.entries := by
  rw [mem_entries]
  cases place with
  | window => exact .inl member
  | probation => exact .inr (.inl member)
  | protected_ => exact .inr (.inr member)

def keys (policy : Policy) : List Key := policy.entries.map (·.1)

theorem mem_keys {policy : Policy} {key : Key} :
    key ∈ policy.keys ↔ ∃ value, (key, value) ∈ policy.entries := by
  simp [keys]

theorem placeOf_eq_none {policy : Policy} {key : Key} :
    policy.placeOf key = none ↔ key ∉ policy.keys := by
  unfold placeOf keys entries
  simp only [List.map_append, List.mem_append]
  split
  · simp_all
  · split
    · simp_all
    · split <;> simp_all

theorem placeOf_isSome {policy : Policy} {key : Key} :
    (policy.placeOf key).isSome = true ↔ key ∈ policy.keys := by
  rw [← not_iff_not, ← placeOf_eq_none]
  simp

theorem find_eq_none {policy : Policy} {key : Key} :
    policy.find key = none ↔ key ∉ policy.keys := by
  rw [find, Option.map_eq_none_iff, List.find?_eq_none, mem_keys]
  constructor
  · rintro absent ⟨value, member⟩
    simpa using absent (key, value) member
  · rintro absent ⟨other, value⟩ member same
    simp only [decide_eq_true_eq] at same
    subst same
    exact absent ⟨value, member⟩

theorem find_mem {policy : Policy} {key : Key} {value : Value}
    (found : policy.find key = some value) : (key, value) ∈ policy.entries := by
  rcases Option.map_eq_some_iff.mp found with ⟨hit, search, rfl⟩
  have same : hit.1 = key := by simpa using List.find?_some search
  rw [← same]
  exact List.mem_of_find?_eq_some search

theorem get_fst (xx : XxHash) (policy : Policy) (key : Key) :
    (policy.get xx key).1 = policy.find key := by
  unfold get
  split
  · rename_i absent
    rw [find_eq_none.mpr (placeOf_eq_none.mp absent)]
  · rfl

theorem get_perm (xx : XxHash) (policy : Policy) (key : Key) :
    (policy.get xx key).2.entries.Perm policy.entries := by
  unfold get
  split
  · exact .refl _
  · exact (touch_perm (policy.count xx key) key _)

theorem mem_overwrite {policy : Policy} {key : Key} {value : Value}
    {other : Entry} :
    other ∈ (policy.overwrite key value).entries ↔
      (other.1 ≠ key ∧ other ∈ policy.entries) ∨
        other = (key, value) ∧ key ∈ policy.keys := by
  have assigned : (policy.overwrite key value).entries =
      assign key value policy.entries := by
    simp [overwrite, entries, assign]
  rw [assigned, assign, List.mem_map, keys, List.mem_map]
  constructor
  · rintro ⟨before, member, rfl⟩
    by_cases same : before.1 = key
    · exact .inr ⟨by simp [same], before, member, same⟩
    · exact .inl ⟨by simp [same], by simpa [same] using member⟩
  · rintro (⟨different, member⟩ | ⟨rfl, before, member, same⟩)
    · exact ⟨other, member, by simp [different]⟩
    · exact ⟨before, member, by simp [same]⟩

theorem mem_offer {xx : XxHash} {policy : Policy} {victim : Entry}
    {item : DemotionItem} (member : item ∈ policy.offer xx victim) :
    (item.key, item.value) = victim := by
  unfold offer at member
  split at member
  · rw [List.mem_singleton] at member
    rw [member]
  · simp at member

def counted (xx : XxHash) (policy : Policy) (key : Key) : Policy :=
  (policy.count xx key).tick

@[simp] theorem counted_entries (xx : XxHash) (policy : Policy) (key : Key) :
    (policy.counted xx key).entries = policy.entries := by simp [counted]

@[simp] theorem counted_keys (xx : XxHash) (policy : Policy) (key : Key) :
    (policy.counted xx key).keys = policy.keys := by simp [keys]

@[simp] theorem counted_window (xx : XxHash) (policy : Policy) (key : Key) :
    (policy.counted xx key).window = policy.window := by
  unfold counted tick
  split <;> rfl

@[simp] theorem counted_probation (xx : XxHash) (policy : Policy) (key : Key) :
    (policy.counted xx key).probation = policy.probation := by
  unfold counted tick
  split <;> rfl

@[simp] theorem counted_protected (xx : XxHash) (policy : Policy) (key : Key) :
    (policy.counted xx key).protected_ = policy.protected_ := by
  unfold counted tick
  split <;> rfl

@[simp] theorem counted_config (xx : XxHash) (policy : Policy) (key : Key) :
    (policy.counted xx key).config = policy.config := tick_config _

theorem Bounded.counted {policy : Policy} (bounded : policy.Bounded)
    (xx : XxHash) (key : Key) : (policy.counted xx key).Bounded :=
  (bounded.count xx key).tick

theorem put_cases (xx : XxHash) (slot : Bool) (policy : Policy) (key : Key)
    (value : Value) :
    (∃ place, (policy.counted xx key).placeOf key = some place ∧
      policy.put xx slot key value =
        (false, ((policy.counted xx key).overwrite key value).touch key place,
          [])) ∨
    (key ∉ policy.keys ∧ slot = true ∧ policy.put xx slot key value =
      (true, (policy.counted xx key).insert xx key value)) ∨
    (key ∉ policy.keys ∧ slot = false ∧ policy.put xx slot key value =
      (false, policy.counted xx key, [])) := by
  rw [← counted_keys xx policy key, ← placeOf_eq_none]
  unfold put
  rw [← counted]
  cases found : (policy.counted xx key).placeOf key with
  | some place => exact .inl ⟨place, rfl, by simp only [found]⟩
  | none =>
      simp only [found]
      cases slot with
      | true => exact .inr (.inl ⟨trivial, rfl, rfl⟩)
      | false => exact .inr (.inr ⟨trivial, rfl, rfl⟩)

theorem Bounded.put {policy : Policy} (bounded : policy.Bounded) (xx : XxHash)
    (slot : Bool) (key : Key) (value : Value) :
    (policy.put xx slot key value).2.1.Bounded := by
  have counted := bounded.counted xx key
  rcases put_cases xx slot policy key value with
    ⟨place, -, equal⟩ | ⟨-, -, equal⟩ | ⟨-, -, equal⟩ <;> rw [equal]
  · exact (counted.overwrite key value).touch key place
  · exact counted.insert xx key value
  · exact counted

/-- What an insertion loses, if anything: the last entry of the window is
admitted to main while there is room; in a full main it is dropped, or the last
entry of probation makes room for it and is offered to the demotion queue. -/
theorem insert_changes (xx : XxHash) {policy : Policy}
    (bounded : policy.Bounded) (key : Key) (value : Value) :
    ∃ lost : List Entry,
      ((key, value) :: policy.entries).Perm
        ((policy.insert xx key value).1.entries ++ lost) ∧
      (lost = [] ∧ (policy.insert xx key value).2 = [] ∧
        (policy.window.length < policy.config.windowCapacity ∨
          policy.probation.length + policy.protected_.length <
            policy.config.mainCapacity) ∨
      ∃ front candidate,
        policy.config.windowCapacity ≤ policy.window.length ∧
        (key, value) :: policy.window = front ++ [candidate] ∧
        policy.config.mainCapacity ≤
          policy.probation.length + policy.protected_.length ∧
        ((∀ others victim, policy.probation = others ++ [victim] →
            policy.frequency xx candidate.1 ≤ policy.frequency xx victim.1) ∧
          lost = [candidate] ∧ (policy.insert xx key value).2 = [] ∨
        ∃ others victim, policy.probation = others ++ [victim] ∧
          policy.frequency xx victim.1 < policy.frequency xx candidate.1 ∧
          lost = [victim] ∧
          (policy.insert xx key value).1.probation = candidate :: others ∧
          (policy.insert xx key value).2 = policy.offer xx victim)) := by
  rcases insert_cases xx bounded key value with
    ⟨room, equal⟩ | ⟨front, candidate, overflow, shape, equal⟩
  · refine ⟨[], ?_, .inl ⟨rfl, by rw [equal], .inl room⟩⟩
    rw [equal, List.append_nil]
    exact .refl _
  · have before : (key, value) :: policy.entries =
        front ++ [candidate] ++ policy.probation ++ policy.protected_ := by
      rw [← shape]
      rfl
    rw [equal, before]
    rcases tryAdmit_cases xx (policy.pushWindow (key, value)) shape with
      ⟨room, equal⟩ | ⟨full, weak, equal⟩ |
      ⟨others, victim, occupied, full, beats, equal⟩
    · refine ⟨[], ?_, .inl ⟨rfl, by rw [equal], .inr room⟩⟩
      rw [equal]
      simp [entries, admitCandidate, pushWindow]
    · refine ⟨[candidate], ?_, .inr ⟨front, candidate, overflow, shape, full,
        .inl ⟨weak, rfl, by rw [equal]⟩⟩⟩
      rw [equal, List.perm_iff_count]
      intro other
      simp only [entries, reject, pushWindow, List.count_append]
      omega
    · have probation : policy.probation = others ++ [victim] := occupied
      refine ⟨[victim], ?_, .inr ⟨front, candidate, overflow, shape, full,
        .inr ⟨others, victim, probation, beats, rfl, by rw [equal],
          by rw [equal]; rfl⟩⟩⟩
      rw [equal, probation, List.perm_iff_count]
      intro other
      simp only [entries, pushWindow, List.count_append, List.count_cons,
        List.count_nil]
      omega

theorem insert_perm (xx : XxHash) {policy : Policy}
    (bounded : policy.Bounded) (key : Key) (value : Value) :
    ∃ lost : List Entry, lost.length ≤ 1 ∧
      ((key, value) :: policy.entries).Perm
        ((policy.insert xx key value).1.entries ++ lost) ∧
      ∀ item ∈ (policy.insert xx key value).2,
        (item.key, item.value) ∈ lost ∧
        (item.key, item.value) ∈ policy.probation := by
  rcases insert_changes xx bounded key value with
    ⟨lost, perm, ⟨rfl, offered, -⟩ | ⟨front, candidate, -, -, -,
      ⟨-, rfl, offered⟩ | ⟨others, victim, probation, -, rfl, -, offered⟩⟩⟩
  · exact ⟨[], Nat.zero_le _, perm, by simp [offered]⟩
  · exact ⟨[candidate], Nat.le_refl _, perm, by simp [offered]⟩
  · refine ⟨[victim], Nat.le_refl _, perm, ?_⟩
    intro item member
    rw [offered] at member
    rw [mem_offer member, probation]
    simp

theorem insert_residents (xx : XxHash) {policy : Policy}
    (bounded : policy.Bounded) (key : Key) (value : Value) :
    (policy.insert xx key value).1.entries ⊆ (key, value) :: policy.entries := by
  rcases insert_perm xx bounded key value with ⟨lost, -, perm, -⟩
  exact fun other member => perm.symm.subset (List.mem_append_left _ member)

/-! ## No key is resident twice -/

def Distinct (policy : Policy) : Prop := policy.keys.Nodup

theorem Distinct.of_perm {policy policy' : Policy} (distinct : policy.Distinct)
    (perm : policy'.entries.Perm policy.entries) : policy'.Distinct :=
  (perm.map _).nodup_iff.mpr distinct

theorem Distinct.overwrite {policy : Policy} (distinct : policy.Distinct)
    (key : Key) (value : Value) : (policy.overwrite key value).Distinct := by
  have sameKeys : (policy.overwrite key value).keys = policy.keys := by
    have assigned : ∀ entries : List Entry,
        (assign key value entries).map (·.1) = entries.map (·.1) := by
      intro entries
      rw [assign, List.map_map]
      apply List.map_congr_left
      intro entry _
      by_cases same : entry.1 = key <;> simp [same]
    simp [keys, entries, Policy.overwrite, assigned]
  rw [Distinct, sameKeys]
  exact distinct

theorem Distinct.insert {policy : Policy} (distinct : policy.Distinct)
    (xx : XxHash) (bounded : policy.Bounded) {key : Key} (value : Value)
    (absent : key ∉ policy.keys) :
    (policy.insert xx key value).1.Distinct := by
  rcases insert_perm xx bounded key value with ⟨lost, -, perm, -⟩
  have before : (((key, value) :: policy.entries).map (·.1)).Nodup :=
    List.nodup_cons.mpr ⟨absent, distinct⟩
  rw [(perm.map _).nodup_iff, List.map_append] at before
  exact before.of_append_left

theorem Distinct.get {policy : Policy} (distinct : policy.Distinct)
    (xx : XxHash) (key : Key) : (policy.get xx key).2.Distinct :=
  distinct.of_perm (get_perm xx policy key)

theorem Distinct.put {policy : Policy} (distinct : policy.Distinct)
    (xx : XxHash) (bounded : policy.Bounded) (slot : Bool) (key : Key)
    (value : Value) : (policy.put xx slot key value).2.1.Distinct := by
  have counted : (policy.counted xx key).Distinct := distinct.of_perm (by simp)
  rcases put_cases xx slot policy key value with
    ⟨place, -, equal⟩ | ⟨absent, -, equal⟩ | ⟨-, -, equal⟩ <;> rw [equal]
  · exact (counted.overwrite key value).of_perm (touch_perm _ _ _)
  · exact counted.insert xx (bounded.counted xx key) value
      (by rwa [counted_keys])
  · exact counted

theorem Distinct.remove {policy : Policy} (distinct : policy.Distinct)
    (key : Key) : (policy.remove key).2.Distinct := by
  have fewer : (policy.remove key).2.entries.Sublist policy.entries :=
    (List.filter_sublist.append List.filter_sublist).append
      List.filter_sublist
  exact distinct.sublist (fewer.map _)

theorem Distinct.find_eq_some {policy : Policy} (distinct : policy.Distinct)
    {key : Key} {value : Value} :
    policy.find key = some value ↔ (key, value) ∈ policy.entries := by
  refine ⟨find_mem, fun member => ?_⟩
  cases found : policy.find key with
  | none =>
      exact absurd (mem_keys.mpr ⟨value, member⟩) (find_eq_none.mp found)
  | some other =>
      have same := List.inj_on_of_nodup_map distinct (find_mem found) member rfl
      rw [(Prod.mk.inj same).2]

theorem Distinct.find_perm {policy policy' : Policy}
    (distinct : policy.Distinct)
    (perm : policy'.entries.Perm policy.entries) :
    policy'.find = policy.find := by
  funext key
  apply Option.ext
  intro value
  rw [(distinct.of_perm perm).find_eq_some, perm.mem_iff,
    distinct.find_eq_some]

/-! ## What each operation leaves resident -/

theorem mem_remove {policy : Policy} {key : Key} {entry : Entry} :
    entry ∈ (policy.remove key).2.entries ↔
      entry.1 ≠ key ∧ entry ∈ policy.entries := by
  simp only [mem_entries, remove, without, List.mem_filter,
    decide_eq_true_eq]
  tauto

theorem remove_fst (policy : Policy) (key : Key) :
    (policy.remove key).1 = (policy.find key).isSome := by
  change (policy.placeOf key).isSome = _
  rw [Bool.eq_iff_iff, placeOf_isSome, ← not_iff_not, ← find_eq_none]
  simp

theorem put_residents (xx : XxHash) {policy : Policy} (bounded : policy.Bounded)
    (slot : Bool) (key : Key) (value : Value) {entry : Entry}
    (member : entry ∈ (policy.put xx slot key value).2.1.entries) :
    entry = (key, value) ∨ entry.1 ≠ key ∧ entry ∈ policy.entries := by
  have old : key ∉ policy.keys → ∀ other ∈ policy.entries,
      other.1 ≠ key ∧ other ∈ policy.entries := by
    rintro absent other inside
    refine ⟨?_, inside⟩
    rintro rfl
    exact absent (mem_keys.mpr ⟨other.2, inside⟩)
  rcases put_cases xx slot policy key value with
    ⟨place, -, equal⟩ | ⟨absent, -, equal⟩ | ⟨absent, -, equal⟩ <;>
    rw [equal] at member
  · rw [(touch_perm _ _ _).mem_iff, mem_overwrite, counted_entries] at member
    rcases member with kept | ⟨rfl, -⟩
    · exact .inr kept
    · exact .inl rfl
  · have inside := insert_residents xx (bounded.counted xx key) key value member
    rw [counted_entries] at inside
    rcases List.mem_cons.mp inside with same | inside
    · exact .inl same
    · exact .inr (old absent entry inside)
  · rw [counted_entries] at member
    exact .inr (old absent entry member)

theorem put_resident (xx : XxHash) {policy : Policy} (slot : Bool) {key : Key}
    (value : Value) (resident : key ∈ policy.keys) :
    (key, value) ∈ (policy.put xx slot key value).2.1.entries := by
  rcases put_cases xx slot policy key value with
    ⟨place, -, equal⟩ | ⟨absent, -, -⟩ | ⟨absent, -, -⟩
  · rw [equal, (touch_perm _ _ _).mem_iff, mem_overwrite, counted_keys]
    exact .inr ⟨rfl, resident⟩
  · exact absurd resident absent
  · exact absurd resident absent

theorem put_offered (xx : XxHash) {policy : Policy} (bounded : policy.Bounded)
    (distinct : policy.Distinct) (slot : Bool) (key : Key) (value : Value)
    {item : DemotionItem}
    (member : item ∈ (policy.put xx slot key value).2.2) :
    item.key ≠ key ∧ (item.key, item.value) ∈ policy.entries ∧
      item.key ∉ (policy.put xx slot key value).2.1.keys := by
  rcases put_cases xx slot policy key value with
    ⟨place, -, equal⟩ | ⟨absent, -, equal⟩ | ⟨absent, -, equal⟩ <;>
    rw [equal] at member ⊢
  · simp at member
  · rcases insert_perm xx (bounded.counted xx key) key value with
      ⟨lost, -, perm, offered⟩
    rcases offered item member with ⟨inLost, inProbation⟩
    have inside : (item.key, item.value) ∈ policy.entries := by
      rw [← counted_entries xx policy key]
      exact mem_entries.mpr (.inr (.inl inProbation))
    refine ⟨?_, inside, ?_⟩
    · rintro rfl
      exact absent (mem_keys.mpr ⟨item.value, inside⟩)
    · intro stillThere
      rw [counted_entries] at perm
      have before : (((key, value) :: policy.entries).map (·.1)).Nodup :=
        List.nodup_cons.mpr ⟨absent, distinct⟩
      rw [(perm.map _).nodup_iff, List.map_append] at before
      exact List.disjoint_of_nodup_append before stillThere
        (List.mem_map_of_mem inLost)
  · simp at member

/-! ## Every eviction is offered to the queue -/

@[simp] theorem counted_stats (xx : XxHash) (policy : Policy) (key : Key) :
    (policy.counted xx key).stats = policy.stats := by
  unfold counted tick
  split <;> rfl

@[simp] theorem counted_queueAttached (xx : XxHash) (policy : Policy)
    (key : Key) :
    (policy.counted xx key).queueAttached = policy.queueAttached := by
  unfold counted tick
  split <;> rfl

@[simp] theorem makeRoom_stats (policy : Policy) :
    policy.makeRoom.stats = policy.stats := by
  unfold makeRoom
  split
  · split <;> rfl
  · rfl

@[simp] theorem makeRoom_queueAttached (policy : Policy) :
    policy.makeRoom.queueAttached = policy.queueAttached := by
  unfold makeRoom
  split
  · split <;> rfl
  · rfl

@[simp] theorem touch_stats (policy : Policy) (key : Key) (place : Place) :
    (policy.touch key place).stats = policy.stats := by
  cases place <;> simp [touch, promote]

@[simp] theorem touch_queueAttached (policy : Policy) (key : Key)
    (place : Place) :
    (policy.touch key place).queueAttached = policy.queueAttached := by
  cases place <;> simp [touch, promote]

theorem insert_evictions (xx : XxHash) {policy : Policy}
    (bounded : policy.Bounded) (attached : policy.queueAttached = true)
    (key : Key) (value : Value) :
    (policy.insert xx key value).1.stats.evictions =
      policy.stats.evictions + (policy.insert xx key value).2.length := by
  rcases insert_cases xx bounded key value with
    ⟨-, equal⟩ | ⟨front, candidate, -, shape, equal⟩ <;> rw [equal]
  · rfl
  · rcases tryAdmit_cases xx (policy.pushWindow (key, value)) shape with
      ⟨-, equal⟩ | ⟨-, -, equal⟩ | ⟨others, victim, -, -, -, equal⟩ <;> rw [equal]
    · rfl
    · rfl
    · simp [offer, pushWindow, attached]

theorem put_evictions (xx : XxHash) {policy : Policy} (bounded : policy.Bounded)
    (attached : policy.queueAttached = true) (slot : Bool) (key : Key)
    (value : Value) :
    (policy.put xx slot key value).2.1.stats.evictions =
      policy.stats.evictions + (policy.put xx slot key value).2.2.length := by
  rcases put_cases xx slot policy key value with
    ⟨place, -, equal⟩ | ⟨-, -, equal⟩ | ⟨-, -, equal⟩ <;> rw [equal]
  · simp [overwrite]
  · rw [insert_evictions xx (bounded.counted xx key) (by simpa using attached)]
    simp
  · simp

theorem insert_queueAttached (xx : XxHash) {policy : Policy}
    (bounded : policy.Bounded) (key : Key) (value : Value) :
    (policy.insert xx key value).1.queueAttached = policy.queueAttached := by
  rcases insert_frame xx bounded key value with
    ⟨window, probation, stats, equal⟩
  rw [equal]

theorem put_queueAttached (xx : XxHash) {policy : Policy}
    (bounded : policy.Bounded) (slot : Bool) (key : Key) (value : Value) :
    (policy.put xx slot key value).2.1.queueAttached =
      policy.queueAttached := by
  rcases put_cases xx slot policy key value with
    ⟨place, -, equal⟩ | ⟨-, -, equal⟩ | ⟨-, -, equal⟩ <;> rw [equal]
  · simp [overwrite]
  · rw [insert_queueAttached xx (bounded.counted xx key),
      counted_queueAttached]
  · exact counted_queueAttached xx policy key

theorem get_keeps (xx : XxHash) (policy : Policy) (key : Key) :
    (policy.get xx key).2.stats.evictions = policy.stats.evictions ∧
      (policy.get xx key).2.queueAttached = policy.queueAttached := by
  unfold get
  split
  · exact ⟨rfl, rfl⟩
  · exact ⟨rfl, touch_queueAttached (policy.count xx key) key _⟩

/-! ## Only counting and decay change the counters -/

def counters (policy : Policy) : CountMin.Table × Nat :=
  (policy.table, policy.putsSinceDecay)

@[simp] theorem makeRoom_counters (policy : Policy) :
    policy.makeRoom.counters = policy.counters := by
  unfold makeRoom
  split
  · split <;> rfl
  · rfl

@[simp] theorem touch_counters (policy : Policy) (key : Key) (place : Place) :
    (policy.touch key place).counters = policy.counters := by
  cases place with
  | window => rfl
  | probation =>
      exact makeRoom_counters
        { policy with probation := without key policy.probation }
  | protected_ => rfl

theorem insert_counters (xx : XxHash) {policy : Policy}
    (bounded : policy.Bounded) (key : Key) (value : Value) :
    (policy.insert xx key value).1.counters = policy.counters := by
  rcases insert_frame xx bounded key value with
    ⟨window, probation, stats, equal⟩
  rw [equal]
  rfl

theorem put_counters (xx : XxHash) {policy : Policy} (bounded : policy.Bounded)
    (slot : Bool) (key : Key) (value : Value) :
    (policy.put xx slot key value).2.1.counters =
      (policy.counted xx key).counters := by
  rcases put_cases xx slot policy key value with
    ⟨place, -, equal⟩ | ⟨-, -, equal⟩ | ⟨-, -, equal⟩ <;> rw [equal]
  · rw [touch_counters]
    rfl
  · exact insert_counters xx (bounded.counted xx key) key value

theorem get_counters (xx : XxHash) (policy : Policy) (key : Key) :
    (policy.get xx key).2.counters =
      if key ∈ policy.keys then (policy.count xx key).counters
      else policy.counters := by
  unfold get
  split
  · rename_i absent
    rw [if_neg (placeOf_eq_none.mp absent)]
    rfl
  · rename_i place found
    have resident : key ∈ policy.keys := by
      rw [← placeOf_isSome, found]
      rfl
    rw [if_pos resident]
    exact touch_counters (policy.count xx key) key place

end Walde.Policy
