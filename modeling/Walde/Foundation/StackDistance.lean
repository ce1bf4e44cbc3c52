import Mathlib.Data.Finset.Card
import Mathlib.Data.List.DropRight
import Walde.Foundation.KeyedList

namespace Foundation.StackDistance

open KeyedList (recent recent_concat recent_nodup)

/-! # Reuse distances

Whether a key is among the most recently used ones depends on how many other
keys were used since its last use. -/

section Distance

variable {κ : Type} [DecidableEq κ] {key : κ} {uses : List κ} {capacity : Nat}

/-- The number of keys that were used after the last use of a key. -/
def distance (key : κ) (uses : List κ) : Nat :=
  (recent (uses.rtakeWhile (· ≠ key))).length

theorem takeWhile_recent (key : κ) (uses : List κ) :
    (recent uses).takeWhile (· ≠ key) =
      recent (uses.rtakeWhile (· ≠ key)) := by
  induction uses using List.reverseRecOn with
  | nil => rfl
  | append_singleton uses last induction =>
      rw [recent_concat]
      by_cases again : last = key
      · rw [List.takeWhile_cons_of_neg (by simpa using again),
          List.rtakeWhile_concat_neg _ _ _ (by simpa using again)]
        rfl
      · rw [List.takeWhile_cons_of_pos (by simpa using again),
          List.rtakeWhile_concat_pos _ _ _ (by simpa using again),
          recent_concat, ← induction, List.takeWhile_filter]
        congr 3
        funext other
        -- the key itself passes the filter
        by_cases here : other = key
        · simp [here, Ne.symm again]
        · simp [here]

theorem mem_take_iff {keys : List κ} :
    key ∈ keys.take capacity ↔
      key ∈ keys ∧ (keys.takeWhile (· ≠ key)).length < capacity := by
  induction keys generalizing capacity with
  | nil => simp
  | cons first rest induction =>
      cases capacity with
      | zero => simp
      | succ capacity =>
          rw [List.take_succ_cons, List.mem_cons, List.mem_cons, induction]
          by_cases here : key = first
          · simp [here]
          · have stays : first ≠ key := Ne.symm here
            simp [here, stays]

theorem mem_take_recent :
    key ∈ (recent uses).take capacity ↔
      key ∈ uses ∧ distance key uses < capacity := by
  rw [mem_take_iff, takeWhile_recent, recent, List.mem_reverse, List.mem_dedup,
    distance]

theorem length_recent_concat (key : κ) (uses : List κ) :
    (recent (uses ++ [key])).length =
      (recent uses).length + (decide (key ∉ uses)).toNat := by
  rw [recent, recent, List.length_reverse, List.length_reverse,
    ← List.card_toFinset, ← List.card_toFinset, List.toFinset_append]
  change (uses.toFinset ∪ {key}).card = _
  rw [Finset.union_comm, ← Finset.insert_eq]
  by_cases used : key ∈ uses
  · rw [Finset.insert_eq_of_mem (List.mem_toFinset.mpr used)]
    simp [used]
  · rw [Finset.card_insert_of_notMem (mt List.mem_toFinset.mp used)]
    simp [used]

theorem recent_twice (key : κ) (uses : List κ) :
    recent (uses ++ [key] ++ [key]) = recent (uses ++ [key]) := by
  rw [recent_concat, recent_concat, List.filter_cons_of_neg (by simp),
    List.filter_filter]
  simp

end Distance

/-! ## Events along a list -/

section Along

variable {α : Type}

/-- How many items are events, each in the light of those before it. -/
def countAlong (event : List α → α → Bool) : List α → List α → Nat
  | _, [] => 0
  | past, item :: rest =>
      (event past item).toNat + countAlong event (past ++ [item]) rest

variable {event event' : List α → α → Bool}

theorem countAlong_mono
    (implies : ∀ past item, event past item = true → event' past item = true)
    (past items : List α) :
    countAlong event past items ≤ countAlong event' past items := by
  induction items generalizing past with
  | nil => exact le_rfl
  | cons item rest induction =>
      have here : (event past item).toNat ≤ (event' past item).toNat := by
        cases happens : event past item with
        | false => exact Nat.zero_le _
        | true => rw [implies past item happens]
      exact Nat.add_le_add here (induction _)

theorem countAlong_add {whole : List α → α → Bool}
    (split : ∀ past item, (event past item).toNat + (event' past item).toNat =
      (whole past item).toNat) (past items : List α) :
    countAlong event past items + countAlong event' past items =
      countAlong whole past items := by
  induction items generalizing past with
  | nil => rfl
  | cons item rest induction =>
      rw [countAlong, countAlong, countAlong, ← split, ← induction]
      omega

theorem countAlong_eq_countP (kind : α → Bool) (past items : List α) :
    countAlong (fun _ item => kind item) past items = items.countP kind := by
  induction items generalizing past with
  | nil => rfl
  | cons item rest induction =>
      rw [countAlong, induction, List.countP_cons]
      cases kind item with
      | true => exact Nat.add_comm _ _
      | false => exact Nat.zero_add _

/-- A loop with counters, each of which is raised by the events of its kind. -/
theorem foldlM_along {σ ι : Type} {body : σ → α → Option σ}
    {Inv : List α → σ → Prop} {counter : ι → σ → Nat}
    {event : ι → List α → α → Bool}
    (step : ∀ past state item, Inv past state →
      ∃ after, body state item = some after ∧ Inv (past ++ [item]) after ∧
        ∀ i, counter i after = counter i state + (event i past item).toNat)
    (past : List α) {state : σ} (inv : Inv past state) (items : List α) :
    ∃ last, items.foldlM body state = some last ∧ Inv (past ++ items) last ∧
      ∀ i, counter i last = counter i state + countAlong (event i) past items := by
  induction items generalizing past state with
  | nil => exact ⟨state, rfl, by rwa [List.append_nil], fun i => rfl⟩
  | cons item rest induction =>
      rcases step past state item inv with ⟨after, stepped, inv', raised⟩
      rcases induction _ inv' with ⟨last, ran, final, counted⟩
      refine ⟨last, ?_, ?_, fun i => ?_⟩
      · rw [List.foldlM_cons, stepped]
        exact ran
      · rwa [List.append_cons]
      · rw [counted, raised, countAlong, Nat.add_assoc]

theorem foldlM_keeps {σ : Type} {body : σ → α → Option σ}
    {Inv : List α → σ → Prop}
    (step : ∀ past state item, Inv past state →
      ∃ after, body state item = some after ∧ Inv (past ++ [item]) after)
    (past : List α) {state : σ} (inv : Inv past state) (items : List α) :
    ∃ last, items.foldlM body state = some last ∧ Inv (past ++ items) last := by
  have counting : ∀ past state item, Inv past state →
      ∃ after, body state item = some after ∧ Inv (past ++ [item]) after ∧
        ∀ i : Empty, i.elim = i.elim + (i.elim : Bool).toNat := by
    intro past state item inv
    rcases step past state item inv with ⟨after, stepped, inv'⟩
    exact ⟨after, stepped, inv', nofun⟩
  rcases foldlM_along counting past inv items with ⟨last, ran, final, -⟩
  exact ⟨last, ran, final⟩

/-! ## Loops that fault -/

/-- Every item is safe in the state that the loop has reached by then. -/
def Safely {σ : Type} (body : σ → α → Option σ) (safe : σ → α → Prop) :
    List α → σ → Prop
  | [], _ => True
  | item :: rest, state => safe state item ∧
      ∀ after, body state item = some after → Safely body safe rest after

section Safely

variable {σ : Type} {body : σ → α → Option σ} {safe : σ → α → Prop}
  {Inv : List α → σ → Prop}
  (step : ∀ past state item, Inv past state → safe state item →
    ∃ after, body state item = some after ∧ Inv (past ++ [item]) after)

include step

theorem Safely.foldlM (past : List α) {state : σ} (inv : Inv past state)
    {items : List α} (safely : Safely body safe items state) :
    ∃ last, items.foldlM body state = some last ∧ Inv (past ++ items) last := by
  induction items generalizing past state with
  | nil => exact ⟨state, rfl, by rwa [List.append_nil]⟩
  | cons item rest induction =>
      rcases step past state item inv safely.1 with ⟨after, stepped, inv'⟩
      rcases induction _ inv' (safely.2 after stepped) with ⟨last, ran, final⟩
      refine ⟨last, ?_, by rwa [List.append_cons]⟩
      rw [List.foldlM_cons, stepped]
      exact ran

theorem safely_of_foldlM (faults : ∀ past state item, Inv past state →
      ¬safe state item → body state item = none)
    (past : List α) {state last : σ} (inv : Inv past state) {items : List α}
    (ran : items.foldlM body state = some last) :
    Safely body safe items state := by
  induction items generalizing past state with
  | nil => trivial
  | cons item rest induction =>
      rw [List.foldlM_cons] at ran
      rcases Option.bind_eq_some_iff.mp ran with ⟨after, stepped, ran⟩
      have here : safe state item := by
        by_contra refused
        rw [faults past state item inv refused] at stepped
        cases stepped
      refine ⟨here, fun after' stepped' => ?_⟩
      obtain rfl := Option.some.inj (stepped.symm.trans stepped')
      rcases step past state item inv here with ⟨after'', stepped'', inv'⟩
      obtain rfl := Option.some.inj (stepped.symm.trans stepped'')
      exact induction _ inv' ran

end Safely

end Along

end Foundation.StackDistance
