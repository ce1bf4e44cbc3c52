import Mathlib.Algebra.BigOperators.Group.Finset.Basic
import Mathlib.Algebra.GroupWithZero.Nat
import Mathlib.Data.Multiset.UnionInter
import Walde.Foundation.Machine

namespace Foundation

/-! # Sums over parties

What each party has, summed up. When one party gains something and the others
keep what they have, the sum gains as much. -/

section Ledger

variable {ι M : Type} [DecidableEq ι] [AddCommMonoid M]

theorem sum_gain_of_mem {parties : Finset ι} {before after : ι → M} {i : ι}
    (member : i ∈ parties) {gain loss : M}
    (here : after i + loss = before i + gain)
    (others : ∀ j, j ≠ i → after j = before j) :
    ∑ j ∈ parties, after j + loss = ∑ j ∈ parties, before j + gain := by
  have rest : ∑ j ∈ parties.erase i, after j =
      ∑ j ∈ parties.erase i, before j := by
    apply Finset.sum_congr rfl
    intro j member
    exact others j (Finset.ne_of_mem_erase member)
  rw [← Finset.sum_erase_add _ _ member, ← Finset.sum_erase_add _ before member,
    rest, add_assoc, here, add_assoc]

variable [Fintype ι]

theorem sum_gain {before after : ι → M} {i : ι} {gain : M}
    (here : after i = before i + gain)
    (others : ∀ j, j ≠ i → after j = before j) :
    ∑ j, after j = ∑ j, before j + gain := by
  have balance := sum_gain_of_mem (Finset.mem_univ i)
    ((add_zero (after i)).trans here) others
  rwa [add_zero] at balance

theorem sum_keep {before after : ι → M} {i : ι} (here : after i = before i)
    (others : ∀ j, j ≠ i → after j = before j) :
    ∑ j, after j = ∑ j, before j := by
  have gained := sum_gain (here.trans (add_zero _).symm) others
  rwa [add_zero] at gained

theorem sum_pass {σ : Type} (passed : M) (weigh : ι → σ → M)
    {holdings : ι → σ} {giver taker : ι} {less : σ} {more : σ → σ}
    (gives : weigh giver (holdings giver) = weigh giver less + passed)
    (takes : ∀ had, weigh taker (more had) = weigh taker had + passed) :
    ∑ i, weigh i (Function.update (Function.update holdings giver less) taker
        (more (Function.update holdings giver less taker)) i) =
      ∑ i, weigh i (holdings i) := by
  have lost : ∑ i, weigh i (holdings i) =
      ∑ i, weigh i (Function.update holdings giver less i) + passed := by
    apply sum_gain (i := giver)
    · rw [Function.update_self, gives]
    · intro j different
      rw [Function.update_of_ne different]
  rw [lost]
  apply sum_gain (i := taker)
  · rw [Function.update_self, takes]
  · intro j different
    rw [Function.update_of_ne different]

end Ledger

section Parts

variable {ι α : Type} [Fintype ι] [DecidableEq ι] {parts : ι → Multiset α}

theorem part_unique (nodup : (∑ i, parts i).Nodup) {i j : ι} {item : α}
    (inLeft : item ∈ parts i) (inRight : item ∈ parts j) : i = j := by
  by_contra different
  rw [← Finset.add_sum_erase _ _ (Finset.mem_univ i)] at nodup
  have apart := (Multiset.nodup_add.mp nodup).2.2
  have others : item ∈ ∑ k ∈ Finset.univ.erase i, parts k :=
    Multiset.mem_sum.mpr ⟨j, Finset.mem_erase.mpr
      ⟨Ne.symm different, Finset.mem_univ j⟩, inRight⟩
  exact Multiset.disjoint_left.mp apart inLeft others

theorem part_nodup (nodup : (∑ i, parts i).Nodup) (i : ι) :
    (parts i).Nodup := by
  rw [← Finset.add_sum_erase _ _ (Finset.mem_univ i)] at nodup
  exact (Multiset.nodup_add.mp nodup).1

end Parts

/-! ## Accounts along a run -/

namespace Machine

variable {σ Label Reply : Type} {machine : Machine σ Label Reply}

def tally (machine : Machine σ Label Reply) (event : σ → Label → Nat) :
    List Label → σ → Nat
  | [], _ => 0
  | label :: rest, state => event state label +
      match machine state label with
      | some (_, after) => tally machine event rest after
      | none => 0

theorem tally_cons (event : σ → Label → Nat) {label : Label} {rest : List Label}
    {state after : σ} {reply : Reply}
    (stepped : machine state label = some (reply, after)) :
    machine.tally event (label :: rest) state =
      event state label + machine.tally event rest after := by
  rw [tally, stepped]

theorem tally_zero (labels : List Label) (state : σ) :
    machine.tally (fun _ _ => 0) labels state = 0 := by
  induction labels generalizing state with
  | nil => rfl
  | cons label rest induction =>
      rw [tally, Nat.zero_add]
      split
      · exact induction _
      · rfl

theorem tally_add (event event' : σ → Label → Nat) (labels : List Label)
    (state : σ) :
    machine.tally (fun state label => event state label + event' state label)
        labels state =
      machine.tally event labels state + machine.tally event' labels state := by
  induction labels generalizing state with
  | nil => rfl
  | cons label rest induction =>
      rw [tally, tally, tally]
      split
      · rw [induction]
        omega
      · omega

theorem tally_eq_countP (kind : Label → Bool) {labels : List Label}
    {state last : σ} {replies : List Reply}
    (ran : machine.run labels state = some (replies, last)) :
    machine.tally (fun _ label => (kind label).toNat) labels state =
      labels.countP kind := by
  induction labels generalizing state replies with
  | nil => rfl
  | cons label rest induction =>
      rcases run_cons_eq_some ran with
        ⟨reply, middle, others, stepped, ranRest, -⟩
      rw [tally_cons _ stepped, induction ranRest, List.countP_cons]
      cases kind label with
      | true => exact Nat.add_comm _ _
      | false => exact Nat.zero_add _

theorem sum_toNat {α : Type} (kind : α → Bool) (items : List α) :
    (items.map fun item => (kind item).toNat).sum = items.countP kind := by
  induction items with
  | nil => rfl
  | cons item rest induction =>
      rw [List.map_cons, List.sum_cons, induction, List.countP_cons]
      cases kind item with
      | true => exact Nat.add_comm _ _
      | false => exact Nat.zero_add _

theorem countP_split {α : Type} {kind left right : α → Bool} {items : List α}
    (split : ∀ item ∈ items,
      (left item).toNat + (right item).toNat = (kind item).toNat) :
    items.countP left + items.countP right = items.countP kind := by
  rw [← sum_toNat, ← sum_toNat, ← sum_toNat, ← List.sum_map_add]
  exact congrArg List.sum (List.map_congr_left split)

/-- When every step balances the two sides up to the weight of its reply, so
does a run. -/
theorem weigh_run {credit debit : σ → Nat} {weigh : Reply → Nat}
    {Inv : σ → Prop} {condition : σ → Label → Prop}
    (step : ∀ {state label reply after}, Inv state → condition state label →
      machine state label = some (reply, after) → Inv after ∧
        credit after + debit state =
          credit state + debit after + weigh reply)
    {labels : List Label} {state last : σ} {replies : List Reply}
    (inv : Inv state) (along : machine.Along condition labels state)
    (ran : machine.run labels state = some (replies, last)) :
    credit last + debit state =
      credit state + debit last + (replies.map weigh).sum := by
  induction labels generalizing state replies with
  | nil =>
      cases ran
      rfl
  | cons label rest induction =>
      rcases run_cons_eq_some ran with
        ⟨reply, middle, others, stepped, ranRest, rfl⟩
      rcases step inv along.1 stepped with ⟨inv', balances⟩
      have balance := induction inv' (along.2 (reply, middle) stepped) ranRest
      rw [List.map_cons, List.sum_cons]
      omega

theorem counter_run (kind : Reply → Bool) {counter : σ → Nat}
    (step : ∀ {state label reply after},
      machine state label = some (reply, after) →
      counter after = counter state + (kind reply).toNat)
    {labels : List Label} {state last : σ} {replies : List Reply}
    (ran : machine.run labels state = some (replies, last)) :
    counter last = counter state + replies.countP kind := by
  have balance := @weigh_run σ Label Reply machine counter (fun _ => 0)
    (fun reply => (kind reply).toNat) (fun _ => True) (fun _ _ => True)
    (fun _ _ stepped => ⟨trivial, step stepped⟩) labels state last replies
    trivial (.of_forall (fun _ _ _ => trivial) state) ran
  rwa [sum_toNat] at balance

/-- Two sides of an account, and what a step adds to each of them. -/
structure Account (σ Label : Type) where
  credit : σ → Nat
  debit : σ → Nat
  gain : σ → Label → Nat := fun _ _ => 0
  loss : σ → Label → Nat := fun _ _ => 0

def Account.Balances (account : Account σ Label) (before : σ) (label : Label)
    (after : σ) : Prop :=
  account.credit after + account.debit before + account.loss before label =
    account.credit before + account.debit after + account.gain before label

/-- The rule for accounts: when every step balances, so does a run. -/
theorem Account.run (account : Account σ Label) {Inv : σ → Prop}
    {condition : σ → Label → Prop}
    (step : ∀ {state label reply after}, Inv state → condition state label →
      machine state label = some (reply, after) →
      Inv after ∧ account.Balances state label after)
    {labels : List Label} {state last : σ} {replies : List Reply}
    (inv : Inv state) (along : machine.Along condition labels state)
    (ran : machine.run labels state = some (replies, last)) :
    account.credit last + account.debit state +
        machine.tally account.loss labels state =
      account.credit state + account.debit last +
        machine.tally account.gain labels state := by
  induction labels generalizing state replies with
  | nil =>
      cases ran
      rfl
  | cons label rest induction =>
      rcases run_cons_eq_some ran with
        ⟨reply, middle, others, stepped, ranRest, -⟩
      rcases step inv along.1 stepped with ⟨inv', balances⟩
      have balance := induction inv' (along.2 (reply, middle) stepped) ranRest
      rw [tally_cons _ stepped, tally_cons _ stepped]
      simp only [Balances] at balances
      omega

/-! ### What a run says -/

section Log

variable {α : Type}

def log (machine : Machine σ Label Reply) (say : σ → Label → List α) :
    List Label → σ → List α
  | [], _ => []
  | label :: rest, state => say state label ++
      match machine state label with
      | some (_, after) => log machine say rest after
      | none => []

theorem log_cons (say : σ → Label → List α) {label : Label} {rest : List Label}
    {state after : σ} {reply : Reply}
    (stepped : machine state label = some (reply, after)) :
    machine.log say (label :: rest) state =
      say state label ++ machine.log say rest after := by
  rw [log, stepped]

/-- The rule for runs whose invariant speaks of what was said and counted so
far. -/
theorem run_log {say : σ → Label → List α} {event : σ → Label → Nat}
    {condition : σ → Label → Prop} {Inv : List α → Nat → σ → Prop}
    (step : ∀ {said counted state label reply after},
      Inv said counted state → condition state label →
      machine state label = some (reply, after) →
      Inv (said ++ say state label) (counted + event state label) after)
    {said : List α} {counted : Nat} {labels : List Label} {state last : σ}
    {replies : List Reply} (inv : Inv said counted state)
    (along : machine.Along condition labels state)
    (ran : machine.run labels state = some (replies, last)) :
    Inv (said ++ machine.log say labels state)
      (counted + machine.tally event labels state) last := by
  induction labels generalizing said counted state replies with
  | nil =>
      cases ran
      rwa [log, List.append_nil, tally, Nat.add_zero]
  | cons label rest induction =>
      rcases run_cons_eq_some ran with
        ⟨reply, middle, others, stepped, ranRest, -⟩
      have final := induction (step inv along.1 stepped)
        (along.2 (reply, middle) stepped) ranRest
      rw [log_cons say stepped, tally_cons event stepped]
      rwa [List.append_assoc, Nat.add_assoc] at final

end Log

end Machine

end Foundation
