import Walde.StripedCache

namespace Walde

open Foundation

/-! # What a call does to the sketch of a stripe

The sketch and the count of puts since the last decay depend on the calls and
on which of them hit, never on the slab. -/

namespace CacheStripe

def sketch (stripe : CacheStripe) : CountMinSketch × Nat :=
  (stripe.cms, stripe.opsSinceDecay)

def windowSize (stripe : CacheStripe) : StripeConfig × Nat :=
  (stripe.config, stripe.windowLru.size)

section Keeps

variable (xx : XxHash) (stripe : CacheStripe) (idx : Nat)

theorem makeRoomInProtected_keeps :
    stripe.makeRoomInProtected.Always fun after =>
      after.sketch = stripe.sketch ∧ after.indexMap = stripe.indexMap := by
  unfold makeRoomInProtected
  split
  · simp only [Program.always_bind]
    apply Program.Always.of_forall
    intro popped
    split
    · simp only [Program.always_bind]
      apply Program.Always.of_forall
      intro _
      apply Program.Always.of_forall
      intro probationLru
      exact ⟨rfl, rfl⟩
    · exact ⟨rfl, rfl⟩
  · exact ⟨rfl, rfl⟩

theorem promoteToProtected_keeps :
    (stripe.promoteToProtected idx).Always fun after =>
      after.sketch = stripe.sketch ∧ after.indexMap = stripe.indexMap := by
  simp only [promoteToProtected, Program.always_bind]
  apply Program.Always.of_forall
  intro probationLru
  refine (makeRoomInProtected_keeps { stripe with probationLru }).mono ?_
  intro roomy kept
  apply Program.Always.of_forall
  intro _
  apply Program.Always.of_forall
  intro protectedLru
  exact kept

theorem promoteWithinSegment_keeps :
    (stripe.promoteWithinSegment idx).Always fun after =>
      after.sketch = stripe.sketch ∧ after.indexMap = stripe.indexMap := by
  simp only [promoteWithinSegment, Program.always_bind]
  apply Program.Always.of_forall
  intro node
  cases node.segment with
  | window =>
      rw [Program.always_bind]
      apply Program.Always.of_forall
      intro windowLru
      exact ⟨rfl, rfl⟩
  | probation => exact promoteToProtected_keeps stripe idx
  | protected_ =>
      rw [Program.always_bind]
      apply Program.Always.of_forall
      intro protectedLru
      exact ⟨rfl, rfl⟩
  | free => exact ⟨rfl, rfl⟩
  | l2 => exact ⟨rfl, rfl⟩

theorem demoteVictim_keeps :
    (stripe.demoteVictim xx idx).Always fun after =>
      after.sketch = stripe.sketch ∧ after.windowSize = stripe.windowSize := by
  simp only [demoteVictim, Program.always_bind]
  apply Program.Always.of_forall
  intro victim
  split
  · simp only [Program.always_bind]
    apply Program.Always.of_forall
    intro _
    apply Program.Always.of_forall
    intro _
    apply Program.Always.of_forall
    intro _
    exact ⟨rfl, rfl⟩
  · rw [Program.always_bind]
    apply Program.Always.of_forall
    intro _
    exact ⟨rfl, rfl⟩

theorem admitCandidate_keeps :
    (stripe.admitCandidate idx).Always fun after =>
      after.sketch = stripe.sketch ∧ after.windowSize = stripe.windowSize := by
  simp only [admitCandidate, Program.always_bind]
  apply Program.Always.of_forall
  intro _
  apply Program.Always.of_forall
  intro probationLru
  exact ⟨rfl, rfl⟩

theorem rejectCandidate_keeps :
    (stripe.rejectCandidate idx).Always fun after =>
      after.sketch = stripe.sketch ∧ after.windowSize = stripe.windowSize := by
  simp only [rejectCandidate, Program.always_bind]
  apply Program.Always.of_forall
  intro candidate
  apply Program.Always.of_forall
  intro _
  exact ⟨rfl, rfl⟩

theorem contest_keeps :
    (stripe.contest xx idx).Always fun after =>
      after.sketch = stripe.sketch ∧ after.windowSize = stripe.windowSize := by
  simp only [contest, Program.always_bind]
  apply Program.Always.of_forall
  intro candidate
  apply Program.Always.of_forall
  intro victim
  split
  · simp only [Program.always_bind]
    apply Program.Always.of_forall
    intro popped
    refine (demoteVictim_keeps xx { stripe with probationLru := popped.2 }
      stripe.probationLru.peekBack).mono ?_
    intro demoted kept
    refine (admitCandidate_keeps demoted idx).mono ?_
    intro after kept'
    exact ⟨kept'.1.trans kept.1, kept'.2.trans kept.2⟩
  · exact rejectCandidate_keeps stripe idx

theorem tryAdmitFromWindow_keeps :
    (stripe.tryAdmitFromWindow xx).Always fun after =>
      after.sketch = stripe.sketch := by
  simp only [tryAdmitFromWindow, Program.always_bind]
  apply Program.Always.of_forall
  intro popped
  split
  · exact rfl
  · split
    · exact (admitCandidate_keeps { stripe with windowLru := popped.2 }
        popped.1).mono fun _ kept => kept.1
    · split
      · exact (rejectCandidate_keeps { stripe with windowLru := popped.2 }
          popped.1).mono fun _ kept => kept.1
      · exact (contest_keeps xx { stripe with windowLru := popped.2 }
          popped.1).mono fun _ kept => kept.1

theorem shrinkWindow_keeps (rounds : Nat) :
    (stripe.shrinkWindow xx rounds).Always fun after =>
      after.sketch = stripe.sketch := by
  induction rounds generalizing stripe with
  | zero =>
      rw [shrinkWindow]
      split
      · intro impossible
        cases impossible
      · exact rfl
  | succ rounds induction =>
      rw [shrinkWindow]
      split
      · rw [Program.always_bind]
        refine (tryAdmitFromWindow_keeps xx stripe).mono ?_
        intro admitted kept
        exact (induction admitted).mono fun after kept' => kept'.trans kept
      · exact rfl

theorem insertNew_keeps (key : Key) (value : Value) :
    (stripe.insertNew xx key value).Always fun outcome =>
      outcome.2.sketch = stripe.sketch := by
  simp only [insertNew, insertIntoWindow, Program.always_bind]
  apply Program.Always.of_forall
  intro index
  split
  · exact rfl
  · simp only [Program.always_bind]
    apply Program.Always.of_forall
    intro _
    apply Program.Always.of_forall
    intro windowLru
    exact (shrinkWindow_keeps xx _ windowLru.size).mono fun after kept => kept

end Keeps

end CacheStripe

/-- The sketch after a call: whether the call finds its key, and whether a put
is the one that makes the counters decay, is known from outside. -/
def CountMinSketch.after (xx : XxHash) (sketch : CountMinSketch)
    (hit decays : Bool) : CacheCall → CountMinSketch
  | .get key => if hit then sketch.increment xx key else sketch
  | .put key _ =>
      if decays then (sketch.increment xx key).decay
      else sketch.increment xx key
  | .remove _ => sketch

namespace CacheStripe

section Calls

variable (xx : XxHash) (stripe : CacheStripe)

theorem get_sketch (key : Key) :
    (stripe.get xx key).Always fun outcome => outcome.2.cms =
        stripe.cms.after xx (stripe.indexMap.lookup key).isSome false (.get key) ∧
      outcome.2.indexMap = stripe.indexMap := by
  unfold CacheStripe.get
  split
  · rename_i missing
    rw [missing]
    exact ⟨rfl, rfl⟩
  · rename_i idx found
    rw [Program.always_bind, found]
    refine (promoteWithinSegment_keeps _ idx).mono ?_
    intro after kept
    rw [Program.always_bind]
    apply Program.Always.of_forall
    intro node
    exact ⟨congrArg Prod.fst kept.1, kept.2⟩

def decays (stripe : CacheStripe) : Bool :=
  stripe.config.decayInterval ≤ stripe.opsSinceDecay + 1

theorem put_sketch (key : Key) (value : Value) (hit : Bool) :
    (stripe.put xx key value).Always fun outcome =>
      outcome.2.cms = stripe.cms.after xx hit stripe.decays (.put key value) := by
  have counted : (maybeDecayCms
      { stripe with cms := stripe.cms.increment xx key }).cms =
        stripe.cms.after xx hit stripe.decays (.put key value) := by
    unfold maybeDecayCms CountMinSketch.after decays
    split
    · rename_i due
      simp [due]
    · rename_i notDue
      simp [notDue]
  unfold CacheStripe.put
  simp only
  split
  · simp only [Program.always_bind]
    apply Program.Always.of_forall
    intro _
    refine (promoteWithinSegment_keeps _ _).mono ?_
    intro after kept
    exact (congrArg Prod.fst kept.1).trans counted
  · refine (insertNew_keeps xx _ key value).mono ?_
    intro outcome kept
    exact (congrArg Prod.fst kept).trans counted

theorem remove_sketch (key : Key) :
    (stripe.remove key).Always fun outcome => outcome.2.cms = stripe.cms := by
  unfold CacheStripe.remove
  split
  · exact rfl
  · rename_i idx _
    simp only [Program.always_bind]
    apply Program.Always.of_forall
    intro node
    have freed : ∀ after : CacheStripe, after.cms = stripe.cms →
        (SlabProgram.deallocate idx >>= fun _ =>
          (pure (true, { after with indexMap := after.indexMap.erase key }) :
            SlabProgram (Bool × CacheStripe))).Always
          fun outcome => outcome.2.cms = stripe.cms := by
      intro after kept
      rw [Program.always_bind]
      exact Program.Always.of_forall (fun _ => kept) _
    cases node.segment with
    | window =>
        rw [Program.always_bind]
        exact Program.Always.of_forall (fun _ => freed _ rfl) _
    | probation =>
        rw [Program.always_bind]
        exact Program.Always.of_forall (fun _ => freed _ rfl) _
    | protected_ =>
        rw [Program.always_bind]
        exact Program.Always.of_forall (fun _ => freed _ rfl) _
    | free => exact freed _ rfl
    | l2 => exact freed _ rfl

theorem call_sketch (call : CacheCall) :
    (stripe.call xx call).Always fun outcome => outcome.2.cms =
      stripe.cms.after xx (stripe.indexMap.lookup call.key).isSome stripe.decays
        call := by
  cases call with
  | get key =>
      rw [CacheStripe.call, Program.always_bind]
      exact (get_sketch xx stripe key).mono fun outcome kept => kept.1
  | put key value =>
      rw [CacheStripe.call, Program.always_bind]
      exact (put_sketch xx stripe key value _).mono fun outcome kept => kept
  | remove key =>
      rw [CacheStripe.call, Program.always_bind]
      exact (remove_sketch stripe key).mono fun outcome kept => kept

end Calls

end CacheStripe

theorem StripeSystem.run_gets_indexMap {count : Nat} {xx : XxHash}
    {allocator : Pool.Allocator SlabAllocator CacheNode}
    {system system' : StripeSystem count}
    {calls : List (Fin count × CacheCall)} {results : List CallResult}
    (gets : ∀ call ∈ calls, ∃ key, call.2 = .get key)
    (ran : system.run xx allocator calls = some (results, system'))
    (i : Fin count) :
    (system'.stripe i).indexMap = (system.stripe i).indexMap := by
  induction calls generalizing system results with
  | nil =>
      cases ran
      rfl
  | cons head rest induction =>
      rcases head with ⟨j, call⟩
      rcases run_cons_eq_some ran with
        ⟨result, middle, others, called, ranRest, rfl⟩
      rw [induction (fun call member => gets call
        (List.mem_cons_of_mem _ member)) ranRest]
      rcases gets _ List.mem_cons_self with ⟨key, isGet⟩
      simp only at isGet
      subst isGet
      rcases Option.map_eq_some_iff.mp called with ⟨outcome, performed, equal⟩
      obtain ⟨-, rfl⟩ := Prod.mk.inj equal
      have always : ((system.stripe j).call xx (.get key)).Always fun outcome =>
          outcome.2.indexMap = (system.stripe j).indexMap := by
        rw [CacheStripe.call, Program.always_bind]
        exact (CacheStripe.get_sketch xx _ key).mono fun outcome kept => kept.2
      have kept := always.run performed
      by_cases same : i = j
      · subst same
        simpa only [Function.update_self] using kept
      · simp only [Function.update_of_ne same]

end Walde
