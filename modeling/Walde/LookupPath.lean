import Walde.StageTimes

namespace Walde

open Foundation

/-! # The path of a get

Where a get finds its value, as the breakdown says that it leaves behind. -/

abbrev PathProgram := StateT LatencyPath EngineProgram

namespace CacheEngine

open EngineProgram

/-- `get` with a breakdown, whose times are left out. -/
def getPath (key : Key) : PathProgram (Option Value) := do
  match ← l1Get key with
  | some value => do
      set LatencyPath.l1Hit
      return some value
  | none =>
      match ← l2Get key with
      | some value => do
          set LatencyPath.l2Hit
          let _ ← l1Put key value
          return some value
      | none =>
          match ← backendGet key with
          | some value => do
              set LatencyPath.backendHit
              let _ ← l1Put key value
              return some value
          | none => do
              set LatencyPath.miss
              return none

/-- `put` with a breakdown, where it leaves the path alone. -/
def putPath (key : Key) (value : Value) : PathProgram Bool := do
  let _ ← backendPut key value
  l1Put key value

theorem getPath_fst (key : Key) (path : LatencyPath) :
    ((getPath key).run path >>= fun outcome => pure outcome.1) = get key := by
  change Program.call (EngineInstr.l1Get key) _ =
    Program.call (EngineInstr.l1Get key) _
  congr 1
  funext inL1
  cases inL1 with
  | some value => rfl
  | none =>
      change Program.call (EngineInstr.l2Get key) _ =
        Program.call (EngineInstr.l2Get key) _
      congr 1
      funext inL2
      cases inL2 with
      | some value => rfl
      | none =>
          change Program.call (EngineInstr.backendGet key) _ =
            Program.call (EngineInstr.backendGet key) _
          congr 1
          funext inBackend
          cases inBackend <;> rfl

/-! ## The timed calls leave these paths -/

open Timed

section Follows

variable {xx : XxHash} {config : CacheEngineConfig} {α : Type}

def ShowsPath (watch : Stopwatch) (path : LatencyPath) : Prop :=
  watch.Shows fun bd => bd.path = path

abbrev FollowsPath (xx : XxHash) (config : CacheEngineConfig)
    (timed : Timed EngineStateM α) (program : PathProgram α) : Prop :=
  Follows (perform xx) (Valid xx config) ShowsPath timed program

theorem Valid.performs {engine : CacheEngine} (valid : engine.Valid xx config)
    (instr : EngineInstr) :
    ∃ answer after, CacheEngine.perform xx instr engine = some (answer, after) ∧
      after.Valid xx config := by
  have always : Tiers.spec instr (fun _ _ => True) (engine.tiers xx) := by
    cases instr <;> simp [Tiers.spec]
  rcases implements xx config instr _ _ engine ⟨valid, rfl⟩ always with
    ⟨answer, _, after, handled, ⟨valid', -⟩, -⟩
  exact ⟨answer, after, handled, valid'⟩

theorem instruction_follows (instr : EngineInstr) :
    FollowsPath xx config (liftM (instruction xx instr))
      (liftM (Program.perform instr)) := by
  apply Follows.lift
  intro engine valid
  rcases valid.performs instr with ⟨answer, after, handled, valid'⟩
  exact ⟨answer, after, handled, (Program.run_perform _ _ _).trans handled,
    valid'⟩

theorem l1_follows {instr : EngineInstr}
    {timed : Timed EngineStateM (EngineAnswer instr)}
    (erases : Erases timed (instruction xx instr))
    (leaves : ∀ {watch last path engine after answer}, ShowsPath watch path →
      timed watch engine = some ((answer, last), after) → ShowsPath last path) :
    FollowsPath xx config timed (liftM (Program.perform instr)) := by
  intro watch path engine shown valid
  rcases valid.performs instr with ⟨answer, after, handled, valid'⟩
  rcases erases.outcome handled watch with ⟨last, completed⟩
  refine ⟨answer, last, path, after, completed, ?_, leaves shown completed,
    valid'⟩
  change (Program.perform instr >>= fun result =>
    pure (result, path)).run (perform xx) engine = _
  rw [Program.run_bind, Program.run_perform, handled]
  rfl

theorem l1GetWith_follows (key : Key) :
    FollowsPath xx config (l1GetWith xx key) (liftM (l1Get key)) := by
  apply @l1_follows xx config (.l1Get key) _ (l1GetWith_erases xx key)
  rintro ⟨readings, _⟩ last path engine after answer ⟨bd, present, same⟩
    completed
  cases present
  rcases Option.bind_eq_some_iff.mp completed with
    ⟨⟨⟨⟨_, _⟩, _⟩, l1⟩, got, returned⟩
  cases returned
  obtain rfl := StripeSystem.performWith_leaves
    (leaves_modifyGet_bind (CacheStripe.getTimed_leaves xx _ key readings bd)) got
  exact ⟨_, rfl, same⟩

theorem l1PutWith_follows (key : Key) (value : Value) :
    FollowsPath xx config (l1PutWith xx key value) (liftM (l1Put key value)) := by
  apply @l1_follows xx config (.l1Put key value) _ (l1PutWith_erases xx key value)
  rintro ⟨readings, _⟩ last path engine after answer ⟨bd, present, same⟩
    completed
  cases present
  rcases Option.bind_eq_some_iff.mp completed with
    ⟨⟨⟨⟨_, _⟩, _⟩, l1⟩, put, returned⟩
  cases returned
  rcases StripeSystem.performWith_leaves (leaves_modifyGet_bind
    (CacheStripe.putTimed_shows xx _ key value readings bd)) put with
    ⟨bd', present', -, -, same'⟩
  exact ⟨bd', present', same'.trans same⟩

theorem tell_follows {path : LatencyPath}
    {change : LatencyBreakdown → LatencyBreakdown}
    {next : Unit → Timed EngineStateM α}
    {programNext : PUnit → PathProgram α}
    (tells : ∀ bd, (change bd).path = path)
    (rest : FollowsPath xx config (next ()) (programNext ⟨⟩)) :
    FollowsPath xx config (record change >>= next)
      (set path >>= programNext) := by
  refine Follows.set ?_ rest
  rintro watch before ⟨bd, present, -⟩
  exact ⟨change bd, congrArg (Option.map change) present, tells bd⟩

theorem note_follows {change : LatencyBreakdown → LatencyBreakdown}
    {next : Unit → Timed EngineStateM α} {program : PathProgram α}
    (kept : ∀ bd, (change bd).path = bd.path)
    (rest : FollowsPath xx config (next ()) program) :
    FollowsPath xx config (record change >>= next) program := by
  refine Follows.note ?_ fun _ => rest
  rintro watch path ⟨bd, present, same⟩
  exact ⟨change bd, congrArg (Option.map change) present, (kept bd).trans same⟩

theorem now_follows {next : Int → Timed EngineStateM α}
    {program : PathProgram α}
    (rest : ∀ time, FollowsPath xx config (next time) program) :
    FollowsPath xx config (now >>= next) program :=
  Follows.note (fun _ _ shown => shown) rest

theorem hasBreakdown_follows {timed untimed : Timed EngineStateM α}
    {program : PathProgram α} (follows : FollowsPath xx config timed program) :
    FollowsPath xx config (do if ← hasBreakdown then timed else untimed)
      program := by
  rintro ⟨readings, _⟩ path engine ⟨bd, present, same⟩ valid
  cases present
  exact follows ⟨bd, rfl, same⟩ valid

theorem startTimer_follows {next : Int → Timed EngineStateM α}
    {program : PathProgram α}
    (rest : ∀ start, FollowsPath xx config (next start) program) :
    FollowsPath xx config (startTimer >>= next) program := by
  rintro ⟨readings, _⟩ path engine ⟨bd, present, same⟩ valid
  cases present
  exact rest (readings 0) ⟨bd, rfl, same⟩ valid

theorem stopTimer_follows {start : Int}
    {change : Int → LatencyBreakdown → LatencyBreakdown}
    {next : Unit → Timed EngineStateM α} {program : PathProgram α}
    (kept : ∀ ns bd, (change ns bd).path = bd.path)
    (rest : FollowsPath xx config (next ()) program) :
    FollowsPath xx config (stopTimer start change >>= next) program := by
  rintro ⟨readings, _⟩ path engine ⟨bd, present, same⟩ valid
  cases present
  exact rest ⟨change (readings 0 - start) bd, rfl, (kept _ bd).trans same⟩ valid

theorem l2GetWith_follows (key : Key) :
    FollowsPath xx config (l2GetWith xx key) (liftM (l2Get key)) := by
  rw [← bind_pure (liftM (l2Get key) : PathProgram (Option Value))]
  apply startTimer_follows
  intro start
  apply (instruction_follows (.l2Get key)).bind
  intro found
  refine stopTimer_follows ?_ (.pure found)
  exact fun _ _ => rfl

theorem refill_follows (key : Key) (value : Value) :
    FollowsPath xx config (do
        let _ ← l1PutWith xx key value
        return some value)
      (do
        let _ ← l1Put key value
        return some value) :=
  (l1PutWith_follows key value).bind fun _ => .pure _

theorem getWith_follows (key : Key) :
    FollowsPath xx config (getWith xx key) (getPath key) := by
  apply (l1GetWith_follows key).bind
  intro inL1
  cases inL1 with
  | some value => exact tell_follows (fun _ => rfl) (.pure _)
  | none =>
      apply (l2GetWith_follows key).bind
      intro inL2
      cases inL2 with
      | some value =>
          exact tell_follows (fun _ => rfl) (refill_follows key value)
      | none =>
          apply hasBreakdown_follows
          apply now_follows
          intro backendStart
          apply (instruction_follows (.backendGet key)).bind
          intro found
          apply now_follows
          intro backendEnd
          refine note_follows ?_ ?_
          · exact fun _ => rfl
          · cases found with
            | some value =>
                exact tell_follows (fun _ => rfl) (refill_follows key value)
            | none => exact tell_follows (fun _ => rfl) (.pure _)

theorem putWith_follows (key : Key) (value : Value) :
    FollowsPath xx config (putWith xx key value) (putPath key value) :=
  (instruction_follows (.backendPut key value)).bind fun _ =>
    l1PutWith_follows key value

end Follows

end CacheEngine

/-! ## What a breakdown tells -/

def Tiers.first (tiers : Tiers) (key : Key) : Option Value × LatencyPath :=
  match tiers.l1 key with
  | some value => (some value, .l1Hit)
  | none =>
      match tiers.l2 key with
      | some value => (some value, .l2Hit)
      | none =>
          match tiers.backend key with
          | some value => (some value, .backendHit)
          | none => (none, .miss)

namespace CacheEngine

theorem getPath_first (tiers : Tiers) (key : Key) (path : LatencyPath) :
    ((getPath key).run path).wp Tiers.spec
      (fun outcome _ => outcome = tiers.first key) tiers := by
  change Tiers.spec (.l1Get key) _ tiers
  rw [Tiers.spec]
  cases inL1 : tiers.l1 key with
  | some value =>
      change _ = tiers.first key
      rw [Tiers.first, inL1]
  | none =>
      change Tiers.spec (.l2Get key) _ tiers
      rw [Tiers.spec]
      cases inL2 : tiers.l2 key with
      | some value =>
          intro inserted after put
          change _ = tiers.first key
          rw [Tiers.first, inL1, inL2]
      | none =>
          change Tiers.spec (.backendGet key) _ _
          rw [Tiers.spec]
          cases inBackend : tiers.backend key with
          | some value =>
              intro inserted after put
              change _ = tiers.first key
              rw [Tiers.first, inL1, inL2, inBackend]
          | none =>
              change _ = tiers.first key
              rw [Tiers.first, inL1, inL2, inBackend]

theorem putPath_leaves (tiers : Tiers) (key : Key) (value : Value)
    (path : LatencyPath) : ((putPath key value).run path).wp Tiers.spec
      (fun outcome _ => outcome.2 = path) tiers :=
  fun _ _ _ => rfl

variable {xx : XxHash} {config : CacheEngineConfig} {engine : CacheEngine}

/-- In every state that the engine can reach, a get answers what the first tier
has, and its breakdown says which one that was; a put leaves the path in its
breakdown as it was. -/
theorem breakdown_path {backend : InMemoryBackend}
    (made : CacheEngine.new config backend = some engine)
    {steps : List EngineStep} {replies : List (Option CacheReply)}
    {reached : CacheEngine}
    (ran : engine.run xx steps = some (replies, reached)) (key : Key)
    (value : Value) (readings : Nat → Int) (bd : LatencyBreakdown) :
    (∃ clock bd' after, getWith xx key ⟨readings, some bd⟩ reached =
        some ((((reached.tiers xx).first key).1, ⟨clock, some bd'⟩), after) ∧
      bd'.path = ((reached.tiers xx).first key).2) ∧
    ∃ stored clock bd' after, putWith xx key value ⟨readings, some bd⟩ reached =
        some ((stored, ⟨clock, some bd'⟩), after) ∧
      bd'.path = bd.path := by
  rcases (Valid.new made : engine.Valid xx config).run steps with
    ⟨_, _, ran', valid⟩
  rw [ran] at ran'
  cases ran'
  have shown : ShowsPath ⟨readings, some bd⟩ bd.path := ⟨bd, rfl, rfl⟩
  constructor
  · rcases getWith_follows key shown valid with
      ⟨found, ⟨clock, _⟩, path, after, completed, followed, ⟨bd', rfl, same⟩, -⟩
    rcases Program.run_of_wp (implements xx config) ⟨valid, rfl⟩
        (getPath_first (reached.tiers xx) key bd.path) with
      ⟨outcome, _, _, followed', -, first⟩
    have equal : (found, path) = (reached.tiers xx).first key := by
      have both := followed.symm.trans followed'
      rw [← first]
      exact congrArg Prod.fst (Option.some.inj both)
    refine ⟨clock, bd', after, ?_, ?_⟩
    · rw [completed, ← equal]
    · rw [same, ← equal]
  · rcases putWith_follows key value shown valid with
      ⟨stored, ⟨clock, _⟩, path, after, completed, followed, ⟨bd', rfl, same⟩, -⟩
    rcases Program.run_of_wp (implements xx config) ⟨valid, rfl⟩
        (putPath_leaves (reached.tiers xx) key value bd.path) with
      ⟨outcome, _, _, followed', -, leaves⟩
    have equal := congrArg (·.1.2)
      (Option.some.inj (followed.symm.trans followed'))
    exact ⟨stored, clock, bd', after, completed,
      same.trans (equal.trans leaves)⟩

theorem breakdown_path_sample :
    ∃ engine, CacheEngine.new .sample (.new ∅) = some engine ∧
      ∃ replies reached,
        engine.run .sample [.call (.put "k" "1")] = some (replies, reached) ∧
      (∃ clock bd' after,
        getWith .sample "k" ⟨fun i => i, some { lookupNs := 7 }⟩ reached =
          some ((((reached.tiers .sample).first "k").1, ⟨clock, some bd'⟩),
            after) ∧
        bd'.path = ((reached.tiers .sample).first "k").2) := by
  have accepted : ∃ engine, CacheEngine.new .sample (.new ∅) = some engine := by
    have made : (CacheEngine.new .sample (.new ∅)).isSome = true := by
      decide +kernel
    exact Option.isSome_iff_exists.mp made
  rcases accepted with ⟨engine, made⟩
  rcases (Valid.new made : engine.Valid .sample _).run [.call (.put "k" "1")]
    with ⟨replies, reached, ran, -⟩
  exact ⟨engine, made, replies, reached, ran,
    (breakdown_path made ran "k" "2" _ { lookupNs := 7 }).1⟩

end CacheEngine

end Walde
