import Walde.DemotionDrainer
import Walde.Foundation.Machine
import Walde.L2Stripe
import Walde.StorageBackend
import Walde.StripedCache

namespace Walde

open Foundation

/-! # The cache engine

L1 in front of L2 in front of the backend; what L1 evicts goes through the
demotion queue to L2. The behaviour of the calls without a
`LatencyBreakdown`. -/

def kNumL2Stripes : Nat := 16

structure CacheEngineConfig where
  l1Config : StripedCacheConfig := {}
  l2Capacity : Nat := 2048
  demotionQueueSize : Nat := 2048
  demotionQueueSize_lt : demotionQueueSize < uint32Size := by decide

def CacheEngineConfig.sample : CacheEngineConfig where
  l1Config := .sample
  l2Capacity := 16
  demotionQueueSize := 64

structure CacheEngine where
  l1 : StripedCache
  backend : InMemoryBackend
  demotionQueue : DemotionQueue
  l2Stripes : Fin kNumL2Stripes → L2Stripe
  l2CapacityPerStripe : Nat
  drainer : DemotionDrainer

/-! ## Programs on the engine

Each call of the engine is a sequence of steps, each of which holds one lock
only. -/

inductive EngineInstr
  | l1Get (key : Key)
  | l1Put (key : Key) (value : Value)
  | l1Remove (key : Key)
  | l2Get (key : Key)
  | l2Remove (key : Key)
  | backendGet (key : Key)
  | backendPut (key : Key) (value : Value)
  | backendRemove (key : Key)
deriving DecidableEq, Repr

abbrev EngineAnswer : EngineInstr → Type
  | .l1Get _ => Option Value
  | .l1Put _ _ => Bool
  | .l1Remove _ => Bool
  | .l2Get _ => Option Value
  | .l2Remove _ => Unit
  | .backendGet _ => Option Value
  | .backendPut _ _ => Bool
  | .backendRemove _ => Bool

abbrev EngineProgram := Program EngineAnswer

namespace EngineProgram

def l1Get (key : Key) : EngineProgram (Option Value) :=
  Program.perform (.l1Get key : EngineInstr)

def l1Put (key : Key) (value : Value) : EngineProgram Bool :=
  Program.perform (.l1Put key value : EngineInstr)

def l1Remove (key : Key) : EngineProgram Bool :=
  Program.perform (.l1Remove key : EngineInstr)

def l2Get (key : Key) : EngineProgram (Option Value) :=
  Program.perform (.l2Get key : EngineInstr)

def l2Remove (key : Key) : EngineProgram Unit :=
  Program.perform (.l2Remove key : EngineInstr)

def backendGet (key : Key) : EngineProgram (Option Value) :=
  Program.perform (.backendGet key : EngineInstr)

def backendPut (key : Key) (value : Value) : EngineProgram Bool :=
  Program.perform (.backendPut key value : EngineInstr)

def backendRemove (key : Key) : EngineProgram Bool :=
  Program.perform (.backendRemove key : EngineInstr)

end EngineProgram

namespace CacheEngine

open EngineProgram

def get (key : Key) : EngineProgram (Option Value) := do
  match ← l1Get key with
  | some value => return some value
  | none =>
      match ← l2Get key with
      | some value =>
          let _ ← l1Put key value
          return some value
      | none =>
          match ← backendGet key with
          | some value =>
              let _ ← l1Put key value
              return some value
          | none => return none

def put (key : Key) (value : Value) : EngineProgram Bool := do
  let _ ← backendPut key value
  l1Put key value

def remove (key : Key) : EngineProgram Bool := do
  let inL1 ← l1Remove key
  l2Remove key
  let inBackend ← backendRemove key
  return inL1 || inBackend

def request : CacheCall → EngineProgram CacheReply
  | .get key => do
      let found ← get key
      return .value found
  | .put key value => do
      let inserted ← put key value
      return .changed inserted
  | .remove key => do
      let removed ← remove key
      return .changed removed

/-! ## Steps -/

def new (config : CacheEngineConfig) (backend : InMemoryBackend) :
    Option CacheEngine :=
  (StripedCache.new config.l1Config true).map fun l1 =>
    { l1, backend
      demotionQueue := .new config.demotionQueueSize
      l2Stripes := fun _ => .new
      l2CapacityPerStripe := max 1 (config.l2Capacity / kNumL2Stripes)
      drainer := .new }

def l2StripeIndex (xx : XxHash) (key : Key) : Fin kNumL2Stripes :=
  ⟨xx.xxh64 key 0x1234567890ABCDEF % kNumL2Stripes, Nat.mod_lt _ (by decide)⟩

def afterL1 (engine : CacheEngine) (l1 : StripedCache)
    (offered : List DemotionItem) : CacheEngine :=
  { engine with
    l1
    demotionQueue := offered.foldl (fun queue item => (queue.tryPush item).2)
      engine.demotionQueue }

def afterL2 (engine : CacheEngine) (index : Fin kNumL2Stripes)
    (stripe : L2Stripe) : CacheEngine :=
  { engine with l2Stripes := Function.update engine.l2Stripes index stripe }

def perform (xx : XxHash) : Handler EngineAnswer CacheEngine
  | .l1Get key, engine => do
      let ((found, offered), l1) ← engine.l1.get xx key
      return (found, engine.afterL1 l1 offered)
  | .l1Put key value, engine => do
      let ((inserted, offered), l1) ← engine.l1.put xx key value
      return (inserted, engine.afterL1 l1 offered)
  | .l1Remove key, engine => do
      let ((removed, offered), l1) ← engine.l1.remove xx key
      return (removed, engine.afterL1 l1 offered)
  | .l2Get key, engine => do
      let (found, stripe) ← (engine.l2Stripes (l2StripeIndex xx key)).get key
      return (found, engine.afterL2 (l2StripeIndex xx key) stripe)
  | .l2Remove key, engine =>
      some ((), engine.afterL2 (l2StripeIndex xx key)
        ((engine.l2Stripes (l2StripeIndex xx key)).remove key))
  | .backendGet key, engine =>
      let (found, backend) := engine.backend.get key
      some (found, { engine with backend })
  | .backendPut key value, engine =>
      let (stored, backend) := engine.backend.put key value
      some (stored, { engine with backend })
  | .backendRemove key, engine =>
      let (removed, backend) := engine.backend.remove key
      some (removed, { engine with backend })

/-- One step of the drainer thread, whose `insert_fn_` is `l2_put_batch`. -/
def drain (xx : XxHash) (engine : CacheEngine) : Option CacheEngine :=
  let (delivered, drainer, demotionQueue) :=
    engine.drainer.step engine.demotionQueue
  let engine := { engine with drainer, demotionQueue }
  match delivered with
  | none => some engine
  | some item => do
      let stripe ← (engine.l2Stripes (l2StripeIndex xx item.key)).put
        engine.l2CapacityPerStripe item
      return engine.afterL2 (l2StripeIndex xx item.key) stripe

end CacheEngine

/-- A call that one client makes, or a step of the drainer between two calls. -/
inductive EngineStep
  | call (call : CacheCall)
  | drain
deriving DecidableEq, Repr

namespace CacheEngine

def step (xx : XxHash) : Machine CacheEngine EngineStep (Option CacheReply)
  | engine, .call call => do
      let (reply, engine) ← (request call).run (perform xx) engine
      return (some reply, engine)
  | engine, .drain => do
      let engine ← engine.drain xx
      return (none, engine)

def run (xx : XxHash) (steps : List EngineStep) (engine : CacheEngine) :
    Option (List (Option CacheReply) × CacheEngine) :=
  (step xx).run steps engine

/-! ## Observations -/

def l1Size (engine : CacheEngine) : Nat := engine.l1.totalSize

def l2Size (engine : CacheEngine) : Nat :=
  (∑ i, Recency.size (engine.l2Stripes i).map) % uint32Size

def l2Peek (xx : XxHash) (engine : CacheEngine) (key : Key) : Option Value :=
  (engine.l2Stripes (l2StripeIndex xx key)).peek key

/-- The items that left L1 and are not in L2 yet, in the order in which they
will arrive. -/
def inFlight (engine : CacheEngine) : List DemotionItem :=
  engine.drainer.inFlight engine.demotionQueue

end CacheEngine

end Walde
