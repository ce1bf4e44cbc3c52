import Walde.Foundation.Machine
import Walde.StripeSystem

namespace Walde

/-! # Calls of the baseline caches

The caches that the benchmarks compare the stripes with have no removal. -/

inductive BaselineCall
  | get (key : Key)
  | put (key : Key) (value : Value)
deriving DecidableEq, Repr

def CacheReply.isHit : CacheReply → Bool
  | .value (some _) => true
  | _ => false

def CacheReply.isMiss : CacheReply → Bool
  | .value none => true
  | _ => false

namespace BaselineCall

def call : BaselineCall → CacheCall
  | .get key => .get key
  | .put key value => .put key value

def putOf (key : Key) : BaselineCall → Option Value
  | .get _ => none
  | .put other value => if other = key then some value else none

def lastPut (key : Key) (calls : List BaselineCall) : Option Value :=
  calls.foldl (fun last call => (call.putOf key).or last) none

@[simp] theorem lastPut_concat (key : Key) (calls : List BaselineCall)
    (call : BaselineCall) :
    lastPut key (calls ++ [call]) = (call.putOf key).or (lastPut key calls) := by
  rw [lastPut, List.foldl_append]
  rfl

theorem lastPut_put_self (key : Key) (value : Value)
    (calls : List BaselineCall) :
    lastPut key (calls ++ [.put key value]) = some value := by
  simp [putOf]

theorem lastPut_put_ne {key other : Key} (different : key ≠ other)
    (value : Value) (calls : List BaselineCall) :
    lastPut key (calls ++ [.put other value]) = lastPut key calls := by
  simp [putOf, Ne.symm different]

theorem lastPut_get (key other : Key) (calls : List BaselineCall) :
    lastPut key (calls ++ [.get other]) = lastPut key calls := by
  simp [putOf]

/-! ## Uses -/

/-- A put uses its key, and so does a get that hits. -/
def used : BaselineCall → CacheReply → Option Key
  | .put key _, _ => some key
  | .get key, .value (some _) => some key
  | .get _, _ => none

def uses (calls : List BaselineCall) (replies : List CacheReply) : List Key :=
  (calls.zip replies).filterMap fun pair => pair.1.used pair.2

theorem uses_concat {calls : List BaselineCall} {replies : List CacheReply}
    (length : replies.length = calls.length) (call : BaselineCall)
    (reply : CacheReply) :
    uses (calls ++ [call]) (replies ++ [reply]) =
      uses calls replies ++ (call.used reply).toList := by
  rw [uses, List.zip_append length.symm, List.filterMap_append]
  cases used : call.used reply <;> simp [uses, used]

end BaselineCall

end Walde
