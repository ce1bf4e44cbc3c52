import Mathlib.Data.List.AList
import Mathlib.Logic.Function.Basic
import Walde.Types

namespace Walde

/-! # The backend -/

structure InMemoryBackend where
  store : AList fun _ : Key => Value
  reads : Nat
  writes : Nat

namespace InMemoryBackend

def new (store : AList fun _ : Key => Value) : InMemoryBackend where
  store
  reads := 0
  writes := 0

def get (backend : InMemoryBackend) (key : Key) :
    Option Value × InMemoryBackend :=
  (backend.store.lookup key, { backend with reads := backend.reads + 1 })

def put (backend : InMemoryBackend) (key : Key) (value : Value) :
    Bool × InMemoryBackend :=
  (true, { backend with
    store := backend.store.insert key value
    writes := backend.writes + 1 })

def remove (backend : InMemoryBackend) (key : Key) : Bool × InMemoryBackend :=
  match backend.store.lookup key with
  | none => (false, backend)
  | some _ => (true, { backend with store := backend.store.erase key })

/-! ## The backend as a map -/

def lookup (backend : InMemoryBackend) (key : Key) : Option Value :=
  backend.store.lookup key

theorem put_lookup (backend : InMemoryBackend) (key : Key) (value : Value) :
    (backend.put key value).2.lookup =
      Function.update backend.lookup key (some value) := by
  funext other
  by_cases same : other = key
  · subst same
    rw [Function.update_self]
    exact AList.lookup_insert backend.store
  · rw [Function.update_of_ne same]
    exact AList.lookup_insert_ne same

theorem remove_lookup (backend : InMemoryBackend) (key : Key) :
    (backend.remove key).1 = (backend.lookup key).isSome ∧
      (backend.remove key).2.lookup =
        Function.update backend.lookup key none := by
  unfold remove lookup
  cases found : backend.store.lookup key with
  | none =>
      refine ⟨rfl, (Function.update_eq_self_iff.mpr found.symm).symm⟩
  | some value =>
      refine ⟨rfl, ?_⟩
      funext other
      by_cases same : other = key
      · subst same
        rw [Function.update_self]
        exact AList.lookup_erase other backend.store
      · rw [Function.update_of_ne same]
        exact AList.lookup_erase_ne same

end InMemoryBackend

end Walde
