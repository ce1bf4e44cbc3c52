import Walde.CountMinSketch

namespace Walde

/-! # What the W-TinyLFU baseline counts with -/

def keyBytes (key : Key) : List UInt8 := key.toUTF8.toList

/-! ## The doorkeeper

A Bloom filter of the keys that were seen since the last reset. A division by
no bits and an access behind the last word are faults. -/

structure BloomDoorkeeper where
  numBits : Nat
  bits : List UInt64
deriving DecidableEq, Repr

namespace BloomDoorkeeper

/-- The number of words is computed in 32 bits. -/
def new (numBits : Nat) : BloomDoorkeeper where
  numBits
  bits := List.replicate ((numBits + 63) % uint32Size / 64) 0

def hash1 (doorkeeper : BloomDoorkeeper) (key : Key) : Option Nat :=
  let h := (keyBytes key).foldl
    (fun (h : UInt32) c => (h ^^^ c.toUInt32) * 0x01000193) 0x811C9DC5
  if doorkeeper.numBits = 0 then none else some (h.toNat % doorkeeper.numBits)

def hash2 (doorkeeper : BloomDoorkeeper) (key : Key) : Option Nat :=
  let h := (keyBytes key).foldl
    (fun (h : UInt32) c => ((h <<< 5) + h) + c.toUInt32) 5381
  if doorkeeper.numBits = 0 then none else some (h.toNat % doorkeeper.numBits)

def testBit (doorkeeper : BloomDoorkeeper) (pos : Nat) : Option Bool := do
  let word ← doorkeeper.bits[pos / 64]?
  return (word >>> UInt64.ofNat (pos % 64)) &&& 1 = 1

def setBit (doorkeeper : BloomDoorkeeper) (pos : Nat) :
    Option BloomDoorkeeper := do
  let word ← doorkeeper.bits[pos / 64]?
  let word := word ||| (1 <<< UInt64.ofNat (pos % 64))
  return { doorkeeper with bits := doorkeeper.bits.set (pos / 64) word }

def containsAndAdd (doorkeeper : BloomDoorkeeper) (key : Key) :
    Option (Bool × BloomDoorkeeper) := do
  let h1 ← doorkeeper.hash1 key
  let h2 ← doorkeeper.hash2 key
  let first ← doorkeeper.testBit h1
  let wasPresent ← if first then doorkeeper.testBit h2 else some false
  let doorkeeper ← doorkeeper.setBit h1
  let doorkeeper ← doorkeeper.setBit h2
  return (wasPresent, doorkeeper)

def reset (doorkeeper : BloomDoorkeeper) : BloomDoorkeeper :=
  { doorkeeper with bits := doorkeeper.bits.map fun _ => 0 }

/-! ## When it does not fault -/

/-- There are bits, and a word for each of them. -/
structure Ready (doorkeeper : BloomDoorkeeper) : Prop where
  positive : 0 < doorkeeper.numBits
  words : doorkeeper.numBits ≤ 64 * doorkeeper.bits.length

def Provides (numBits : Nat) : Prop := 0 < numBits ∧ numBits + 63 < uint32Size

instance (numBits : Nat) : Decidable (Provides numBits) :=
  inferInstanceAs (Decidable (_ ∧ _))

theorem Ready.new {numBits : Nat} (provides : Provides numBits) :
    (new numBits).Ready where
  positive := provides.1
  words := by
    rw [BloomDoorkeeper.new, List.length_replicate,
      Nat.mod_eq_of_lt provides.2]
    change numBits ≤ _
    omega

section Ready

variable {doorkeeper : BloomDoorkeeper} {pos : Nat}

theorem Ready.word (ready : doorkeeper.Ready)
    (within : pos < doorkeeper.numBits) :
    ∃ word, doorkeeper.bits[pos / 64]? = some word := by
  have words := ready.words
  exact ⟨_, List.getElem?_eq_getElem (by omega)⟩

theorem Ready.testBit (ready : doorkeeper.Ready)
    (within : pos < doorkeeper.numBits) :
    ∃ bit, doorkeeper.testBit pos = some bit := by
  rcases ready.word within with ⟨word, found⟩
  rw [BloomDoorkeeper.testBit, found]
  exact ⟨_, rfl⟩

theorem Ready.setBit (ready : doorkeeper.Ready)
    (within : pos < doorkeeper.numBits) :
    ∃ after, doorkeeper.setBit pos = some after ∧ after.Ready ∧
      after.numBits = doorkeeper.numBits := by
  rcases ready.word within with ⟨word, found⟩
  rw [BloomDoorkeeper.setBit, found]
  refine ⟨_, rfl, ⟨ready.positive, ?_⟩, rfl⟩
  rw [List.length_set]
  exact ready.words

theorem Ready.hash1 (ready : doorkeeper.Ready) (key : Key) :
    ∃ h, doorkeeper.hash1 key = some h ∧ h < doorkeeper.numBits := by
  rw [BloomDoorkeeper.hash1, if_neg (Nat.ne_of_gt ready.positive)]
  exact ⟨_, rfl, Nat.mod_lt _ ready.positive⟩

theorem Ready.hash2 (ready : doorkeeper.Ready) (key : Key) :
    ∃ h, doorkeeper.hash2 key = some h ∧ h < doorkeeper.numBits := by
  rw [BloomDoorkeeper.hash2, if_neg (Nat.ne_of_gt ready.positive)]
  exact ⟨_, rfl, Nat.mod_lt _ ready.positive⟩

theorem Ready.containsAndAdd (ready : doorkeeper.Ready) (key : Key) :
    ∃ wasPresent after, doorkeeper.containsAndAdd key =
      some (wasPresent, after) ∧ after.Ready := by
  rcases ready.hash1 key with ⟨h1, hashed1, within1⟩
  rcases ready.hash2 key with ⟨h2, hashed2, within2⟩
  rcases ready.testBit within1 with ⟨bit1, tested1⟩
  rcases ready.testBit within2 with ⟨bit2, tested2⟩
  rcases ready.setBit within1 with ⟨middle, set1, ready', sameBits⟩
  rcases ready'.setBit (sameBits ▸ within2) with ⟨after, set2, ready'', -⟩
  refine ⟨if bit1 then bit2 else false, after, ?_, ready''⟩
  simp only [BloomDoorkeeper.containsAndAdd, hashed1, hashed2, tested1, tested2,
    set1, set2, Option.bind_eq_bind, Option.bind_some]
  cases bit1 <;> rfl

theorem Ready.reset (ready : doorkeeper.Ready) : doorkeeper.reset.Ready where
  positive := ready.positive
  words := by
    rw [BloomDoorkeeper.reset, List.length_map]
    exact ready.words

end Ready

/-- Any other number of bits makes the first access fault: either there is no
bit, or the number of words wrapped around to none. -/
theorem containsAndAdd_new {numBits : Nat} (word : numBits < uint32Size)
    (fails : ¬Provides numBits) (key : Key) :
    (new numBits).containsAndAdd key = none := by
  by_cases none' : numBits = 0
  · simp [containsAndAdd, hash1, new, none']
  · have noWords : (new numBits).bits = [] := by
      have wraps : (numBits + 63) % uint32Size / 64 = 0 := by
        simp only [Provides, uint32Size] at *
        omega
      rw [new, wraps, List.replicate_zero]
    have untested : ∀ pos, (new numBits).testBit pos = none := by
      simp [testBit, noWords]
    simp [containsAndAdd, untested]

end BloomDoorkeeper

/-! ## The sketch -/

/-- The sketch of the baseline is that of the stripes with a hash of its own,
which takes the place of `xxh32`. -/
def TinyLfuSketch.hash : XxHash where
  xxh32 key seed := ((keyBytes key).foldl (fun (h : UInt32) c =>
    let h := (h ^^^ c.toUInt32) * 0x01000193
    h ^^^ (h >>> 16)) (UInt32.ofNat seed)).toNat
  xxh64 _ _ := 0

namespace TinyLfuSketch

def increment (sketch : CountMinSketch) (key : Key) : CountMinSketch :=
  sketch.increment hash key

def estimate (sketch : CountMinSketch) (key : Key) : Nat :=
  sketch.estimate hash key

end TinyLfuSketch

end Walde
