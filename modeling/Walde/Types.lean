import Walde.Foundation.Pool

namespace Walde

/-! Keys and values are `std::string`. -/

abbrev Key := String

abbrev Value := String

/-! ## Constants -/

def kNumStripes : Nat := 64

/-- `UINT32_MAX`, the mark of a missing index. -/
def kInvalidIndex : Nat := 4294967295

def uint32Size : Nat := 4294967296

def uint64Size : Nat := 18446744073709551616

/-- The two hash functions of the xxHash library, from a key and a seed. They
are not part of the repository, so every result holds for any such functions. -/
structure XxHash where
  xxh32 : Key → Nat → Nat
  xxh64 : Key → Nat → Nat

/-- The library's hashes of eight keys, with every seed that is used. -/
def XxHash.sample : XxHash where
  xxh32 key seed := (List.lookup (key, seed) [
    (("k", 2654435769), 3401813661),
    (("k", 177840359), 2365984588),
    (("k", 1996212245), 353521165),
    (("k", 3814584131), 1042361896),
    (("w", 2654435769), 2836566846),
    (("w", 177840359), 75067712),
    (("w", 1996212245), 966971161),
    (("w", 3814584131), 2211870130),
    (("x", 2654435769), 3369861658),
    (("x", 177840359), 2202699702),
    (("x", 1996212245), 530339404),
    (("x", 3814584131), 573780215),
    (("bu", 2654435769), 2415224817),
    (("bu", 177840359), 1450665585),
    (("bu", 1996212245), 3253245581),
    (("bu", 3814584131), 1449913801),
    (("b", 2654435769), 2221714323),
    (("b", 177840359), 685201566),
    (("b", 1996212245), 2089271793),
    (("b", 3814584131), 3010605903),
    (("p", 2654435769), 3905278926),
    (("p", 177840359), 3595958776),
    (("p", 1996212245), 795678024),
    (("p", 3814584131), 3938362733),
    (("z", 2654435769), 1728304079),
    (("z", 177840359), 1576395271),
    (("z", 1996212245), 3171252205),
    (("z", 3814584131), 2778288660),
    (("bh", 2654435769), 3582464473),
    (("bh", 177840359), 1287508263),
    (("bh", 1996212245), 1856397792),
    (("bh", 3814584131), 2354085417)]).getD 0
  xxh64 key seed := (List.lookup (key, seed) [
    (("k", 0), 14110649694607317859),
    (("k", 1311768467294899695), 1641500971714948043),
    (("w", 0), 3146246727465687523),
    (("w", 1311768467294899695), 12604641896442282635),
    (("x", 0), 6665539201184043299),
    (("x", 1311768467294899695), 13654303892976657985),
    (("bu", 0), 1057531198799608355),
    (("bu", 1311768467294899695), 14789292885055127124),
    (("b", 0), 8666379929374662555),
    (("b", 1311768467294899695), 6199957669588603666),
    (("p", 0), 17721168523505783535),
    (("p", 1311768467294899695), 3964531033284766410),
    (("z", 0), 327173387797980296),
    (("z", 1311768467294899695), 17865910306664666656),
    (("bh", 0), 7463870249242647228),
    (("bh", 1311768467294899695), 680292157136975051)]).getD 0

/-! ## Cache nodes -/

inductive Segment
  | free
  | window
  | probation
  | protected_
  | l2
deriving DecidableEq, Repr

structure CacheNode where
  prev : Nat := kInvalidIndex
  next : Nat := kInvalidIndex
  key : Key := ""
  value : Value := ""
  segment : Segment := .free
deriving DecidableEq, Repr

def CacheNode.reset : CacheNode := {}

/-- What a full stripe hands to the demotion queue. -/
structure DemotionItem where
  key : Key
  value : Value
  frequency : Nat
deriving DecidableEq, Repr

/-! ## Programs on the slab

The code of one cache stripe reads and writes slab nodes between calls of the
allocator. It is written as a program over these atomic instructions, so that
the same text can be run alone or interleaved with the other stripes. -/

def slabLayout : Foundation.Pool.Layout CacheNode where
  blank := CacheNode.reset
  invalid := kInvalidIndex

abbrev SlabInstr := Foundation.Pool.Instr CacheNode DemotionItem

abbrev SlabProgram :=
  Foundation.Program (@Foundation.Pool.Answer CacheNode DemotionItem)

abbrev SlabView := Foundation.Pool.View CacheNode DemotionItem

namespace SlabProgram

def allocate : SlabProgram Nat :=
  Foundation.Program.perform (.allocate : SlabInstr)

def deallocate (index : Nat) : SlabProgram Unit :=
  Foundation.Program.perform (.release index : SlabInstr)

/-- Read through the reference `slab_.node(index)`. -/
def node (index : Nat) : SlabProgram CacheNode :=
  Foundation.Program.perform (.read index : SlabInstr)

def setNode (index : Nat) (node : CacheNode) : SlabProgram Unit :=
  Foundation.Program.perform (.write index node : SlabInstr)

def modifyNode (index : Nat) (change : CacheNode → CacheNode) :
    SlabProgram Unit := do
  let current ← node index
  setNode index (change current)

/-- `demotion_queue_->try_push(item)`. The stripe ignores the answer, so the
call is an event that the owner of the queue acts upon. -/
def tryPush (item : DemotionItem) : SlabProgram Unit :=
  Foundation.Program.perform (.emit item : SlabInstr)

def fault {α : Type} : SlabProgram α :=
  .call (.fault : SlabInstr) fun impossible => nomatch impossible

def assert (condition : Prop) [Decidable condition] : SlabProgram Unit :=
  if condition then pure () else fault

end SlabProgram

/-- What a stripe may rely on while it works on the slab. -/
abbrev slabSpec (limit : Option Nat) :=
  @Foundation.Pool.spec CacheNode DemotionItem slabLayout limit

section Rules

variable {limit : Option Nat} {α : Type}

@[simp] theorem wp_node (index : Nat) (post : CacheNode → SlabView → Prop)
    (view : SlabView) :
    (SlabProgram.node index).wp (slabSpec limit) post view ↔
      index ∈ view.owned ∧ post (view.cell index) view := Iff.rfl

@[simp] theorem wp_setNode (index : Nat) (node : CacheNode)
    (post : Unit → SlabView → Prop) (view : SlabView) :
    (SlabProgram.setNode index node).wp (slabSpec limit) post view ↔
      index ∈ view.owned ∧ post () (view.store index node) := Iff.rfl

@[simp] theorem wp_modifyNode (index : Nat) (change : CacheNode → CacheNode)
    (post : Unit → SlabView → Prop) (view : SlabView) :
    (SlabProgram.modifyNode index change).wp (slabSpec limit) post view ↔
      index ∈ view.owned ∧
        post () (view.store index (change (view.cell index))) := by
  simp only [SlabProgram.modifyNode, Foundation.Program.wp_bind, wp_node,
    wp_setNode]
  exact ⟨fun holds => ⟨holds.1, holds.2.2⟩,
    fun holds => ⟨holds.1, holds.1, holds.2⟩⟩

@[simp] theorem wp_deallocate (index : Nat) (post : Unit → SlabView → Prop)
    (view : SlabView) :
    (SlabProgram.deallocate index).wp (slabSpec limit) post view ↔
      index ∈ view.owned ∧ post () (view.drop index) := Iff.rfl

@[simp] theorem wp_allocate (post : Nat → SlabView → Prop) (view : SlabView) :
    SlabProgram.allocate.wp (slabSpec limit) post view ↔
      (∀ index, index < kInvalidIndex → index ∉ view.owned →
        post index (view.acquire index CacheNode.reset)) ∧
      (limit = none → post kInvalidIndex view) ∧
      (∀ bound, limit = some bound → view.owned.card ≤ bound) := Iff.rfl

@[simp] theorem wp_tryPush (item : DemotionItem)
    (post : Unit → SlabView → Prop) (view : SlabView) :
    (SlabProgram.tryPush item).wp (slabSpec limit) post view ↔
      post () (view.record item) := Iff.rfl

@[simp] theorem wp_assert (condition : Prop) [Decidable condition]
    (post : Unit → SlabView → Prop) (view : SlabView) :
    (SlabProgram.assert condition).wp (slabSpec limit) post view ↔
      condition ∧ post () view := by
  unfold SlabProgram.assert
  split
  · rename_i holds
    exact ⟨fun after => ⟨holds, after⟩, fun both => both.2⟩
  · rename_i fails
    exact ⟨fun impossible => impossible.elim, fun both => absurd both.1 fails⟩

theorem wp_weaken {program : SlabProgram α} {post post' : α → SlabView → Prop}
    {view : SlabView} (holds : program.wp (slabSpec limit) post view)
    (weaker : ∀ result view, post result view → post' result view) :
    program.wp (slabSpec limit) post' view :=
  Foundation.Program.wp_mono
    (Foundation.Pool.spec_monotone slabLayout limit) holds weaker

end Rules

end Walde
