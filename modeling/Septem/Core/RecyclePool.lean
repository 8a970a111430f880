import Septem.Library.SharedHeap

/-!
# RecyclePool — `TSharedRecyclePool` of `Core/Templates/SeptemRecyclePool.hpp`

A stack of objects waiting to be used again.  The entries are never null: `Reset` pushes what
`std::make_shared` returned and `Dealloc` tests its argument, so an entry is an `ObjectId`.
The functions take and return the heap the objects live in; `default` is what `T()` constructs.
-/

namespace Septem

open Cxx

/-- The stack `m_pool`, top first. -/
structure TSharedRecyclePool where
  mPool : List ObjectId := []
  deriving DecidableEq, Repr

namespace TSharedRecyclePool

variable {T : Type} [Inhabited T]

/-- `Num()`: `(int32)m_pool.size()`. -/
def num (this : TSharedRecyclePool) : Int32 :=
  Int32.ofNat this.mPool.length

/-- The loop of `Reset`: push `n` new objects. -/
def pushNew : Nat → TSharedRecyclePool → Heap T → TSharedRecyclePool × Heap T
  | 0, this, heap => (this, heap)
  | n + 1, this, heap =>
      let (ptr, heap) := makeShared heap default
      pushNew n { this with mPool := ptr :: this.mPool } heap

/-- `Reset(PoolCount)`. -/
def reset (this : TSharedRecyclePool) (heap : Heap T) (poolCount : Int32) :
    Checked (TSharedRecyclePool × Heap T) := do
  let imax ← int32 (poolCount.toInt - this.num.toInt)
  if imax > 0 then
    return pushNew imax.toNat this heap
  else
    return (this, heap)

/-- `TSharedRecyclePool(InNum)`. -/
def new (heap : Heap T) (inNum : Int32) : Checked (TSharedRecyclePool × Heap T) :=
  reset {} heap inNum

/-- `Alloc()`: the top of the stack, or a new object when the stack is empty. -/
def alloc (this : TSharedRecyclePool) (heap : Heap T) :
    ObjectId × TSharedRecyclePool × Heap T :=
  match this.mPool with
  | ret :: rest => (ret, { this with mPool := rest }, heap)
  | [] =>
      let (ret, heap) := makeShared heap default
      (ret, this, heap)

/-- `Dealloc(InSharedPtr)`. -/
def dealloc (this : TSharedRecyclePool) (inSharedPtr : SharedPtr) : TSharedRecyclePool :=
  match inSharedPtr with
  | none => this
  | some ptr => { this with mPool := ptr :: this.mPool }

/-! ## What the heap holds -/

theorem new_ok (heap : Heap T) (inNum : Int32) : ∃ created, new heap inNum = .ok created := by
  have hdiff : inNum.toInt - ({} : TSharedRecyclePool).num.toInt = inNum.toInt :=
    Int.sub_zero _
  have himax : int32 (inNum.toInt - ({} : TSharedRecyclePool).num.toInt) = .ok inNum.toInt := by
    rw [hdiff]
    exact int32_ok inNum.le_toInt inNum.toInt_lt
  rw [new, reset, himax, Checked.ok_bind]
  split
  · exact ⟨_, rfl⟩
  · exact ⟨_, rfl⟩

/-- `Alloc` leaves the objects there are as they are. -/
theorem alloc_getElem? {this : TSharedRecyclePool} {heap : Heap T} {ptr : ObjectId}
    (h : ptr < heap.length) : (this.alloc heap).2.2[ptr]? = heap[ptr]? := by
  cases hpool : this.mPool with
  | nil =>
      simp only [alloc, hpool, makeShared]
      exact List.getElem?_append_left h
  | cons ret rest => simp only [alloc, hpool]

end TSharedRecyclePool

end Septem
