import Septem.Library.SharedHeap

/-!
# NetPacketPool — the packet pools of `Servo/Protocol/NetPacketPool.hpp`

`TNetPacketQueue` is the packet pool `FServoProtocol` uses.  Its `Pop` takes its out parameter as a
`const` reference, so it cannot assign it, and calls `std::queue::pop` without a look at `IsEmpty`;
on an empty `std::queue` that call is undefined.

`TNetPacketStack` is the pool `TServoProtocol` can use instead.  Its `Pop` does assign the out
parameter, which is read here as if the reference were not `const`.
-/

namespace Septem

open Cxx

/-- The queue `Pool`, oldest entry first. -/
structure TNetPacketQueue where
  pool : List SharedPtr := []
  deriving DecidableEq, Repr

namespace TNetPacketQueue

def push (this : TNetPacketQueue) (inSharedPtr : SharedPtr) : Bool × TNetPacketQueue :=
  (true, { this with pool := this.pool ++ [inSharedPtr] })

/-- `Pop(OutSharedPtr)`. -/
def pop (this : TNetPacketQueue) (_outSharedPtr : SharedPtr) : Checked (Bool × TNetPacketQueue) :=
  match this.pool with
  | [] => .error .emptyContainer
  | _ :: rest => pure (true, { this with pool := rest })

def isEmpty (this : TNetPacketQueue) : Bool :=
  this.pool.isEmpty

end TNetPacketQueue

/-- `MAX_NETPACKET_IN_POOL`. -/
def maxNetpacketInPool : Nat := 1024

/-- The deque `Pool`, front first. -/
structure TNetPacketStack where
  pool : List SharedPtr := []
  deriving DecidableEq, Repr

namespace TNetPacketStack

/-- `TNetPacketStack()`: `Pool.resize` fills the deque with null pointers. -/
def new : Checked TNetPacketStack := do
  let pool ← resize [] maxNetpacketInPool none
  return { pool }

def isEmpty (this : TNetPacketStack) : Bool :=
  this.pool.length == 0

def push (this : TNetPacketStack) (inSharedPtr : SharedPtr) : Bool × TNetPacketStack :=
  (true, { this with pool := this.pool ++ [inSharedPtr] })

/-- `Pop(OutSharedPtr)`: the value, the out parameter afterwards, and the stack. -/
def pop (this : TNetPacketStack) (outSharedPtr : SharedPtr) :
    Bool × SharedPtr × TNetPacketStack :=
  if h : this.isEmpty then
    (false, outSharedPtr, this)
  else
    (true, this.pool.getLast (by simpa [isEmpty] using h),
      { this with pool := this.pool.dropLast })

theorem new_eq : new = .ok { pool := List.replicate maxNetpacketInPool none } := by
  have hpos : (0 : Int) ≤ maxNetpacketInPool := Int.natCast_nonneg _
  rw [new, resize, if_pos hpos]
  simp

/-- A stack with an entry on top of it gives that entry. -/
theorem pop_concat (below : List SharedPtr) (top out : SharedPtr) :
    (⟨below ++ [top]⟩ : TNetPacketStack).pop out = (true, top, ⟨below⟩) := by
  simp [pop, isEmpty]

end TNetPacketStack

end Septem
