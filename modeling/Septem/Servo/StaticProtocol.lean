import Septem.Core.RecyclePool
import Septem.Servo.NetPacketPool
import Septem.Servo.StaticPacket

/-!
# StaticProtocol — `TServoProtocol<T, PoolMode>` of `Servo/Protocol/ServoStaticProtocol.hpp`

The protocol object of one body type: a pool of received packets with its counter and a recycle
pool, as in `FServoProtocol`, but the kind of the packet pool is chosen by `PoolMode` and a frame
is received by the object itself, in `OnReceivedPacket`.

`DeallockNetPacket` calls `IsValid()` on a `std::shared_ptr`; it is read as the test for null.  Its
flag `bForceRecycle` is left at its default `false`: `TSharedRecyclePool` has no
`DeallocForceRecycle` to call for the other value.
-/

namespace Septem

open Cxx

inductive SPPMode
  | stack
  | queue
  | heap
  deriving DecidableEq, Repr

/-- `SPPMode::Fast`, the default of `TServoProtocol`. -/
def SPPMode.fast : SPPMode := .queue

/-- What `PacketPool` points to. -/
inductive TNetPacketPool
  | stack (pool : TNetPacketStack)
  | queue (pool : TNetPacketQueue)
  deriving DecidableEq, Repr

namespace TNetPacketPool

/-- The pool the constructor of `TServoProtocol` makes; `SPPMode::Heap` has none of its own. -/
def new : SPPMode → Checked TNetPacketPool
  | .stack => do
      let pool ← TNetPacketStack.new
      return .stack pool
  | .queue => pure (.queue {})
  | .heap => pure (.queue {})

def push (this : TNetPacketPool) (inSharedPtr : SharedPtr) : Bool × TNetPacketPool :=
  match this with
  | .stack pool =>
      let (ret, pool) := pool.push inSharedPtr
      (ret, .stack pool)
  | .queue pool =>
      let (ret, pool) := pool.push inSharedPtr
      (ret, .queue pool)

/-- What is in the pool, in the order it was pushed. -/
def entries : TNetPacketPool → List SharedPtr
  | .stack pool => pool.pool
  | .queue pool => pool.pool

theorem push_fst (this : TNetPacketPool) (ptr : SharedPtr) : (this.push ptr).1 = true := by
  cases this with
  | stack pool => rfl
  | queue pool => rfl

/-- Both kinds of pool put a new entry behind the others. -/
@[simp] theorem entries_push (this : TNetPacketPool) (ptr : SharedPtr) :
    (this.push ptr).2.entries = this.entries ++ [ptr] := by
  cases this with
  | stack pool => rfl
  | queue pool => rfl

/-- A new pool holds nothing but null pointers. -/
theorem new_entries {poolMode : SPPMode} {pool : TNetPacketPool} (h : new poolMode = .ok pool) :
    ∀ ptr ∈ pool.entries, ptr = none := by
  cases poolMode with
  | stack =>
      rw [new, TNetPacketStack.new_eq] at h
      cases h
      intro ptr hptr
      exact List.eq_of_mem_replicate hptr
  | queue =>
      cases h
      exact nofun
  | heap =>
      cases h
      exact nofun

end TNetPacketPool

/-- `packetPoolCount` is the value of an `int32`; its updates go through `int32`. -/
structure TServoProtocol where
  syncword : Int32 := defaultSyncwordInt32
  packetPool : TNetPacketPool
  packetPoolCount : Int := 0
  recyclePool : TSharedRecyclePool
  deriving DecidableEq, Repr

namespace TServoProtocol

variable {T : Type} [StaticNetBody T]

instance : Inhabited (TSNetPacket T) := ⟨TSNetPacket.new⟩

/-- `TServoProtocol()`, with the value of the static `RecyclePoolMaxnum`. -/
def new (poolMode : SPPMode) (heap : Heap (TSNetPacket T)) (recyclePoolMaxnum : Int32) :
    Checked (TServoProtocol × Heap (TSNetPacket T)) := do
  let (recyclePool, heap) ← TSharedRecyclePool.new heap recyclePoolMaxnum
  let packetPool ← TNetPacketPool.new poolMode
  return ({ packetPool, recyclePool }, heap)

def push (this : TServoProtocol) (inNetPacket : SharedPtr) : Checked (Bool × TServoProtocol) :=
  match this.packetPool.push inNetPacket with
  | (true, packetPool) => do
      let packetPoolCount ← int32 (this.packetPoolCount + 1)
      return (true, { this with packetPool, packetPoolCount })
  | (false, packetPool) => pure (false, { this with packetPool })

def packetPoolNum (this : TServoProtocol) : Int :=
  this.packetPoolCount

def allocNetPacket (this : TServoProtocol) (heap : Heap (TSNetPacket T)) :
    SharedPtr × TServoProtocol × Heap (TSNetPacket T) :=
  let (ret, recyclePool, heap) := this.recyclePool.alloc heap
  (some ret, { this with recyclePool }, heap)

/-- `DeallockNetPacket(InSharedPtr)`. -/
def deallockNetPacket (this : TServoProtocol) (heap : Heap (TSNetPacket T))
    (inSharedPtr : SharedPtr) : Checked (TServoProtocol × Heap (TSNetPacket T)) :=
  if inSharedPtr = none then
    pure (this, heap)
  else do
    let heap ← mutate heap inSharedPtr TSNetPacket.onDealloc
    return ({ this with recyclePool := this.recyclePool.dealloc inSharedPtr }, heap)

/-- `OnReceivedPacket(InHead, Buffer, BufferSize, ReceivedBytesRead)`: what `ReceivedBytesRead` is
afterwards, the protocol and the heap. -/
def onReceivedPacket (this : TServoProtocol) (heap : Heap (TSNetPacket T))
    (inHead : FSNetBufferHead) (buffer : Bytes) (bufferSize : Int) :
    Checked (Int × TServoProtocol × Heap (TSNetPacket T)) := do
  let (pPacket, this, heap) := this.allocNetPacket heap
  let (receivedBytesRead, heap) ← callOn heap pPacket fun packet =>
    packet.reUseWithHead inHead buffer bufferSize
  let packet ← deref heap pPacket
  if packet.isValid then
    let (_, this) ← this.push pPacket
    return (receivedBytesRead, this, heap)
  else
    -- The packet is illegal.
    let (this, heap) ← this.deallockNetPacket heap pPacket
    return (receivedBytesRead, this, heap)

/-! ## What the operations do -/

theorem push_eq (this : TServoProtocol) (ptr : SharedPtr) :
    this.push ptr = (int32 (this.packetPoolCount + 1)).map fun count =>
      (true, { this with
        packetPool := (this.packetPool.push ptr).2, packetPoolCount := count }) := by
  have hret := this.packetPool.push_fst ptr
  unfold push
  split
  · rename_i packetPool hpush
    rw [hpush]
    cases int32 (this.packetPoolCount + 1) with
    | error e => rfl
    | ok count => rfl
  · rename_i packetPool hpush
    rw [hpush] at hret
    cases hret

end TServoProtocol

end Septem
