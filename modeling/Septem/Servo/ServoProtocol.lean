import Septem.Core.RecyclePool
import Septem.Servo.NetPacket
import Septem.Servo.NetPacketPool

/-!
# ServoProtocol — `FServoProtocol` of `Servo/Protocol/ServoProtocol.cpp`

The protocol object: the pool of received packets with its counter, and the recycle pool the
packets come from and go back to.  Packets are objects of a heap; a function that touches one
takes and returns the heap.  An out parameter is passed as the pointer the caller's variable
holds before the call and returned as the pointer it holds afterwards.
-/

namespace Septem

open Cxx

instance : Inhabited FSNetPacket := ⟨FSNetPacket.new⟩

/-- `packetPoolCount` is the value of an `int32`; its updates go through `int32`. -/
structure FServoProtocol where
  syncword : Int32 := defaultSyncwordInt32
  packetPool : TNetPacketQueue := {}
  packetPoolCount : Int := 0
  recyclePool : TSharedRecyclePool := {}
  deriving DecidableEq, Repr

namespace FServoProtocol

/-- The initial value of the static `RecyclePoolMaxnum`. -/
def recyclePoolMaxnum : Int32 := 1024

/-- `FServoProtocol()`. -/
def new (heap : Heap FSNetPacket) (recyclePoolMaxnum : Int32) :
    Checked (FServoProtocol × Heap FSNetPacket) := do
  let (recyclePool, heap) ← TSharedRecyclePool.new heap recyclePoolMaxnum
  return ({ recyclePool := recyclePool }, heap)

/-! ## Received packets -/

def push (this : FServoProtocol) (inNetPacket : SharedPtr) : Checked (Bool × FServoProtocol) :=
  match this.packetPool.push inNetPacket with
  | (true, packetPool) => do
      let packetPoolCount ← int32 (this.packetPoolCount + 1)
      return (true, { this with packetPool, packetPoolCount })
  | (false, packetPool) => pure (false, { this with packetPool })

/-- `Pop(OutNetPacket)`; the queue below cannot assign `OutNetPacket`. -/
def pop (this : FServoProtocol) (outNetPacket : SharedPtr) :
    Checked (Bool × SharedPtr × FServoProtocol) := do
  match ← this.packetPool.pop outNetPacket with
  | (true, packetPool) =>
      let packetPoolCount ← int32 (this.packetPoolCount - 1)
      return (true, outNetPacket, { this with packetPool, packetPoolCount })
  | (false, packetPool) => return (false, outNetPacket, { this with packetPool })

def packetPoolNum (this : FServoProtocol) : Int :=
  this.packetPoolCount

/-! ## Memory management -/

def allocNetPacket (this : FServoProtocol) (heap : Heap FSNetPacket) :
    SharedPtr × FServoProtocol × Heap FSNetPacket :=
  let (ret, recyclePool, heap) := this.recyclePool.alloc heap
  (some ret, { this with recyclePool }, heap)

/-- `AllocHeartbeat()` at time `now`. -/
def allocHeartbeat (this : FServoProtocol) (heap : Heap FSNetPacket) (now : UInt64) :
    Checked (SharedPtr × FServoProtocol × Heap FSNetPacket) := do
  let (ret, recyclePool, heap) := this.recyclePool.alloc heap
  let heap ← mutate heap (some ret) (fun packet => packet.reUseAsHeartbeat this.syncword now)
  let heap ← mutate heap (some ret) (fun packet => packet.checkIntegrity.2)
  return (some ret, { this with recyclePool }, heap)

/-- `DeallockNetPacket(InSharedPtr, bForceRecycle)`; both values of the flag do the same. -/
def deallockNetPacket (this : FServoProtocol) (heap : Heap FSNetPacket)
    (inSharedPtr : SharedPtr) (_bForceRecycle : Bool) :
    Checked (FServoProtocol × Heap FSNetPacket) :=
  if inSharedPtr = none then
    pure (this, heap)
  else do
    let heap ← mutate heap inSharedPtr FSNetPacket.onDealloc
    return ({ this with recyclePool := this.recyclePool.dealloc inSharedPtr }, heap)

def recyclePoolNum (this : FServoProtocol) : Int32 :=
  this.recyclePool.num

/-- `PopWithRecycle(OutRecyclePacket)`. -/
def popWithRecycle (this : FServoProtocol) (heap : Heap FSNetPacket)
    (outRecyclePacket : SharedPtr) :
    Checked (Bool × SharedPtr × FServoProtocol × Heap FSNetPacket) := do
  -- A local `std::shared_ptr`, null until `Pop` would assign it.
  let newPacket : SharedPtr := none
  match ← this.pop newPacket with
  | (true, newPacket, this) =>
      let (this, heap) ← this.deallockNetPacket heap outRecyclePacket false
      return (true, newPacket, this, heap)
  | (false, _, this) => return (false, outRecyclePacket, this, heap)

/-! ## What the operations do -/

theorem push_eq (this : FServoProtocol) (ptr : SharedPtr) :
    this.push ptr = (int32 (this.packetPoolCount + 1)).map fun count =>
      (true, { this with
        packetPool := ⟨this.packetPool.pool ++ [ptr]⟩, packetPoolCount := count }) := by
  cases hcount : int32 (this.packetPoolCount + 1) <;>
    simp [push, TNetPacketQueue.push, hcount, Except.map]

theorem pop_empty {this : FServoProtocol} (h : this.packetPool.pool = []) (out : SharedPtr) :
    this.pop out = .error .emptyContainer := by
  simp [pop, TNetPacketQueue.pop, h]

theorem pop_nonempty {this : FServoProtocol} {first : SharedPtr} {rest : List SharedPtr}
    (h : this.packetPool.pool = first :: rest) (out : SharedPtr) :
    this.pop out = (int32 (this.packetPoolCount - 1)).map fun count =>
      (true, out, { this with packetPool := ⟨rest⟩, packetPoolCount := count }) := by
  cases hcount : int32 (this.packetPoolCount - 1) <;>
    simp [pop, TNetPacketQueue.pop, h, hcount, Except.map]

/-- A `Pop` that returns has returned `true` and left its out parameter alone. -/
theorem pop_returns {this this' : FServoProtocol} {out out' : SharedPtr} {ret : Bool}
    (h : this.pop out = .ok (ret, out', this')) : ret = true ∧ out' = out := by
  cases hpool : this.packetPool.pool with
  | nil =>
      rw [pop_empty hpool] at h
      cases h
  | cons first rest =>
      rw [pop_nonempty hpool] at h
      cases hcount : int32 (this.packetPoolCount - 1) with
      | error e => simp [hcount, Except.map] at h
      | ok count =>
          simp only [hcount, Except.map, Except.ok.injEq, Prod.mk.injEq] at h
          exact ⟨h.1.symm, h.2.1.symm⟩

/-- A `PopWithRecycle` that returns has returned `true` with a null pointer. -/
theorem popWithRecycle_returns {this this' : FServoProtocol} {heap heap' : Heap FSNetPacket}
    {out out' : SharedPtr} {ret : Bool}
    (h : this.popWithRecycle heap out = .ok (ret, out', this', heap')) :
    ret = true ∧ out' = none := by
  rcases Checked.bind_eq_ok.1 h with ⟨⟨popped, newPacket, servo⟩, hpop, hrest⟩
  rcases pop_returns hpop with ⟨rfl, rfl⟩
  rcases Checked.bind_eq_ok.1 hrest with ⟨recycled, -, hret⟩
  cases hret
  exact ⟨rfl, rfl⟩

/-- The packet `AllocHeartbeat` hands out: some object, made a heartbeat and checked. -/
theorem allocHeartbeat_packet {this this' : FServoProtocol} {heap heap' : Heap FSNetPacket}
    {ret : SharedPtr} {now : UInt64} {packet : FSNetPacket}
    (h : this.allocHeartbeat heap now = .ok (ret, this', heap'))
    (hpacket : deref heap' ret = .ok packet) :
    ∃ recycled : FSNetPacket,
      packet = (recycled.reUseAsHeartbeat this.syncword now).checkIntegrity.2 := by
  rcases Checked.bind_eq_ok.1 h with ⟨heap₁, hreuse, hrest⟩
  rcases Checked.bind_eq_ok.1 hrest with ⟨heap₂, hcheck, hret⟩
  cases hret
  rcases mutate_inv hreuse with ⟨i, recycled, hi, -, -, hget⟩
  cases hi
  rcases mutate_inv hcheck with ⟨j, heartbeat, hj, hold, -, hnew⟩
  cases hj
  rw [hget] at hold
  cases hold
  have hderef := deref_some.1 hpacket
  rw [hnew] at hderef
  exact ⟨recycled, (Option.some.inj hderef).symm⟩

end FServoProtocol

end Septem
