import Septem.Core.RecyclePoolPeak
import Septem.Servo.StaticDecoders
import Septem.Servo.StaticProtocol

/-!
# Reception — runs of `TServoProtocol::OnReceivedPacket`

A `Reception` is a protocol object in use: it gets frame after frame, any head with any bytes
behind it.  `StepRight` is what one call owes: a valid frame appends one packet to the packet pool
and counts it, any other frame changes neither and returns the packet it was read into, and in both
cases the pending packets stay as they are.

* `reUseWithHead_received` says what the decoder makes of a frame;
* `Owned` is the invariant: every packet object is in the recycle pool or pending, exactly once;
* `stepRight_iff` settles one call: it is right as long as the counter has room;
* `onReceivedPacket_admits_iff` settles the runs.
-/

namespace Septem

open Cxx

/-- A frame as it arrives: a head that has been read, and the bytes behind it. -/
structure ReceivedFrame where
  inHead : FSNetBufferHead
  buf : RecvBuffer

namespace ReceivedFrame

/-- The frame is valid for a body type of `k` bytes: it has the right size and is complete, and its
bytes sum to zero.  A heartbeat has no body. -/
def Admissible (k : Nat) (frame : ReceivedFrame) : Prop :=
  frame.inHead.size.toInt = k ∧
  TSNetPacket.bodySize k frame.inHead + 8 ≤ frame.buf.bytes.length ∧
  xorSum (toBytes frame.inHead ++
    frame.buf.bytes.take (TSNetPacket.bodySize k frame.inHead + 8)) = 0

instance (k : Nat) (frame : ReceivedFrame) : Decidable (frame.Admissible k) :=
  inferInstanceAs (Decidable (_ ∧ _ ∧ _))

/-- The decoder gets past its size check and finds a body and a foot. -/
def Readable (k : Nat) (frame : ReceivedFrame) : Prop :=
  (frame.inHead.uid ≠ 0 → frame.inHead.size.toInt = k) ∧
  TSNetPacket.bodySize k frame.inHead + 8 ≤ frame.buf.bytes.length

instance (k : Nat) (frame : ReceivedFrame) : Decidable (frame.Readable k) :=
  inferInstanceAs (Decidable (_ ∧ _))

/-- The bytes the decoder consumes behind the head: all of them, if it cannot read a frame. -/
def consumed (k : Nat) (frame : ReceivedFrame) : Nat :=
  if frame.Readable k then TSNetPacket.bodySize k frame.inHead + 8 else frame.buf.bytes.length

theorem Admissible.readable {k : Nat} {frame : ReceivedFrame} (h : frame.Admissible k) :
    frame.Readable k :=
  ⟨fun _ => h.1, h.2.1⟩

theorem consumed_le (k : Nat) (frame : ReceivedFrame) :
    frame.consumed k ≤ frame.buf.bytes.length := by
  unfold consumed
  split
  · rename_i h
    exact h.2
  · exact Nat.le_refl _

end ReceivedFrame

/-! ## Decoding a received frame -/

namespace TSNetPacket

variable {T : Type} [StaticNetBody T] {k : Nat} {bytes : T → Bytes}

/-- The packet holds the frame: its head, body and foot. -/
structure Holds (k : Nat) (bytes : T → Bytes) (packet : TSNetPacket T) (frame : ReceivedFrame) :
    Prop where
  head : packet.head = frame.inHead
  body : frame.inHead.uid ≠ 0 → bytes packet.body.obj = frame.buf.bytes.take k
  foot : packet.foot = footAt frame.buf.bytes (bodySize k frame.inHead)

/-- Past the size check, with body and foot there, the decoder holds the frame. -/
theorem reUseWithHead_readable (hT : ReadBody T k bytes) (this : TSNetPacket T)
    {frame : ReceivedFrame} (h : frame.Readable k) :
    ∃ after : TSNetPacket T,
      this.reUseWithHead frame.inHead frame.buf.bytes frame.buf.bufferSize =
        .ok (after, ((bodySize k frame.inHead + 8 : Nat) : Int)) ∧
      after.Holds k bytes frame ∧
      after.bFastIntegrity = (xorSum (toBytes frame.inHead ++
        frame.buf.bytes.take (bodySize k frame.inHead + 8)) == 0) := by
  obtain ⟨hright, hfit⟩ := h
  have hpasses : ¬ (0 ≠ frame.inHead.uid ∧ this.body.memSize ≠ frame.inHead.size) := by
    rintro ⟨huid, hne⟩
    refine hne (Int32.toInt_inj.1 ?_)
    rw [hright (Ne.symm huid)]
    exact hT.memSize this.body.obj
  have hroom : 0 + bodySize k frame.inHead + 8 ≤ frame.buf.bytes.length := by omega
  rcases readBodyAndFoot_read hT
    { this with sid := 0, bFastIntegrity := false, head := frame.inHead }
    (pure frame.buf.bufferSize) frame.buf.size_lt hroom with
    ⟨after, hread, hhead, -, hintegrity, hbody, hfoot⟩
  rw [Nat.zero_add] at hread hfoot
  refine ⟨after, ?_, ⟨hhead, hbody, hfoot⟩, ?_⟩
  · rw [reUseWithHead, if_neg hpasses]
    exact hread
  · -- The head was summed when it arrived, the rest as it was read.
    rw [hintegrity, xorSum_append]
    rfl

/-- Otherwise it consumes the whole buffer, and the flag it cleared first stays cleared. -/
theorem reUseWithHead_unreadable (hT : ReadBody T k bytes) (this : TSNetPacket T)
    {frame : ReceivedFrame} (h : ¬ frame.Readable k) :
    ∃ after : TSNetPacket T,
      this.reUseWithHead frame.inHead frame.buf.bytes frame.buf.bufferSize =
        .ok (after, frame.buf.bufferSize) ∧ after.bFastIntegrity = false := by
  by_cases hrefused : 0 ≠ frame.inHead.uid ∧ this.body.memSize ≠ frame.inHead.size
  · -- The size check refuses the head: nothing is read.
    exact ⟨_, if_pos hrefused, rfl⟩
  · have hright : frame.inHead.uid ≠ 0 → frame.inHead.size.toInt = k := by
      intro huid
      have heq : this.body.memSize = frame.inHead.size := by
        by_contra hne
        exact hrefused ⟨Ne.symm huid, hne⟩
      rw [← heq]
      exact hT.memSize this.body.obj
    have hroom : ¬ 0 + bodySize k frame.inHead + 8 ≤ frame.buf.bytes.length := by
      intro hroom
      exact h ⟨hright, by omega⟩
    rcases readBodyAndFoot_failed hT
      { this with sid := 0, bFastIntegrity := false, head := frame.inHead } frame.buf.size_lt
      (Nat.zero_le _) hroom with ⟨after, hread, -, hflag, -⟩
    refine ⟨after, ?_, hflag⟩
    rw [reUseWithHead, if_neg hrefused]
    exact hread (pure frame.buf.bufferSize)

/-- The decoder accepts the valid frames, and holds what it accepts; it consumes the same bytes
whatever packet it decodes into. -/
theorem reUseWithHead_received (hT : ReadBody T k bytes) (this : TSNetPacket T)
    (frame : ReceivedFrame) :
    ∃ after : TSNetPacket T,
      this.reUseWithHead frame.inHead frame.buf.bytes frame.buf.bufferSize =
        .ok (after, (frame.consumed k : Int)) ∧
      (after.isValid = true ↔ frame.Admissible k) ∧
      (frame.Admissible k → after.Holds k bytes frame) := by
  by_cases h : frame.Readable k
  · rcases reUseWithHead_readable hT this h with ⟨after, hread, hholds, hflag⟩
    rw [ReceivedFrame.consumed, if_pos h]
    refine ⟨after, hread, ?_, fun _ => hholds⟩
    rw [isValid_iff hT, hholds.head, hflag, beq_iff_eq, ReceivedFrame.Admissible]
    constructor
    · rintro ⟨hzero, hk⟩
      exact ⟨hk, h.2, hzero⟩
    · rintro ⟨hk, -, hzero⟩
      exact ⟨hzero, hk⟩
  · rcases reUseWithHead_unreadable hT this h with ⟨after, hread, hflag⟩
    have hnot : ¬ frame.Admissible k := fun hadm => h hadm.readable
    rw [ReceivedFrame.consumed, if_neg h]
    refine ⟨after, hread, iff_of_false ?_ hnot, fun hadm => absurd hadm hnot⟩
    rw [isValid, hflag, Bool.false_and]
    decide

end TSNetPacket

/-! ## Reception -/

/-- A protocol object in use. -/
structure Reception (T : Type) where
  servo : TServoProtocol
  heap : Heap (TSNetPacket T)

namespace Reception

variable {T : Type} [StaticNetBody T] {k : Nat} {bytes : T → Bytes}

def new (poolMode : SPPMode) (heap : Heap (TSNetPacket T)) (recyclePoolMaxnum : Int32) :
    Checked (Reception T) := do
  let (servo, heap) ← TServoProtocol.new poolMode heap recyclePoolMaxnum
  return { servo, heap }

/-- One call of `OnReceivedPacket`: what `ReceivedBytesRead` is afterwards, and the protocol. -/
def onReceivedPacket (s : Reception T) (frame : ReceivedFrame) : Checked (Int × Reception T) := do
  let (receivedBytesRead, servo, heap) ←
    s.servo.onReceivedPacket s.heap frame.inHead frame.buf.bytes frame.buf.bufferSize
  return (receivedBytesRead, { servo, heap })

def step (s : Reception T) (frame : ReceivedFrame) : Checked (Reception T) := do
  let (_, s) ← s.onReceivedPacket frame
  return s

omit [StaticNetBody T] in
/-- The packets in the packet pool.  The pool of mode `Stack` also holds null pointers. -/
def pendingPackets (s : Reception T) : List ObjectId :=
  s.servo.packetPool.entries.filterMap id

/-- The packet the next frame is read into. -/
def taken (s : Reception T) : ObjectId :=
  (s.servo.recyclePool.alloc s.heap).1

/-! ## The specification of a call -/

/-- One packet more is pending, one that was not, and it holds the frame. -/
structure Admitted (k : Nat) (bytes : T → Bytes) (s s' : Reception T) (frame : ReceivedFrame) :
    Prop where
  entries : s'.servo.packetPool.entries = s.servo.packetPool.entries ++ [some s.taken]
  fresh : s.taken ∉ s.pendingPackets
  count : s'.servo.packetPoolNum = s.servo.packetPoolNum + 1
  holds : ∃ packet, deref s'.heap (some s.taken) = .ok packet ∧ packet.Holds k bytes frame

/-- Nothing is pending that was not, and the packet taken lies on top of the recycle pool with its
flags cleared. -/
structure Refused (s s' : Reception T) : Prop where
  pool : s'.servo.packetPool = s.servo.packetPool
  count : s'.servo.packetPoolNum = s.servo.packetPoolNum
  recycled : s'.servo.recyclePool.mPool.head? = some s.taken
  cleared : ∃ packet, deref s'.heap (some s.taken) = .ok packet ∧
    packet.bFastIntegrity = false ∧ packet.sid = 0

/-- What a call owes. -/
def StepRight (k : Nat) (bytes : T → Bytes) (s : Reception T) (frame : ReceivedFrame) : Prop :=
  ∃ (receivedBytesRead : Int) (s' : Reception T),
    s.onReceivedPacket frame = .ok (receivedBytesRead, s') ∧
    (frame.Admissible k → Admitted k bytes s s' frame) ∧
    (¬ frame.Admissible k → Refused s s') ∧
    ∀ ptr ∈ s.pendingPackets, deref s'.heap (some ptr) = deref s.heap (some ptr)

/-- A valid frame needs room in the counter. -/
def StepCondition (k : Nat) (s : Reception T) (frame : ReceivedFrame) : Prop :=
  frame.Admissible k → s.servo.packetPoolNum + 1 < 2 ^ 31

/-! ## The invariant -/

/-- Every packet object is in the recycle pool or pending, once, and the counter counts the pending
ones. -/
structure Owned (base : Nat) (s : Reception T) : Prop where
  accounts : s.servo.recyclePool.Accounts s.pendingPackets base s.heap.length
  count_eq : s.servo.packetPoolNum = s.pendingPackets.length

section Owned

variable {base : Nat} {s : Reception T}

theorem new_owned {poolMode : SPPMode} {heap : Heap (TSNetPacket T)} {maxnum : Int32}
    (h : new poolMode heap maxnum = .ok s) :
    s.Owned heap.length ∧ s.pendingPackets = [] := by
  rcases Checked.bind_eq_ok.1 h with ⟨⟨servo, heap'⟩, hservo, hs⟩
  rcases Checked.bind_eq_ok.1 hservo with ⟨⟨recyclePool, heap''⟩, hrecycle, hrest⟩
  rcases Checked.bind_eq_ok.1 hrest with ⟨packetPool, hpool, hret⟩
  rcases TSharedRecyclePool.new_accounts heap maxnum with ⟨pool, made, hmade, hacc, -⟩
  rw [hrecycle] at hmade
  cases hmade
  cases hret
  cases hs
  -- The null pointers of mode `Stack` are no packets.
  have hnone : packetPool.entries.filterMap id = [] := by
    rw [List.filterMap_eq_nil_iff]
    exact TNetPacketPool.new_entries hpool
  refine ⟨⟨?_, ?_⟩, hnone⟩
  · rw [pendingPackets, hnone]
    exact hacc
  · rw [pendingPackets, hnone]
    rfl

omit [StaticNetBody T] in
theorem Owned.num_nonneg (h : s.Owned base) : 0 ≤ s.servo.packetPoolNum := by
  rw [h.count_eq]
  exact Int.natCast_nonneg _

/-- With the packet taken counted among the held ones, everything is still accounted for. -/
theorem Owned.taken_accounts (h : s.Owned base) :
    (s.servo.recyclePool.alloc s.heap).2.1.Accounts (s.taken :: s.pendingPackets) base
      (s.servo.recyclePool.alloc s.heap).2.2.length :=
  TSharedRecyclePool.alloc_accounts h.accounts

theorem Owned.taken_fresh (h : s.Owned base) : s.taken ∉ s.pendingPackets := by
  have hnodup := (List.nodup_append.1 h.taken_accounts.nodup).2.1
  exact (List.nodup_cons.1 hnodup).1

theorem Owned.taken_lt (h : s.Owned base) :
    s.taken < (s.servo.recyclePool.alloc s.heap).2.2.length :=
  h.taken_accounts.lt_size (List.mem_append_right _ List.mem_cons_self)

/-- Work on the packet taken concerns no pending one. -/
theorem Owned.pending_kept (h : s.Owned base) (packet : TSNetPacket T) :
    ∀ ptr ∈ s.pendingPackets,
      deref ((s.servo.recyclePool.alloc s.heap).2.2.set s.taken packet) (some ptr) =
        deref s.heap (some ptr) := by
  intro ptr hptr
  -- It is another object, and `Alloc` at most added one behind those there were.
  have hne : s.taken ≠ ptr := fun heq => h.taken_fresh (heq ▸ hptr)
  have hlt : ptr < s.heap.length := h.accounts.lt_size (List.mem_append_right _ hptr)
  simp only [deref, List.getElem?_set_ne hne, TSharedRecyclePool.alloc_getElem? hlt]

/-! ## A call -/

/-- The protocol after a frame that was read into `packet` and found valid. -/
def afterPush (s : Reception T) (packet : TSNetPacket T) : Reception T where
  servo := { s.servo with
    recyclePool := (s.servo.recyclePool.alloc s.heap).2.1
    packetPool := (s.servo.packetPool.push (some s.taken)).2
    packetPoolCount := s.servo.packetPoolCount + 1 }
  heap := (s.servo.recyclePool.alloc s.heap).2.2.set s.taken packet

/-- The protocol after a frame that was read into `packet` and found invalid. -/
def afterRefusal (s : Reception T) (packet : TSNetPacket T) : Reception T where
  servo := { s.servo with
    recyclePool := (s.servo.recyclePool.alloc s.heap).2.1.dealloc (some s.taken) }
  heap := (s.servo.recyclePool.alloc s.heap).2.2.set s.taken packet.onDealloc

/-- A call reads the frame into the packet taken and then pushes or returns it. -/
theorem onReceivedPacket_eq (hT : ReadBody T k bytes) (h : s.Owned base) (frame : ReceivedFrame) :
    ∃ after : TSNetPacket T, (frame.Admissible k → after.Holds k bytes frame) ∧
      s.onReceivedPacket frame =
        if frame.Admissible k then
          (int32 (s.servo.packetPoolNum + 1)).map fun _ =>
            ((frame.consumed k : Int), s.afterPush after)
        else
          .ok ((frame.consumed k : Int), s.afterRefusal after) := by
  have hlt := h.taken_lt
  rcases TSNetPacket.reUseWithHead_received hT
    ((s.servo.recyclePool.alloc s.heap).2.2.get ⟨s.taken, hlt⟩) frame with
    ⟨after, hread, hvalid, hholds⟩
  have hget : (s.servo.recyclePool.alloc s.heap).2.2[s.taken]? =
      some ((s.servo.recyclePool.alloc s.heap).2.2.get ⟨s.taken, hlt⟩) :=
    List.getElem?_eq_getElem hlt
  have hcall := callOn_ok (f := fun packet : TSNetPacket T =>
    packet.reUseWithHead frame.inHead frame.buf.bytes frame.buf.bufferSize) hget hread
  have hderef := deref_set hlt after
  have hmutate : mutate ((s.servo.recyclePool.alloc s.heap).2.2.set s.taken after)
      (some s.taken) TSNetPacket.onDealloc =
      .ok ((s.servo.recyclePool.alloc s.heap).2.2.set s.taken after.onDealloc) := by
    rw [mutate, hderef, Checked.ok_bind]
    simp only [List.set_set, Checked.pure_eq_ok]
  refine ⟨after, hholds, ?_⟩
  -- Up to the verdict every frame goes the same way.
  rw [taken] at hcall hderef hmutate
  simp only [onReceivedPacket, TServoProtocol.onReceivedPacket, TServoProtocol.allocNetPacket,
    hcall, Checked.ok_bind, hderef]
  by_cases hadm : frame.Admissible k
  · rw [if_pos hadm, if_pos (hvalid.2 hadm), TServoProtocol.push_eq]
    simp only [TServoProtocol.packetPoolNum]
    cases hcount : int32 (s.servo.packetPoolCount + 1) with
    | error e => rfl
    | ok count =>
        obtain rfl := (int32_eq_ok.1 hcount).2
        rfl
  · have hinvalid : ¬ after.isValid = true := fun hv => hadm (hvalid.1 hv)
    rw [if_neg hadm, if_neg hinvalid]
    simp only [TServoProtocol.deallockNetPacket, hmutate, Checked.ok_bind]
    rfl

theorem pendingPackets_afterPush (s : Reception T) (packet : TSNetPacket T) :
    (s.afterPush packet).pendingPackets = s.pendingPackets ++ [s.taken] := by
  simp only [pendingPackets, afterPush, TNetPacketPool.entries_push, List.filterMap_append]
  rfl

theorem pendingPackets_afterRefusal (s : Reception T) (packet : TSNetPacket T) :
    (s.afterRefusal packet).pendingPackets = s.pendingPackets := rfl

/-- A pushed packet is held by the packet pool. -/
theorem Owned.afterPush (h : s.Owned base) (packet : TSNetPacket T) :
    (s.afterPush packet).Owned base := by
  have hlen : (s.afterPush packet).heap.length =
      (s.servo.recyclePool.alloc s.heap).2.2.length := List.length_set
  constructor
  · rw [hlen, pendingPackets_afterPush]
    exact h.taken_accounts.perm_held (List.perm_append_singleton _ _)
  · have hcount : (s.afterPush packet).servo.packetPoolNum = s.servo.packetPoolNum + 1 := rfl
    rw [hcount, pendingPackets_afterPush, List.length_append, List.length_singleton, h.count_eq]
    rfl

/-- A returned packet is back in the recycle pool. -/
theorem Owned.afterRefusal (h : s.Owned base) (packet : TSNetPacket T) :
    (s.afterRefusal packet).Owned base := by
  have hlen : (s.afterRefusal packet).heap.length =
      (s.servo.recyclePool.alloc s.heap).2.2.length := List.length_set
  have hback := TSharedRecyclePool.dealloc_accounts h.taken_accounts List.mem_cons_self
  rw [List.erase_cons_head] at hback
  constructor
  · rw [hlen, pendingPackets_afterRefusal]
    exact hback
  · exact h.count_eq

theorem Owned.admitted (h : s.Owned base) {frame : ReceivedFrame} {packet : TSNetPacket T}
    (hholds : packet.Holds k bytes frame) : Admitted k bytes s (s.afterPush packet) frame where
  entries := TNetPacketPool.entries_push _ _
  fresh := h.taken_fresh
  count := rfl
  holds := ⟨packet, deref_set h.taken_lt packet, hholds⟩

theorem Owned.refused (h : s.Owned base) (packet : TSNetPacket T) :
    Refused s (s.afterRefusal packet) where
  pool := rfl
  count := rfl
  recycled := rfl
  cleared := ⟨packet.onDealloc, deref_set h.taken_lt packet.onDealloc, rfl, rfl⟩

/-! ## One call -/

/-- A call whose condition is met returns, and reports the bytes its frame consumes. -/
theorem onReceivedPacket_returns (hT : ReadBody T k bytes) (h : s.Owned base)
    {frame : ReceivedFrame} (hcond : s.StepCondition k frame) :
    ∃ s', s.onReceivedPacket frame = .ok ((frame.consumed k : Int), s') := by
  rcases onReceivedPacket_eq hT h frame with ⟨after, -, heq⟩
  have hnonneg := h.num_nonneg
  by_cases hadm : frame.Admissible k
  · rw [if_pos hadm, int32_ok (by omega) (hcond hadm)] at heq
    exact ⟨_, heq⟩
  · rw [if_neg hadm] at heq
    exact ⟨_, heq⟩

/-- A call returns only if the counter has room for a valid frame. -/
theorem stepCondition_of_returns (hT : ReadBody T k bytes) (h : s.Owned base)
    {frame : ReceivedFrame} {received : Int × Reception T}
    (hcall : s.onReceivedPacket frame = .ok received) : s.StepCondition k frame := by
  intro hadm
  rcases onReceivedPacket_eq hT h frame with ⟨after, -, heq⟩
  rw [heq, if_pos hadm] at hcall
  cases hcount : int32 (s.servo.packetPoolNum + 1) with
  | error e =>
      -- The overflow would have stopped the call.
      rw [hcount] at hcall
      cases hcall
  | ok count => exact (int32_eq_ok.1 hcount).1.2

/-- A call is right as long as the counter has room for a valid frame. -/
theorem stepRight_iff (hT : ReadBody T k bytes) (h : s.Owned base) (frame : ReceivedFrame) :
    s.StepRight k bytes frame ↔ s.StepCondition k frame := by
  constructor
  · rintro ⟨received, s', hcall, -⟩
    exact stepCondition_of_returns hT h hcall
  · intro hcond
    rcases onReceivedPacket_eq hT h frame with ⟨after, hholds, heq⟩
    have hnonneg := h.num_nonneg
    by_cases hadm : frame.Admissible k
    · rw [if_pos hadm, int32_ok (by omega) (hcond hadm)] at heq
      exact ⟨_, _, heq, fun _ => h.admitted (hholds hadm), fun hnot => absurd hadm hnot,
        h.pending_kept after⟩
    · rw [if_neg hadm] at heq
      exact ⟨_, _, heq, fun hyes => absurd hyes hadm, fun _ => h.refused after,
        h.pending_kept after.onDealloc⟩

/-- A call that returns keeps the invariant and counts a valid frame. -/
theorem step_owned (hT : ReadBody T k bytes) (h : s.Owned base) {frame : ReceivedFrame}
    {s' : Reception T} (hstep : step s frame = .ok s') :
    s'.Owned base ∧ s'.servo.packetPoolNum =
      s.servo.packetPoolNum + ((if frame.Admissible k then 1 else 0 : Nat) : Int) := by
  rcases onReceivedPacket_eq hT h frame with ⟨after, -, heq⟩
  rcases Checked.bind_eq_ok.1 hstep with ⟨⟨received, t⟩, hcall, hret⟩
  cases hret
  rw [heq] at hcall
  by_cases hadm : frame.Admissible k
  · rw [if_pos hadm] at hcall ⊢
    cases hcount : int32 (s.servo.packetPoolNum + 1) with
    | error e =>
        rw [hcount] at hcall
        cases hcall
    | ok count =>
        rw [hcount] at hcall
        cases hcall
        exact ⟨h.afterPush after, rfl⟩
  · rw [if_neg hadm] at hcall ⊢
    cases hcall
    exact ⟨h.afterRefusal after, (Int.add_zero _).symm⟩

/-- A call whose condition is met returns. -/
theorem step_returns (hT : ReadBody T k bytes) (h : s.Owned base) {frame : ReceivedFrame}
    (hcond : s.StepCondition k frame) : ∃ s', step s frame = .ok s' ∧ s'.Owned base := by
  rcases (stepRight_iff hT h frame).2 hcond with ⟨received, s', hcall, -⟩
  have hstep : step s frame = .ok s' := by
    rw [step, hcall]
    rfl
  exact ⟨s', hstep, (step_owned hT h hstep).1⟩

/-! ## Runs -/

/-- The condition is met along a run exactly when the counter has room for all its valid frames. -/
theorem along_stepCondition_iff (hT : ReadBody T k bytes) (h : s.Owned base)
    (hroom : s.servo.packetPoolNum < 2 ^ 31) (frames : List ReceivedFrame) :
    Along step (StepCondition k) s frames ↔
      s.servo.packetPoolNum + frames.countP (fun frame => frame.Admissible k) < 2 ^ 31 := by
  induction frames generalizing s with
  | nil => simpa [Along] using hroom
  | cons frame frames ih =>
      -- The first frame is counted by the state behind it, the others by the hypothesis.
      have hcons : (frame :: frames).countP (fun frame => frame.Admissible k) =
          frames.countP (fun frame => frame.Admissible k) +
            if frame.Admissible k then 1 else 0 := by
        rw [List.countP_cons]
        simp only [decide_eq_true_eq]
      rw [hcons]
      constructor
      · rintro ⟨hcond, hrest⟩
        rcases step_returns hT h hcond with ⟨s', hstep, howned⟩
        have hcount := (step_owned hT h hstep).2
        have hroom' : s'.servo.packetPoolNum < 2 ^ 31 := by
          rw [hcount]
          by_cases hadm : frame.Admissible k
          · rw [if_pos hadm]
            exact hcond hadm
          · rw [if_neg hadm]
            omega
        have hlater := (ih howned hroom').1 (hrest s' hstep)
        omega
      · intro hall
        have hcond : s.StepCondition k frame := by
          intro hadm
          rw [if_pos hadm] at hall
          omega
        refine ⟨hcond, ?_⟩
        intro s' hstep
        rcases step_owned hT h hstep with ⟨howned, hcount⟩
        have hlater : s'.servo.packetPoolNum +
            frames.countP (fun frame => frame.Admissible k) < 2 ^ 31 := by
          omega
        exact (ih howned (by omega)).2 hlater

theorem along_stepRight_stepCondition (hT : ReadBody T k bytes) (h : s.Owned base)
    (frames : List ReceivedFrame) :
    Along step (StepRight k bytes) s frames ↔ Along step (StepCondition k) s frames :=
  along_iff_of_step (fun _ frame ht => stepRight_iff hT ht frame)
    (fun _ _ ht hcond => step_returns hT ht hcond) h frames

end Owned

/-- In any state in which every packet object is in the recycle pool or pending, once, such as that
of a new protocol, and in whatever mode: every call of a run admits exactly the valid frames, as
long as they and the pending packets are fewer than `2 ^ 31` together.  The counter of the pending
packets is an `int32`. -/
theorem onReceivedPacket_admits_iff (hT : ReadBody T k bytes) (base : Nat) (s : Reception T)
    (h : s.Owned base) (hroom : s.servo.packetPoolNum < 2 ^ 31) (frames : List ReceivedFrame) :
    Along step (StepRight k bytes) s frames ↔
      s.servo.packetPoolNum + frames.countP (fun frame => frame.Admissible k) < 2 ^ 31 := by
  rw [along_stepRight_stepCondition hT h frames]
  exact along_stepCondition_iff hT h hroom frames

/-- A frame for one `uint16`: valid, then cut off, then with a head that announces another size. -/
def sampleFrames : List ReceivedFrame :=
  [{ inHead := { uid := 7, size := 2 }, buf := ⟨[7, 0, 0, 0, 0, 0, 0, 0, 0, 0], by decide⟩ },
    { inHead := { uid := 7, size := 2 }, buf := ⟨[7, 0, 0], by decide⟩ },
    { inHead := { uid := 7, size := 5 }, buf := ⟨[0, 0, 0, 0, 0, 0, 0, 0, 0, 0], by decide⟩ }]

/-- A protocol with one packet pending and one in the recycle pool. -/
def onePending : Reception (PackedBody UInt16) where
  servo := { packetPool := .queue ⟨[some 0]⟩, packetPoolCount := 1, recyclePool := ⟨[1]⟩ }
  heap := [default, default]

theorem onePending_owned : onePending.Owned 0 :=
  ⟨⟨Nat.zero_le 2, List.Perm.swap 0 1 []⟩, rfl⟩

theorem onReceivedPacket_admits_sample :
    Along step (StepRight 2 (fun this : PackedBody UInt16 => toBytes this.members)) onePending
      sampleFrames := by
  have hT : ReadBody (PackedBody UInt16) 2 (fun this => toBytes this.members) :=
    (PackedBody.wireBody (by decide)).readBody
  exact (onReceivedPacket_admits_iff hT 0 onePending onePending_owned (by decide) sampleFrames).2
    (by decide)

/-- A valid frame without body bytes. -/
def emptyFrame : ReceivedFrame :=
  { inHead := { uid := 7 }, buf := ⟨[5, 0, 0, 0, 0, 0, 0, 0], by decide⟩ }

/-- So many of them that the last one overflows the counter. -/
theorem tooManyFrames_overflow :
    emptyFrame.inHead.uid ≠ 0 ∧ emptyFrame.Admissible 0 ∧
    ∃ s : Reception FStaticNetBodyBase, new .queue [] 0 = .ok s ∧
      ¬ Along step (StepRight 0 (fun _ => [])) s (List.replicate (2 ^ 31) emptyFrame) := by
  have hadm : emptyFrame.Admissible 0 := by decide
  have hnew : (new .queue [] 0 : Checked (Reception FStaticNetBodyBase)) =
      .ok { servo := { packetPool := .queue {}, recyclePool := {} }, heap := [] } := rfl
  refine ⟨by decide, hadm, _, hnew, ?_⟩
  have hT := FStaticNetBodyBase.wireBody.readBody
  have howned := (new_owned hnew).1
  rw [along_stepRight_stepCondition hT howned, along_stepCondition_iff hT howned (by decide),
    List.countP_replicate, if_pos (by simpa using hadm)]
  exact Int.not_lt.2 (Int.le_refl _)

end Reception

end Septem
