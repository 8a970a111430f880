import Septem.Core.SyncwordSearch
import Septem.Servo.NetBuffer

/-!
# NetPacket — `FSNetPacket` of `Servo/Protocol/ServoProtocol.cpp`

The packet of the dynamic protocol and its operations: the buffer constructor and the two `ReUse`
overloads that decode a frame, `WriteToArray` that encodes one, the fastcode seal and its check,
and the recycling hooks.

A decoder returns the packet it leaves behind together with `BytesRead`.  The constructor and the
overloads repeat the same steps 3 and 4 (body, foot); these are `readBodyAndFoot` here, started at
the index where the body is expected.  What does not depend on the kind of body, `findHead` and
`readFoot`, is stated outside the packet: the decoders of static packets repeat it as well.
-/

namespace Septem

open Cxx

/-! ## Steps every decoder takes -/

/-- Steps "find syncword" and "read head": the head and the index behind it, `none` when the buffer
has no syncword or too little behind it. -/
def findHead (data : Bytes) (bufferSize : Int) (syncword : Int32) :
    Checked (Option (FSNetBufferHead × Int)) := do
  let index ← bufferBufferSyncword data bufferSize syncword
  -- No syncword in the whole buffer.
  if -1 = index then
    pure none
  else do
    let ptr ← offset data index
    let rest ← int32 (bufferSize - index)
    match ← FSNetBufferHead.memRead ptr rest with
    | none => pure none
    | some head =>
        let index ← int32 (index + FSNetBufferHead.memSize)
        return some (head, index)

/-- Step "read foot": the foot, the index behind it and the exclusive-or with it; `none` when the
rest of the buffer is too small. -/
def readFoot (data : Bytes) (bufferSize index : Int) (fastcode : UInt8) :
    Checked (Option (FSNetBufferFoot × Int × UInt8)) := do
  let ptr ← offset data index
  let rest ← int32 (bufferSize - index)
  match ← FSNetBufferFoot.memRead ptr rest with
  | none => pure none
  | some foot =>
      let index ← int32 (index + FSNetBufferFoot.memSize)
      return some (foot, index, fastcode ^^^ foot.xor)

/-! ## The packet -/

structure FSNetPacket where
  head : FSNetBufferHead := {}
  body : FSNetBufferBody := FSNetBufferBody.new
  foot : FSNetBufferFoot := {}
  sid : Int32 := 0
  bFastIntegrity : Bool := false
  deriving DecidableEq, Repr

namespace FSNetPacket

/-- `FSNetPacket()`. -/
def new : FSNetPacket := {}

def isValid (this : FSNetPacket) : Bool :=
  this.bFastIntegrity

/-! ## Sealing -/

/-- The exclusive-or of the parts that are sent. -/
def xor (this : FSNetPacket) : UInt8 :=
  if this.head.uid = 0 then
    this.head.xor ^^^ this.foot.xor
  else
    this.head.xor ^^^ this.body.xor ^^^ this.foot.xor

/-- `OnSeal()`. -/
def onSeal (this : FSNetPacket) : FSNetPacket :=
  { this with
    head := { this.head with fastcode := this.xor }
    bFastIntegrity := true }

/-- `OnStampSeal()` at time `now`. -/
def onStampSeal (this : FSNetPacket) (now : UInt64) : FSNetPacket :=
  { this with foot := FSNetBufferFoot.setNow now }.onSeal

/-- `CheckIntegrity()`: the verdict, which is also stored in the packet. -/
def checkIntegrity (this : FSNetPacket) : Bool × FSNetPacket :=
  let verdict := this.xor == this.head.fastcode
  (verdict, { this with bFastIntegrity := verdict })

/-! ## Decoding -/

/-- Step "check and read body" of the decoders; `none` when it fails. -/
def readBody (this : FSNetPacket) (data : Bytes) (bufferSize index : Int) (fastcode : UInt8) :
    Checked (Option (FSNetPacket × Int × UInt8)) :=
  if 0 ≠ this.head.uid then do
    let ptr ← offset data index
    let rest ← int32 (bufferSize - index)
    match ← FSNetBufferBody.memRead ptr rest this.head.size with
    | none => pure none
    | some body =>
        let index ← int32 (index + body.memSize)
        return some ({ this with body := body }, index, fastcode ^^^ body.xor)
  else
    pure (some (this, index, fastcode))

/-- A heartbeat takes its session id as soon as its head is read. -/
def heartbeatSid (this : FSNetPacket) : FSNetPacket :=
  if 0 = this.head.uid then { this with sid := this.head.sessionID } else this

@[simp] theorem heartbeatSid_head (this : FSNetPacket) : this.heartbeatSid.head = this.head := by
  unfold heartbeatSid
  split <;> rfl

@[simp] theorem heartbeatSid_body (this : FSNetPacket) : this.heartbeatSid.body = this.body := by
  unfold heartbeatSid
  split <;> rfl

@[simp] theorem heartbeatSid_bFastIntegrity (this : FSNetPacket) :
    this.heartbeatSid.bFastIntegrity = this.bFastIntegrity := by
  unfold heartbeatSid
  split <;> rfl

/-- What follows the head in every decoder: its exclusive-or, the early session id, then steps
"check and read body" and "read foot" from `index` on. -/
def readBodyAndFoot (this : FSNetPacket) (data : Bytes) (bufferSize index : Int) :
    Checked (FSNetPacket × Int) := do
  let fastcode : UInt8 := 0 ^^^ this.head.xor
  let this := this.heartbeatSid
  match ← this.readBody data bufferSize index fastcode with
  | none => pure (this, bufferSize)
  | some (this, index, fastcode) =>
      match ← readFoot data bufferSize index fastcode with
      | none => pure (this, bufferSize)
      | some (foot, index, fastcode) =>
          return ({ this with
            foot := foot
            bFastIntegrity := fastcode == 0
            sid := this.head.sessionID }, index)

/-- Steps 1 to 4: find the syncword, read the head, then body and foot behind it. -/
def decode (this : FSNetPacket) (data : Bytes) (bufferSize : Int) (inSyncword : Int32) :
    Checked (FSNetPacket × Int) := do
  let this := { this with head := { this.head with syncword := inSyncword } }
  match ← findHead data bufferSize this.head.syncword with
  | none => pure (this, bufferSize)
  | some (head, index) =>
      let this := { this with head := head }
      this.readBodyAndFoot data bufferSize index

/-- `FSNetPacket(Data, BufferSize, BytesRead, InSyncword)`. -/
def ofBuffer (data : Bytes) (bufferSize : Int) (inSyncword : Int32) :
    Checked (FSNetPacket × Int) :=
  { new with sid := 0, bFastIntegrity := false }.decode data bufferSize inSyncword

/-- `ReUse(Data, BufferSize, BytesRead, InSyncword)`. -/
def reUse (this : FSNetPacket) (data : Bytes) (bufferSize : Int) (inSyncword : Int32) :
    Checked (FSNetPacket × Int) :=
  { this with sid := 0, bFastIntegrity := false }.decode data bufferSize inSyncword

/-- `ReUse(InHead, Data, BufferSize, BytesRead)`. -/
def reUseWithHead (this : FSNetPacket) (inHead : FSNetBufferHead) (data : Bytes)
    (bufferSize : Int) : Checked (FSNetPacket × Int) :=
  { this with sid := 0, bFastIntegrity := false, head := inHead }.readBodyAndFoot
    data bufferSize 0

/-! ## Encoding -/

/-- The local `writeSize` of `WriteToArray`. -/
def writeSize (this : FSNetPacket) : Checked Int :=
  let writeSize : Int := sizeof FSNetBufferHead + sizeof FSNetBufferFoot
  if this.head.uid > 0 then int32 (writeSize + this.body.length.toInt) else pure writeSize

/-- `WriteToArray(InBufferArr)`: the contents of the array afterwards. -/
def writeToArray (this : FSNetPacket) (inBufferArr : Bytes) : Checked Bytes := do
  let writeSize ← this.writeSize
  let arr ← resize inBufferArr writeSize 0
  let cur ← put (toBytes this.head) (arr, 0)
  -- A heartbeat has no body on the wire, whatever `Body` holds.
  let cur ← if this.head.uid ≠ 0 then put this.body.bytes cur else pure cur
  let cur ← put (toBytes this.foot) cur
  return cur.1

/-! ## Heartbeats and recycling -/

/-- `CreateHeartbeat(InSyncword)` at time `now`. -/
def createHeartbeat (inSyncword : Int32) (now : UInt64) : FSNetPacket :=
  let packet := { new with
    head := { new.head with syncword := inSyncword }
    foot := FSNetBufferFoot.setNow now }
  { packet with
    head := { packet.head with fastcode := packet.head.xor ^^^ packet.foot.xor } }

/-- `ReUseAsHeartbeat(InSyncword)` at time `now`. -/
def reUseAsHeartbeat (this : FSNetPacket) (inSyncword : Int32) (now : UInt64) : FSNetPacket :=
  let packet := { this with
    head := { this.head.reset with syncword := inSyncword }
    body := FSNetBufferBody.reset
    foot := FSNetBufferFoot.setNow now }
  { packet with
    head := { packet.head with fastcode := packet.head.xor ^^^ packet.foot.xor } }

/-- `OnDealloc()`. -/
def onDealloc (this : FSNetPacket) : FSNetPacket :=
  { this with
    sid := 0
    bFastIntegrity := false
    body := FSNetBufferBody.reset
    head := { this.head with size := 0 } }

/-- `OnAlloc()`. -/
def onAlloc (this : FSNetPacket) : FSNetPacket :=
  { this with head := this.head.reset, foot := FSNetBufferFoot.reset }

end FSNetPacket

end Septem
