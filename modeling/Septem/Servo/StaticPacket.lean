import Septem.Servo.NetPacket

/-!
# StaticPacket — `TSNetPacket<T>` of `Servo/Protocol/ServoStaticProtocol.hpp`

The packet of the static protocol: the head and foot of `FSNetPacket` around a body of a fixed
C++ type `T`.  What the packet knows of `T` are the virtual functions of `FStaticNetBodyBase`;
here they are the class `StaticNetBody`, so every operation below is generic in the body type.

The decoders run the steps of `FSNetPacket`, but take the size of the body from `T` and not from
the head.  On failure the buffer constructor reports `BufferSize + 1` and `ReUse` reports
`BufferSize`; that number is the parameter `failed` of the shared steps.
-/

namespace Septem

open Cxx

/-! ## Body types -/

/-- What a call of `Serialize` on the block `data` leaves behind. -/
structure SerializeResult (data : Bytes) where
  success : Bool
  outSize : Int32
  after : Bytes
  length_after : after.length = data.length

/-- The virtual functions of a body type; `new` is its default constructor.  `deserialize` returns
its verdict and the object afterwards. -/
class StaticNetBody (T : Type) where
  new : T
  reset (this : T) : T
  serialize (this : T) (data : Bytes) (bufferSize : Int) : Checked (SerializeResult data)
  deserialize (this : T) (data : Bytes) (bufferSize : Int) : Checked (Bool × T)
  memSize (this : T) : Int32
  xor (this : T) : UInt8

/-- `OutSize = size; memcpy(Data, bs, OutSize); return true;` -/
def serializeCopy (bs data : Bytes) : Checked (SerializeResult data) :=
  match h : writeAt data 0 bs with
  | .ok after => .ok
      { success := true
        outSize := Int32.ofNat bs.length
        after := after
        length_after := length_of_writeAt h }
  | .error fault => .error fault

/-- `OutSize = 0; return false;` -/
def serializeRefused (data : Bytes) : SerializeResult data :=
  { success := false, outSize := 0, after := data, length_after := rfl }

theorem serializeCopy_ok {bs data : Bytes} (h : bs.length ≤ data.length) :
    ∃ r, serializeCopy bs data = .ok r ∧ r.success = true ∧
      r.outSize = Int32.ofNat bs.length ∧ r.after = bs ++ data.drop bs.length := by
  have hwrite : writeAt data 0 bs = .ok (bs ++ data.drop bs.length) := by
    have happ : writeAt ([] ++ data) ([] : Bytes).length bs =
        .ok ([] ++ bs ++ data.drop bs.length) := writeAt_append h
    simpa using happ
  unfold serializeCopy
  split
  · rename_i after hafter
    rw [hwrite] at hafter
    cases hafter
    exact ⟨_, rfl, rfl, rfl, rfl⟩
  · rename_i fault hfault
    rw [hwrite] at hfault
    cases hfault

/-- The base of the body types.  It has no members. -/
structure FStaticNetBodyBase where
  deriving DecidableEq, Repr

namespace FStaticNetBodyBase

def memSize (_ : FStaticNetBodyBase) : Int32 := 0

/-- `Serialize`; the `MemSize()` bytes copied from the object are none. -/
def serialize (this : FStaticNetBodyBase) (data : Bytes) (bufferSize : Int) :
    Checked (SerializeResult data) :=
  if bufferSize < this.memSize.toInt then pure (serializeRefused data) else serializeCopy [] data

def deserialize (this : FStaticNetBodyBase) (_ : Bytes) (bufferSize : Int) :
    Checked (Bool × FStaticNetBodyBase) :=
  if bufferSize < this.memSize.toInt then pure (false, this) else pure (true, this)

instance : StaticNetBody FStaticNetBodyBase where
  new := {}
  reset this := this
  serialize := serialize
  deserialize := deserialize
  memSize := memSize
  xor _ := 0

end FStaticNetBodyBase

/-- The wrapper through which a packet calls the functions of its body. -/
structure TSNetBufferWrapper (T : Type) where
  obj : T
  deriving DecidableEq, Repr

namespace TSNetBufferWrapper

variable {T : Type} [StaticNetBody T]

def new : TSNetBufferWrapper T :=
  { obj := StaticNetBody.new }

def reset (this : TSNetBufferWrapper T) : TSNetBufferWrapper T :=
  { obj := StaticNetBody.reset this.obj }

def serialize (this : TSNetBufferWrapper T) (data : Bytes) (bufferSize : Int) :
    Checked (SerializeResult data) :=
  StaticNetBody.serialize this.obj data bufferSize

def deserialize (this : TSNetBufferWrapper T) (data : Bytes) (bufferSize : Int) :
    Checked (Bool × TSNetBufferWrapper T) := do
  let (success, obj) ← StaticNetBody.deserialize this.obj data bufferSize
  return (success, { obj := obj })

def memSize (this : TSNetBufferWrapper T) : Int32 :=
  StaticNetBody.memSize this.obj

def xor (this : TSNetBufferWrapper T) : UInt8 :=
  StaticNetBody.xor this.obj

end TSNetBufferWrapper

/-! ## The packet -/

structure TSNetPacket (T : Type) where
  head : FSNetBufferHead
  body : TSNetBufferWrapper T
  foot : FSNetBufferFoot
  sid : Int32
  bFastIntegrity : Bool
  deriving DecidableEq, Repr

namespace TSNetPacket

variable {T : Type} [StaticNetBody T]

/-- `TSNetPacket()`. -/
def new : TSNetPacket T :=
  { head := {}, body := TSNetBufferWrapper.new, foot := {}, sid := 0, bFastIntegrity := false }

def isValid (this : TSNetPacket T) : Bool :=
  this.bFastIntegrity && this.head.size == this.body.memSize

/-- The exclusive-or of the parts that are sent. -/
def xor (this : TSNetPacket T) : UInt8 :=
  if this.head.uid = 0 then
    this.head.xor ^^^ this.foot.xor
  else
    this.head.xor ^^^ this.body.xor ^^^ this.foot.xor

/-- `CheckIntegrity()`: the verdict, which is also stored in the packet. -/
def checkIntegrity (this : TSNetPacket T) : Bool × TSNetPacket T :=
  let verdict := this.xor == this.head.fastcode
  (verdict, { this with bFastIntegrity := verdict })

/-! ## Decoding -/

/-- Step "check and read body": the packet afterwards, and unless it fails the index behind the
body and the exclusive-or with it. -/
def readBody (this : TSNetPacket T) (data : Bytes) (bufferSize index : Int) (fastcode : UInt8) :
    Checked (TSNetPacket T × Option (Int × UInt8)) :=
  if 0 ≠ this.head.uid then do
    let ptr ← offset data index
    let rest ← int32 (bufferSize - index)
    let (success, body) ← this.body.deserialize ptr rest
    let this := { this with body := body }
    if success then
      let index ← int32 (index + this.body.memSize.toInt)
      return (this, some (index, fastcode ^^^ this.body.xor))
    else
      return (this, none)
  else
    pure (this, some (index, fastcode))

/-- A heartbeat takes its session id as soon as its head is read. -/
def heartbeatSid (this : TSNetPacket T) : TSNetPacket T :=
  if 0 = this.head.uid then { this with sid := this.head.sessionID } else this

/-- What follows the head in every decoder, from `index` on. -/
def readBodyAndFoot (this : TSNetPacket T) (data : Bytes) (bufferSize index : Int)
    (failed : Checked Int) : Checked (TSNetPacket T × Int) := do
  let fastcode : UInt8 := 0 ^^^ this.head.xor
  let this := this.heartbeatSid
  match ← this.readBody data bufferSize index fastcode with
  | (this, none) => return (this, ← failed)
  | (this, some (index, fastcode)) =>
      match ← readFoot data bufferSize index fastcode with
      | none => return (this, ← failed)
      | some (foot, index, fastcode) =>
          return ({ this with
            foot := foot
            bFastIntegrity := fastcode == 0
            sid := this.head.sessionID }, index)

/-- Steps 1 to 4: find the syncword, read the head, then body and foot behind it. -/
def decode (this : TSNetPacket T) (data : Bytes) (bufferSize : Int) (inSyncword : Int32)
    (failed : Checked Int) : Checked (TSNetPacket T × Int) := do
  let this := { this with head := { this.head with syncword := inSyncword } }
  match ← findHead data bufferSize this.head.syncword with
  | none => return (this, ← failed)
  | some (head, index) =>
      let this := { this with head := head }
      this.readBodyAndFoot data bufferSize index failed

/-- `TSNetPacket(Data, BufferSize, BytesRead, InSyncword)`.  It has no initialiser for `sid` and
`bFastIntegrity`, which start with the values `sid₀` and `bFastIntegrity₀` found in memory. -/
def ofBuffer (sid₀ : Int32) (bFastIntegrity₀ : Bool) (data : Bytes) (bufferSize : Int)
    (inSyncword : Int32) : Checked (TSNetPacket T × Int) :=
  { new with sid := sid₀, bFastIntegrity := bFastIntegrity₀ }.decode data bufferSize inSyncword
    (int32 (bufferSize + 1))

/-- `ReUse(Data, BufferSize, BytesRead, InSyncword)`. -/
def reUse (this : TSNetPacket T) (data : Bytes) (bufferSize : Int) (inSyncword : Int32) :
    Checked (TSNetPacket T × Int) :=
  { this with sid := 0, bFastIntegrity := false }.decode data bufferSize inSyncword
    (pure bufferSize)

/-- `ReUse(InHead, Buffer, BufferSize, BytesRead)`.  Only this decoder compares the size in the
head with the size of the body before it reads the body. -/
def reUseWithHead (this : TSNetPacket T) (inHead : FSNetBufferHead) (buffer : Bytes)
    (bufferSize : Int) : Checked (TSNetPacket T × Int) :=
  let this := { this with sid := 0, bFastIntegrity := false, head := inHead }
  if 0 ≠ this.head.uid ∧ this.body.memSize ≠ this.head.size then
    pure (this, bufferSize)
  else
    this.readBodyAndFoot buffer bufferSize 0 (pure bufferSize)

/-! ## Encoding -/

/-- The local `writeSize` of `WriteToArray`. -/
def writeSize (this : TSNetPacket T) : Checked Int :=
  let writeSize : Int := sizeof FSNetBufferHead + sizeof FSNetBufferFoot
  if this.head.uid > 0 then int32 (writeSize + this.body.memSize.toInt) else pure writeSize

/-- Step "write Body": `Serialize` gets the array from the cursor on, and how far the cursor moves
is what it reports in `outSize`. -/
def writeBody (this : TSNetPacket T) (cur : WriteCursor) : Checked WriteCursor := do
  let ptr ← offset cur.1 cur.2
  let r ← this.body.serialize ptr (Int32.ofInt (cur.1.length - cur.2)).toInt
  if r.success then
    let arr := cur.1.take cur.2 ++ r.after
    let bytesWrite ← int32 (cur.2 + r.outSize.toInt)
    -- `DataPtr + BytesWrite`, where the foot goes, has to stay inside the array.
    let _ ← offset arr bytesWrite
    return (arr, bytesWrite.toNat)
  else
    .error .assertion

/-- `WriteToArray(InBufferArr)`: the contents of the array afterwards. -/
def writeToArray (this : TSNetPacket T) (inBufferArr : Bytes) : Checked Bytes := do
  let writeSize ← this.writeSize
  let arr ← resize inBufferArr writeSize 0
  let cur ← put (toBytes this.head) (arr, 0)
  let cur ← if this.head.uid ≠ 0 then this.writeBody cur else pure cur
  let cur ← put (toBytes this.foot) cur
  return cur.1

/-! ## Recycling -/

/-- `OnDealloc()`. -/
def onDealloc (this : TSNetPacket T) : TSNetPacket T :=
  { this with
    sid := 0
    bFastIntegrity := false
    body := this.body.reset
    head := { this.head with size := 0 } }

/-- `OnAlloc()` at time `now`. -/
def onAlloc (this : TSNetPacket T) (now : UInt64) : TSNetPacket T :=
  { this with head := this.head.reset, foot := FSNetBufferFoot.setNow now }

end TSNetPacket

end Septem
