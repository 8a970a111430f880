import Septem.Library.TriviallyCopyable
import Septem.Library.XorSum

/-!
# NetBuffer — head, body and foot of a packet

The three parts of the net buffer design of `Servo/Protocol/ServoProtocol.h`: a packed 16-byte
head, a body of `length` bytes owned through `bufferPtr`, and a foot holding the timestamp
(`SERVO_PROTOCOL_SIGNATURE` is not defined).

`MemRead` returns `false` and leaves the object alone when the buffer is too small, and `true`
with the object overwritten otherwise; here that is `none` and `some` of the new object.
-/

namespace Septem

open Cxx

/-! ## Reading a packed struct -/

section PackedStruct

variable {α : Type} [TriviallyCopyable α]

/-- The common `MemRead` of head and foot: a size check and one `memcpy`. -/
def memReadStruct (α : Type) [TriviallyCopyable α] (data : Bytes) (bufferSize : Int) :
    Checked (Option α) :=
  let readSize := sizeof α
  if bufferSize < readSize then
    pure none
  else do
    let raw ← memcpyFrom data readSize
    return some (ofBytes raw.1)

/-- The common `XOR` of head and foot: a loop over the bytes of the object. -/
def xorStruct (this : α) : UInt8 :=
  xorSum (toBytes this)

/-- Reading at index `i` of a buffer succeeds when the struct fits in what is left. -/
theorem memReadStruct_drop (data : Bytes) (i : Nat) (hi : i ≤ data.length) :
    memReadStruct α (data.drop i) (data.drop i).length =
      .ok (if i + sizeof α ≤ data.length then some (ofBytes (slice data i (sizeof α)))
        else none) := by
  by_cases h : i + sizeof α ≤ data.length
  · have hfit : sizeof α ≤ (data.drop i).length := by
      rw [List.length_drop]
      omega
    have hint : ¬ ((data.drop i).length : Int) < (sizeof α : Int) := by omega
    simp only [memReadStruct, if_neg hint, if_pos h, memcpyFrom_ok hfit, Checked.ok_bind,
      Checked.pure_eq_ok, slice]
  · have hint : ((data.drop i).length : Int) < (sizeof α : Int) := by
      rw [List.length_drop]
      omega
    simp only [memReadStruct, if_pos hint, if_neg h, Checked.pure_eq_ok]

end PackedStruct

/-! ## FSNetBufferHead -/

/-- `DEFAULT_SYNCWORD_INT32`, `0xE6B7F1A2` converted to `int32`. -/
def defaultSyncwordInt32 : Int32 :=
  (0xE6B7F1A2 : UInt32).toInt32

structure FSNetBufferHead where
  syncword : Int32 := defaultSyncwordInt32
  version : UInt8 := 0
  fastcode : UInt8 := 0
  uid : UInt16 := 0
  size : Int32 := 0
  reserved : UInt32 := 0
  deriving DecidableEq, Repr

namespace FSNetBufferHead

/-- The members in declaration order, as `#pragma pack(push, 1)` lays them out. -/
abbrev Members : Type := Int32 × UInt8 × UInt8 × UInt16 × Int32 × UInt32

def members (h : FSNetBufferHead) : Members :=
  (h.syncword, h.version, h.fastcode, h.uid, h.size, h.reserved)

def ofMembers : Members → FSNetBufferHead
  | (syncword, version, fastcode, uid, size, reserved) =>
      { syncword, version, fastcode, uid, size, reserved }

instance : TriviallyCopyable FSNetBufferHead :=
  TriviallyCopyable.ofEquiv members ofMembers (fun _ => rfl)

instance : Unpadded FSNetBufferHead where
  toBytes_ofBytes bs h :=
    show toBytes (ofBytes bs : Members) = bs from Unpadded.toBytes_ofBytes bs h

def memSize : Int := sizeof FSNetBufferHead

def memRead (data : Bytes) (bufferSize : Int) : Checked (Option FSNetBufferHead) :=
  memReadStruct FSNetBufferHead data bufferSize

def xor (this : FSNetBufferHead) : UInt8 :=
  xorStruct this

def reset (this : FSNetBufferHead) : FSNetBufferHead :=
  { this with version := 0, fastcode := 0, uid := 0, size := 0, reserved := 0 }

def sessionID (this : FSNetBufferHead) : Int32 :=
  (this.reserved &&& (((1 : UInt32) <<< 22) - 1)).toInt32

@[simp] theorem sizeof_eq : sizeof FSNetBufferHead = 16 := rfl

@[simp] theorem memSize_eq : memSize = 16 := rfl

/-- The syncword is the first member. -/
theorem toBytes_eq (h : FSNetBufferHead) :
    ∃ rest : Bytes, toBytes h = toBytes h.syncword ++ rest :=
  ⟨_, rfl⟩

/-- The head's exclusive-or, with the fastcode byte taken out of it. -/
theorem xor_eq_fastcode (h : FSNetBufferHead) :
    h.xor = h.fastcode ^^^ ({ h with fastcode := 0 } : FSNetBufferHead).xor := by
  have hsplit (c : UInt8) :
      ({ h with fastcode := c } : FSNetBufferHead).xor =
        xorSum (toBytes h.syncword) ^^^ (h.version ^^^ (c ^^^
          (xorSum (toBytes h.uid) ^^^ (xorSum (toBytes h.size) ^^^
            xorSum (toBytes h.reserved))))) := by
    change xorSum (toBytes h.syncword ++ ([h.version] ++ ([c] ++ (toBytes h.uid ++
      (toBytes h.size ++ toBytes h.reserved))))) = _
    simp only [xorSum_append, xorSum_cons, xorSum_nil, UInt8.xor_zero]
  have h1 := hsplit h.fastcode
  have h0 := hsplit 0
  rw [h0, show h.xor = _ from h1]
  simp only [UInt8.zero_xor]
  ac_rfl

end FSNetBufferHead

/-! ## FSNetBufferBody -/

/-- The body owns an array (`bufferPtr`, `none` for a null pointer) of exactly `length` bytes. -/
structure FSNetBufferBody where
  bufferPtr : Option Bytes
  length : Int32
  length_eq : length.toInt = (bufferPtr.getD []).length
  deriving DecidableEq, Repr

namespace FSNetBufferBody

/-- `FSNetBufferBody()`. -/
def new : FSNetBufferBody :=
  { bufferPtr := none, length := 0, length_eq := rfl }

/-- A body over a given array, as a sender sets it up. -/
def ofArray (bs : Bytes) (h : bs.length < 2 ^ 31) : FSNetBufferBody :=
  { bufferPtr := some bs
    length := Int32.ofNat bs.length
    length_eq := Int32.toInt_ofNat_of_lt h }

/-- The bytes the body designates. -/
def bytes (this : FSNetBufferBody) : Bytes :=
  this.bufferPtr.getD []

theorem length_toInt (this : FSNetBufferBody) : this.length.toInt = this.bytes.length :=
  this.length_eq

/-- `MemRead(Data, BufferSize, InLength)`: both members are overwritten, whatever the body was.  The
old array is released only when `length > 0`; that of an empty body is lost. -/
def memRead (data : Bytes) (bufferSize : Int) (inLength : Int32) :
    Checked (Option FSNetBufferBody) :=
  -- A negative size in the head is refused here.
  if h : bufferSize < inLength.toInt ∨ inLength.toInt < 0 then
    pure none
  else do
    let raw ← memcpyFrom data inLength.toInt.toNat
    return some
      { bufferPtr := some raw.1
        length := inLength
        length_eq := by
          have hlen : raw.1.length = inLength.toInt.toNat := raw.2
          simp only [Option.getD_some, hlen]
          omega }

def memSize (this : FSNetBufferBody) : Int :=
  this.length.toInt

def xor (this : FSNetBufferBody) : UInt8 :=
  xorSum this.bytes

def reset : FSNetBufferBody := new

theorem memRead_ok {data : Bytes} {inLength : Int32} (hnonneg : 0 ≤ inLength.toInt)
    (hfit : inLength.toInt ≤ data.length) :
    ∃ body : FSNetBufferBody, memRead data data.length inLength = .ok (some body) ∧
      body.bufferPtr = some (data.take inLength.toInt.toNat) ∧ body.length = inLength := by
  have hcond : ¬ ((data.length : Int) < inLength.toInt ∨ inLength.toInt < 0) := by omega
  have hread : inLength.toInt.toNat ≤ data.length := by omega
  simp only [memRead, dif_neg hcond, memcpyFrom_ok hread, Checked.ok_bind, Checked.pure_eq_ok]
  exact ⟨_, rfl, rfl, rfl⟩

theorem memRead_refused {data : Bytes} {inLength : Int32}
    (h : ¬ (0 ≤ inLength.toInt ∧ inLength.toInt ≤ data.length)) :
    memRead data data.length inLength = .ok none := by
  have hcond : (data.length : Int) < inLength.toInt ∨ inLength.toInt < 0 := by omega
  simp only [memRead, dif_pos hcond, Checked.pure_eq_ok]

end FSNetBufferBody

/-! ## FSNetBufferFoot -/

structure FSNetBufferFoot where
  timestamp : UInt64 := 0
  deriving DecidableEq, Repr

namespace FSNetBufferFoot

instance : TriviallyCopyable FSNetBufferFoot :=
  TriviallyCopyable.ofEquiv timestamp FSNetBufferFoot.mk (fun _ => rfl)

instance : Unpadded FSNetBufferFoot where
  toBytes_ofBytes bs h :=
    show toBytes (ofBytes bs : UInt64) = bs from Unpadded.toBytes_ofBytes bs h

def memSize : Int := sizeof FSNetBufferFoot

def memRead (data : Bytes) (bufferSize : Int) : Checked (Option FSNetBufferFoot) :=
  memReadStruct FSNetBufferFoot data bufferSize

def xor (this : FSNetBufferFoot) : UInt8 :=
  xorStruct this

def reset : FSNetBufferFoot :=
  { timestamp := 0 }

/-- `SetNow()`; `now` is what `UnixTimestampMillisecond()` returns at the call. -/
def setNow (now : UInt64) : FSNetBufferFoot :=
  { timestamp := now }

@[simp] theorem sizeof_eq : sizeof FSNetBufferFoot = 8 := rfl

@[simp] theorem memSize_eq : memSize = 8 := rfl

end FSNetBufferFoot

end Septem
