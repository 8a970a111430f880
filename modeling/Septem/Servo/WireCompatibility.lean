import Septem.Servo.PacketWire
import Septem.Servo.StaticPacket

/-!
# WireCompatibility — static and dynamic packets share one wire format

A body type that keeps the contract `WireBody` is sent as `k` bytes.  For such a type

* `writeToArray_eq` gives the frame `TSNetPacket::WriteToArray` produces;
* `decode_frame` and `decode_noFrame` characterise its decoders on every buffer, as the lemmas of
  the same names do for `FSNetPacket`;
* `wire_compatible` compares both packets.
-/

namespace Septem

open Cxx

/-- The contract of a body type: an object is sent as the `k` bytes `bytes obj`, and every `k`
bytes are those of the object read from them. -/
structure WireBody (T : Type) [StaticNetBody T] (k : Nat) (bytes : T → Bytes) : Prop where
  memSize : ∀ obj : T, (StaticNetBody.memSize obj).toInt = k
  length_bytes : ∀ obj : T, (bytes obj).length = k
  serialize : ∀ (obj : T) (data : Bytes) (bufferSize : Int),
    k ≤ bufferSize → bufferSize ≤ data.length →
      ∃ r, StaticNetBody.serialize obj data bufferSize = .ok r ∧ r.success = true ∧
        r.outSize.toInt = k ∧ r.after = bytes obj ++ data.drop k
  deserialize_refused : ∀ (obj : T) (data : Bytes) (bufferSize : Int),
    bufferSize < k → bufferSize ≤ data.length →
      ∃ obj', StaticNetBody.deserialize obj data bufferSize = .ok (false, obj')
  deserialize : ∀ (obj : T) (data : Bytes) (bufferSize : Int),
    k ≤ bufferSize → bufferSize ≤ data.length →
      ∃ obj', StaticNetBody.deserialize obj data bufferSize = .ok (true, obj') ∧
        bytes obj' = data.take k
  deserialize_bytes : ∀ (prior obj : T) (rest : Bytes) (bufferSize : Int),
    k ≤ bufferSize → bufferSize ≤ (bytes obj ++ rest).length →
      StaticNetBody.deserialize prior (bytes obj ++ rest) bufferSize = .ok (true, obj)
  xor : ∀ obj : T, StaticNetBody.xor obj = xorSum (bytes obj)

/-- The part of the contract that a receiver relies on: reading fails below `k` bytes, and otherwise
makes an object of the first `k`. -/
structure ReadBody (T : Type) [StaticNetBody T] (k : Nat) (bytes : T → Bytes) : Prop where
  memSize : ∀ obj : T, (StaticNetBody.memSize obj).toInt = k
  deserialize_refused : ∀ (obj : T) (data : Bytes) (bufferSize : Int),
    bufferSize < k → bufferSize ≤ data.length →
      ∃ obj', StaticNetBody.deserialize obj data bufferSize = .ok (false, obj')
  deserialize : ∀ (obj : T) (data : Bytes) (bufferSize : Int),
    k ≤ bufferSize → bufferSize ≤ data.length →
      ∃ obj', StaticNetBody.deserialize obj data bufferSize = .ok (true, obj') ∧
        bytes obj' = data.take k ∧ StaticNetBody.xor obj' = xorSum (data.take k)

theorem WireBody.readBody {T : Type} [StaticNetBody T] {k : Nat} {bytes : T → Bytes}
    (hT : WireBody T k bytes) : ReadBody T k bytes where
  memSize := hT.memSize
  deserialize_refused := hT.deserialize_refused
  deserialize obj data bufferSize hk hfit := by
    rcases hT.deserialize obj data bufferSize hk hfit with ⟨obj', hread, hbytes⟩
    exact ⟨obj', hread, hbytes, by rw [hT.xor, hbytes]⟩

/-- The base class keeps the contract with no bytes at all. -/
theorem FStaticNetBodyBase.wireBody : WireBody FStaticNetBodyBase 0 (fun _ => []) where
  memSize _ := rfl
  length_bytes _ := rfl
  serialize obj data bufferSize hk _ := by
    have hsize : ¬ bufferSize < obj.memSize.toInt := by
      change ¬ bufferSize < 0
      omega
    change ∃ r, FStaticNetBodyBase.serialize obj data bufferSize = .ok r ∧ _
    rw [FStaticNetBodyBase.serialize, if_neg hsize]
    have hfit : ([] : Bytes).length ≤ data.length := Nat.zero_le _
    rcases serializeCopy_ok hfit with ⟨r, hr, hsuccess, hout, hafter⟩
    exact ⟨r, hr, hsuccess, by rw [hout]; rfl, hafter⟩
  deserialize_refused obj data bufferSize hk _ := ⟨obj, if_pos hk⟩
  deserialize obj data bufferSize hk _ := by
    refine ⟨obj, if_neg ?_, rfl⟩
    change ¬ bufferSize < 0
    omega
  deserialize_bytes _ _ _ bufferSize hk _ := by
    refine if_neg ?_
    change ¬ bufferSize < 0
    omega
  xor _ := rfl

/-- A body type whose functions copy its members, as a user of the protocol writes one. -/
structure PackedBody (α : Type) where
  members : α
  deriving DecidableEq, Repr

namespace PackedBody

variable {α : Type} [TriviallyCopyable α]

def serialize (this : PackedBody α) (data : Bytes) (bufferSize : Int) :
    Checked (SerializeResult data) :=
  if bufferSize < sizeof α then
    pure (serializeRefused data)
  else
    serializeCopy (toBytes this.members) data

def deserialize (this : PackedBody α) (data : Bytes) (bufferSize : Int) :
    Checked (Bool × PackedBody α) := do
  match ← memReadStruct α data bufferSize with
  | none => return (false, this)
  | some members => return (true, { members := members })

instance [Inhabited α] : StaticNetBody (PackedBody α) where
  new := { members := default }
  reset _ := { members := default }
  serialize := serialize
  deserialize := deserialize
  memSize _ := Int32.ofNat (sizeof α)
  xor this := xorStruct this.members

theorem deserialize_ok (this : PackedBody α) {data : Bytes} {bufferSize : Int}
    (hk : sizeof α ≤ bufferSize) (hfit : bufferSize ≤ data.length) :
    this.deserialize data bufferSize =
      .ok (true, { members := ofBytes (data.take (sizeof α)) }) := by
  have hsize : ¬ bufferSize < sizeof α := by omega
  have hread : sizeof α ≤ data.length := by omega
  simp only [deserialize, memReadStruct, if_neg hsize, memcpyFrom_ok hread, Checked.ok_bind,
    Checked.pure_eq_ok]

/-- Copying the members keeps the contract when every byte string is some value of them. -/
theorem wireBody [Inhabited α] [Unpadded α] (hint : sizeof α < 2 ^ 31) :
    WireBody (PackedBody α) (sizeof α) (fun this => toBytes this.members) where
  memSize _ := Int32.toInt_ofNat_of_lt hint
  length_bytes this := length_toBytes this.members
  serialize this data bufferSize hk hfit := by
    have hsize : ¬ bufferSize < sizeof α := by omega
    have hlen : (toBytes this.members).length = sizeof α := length_toBytes _
    have hroom : (toBytes this.members).length ≤ data.length := by omega
    rcases serializeCopy_ok hroom with ⟨r, hr, hsuccess, hout, hafter⟩
    refine ⟨r, ?_, hsuccess, ?_, ?_⟩
    · change this.serialize data bufferSize = .ok r
      rw [serialize, if_neg hsize, hr]
    · rw [hout, hlen, Int32.toInt_ofNat_of_lt hint]
    · rw [hafter, hlen]
  deserialize_refused this data bufferSize hk _ := by
    refine ⟨this, ?_⟩
    change this.deserialize data bufferSize = .ok (false, this)
    simp only [deserialize, memReadStruct, if_pos hk, Checked.pure_eq_ok, Checked.ok_bind]
  deserialize this data bufferSize hk hfit := by
    have htake : (data.take (sizeof α)).length = sizeof α := by
      rw [List.length_take]
      omega
    exact ⟨_, deserialize_ok this hk hfit, Unpadded.toBytes_ofBytes _ htake⟩
  deserialize_bytes prior this rest bufferSize hk hfit := by
    have hlen : (toBytes this.members).length = sizeof α := length_toBytes _
    have htake : (toBytes this.members ++ rest).take (sizeof α) = toBytes this.members := by
      rw [← hlen, List.take_left]
    refine (deserialize_ok prior hk hfit).trans ?_
    rw [htake, ofBytes_toBytes]
  xor _ := rfl

end PackedBody

namespace TSNetPacket

variable {T : Type} [StaticNetBody T] {k : Nat} {bytes : T → Bytes}
variable {data : Bytes} {index : Nat} {w : Int32}

/-! ## Encoding -/

/-- The frame of a packet whose body is sent as `bytes`. -/
def wire (bytes : T → Bytes) (this : TSNetPacket T) : Bytes :=
  toBytes this.head ++ (bytes this.body.obj ++ toBytes this.foot)

theorem writeSize_eq (hT : WireBody T k bytes) (this : TSNetPacket T) (huid : this.head.uid ≠ 0) :
    this.writeSize = int32 (24 + k) := by
  have hpos : this.head.uid > 0 := UInt16.pos_iff_ne_zero.2 huid
  have hsize : this.body.memSize.toInt = k := hT.memSize this.body.obj
  rw [writeSize, if_pos hpos, hsize]
  rfl

/-- The body is written behind what the cursor has passed, as its `k` bytes. -/
theorem writeBody_append (hT : WireBody T k bytes) (this : TSNetPacket T) {pre suf : Bytes}
    (hsize : (pre ++ suf).length < 2 ^ 31) (hfit : k ≤ suf.length) :
    this.writeBody (pre ++ suf, pre.length) =
      .ok ((pre ++ bytes this.body.obj) ++ suf.drop k, (pre ++ bytes this.body.obj).length) := by
  have hlen : (bytes this.body.obj).length = k := hT.length_bytes this.body.obj
  simp only [List.length_append] at hsize
  have hoff : offset (pre ++ suf) (pre.length : Int) = .ok suf := by
    rw [offset_ok (by simp), List.drop_left]
  have hrest : (Int32.ofInt (((pre ++ suf).length : Int) - (pre.length : Int))).toInt =
      suf.length := by
    rw [Int32.toInt_ofInt_of_le]
    all_goals
      simp only [List.length_append]
      omega
  -- `Serialize` gets all that is left of the array, the room for the foot included.
  rcases hT.serialize this.body.obj suf suf.length (by omega) (by omega) with
    ⟨r, hr, hsuccess, hout, hafter⟩
  have hnext : int32 ((pre.length : Int) + k) = .ok ((pre.length + k : Nat) : Int) :=
    int32_add (by omega)
  have hend : offset (pre ++ (bytes this.body.obj ++ suf.drop k)) ((pre.length + k : Nat) : Int) =
      .ok (suf.drop k) := by
    have hle : pre.length + k ≤ (pre ++ (bytes this.body.obj ++ suf.drop k)).length := by
      simp only [List.length_append]
      omega
    rw [offset_ok hle, ← List.append_assoc, ← hlen, ← List.length_append, List.drop_left]
  simp only [writeBody, TSNetBufferWrapper.serialize, hoff, Checked.ok_bind, hrest, hr, hsuccess,
    if_true, hout, hafter, hnext, List.take_left, hend, Checked.pure_eq_ok, Int.toNat_natCast]
  simp [hlen]

/-- `WriteToArray` writes the frame, whatever the array held before. -/
theorem writeToArray_eq (hT : WireBody T k bytes) (this : TSNetPacket T)
    (huid : this.head.uid ≠ 0) (hfits : 24 + k < 2 ^ 31) (inBufferArr : Bytes) :
    this.writeToArray inBufferArr = .ok (this.wire bytes) := by
  have hhead : (toBytes this.head).length = 16 := length_toBytes _
  have hfoot : (toBytes this.foot).length = 8 := length_toBytes _
  have hbody : (bytes this.body.obj).length = k := hT.length_bytes this.body.obj
  have hsize : int32 (24 + k) = .ok ((24 + k : Nat) : Int) := int32_add hfits
  rcases resize_ok inBufferArr (Int.natCast_nonneg (24 + k)) 0 with ⟨arr, harr, hlen⟩
  rw [Int.toNat_natCast] at hlen
  -- Head, body and foot are written one behind the other and fill the array.
  have hputHead : put (toBytes this.head) (arr, 0) =
      .ok (toBytes this.head ++ arr.drop 16, (toBytes this.head).length) := by
    have happ : put (toBytes this.head) ([] ++ arr, ([] : Bytes).length) = .ok
        (([] ++ toBytes this.head) ++ arr.drop (toBytes this.head).length,
          ([] ++ toBytes this.head).length) := put_append (by omega)
    simpa [hhead] using happ
  have hputBody : this.writeBody (toBytes this.head ++ arr.drop 16, (toBytes this.head).length) =
      .ok ((toBytes this.head ++ bytes this.body.obj) ++ (arr.drop 16).drop k,
        (toBytes this.head ++ bytes this.body.obj).length) := by
    apply writeBody_append hT this
    all_goals
      simp only [List.length_append, List.length_drop]
      omega
  have hputFoot : put (toBytes this.foot)
      ((toBytes this.head ++ bytes this.body.obj) ++ (arr.drop 16).drop k,
        (toBytes this.head ++ bytes this.body.obj).length) = .ok
      (((toBytes this.head ++ bytes this.body.obj) ++ toBytes this.foot) ++
          ((arr.drop 16).drop k).drop (toBytes this.foot).length,
        ((toBytes this.head ++ bytes this.body.obj) ++ toBytes this.foot).length) := by
    apply put_append
    simp only [List.length_drop]
    omega
  have hnone : ((arr.drop 16).drop k).drop (toBytes this.foot).length = [] := by
    apply List.drop_eq_nil_of_le
    simp only [List.length_drop]
    omega
  simp only [writeToArray, writeSize_eq hT this huid, hsize, Checked.ok_bind, harr, hputHead, huid,
    ne_eq, not_false_eq_true, if_true, hputBody, hputFoot, hnone, Checked.pure_eq_ok, wire]
  simp

theorem writeToArray_overflow (hT : WireBody T k bytes) (this : TSNetPacket T)
    (huid : this.head.uid ≠ 0) (hfits : ¬ 24 + k < 2 ^ 31) (inBufferArr : Bytes) :
    this.writeToArray inBufferArr = .error .signedOverflow := by
  have hsize : int32 (24 + k) = .error .signedOverflow := if_neg (by omega)
  simp only [writeToArray, writeSize_eq hT this huid, hsize, Checked.error_bind]

/-! ## Decoding -/

omit [StaticNetBody T] in
@[simp] theorem heartbeatSid_of_uid {this : TSNetPacket T} (huid : this.head.uid ≠ 0) :
    this.heartbeatSid = this := by
  rw [heartbeatSid, if_neg (Ne.symm huid)]

/-- What reading a frame makes of a packet whose head is set up and announces a body. -/
structure FrameRead (k : Nat) (bytes : T → Bytes) (before after : TSNetPacket T) (data : Bytes)
    (index : Nat) : Prop where
  head : after.head = before.head
  body : bytes after.body.obj = slice data index k
  foot : after.foot = footAt data (index + k)
  sid : after.sid = before.head.sessionID
  integrity : after.bFastIntegrity =
    (before.head.xor ^^^ xorSum (slice data index (k + 8)) == 0)

theorem readBody_ok (hT : ReadBody T k bytes) (this : TSNetPacket T) (fastcode : UInt8)
    (hsize : data.length < 2 ^ 31) (huid : this.head.uid ≠ 0) (hfit : index + k ≤ data.length) :
    ∃ obj : T,
      this.readBody data data.length index fastcode =
        .ok ({ this with body := { obj := obj } },
          some (((index + k : Nat) : Int), fastcode ^^^ xorSum (slice data index k))) ∧
      bytes obj = slice data index k := by
  have hle : index ≤ data.length := by omega
  have hrest : (k : Int) ≤ (data.drop index).length := by
    rw [List.length_drop]
    omega
  rcases hT.deserialize this.body.obj (data.drop index) _ hrest (Int.le_refl _) with
    ⟨obj, hread, hbytes, hxor⟩
  have hnext : int32 ((index : Int) + k) = .ok ((index + k : Nat) : Int) :=
    int32_add (by omega)
  refine ⟨obj, ?_, hbytes⟩
  simp only [readBody, if_pos (Ne.symm huid), offset_ok hle, int32_rest hsize hle, Checked.ok_bind,
    TSNetBufferWrapper.deserialize, hread, Checked.pure_eq_ok, if_true, TSNetBufferWrapper.memSize,
    hT.memSize, hnext, TSNetBufferWrapper.xor, hxor, slice]

theorem readBody_refused (hT : ReadBody T k bytes) (this : TSNetPacket T) (fastcode : UInt8)
    (hsize : data.length < 2 ^ 31) (huid : this.head.uid ≠ 0) (hle : index ≤ data.length)
    (hfit : ¬ index + k ≤ data.length) :
    ∃ obj : T, this.readBody data data.length index fastcode =
      .ok ({ this with body := { obj := obj } }, none) := by
  have hrest : ((data.drop index).length : Int) < k := by
    rw [List.length_drop]
    omega
  rcases hT.deserialize_refused this.body.obj (data.drop index) _ hrest (Int.le_refl _) with
    ⟨obj, hread⟩
  refine ⟨obj, ?_⟩
  simp only [readBody, if_pos (Ne.symm huid), offset_ok hle, int32_rest hsize hle, Checked.ok_bind,
    TSNetBufferWrapper.deserialize, hread, Checked.pure_eq_ok, Bool.false_eq_true, if_false]

theorem readBodyAndFoot_complete (hT : ReadBody T k bytes) (this : TSNetPacket T)
    (failed : Checked Int) (hsize : data.length < 2 ^ 31) (huid : this.head.uid ≠ 0)
    (hfit : index + k + 8 ≤ data.length) :
    ∃ after : TSNetPacket T,
      this.readBodyAndFoot data data.length index failed =
        .ok (after, ((index + k + 8 : Nat) : Int)) ∧
      FrameRead k bytes this after data index := by
  have hbodyFits : index + k ≤ data.length := by omega
  rcases readBody_ok hT this (0 ^^^ this.head.xor) hsize huid hbodyFits with ⟨obj, hread, hbytes⟩
  simp only [readBodyAndFoot, heartbeatSid_of_uid huid, hread, Checked.ok_bind,
    readFoot_ok _ hsize hfit, Checked.pure_eq_ok]
  refine ⟨_, rfl, rfl, hbytes, rfl, rfl, ?_⟩
  -- The sums of body and foot are the sum of both.
  rw [← slice_append_slice, xorSum_append, UInt8.zero_xor, UInt8.xor_assoc]

theorem readBodyAndFoot_incomplete (hT : ReadBody T k bytes) (this : TSNetPacket T)
    (hsize : data.length < 2 ^ 31) (huid : this.head.uid ≠ 0) (hle : index ≤ data.length)
    (hfit : ¬ index + k + 8 ≤ data.length) :
    ∃ obj : T, ∀ failed : Checked Int,
      this.readBodyAndFoot data data.length index failed =
        failed >>= fun bytesRead => pure ({ this with body := { obj := obj } }, bytesRead) := by
  by_cases hbodyFits : index + k ≤ data.length
  · -- The body is there, the foot is not.
    rcases readBody_ok hT this (0 ^^^ this.head.xor) hsize huid hbodyFits with ⟨obj, hread, -⟩
    refine ⟨obj, fun failed => ?_⟩
    simp only [readBodyAndFoot, heartbeatSid_of_uid huid, hread, Checked.ok_bind,
      readFoot_none _ hsize hbodyFits hfit]
  · rcases readBody_refused hT this (0 ^^^ this.head.xor) hsize huid hle hbodyFits with
      ⟨obj, hread⟩
    refine ⟨obj, fun failed => ?_⟩
    simp only [readBodyAndFoot, heartbeatSid_of_uid huid, hread, Checked.ok_bind]

/-- With a head found and read, decoding goes on behind it. -/
theorem decode_head (this : TSNetPacket T) (failed : Checked Int) {i : Nat}
    (hsize : data.length < 2 ^ 31) (hw : SyncwordAt w data i) (hfit : i + 16 ≤ data.length) :
    this.decode data data.length w failed =
      { this with head := headAt data i }.readBodyAndFoot data data.length (i + 16 : Nat)
        failed := by
  simp only [decode, findHead_found hsize hw hfit, Checked.ok_bind]

/-- The frame of a static packet is as long as the body type says, whatever its head says. -/
theorem decode_frame (hT : ReadBody T k bytes) (this : TSNetPacket T) (failed : Checked Int)
    {i : Nat} (hsize : data.length < 2 ^ 31) (hw : SyncwordAt w data i)
    (huid : (headAt data i).uid ≠ 0) (hfit : i + 24 + k ≤ data.length) :
    ∃ after : TSNetPacket T,
      this.decode data data.length w failed = .ok (after, ((i + 24 + k : Nat) : Int)) ∧
      FrameRead k bytes { this with head := headAt data i } after data (i + 16) := by
  have hroom : i + 16 + k + 8 ≤ data.length := by omega
  rw [decode_head this failed hsize hw (by omega)]
  rcases readBodyAndFoot_complete hT { this with head := headAt data i } failed hsize huid hroom
    with ⟨after, hread, hframe⟩
  refine ⟨after, ?_, hframe⟩
  rw [hread]
  simp only [Except.ok.injEq, Prod.mk.injEq, true_and]
  omega

/-- Without a whole frame the decoder reports failure and leaves the verdict as it was. -/
theorem decode_noFrame (hT : ReadBody T k bytes) (this : TSNetPacket T) (bytesRead : Int)
    (hsize : data.length < 2 ^ 31)
    (huid : ∀ i, SyncwordAt w data i → i + 16 ≤ data.length → (headAt data i).uid ≠ 0)
    (h : ∀ i, SyncwordAt w data i → ¬ i + 24 + k ≤ data.length) :
    ∃ after : TSNetPacket T,
      this.decode data data.length w (.ok bytesRead) = .ok (after, bytesRead) ∧
      after.bFastIntegrity = this.bFastIntegrity := by
  by_cases hfound : ∃ i, SyncwordAt w data i ∧ i + 16 ≤ data.length
  · rcases hfound with ⟨i, hw, hfit⟩
    have hshort : ¬ i + 16 + k + 8 ≤ data.length := by
      have := h i hw
      omega
    rw [decode_head this _ hsize hw hfit]
    rcases readBodyAndFoot_incomplete hT { this with head := headAt data i } hsize
      (huid i hw hfit) hfit hshort with ⟨obj, hread⟩
    exact ⟨_, hread (.ok bytesRead), rfl⟩
  · have hnone : findHead data data.length w = .ok none :=
      findHead_none hsize fun i hw hfit => hfound ⟨i, hw, hfit⟩
    refine ⟨{ this with head := { this.head with syncword := w } }, ?_, rfl⟩
    simp only [decode, hnone, Checked.ok_bind, Checked.pure_eq_ok]

theorem isValid_iff (hT : ReadBody T k bytes) (this : TSNetPacket T) :
    this.isValid = true ↔ this.bFastIntegrity = true ∧ this.head.size.toInt = k := by
  have hsize : this.body.memSize.toInt = k := hT.memSize this.body.obj
  rw [isValid, Bool.and_eq_true, beq_iff_eq, ← Int32.toInt_inj, hsize]

end TSNetPacket

/-! ## Comparison -/

/-- A dynamic packet is accepted only with the head of a complete frame. -/
theorem FSNetPacket.reUse_accepted (this : FSNetPacket) (buf : RecvBuffer) (w : Int32) :
    ∃ (after : FSNetPacket) (bytesRead : Int),
      this.reUse buf.bytes buf.bufferSize w = .ok (after, bytesRead) ∧
      (after.isValid = true → ∃ i, FrameAt w buf.bytes i ∧ after.head = headAt buf.bytes i) := by
  by_cases hex : ∃ i, FrameAt w buf.bytes i
  · rcases hex with ⟨i, hi⟩
    rcases decode_frame { this with sid := 0, bFastIntegrity := false } buf.size_lt hi with
      ⟨after, hdec, hread⟩
    exact ⟨after, _, hdec, fun _ => ⟨i, hi, hread.head⟩⟩
  · have hnone : ∀ i, ¬ FrameAt w buf.bytes i := fun i hi => hex ⟨i, hi⟩
    rcases decode_noFrame { this with sid := 0, bFastIntegrity := false } buf.size_lt hnone with
      ⟨after, hdec, hflag⟩
    refine ⟨after, _, hdec, ?_⟩
    intro hvalid
    rw [isValid, hflag] at hvalid
    cases hvalid

namespace TSNetPacket

variable {T : Type} [StaticNetBody T] {k : Nat} {bytes : T → Bytes}

/-- Both packets hold the same head, foot, session id and body bytes. -/
structure SamePacket (bytes : T → Bytes) (static : TSNetPacket T) (dynamic : FSNetPacket) :
    Prop where
  head : static.head = dynamic.head
  foot : static.foot = dynamic.foot
  sid : static.sid = dynamic.sid
  body : dynamic.body.bytes = bytes static.body.obj

/-- The two decoders on one buffer. -/
structure SameVerdict (k : Nat) (bytes : T → Bytes) (static : TSNetPacket T × Int)
    (dynamic : FSNetPacket × Int) : Prop where
  valid : static.1.isValid = true ↔ dynamic.1.isValid = true ∧ dynamic.1.head.size.toInt = k
  bytesRead : static.1.isValid = true → static.2 = dynamic.2
  same : static.1.isValid = true → SamePacket bytes static.1 dynamic.1

/-- Both encoders write the same frame. -/
theorem writeToArray_same (hT : WireBody T k bytes) {static : TSNetPacket T}
    {dynamic : FSNetPacket} (huid : static.head.uid ≠ 0) (hhead : static.head = dynamic.head)
    (hfoot : static.foot = dynamic.foot) (hbody : dynamic.body.bytes = bytes static.body.obj)
    (arr₁ arr₂ : Bytes) : static.writeToArray arr₁ = dynamic.writeToArray arr₂ := by
  have huid' : dynamic.head.uid ≠ 0 := by
    rwa [← hhead]
  have hpart : dynamic.bodyPart = bytes static.body.obj := by
    rw [FSNetPacket.bodyPart_body huid', hbody]
  have hfits : dynamic.Fits ↔ 24 + k < 2 ^ 31 := by
    rw [FSNetPacket.Fits, hpart, hT.length_bytes]
  by_cases h : 24 + k < 2 ^ 31
  · rw [writeToArray_eq hT static huid h, FSNetPacket.writeToArray_eq (hfits.2 h), wire,
      FSNetPacket.wire, hpart, hhead, hfoot]
  · have hover : ¬ dynamic.Fits := fun hf => h (hfits.1 hf)
    rw [writeToArray_overflow hT static huid h, FSNetPacket.writeToArray_overflow hover]

/-- A head whose size is the body type's starts the same frame for both decoders. -/
theorem reUse_same_of_size (hT : WireBody T k bytes) (static : TSNetPacket T)
    (dynamic : FSNetPacket) (buf : RecvBuffer) {w : Int32} {i : Nat}
    (hw : SyncwordAt w buf.bytes i) (huid : (headAt buf.bytes i).uid ≠ 0)
    (hfit : i + 24 + k ≤ buf.bytes.length) (hk : (headAt buf.bytes i).size.toInt = k) :
    ∃ s d, static.reUse buf.bytes buf.bufferSize w = .ok s ∧
      dynamic.reUse buf.bytes buf.bufferSize w = .ok d ∧ SameVerdict k bytes s d := by
  have hlen : (headAt buf.bytes i).bodyLength = k := by
    rw [FSNetBufferHead.bodyLength_body huid, hk]
  have hnat : (headAt buf.bytes i).bodyLength.toNat = k := by
    rw [hlen, Int.toNat_natCast]
  have hframe : FrameAt w buf.bytes i := by
    refine ⟨hw, by omega, ?_⟩
    rw [Complete, hlen]
    omega
  rcases decode_frame hT.readBody { static with sid := 0, bFastIntegrity := false }
    (pure buf.bufferSize) buf.size_lt hw huid hfit with ⟨s, hs, hsread⟩
  rcases FSNetPacket.decode_frame { dynamic with sid := 0, bFastIntegrity := false } buf.size_lt
    hframe with ⟨d, hd, hdread⟩
  have hflag : s.bFastIntegrity = d.bFastIntegrity := by
    rw [hsread.integrity, hdread.integrity]
    simp only [hnat]
  have hhead : s.head = d.head := by
    rw [hsread.head, hdread.head]
  have hdsize : d.head.size.toInt = k := by
    rw [hdread.head]
    exact hk
  refine ⟨_, _, hs, hd, ?_, ?_, ?_⟩
  · rw [isValid_iff hT.readBody, hhead, FSNetPacket.isValid, hflag]
  · intro _
    simp only [hnat]
  · intro _
    refine ⟨hhead, ?_, ?_, ?_⟩
    · rw [hsread.foot, hdread.foot]
      simp only [hnat]
    · rw [hsread.sid, hdread.sid]
    · rw [FSNetBufferBody.bytes, (hdread.body huid).1, hsread.body]
      simp only [hnat, Option.getD_some]

/-- Where the static decoder does not accept and the dynamic one accepts no head of size `k`, there
is nothing else to compare. -/
theorem SameVerdict.of_rejected {s : TSNetPacket T × Int} {d : FSNetPacket × Int}
    (hs : ¬ s.1.isValid = true) (hd : d.1.isValid = true → d.1.head.size.toInt ≠ k) :
    SameVerdict k bytes s d where
  valid := ⟨fun h => absurd h hs, fun h => absurd h.2 (hd h.1)⟩
  bytesRead h := absurd h hs
  same h := absurd h hs

/-- The two decoders agree on every buffer whose head, if there is one, announces a body. -/
theorem reUse_same (hT : WireBody T k bytes) (static : TSNetPacket T) (dynamic : FSNetPacket)
    (buf : RecvBuffer) (w : Int32)
    (huid : ∀ i, SyncwordAt w buf.bytes i → i + 16 ≤ buf.bytes.length →
      (headAt buf.bytes i).uid ≠ 0) :
    ∃ s d, static.reUse buf.bytes buf.bufferSize w = .ok s ∧
      dynamic.reUse buf.bytes buf.bufferSize w = .ok d ∧ SameVerdict k bytes s d := by
  rcases dynamic.reUse_accepted buf w with ⟨d, m, hd, haccepted⟩
  by_cases hframe : ∃ i, SyncwordAt w buf.bytes i ∧ i + 24 + k ≤ buf.bytes.length
  · rcases hframe with ⟨i, hw, hfit⟩
    have huid' : (headAt buf.bytes i).uid ≠ 0 := huid i hw (by omega)
    by_cases hk : (headAt buf.bytes i).size.toInt = k
    · exact reUse_same_of_size hT static dynamic buf hw huid' hfit hk
    · -- The size in the head lies about the body type: neither side has an acceptable packet.
      rcases decode_frame hT.readBody { static with sid := 0, bFastIntegrity := false }
        (pure buf.bufferSize) buf.size_lt hw huid' hfit with ⟨s, hs, hsread⟩
      refine ⟨_, _, hs, hd, SameVerdict.of_rejected ?_ ?_⟩
      · intro hvalid
        have hsize := ((isValid_iff hT.readBody s).1 hvalid).2
        rw [hsread.head] at hsize
        exact hk hsize
      · intro hvalid
        rcases haccepted hvalid with ⟨j, hj, hhead⟩
        obtain rfl := hw.unique hj.syncword
        rwa [hhead]
  · -- The buffer ends before the frame of a `T` does.
    have hshort : ∀ i, SyncwordAt w buf.bytes i → ¬ i + 24 + k ≤ buf.bytes.length :=
      fun i hw hfit => hframe ⟨i, hw, hfit⟩
    rcases decode_noFrame hT.readBody { static with sid := 0, bFastIntegrity := false }
      buf.bufferSize buf.size_lt huid hshort with ⟨s, hs, hflag⟩
    refine ⟨_, _, hs, hd, SameVerdict.of_rejected ?_ ?_⟩
    · intro hvalid
      have hset := ((isValid_iff hT.readBody s).1 hvalid).1
      rw [hflag] at hset
      cases hset
    · intro hvalid hk
      rcases haccepted hvalid with ⟨j, hj, hhead⟩
      have hcomplete := hj.complete.2
      rw [FSNetBufferHead.bodyLength_body (huid j hj.syncword hj.head_fits), ← hhead, hk]
        at hcomplete
      have := hshort j hj.syncword
      omega

/-- Static and dynamic packets are wire compatible: for every body type that keeps the contract,
both encoders write the same bytes, and on every buffer the static decoder accepts exactly what the
dynamic one accepts with a size of `k`, reading the same packet from the same bytes. -/
theorem wire_compatible (hT : WireBody T k bytes) :
    (∀ (static : TSNetPacket T) (dynamic : FSNetPacket),
      static.head.uid ≠ 0 → static.head = dynamic.head → static.foot = dynamic.foot →
      dynamic.body.bytes = bytes static.body.obj →
      ∀ arr₁ arr₂ : Bytes,
        static.writeToArray arr₁ = dynamic.writeToArray arr₂ ∧
        (24 + k < 2 ^ 31 → static.writeToArray arr₁ = .ok (static.wire bytes))) ∧
    (∀ (static : TSNetPacket T) (dynamic : FSNetPacket) (buf : RecvBuffer) (w : Int32),
      (∀ i, SyncwordAt w buf.bytes i → i + 16 ≤ buf.bytes.length →
        (headAt buf.bytes i).uid ≠ 0) →
      ∃ s d, static.reUse buf.bytes buf.bufferSize w = .ok s ∧
        dynamic.reUse buf.bytes buf.bufferSize w = .ok d ∧ SameVerdict k bytes s d) := by
  constructor
  · intro static dynamic huid hhead hfoot hbody arr₁ arr₂
    exact ⟨writeToArray_same hT huid hhead hfoot hbody arr₁ arr₂,
      fun hfits => writeToArray_eq hT static huid hfits arr₁⟩
  · intro static dynamic buf w huid
    exact reUse_same hT static dynamic buf w huid

/-- A body type of one `uint16`, sent between a head that announces two bytes and a foot. -/
theorem wire_compatible_uint16 :
    let head : FSNetBufferHead := { uid := 7, size := 2, fastcode := 0x56 }
    let static : TSNetPacket (PackedBody UInt16) :=
      { head := head, body := { obj := { members := 0xBEEF } }, foot := {}, sid := 0,
        bFastIntegrity := false }
    let dynamic : FSNetPacket :=
      { FSNetPacket.new with
        head := head, body := FSNetBufferBody.ofArray [0xEF, 0xBE] (by decide) }
    let buf : RecvBuffer := ⟨dynamic.wire, by decide⟩
    static.writeToArray [] = dynamic.writeToArray [1] ∧
    ∃ s d, (new : TSNetPacket (PackedBody UInt16)).reUse buf.bytes buf.bufferSize head.syncword =
        .ok s ∧
      FSNetPacket.new.reUse buf.bytes buf.bufferSize head.syncword = .ok d ∧
      SameVerdict 2 (fun this : PackedBody UInt16 => toBytes this.members) s d ∧
      s.1.isValid = true := by
  intro head static dynamic buf
  have hT : WireBody (PackedBody UInt16) 2 (fun this => toBytes this.members) :=
    PackedBody.wireBody (by decide)
  have hfirst : SyncwordAt head.syncword buf.bytes 0 := by decide
  have huid : ∀ i, SyncwordAt head.syncword buf.bytes i → i + 16 ≤ buf.bytes.length →
      (headAt buf.bytes i).uid ≠ 0 := by
    intro i hw _
    obtain rfl := hw.unique hfirst
    decide
  have hvalid : ((new : TSNetPacket (PackedBody UInt16)).reUse buf.bytes buf.bufferSize
      head.syncword).map (fun s : TSNetPacket (PackedBody UInt16) × Int => s.1.isValid) =
      .ok true := by
    decide
  obtain ⟨s, d, hs, hd, hsame⟩ :=
    (wire_compatible hT).2 new FSNetPacket.new buf head.syncword huid
  rw [hs] at hvalid
  refine ⟨((wire_compatible hT).1 static dynamic (by decide) rfl rfl (by decide) [] [1]).1,
    s, d, hs, hd, hsame, ?_⟩
  exact Except.ok.inj hvalid

end TSNetPacket

end Septem
