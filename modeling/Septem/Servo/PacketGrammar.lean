import Septem.Servo.NetPacket

/-!
# PacketGrammar — the frames `FSNetPacket::ReUse` accepts

A frame is a head, the body bytes the head announces, and a foot.  `FrameAt w data i` says that a
complete frame starts at the first syncword of the buffer.  The decoders are characterised in two
steps, each by one lemma for a complete frame and one for everything else:

* `readBodyAndFoot_complete`, `readBodyAndFoot_incomplete` for the part behind the head;
* `decode_frame`, `decode_noFrame` for a whole buffer.

`reUse_frame_grammar` puts them together: what is accepted, what is stored, what is consumed.
-/

namespace Septem

open Cxx

/-! ## Frames -/

/-- A buffer as a decoder receives it: its size is an `int32`. -/
structure RecvBuffer where
  bytes : Bytes
  size_lt : bytes.length < 2 ^ 31

def RecvBuffer.bufferSize (buf : RecvBuffer) : Int :=
  buf.bytes.length

/-- The number of body bytes behind a head: `Head.size`, and nothing for a heartbeat. -/
def FSNetBufferHead.bodyLength (h : FSNetBufferHead) : Int :=
  if h.uid ≠ 0 then h.size.toInt else 0

def headAt (data : Bytes) (i : Nat) : FSNetBufferHead :=
  ofBytes (slice data i 16)

def footAt (data : Bytes) (i : Nat) : FSNetBufferFoot :=
  ofBytes (slice data i 8)

/-- From `index` on there is room for the body the head announces and for a foot. -/
def Complete (h : FSNetBufferHead) (data : Bytes) (index : Nat) : Prop :=
  0 ≤ h.bodyLength ∧ index + h.bodyLength + 8 ≤ data.length

/-- A complete frame starts at the first syncword, at index `i`. -/
structure FrameAt (w : Int32) (data : Bytes) (i : Nat) : Prop where
  syncword : SyncwordAt w data i
  head_fits : i + 16 ≤ data.length
  complete : Complete (headAt data i) data (i + 16)

instance (h : FSNetBufferHead) (data : Bytes) (index : Nat) : Decidable (Complete h data index) :=
  inferInstanceAs (Decidable (_ ∧ _))

/-- The bytes of the frame at `i`: 16 of head, the body, 8 of foot. -/
def frameBytes (data : Bytes) (i : Nat) : Bytes :=
  slice data i (24 + (headAt data i).bodyLength.toNat)

theorem FrameAt.unique {w : Int32} {data : Bytes} {i j : Nat} (hi : FrameAt w data i)
    (hj : FrameAt w data j) : i = j :=
  hi.syncword.unique hj.syncword

theorem FSNetBufferHead.bodyLength_heartbeat {h : FSNetBufferHead} (huid : h.uid = 0) :
    h.bodyLength = 0 := by
  simp [bodyLength, huid]

theorem FSNetBufferHead.bodyLength_body {h : FSNetBufferHead} (huid : h.uid ≠ 0) :
    h.bodyLength = h.size.toInt := by
  simp [bodyLength, huid]

/-- The session id is the low 22 bits of the reserved word. -/
theorem FSNetBufferHead.sessionID_toInt (h : FSNetBufferHead) :
    h.sessionID.toInt = h.reserved.toNat % 2 ^ 22 := by
  have hmask : (((1 : UInt32) <<< 22) - 1).toNat = 2 ^ 22 - 1 := by decide
  have hnat : (h.reserved &&& (((1 : UInt32) <<< 22) - 1)).toNat = h.reserved.toNat % 2 ^ 22 := by
    rw [UInt32.toNat_and, hmask, Nat.and_two_pow_sub_one_eq_mod]
  have hlt : h.reserved.toNat % 2 ^ 22 < 2 ^ 22 := Nat.mod_lt _ (by decide)
  calc
    h.sessionID.toInt
        = ((h.reserved &&& (((1 : UInt32) <<< 22) - 1)).toNat : Int) := by
            refine BitVec.toInt_eq_toNat_of_lt ?_
            change 2 * (h.reserved &&& (((1 : UInt32) <<< 22) - 1)).toNat < 2 ^ 32
            omega
    _ = (h.reserved.toNat : Int) % 2 ^ 22 := by
            rw [hnat]
            rfl

/-! ## The steps of a decoder -/

section Steps

variable {data : Bytes} {index : Nat}

/-- The bytes left at `index`, as the source computes their number. -/
theorem int32_rest (hsize : data.length < 2 ^ 31) (h : index ≤ data.length) :
    int32 ((data.length : Int) - index) = .ok ((data.drop index).length : Int) := by
  rw [int32_ok (by omega) (by omega), List.length_drop]
  congr 1
  omega

/-- At the start of a buffer the rest is all of it. -/
theorem int32_whole (hsize : data.length < 2 ^ 31) :
    int32 ((data.length : Int) - 0) = .ok (data.length : Int) := by
  rw [Int.sub_zero, int32_ok (by omega) (by omega)]

theorem headMemRead_drop (hle : index ≤ data.length) :
    FSNetBufferHead.memRead (data.drop index) (data.drop index).length =
      .ok (if index + 16 ≤ data.length then some (headAt data index) else none) :=
  memReadStruct_drop data index hle

theorem footMemRead_drop (hle : index ≤ data.length) :
    FSNetBufferFoot.memRead (data.drop index) (data.drop index).length =
      .ok (if index + 8 ≤ data.length then some (footAt data index) else none) :=
  memReadStruct_drop data index hle

theorem footAt_xor (h : index + 8 ≤ data.length) :
    (footAt data index).xor = xorSum (slice data index 8) := by
  have hlen : (slice data index 8).length = sizeof FSNetBufferFoot := length_slice h
  rw [FSNetBufferFoot.xor, xorStruct, footAt, Unpadded.toBytes_ofBytes _ hlen]

theorem headAt_xor (h : index + 16 ≤ data.length) :
    (headAt data index).xor = xorSum (slice data index 16) := by
  have hlen : (slice data index 16).length = sizeof FSNetBufferHead := length_slice h
  rw [FSNetBufferHead.xor, xorStruct, headAt, Unpadded.toBytes_ofBytes _ hlen]

theorem findHead_found {w : Int32} (hsize : data.length < 2 ^ 31) (hw : SyncwordAt w data index)
    (hfit : index + 16 ≤ data.length) :
    findHead data data.length w = .ok (some (headAt data index, ((index + 16 : Nat) : Int))) := by
  have hle : index ≤ data.length := by omega
  have hne : ¬ (-1 : Int) = index := by omega
  have hnext : int32 ((index : Int) + 16) = .ok ((index + 16 : Nat) : Int) :=
    int32_add (show index + 16 < 2 ^ 31 by omega)
  simp only [findHead, bufferBufferSyncword_found hsize hw, Checked.ok_bind, if_neg hne,
    offset_ok hle, int32_rest hsize hle, headMemRead_drop hle, if_pos hfit,
    FSNetBufferHead.memSize_eq, hnext, Checked.pure_eq_ok]

theorem findHead_none {w : Int32} (hsize : data.length < 2 ^ 31)
    (h : ∀ i, SyncwordAt w data i → ¬ i + 16 ≤ data.length) :
    findHead data data.length w = .ok none := by
  by_cases hfound : ∃ i, SyncwordAt w data i
  · -- There is a syncword, but less than a head behind it.
    rcases hfound with ⟨i, hw⟩
    have hle : i ≤ data.length := by
      have := hw.1
      omega
    have hne : ¬ (-1 : Int) = i := by omega
    simp only [findHead, bufferBufferSyncword_found hsize hw, Checked.ok_bind, if_neg hne,
      offset_ok hle, int32_rest hsize hle, headMemRead_drop hle, if_neg (h i hw),
      Checked.pure_eq_ok]
  · have hnone : ∀ i, ¬ SyncwordAt w data i := fun i hw => hfound ⟨i, hw⟩
    simp [findHead, bufferBufferSyncword_missing hsize hnone]

theorem readFoot_ok (fastcode : UInt8) (hsize : data.length < 2 ^ 31)
    (hroom : index + 8 ≤ data.length) :
    readFoot data data.length index fastcode =
      .ok (some (footAt data index, ((index + 8 : Nat) : Int),
        fastcode ^^^ xorSum (slice data index 8))) := by
  have hle : index ≤ data.length := by omega
  have hnext : int32 ((index : Int) + 8) = .ok ((index + 8 : Nat) : Int) :=
    int32_add (show index + 8 < 2 ^ 31 by omega)
  simp only [readFoot, offset_ok hle, int32_rest hsize hle, Checked.ok_bind,
    footMemRead_drop hle, if_pos hroom, FSNetBufferFoot.memSize_eq, hnext, footAt_xor hroom,
    Checked.pure_eq_ok]

theorem readFoot_none (fastcode : UInt8) (hsize : data.length < 2 ^ 31)
    (hle : index ≤ data.length) (hroom : ¬ index + 8 ≤ data.length) :
    readFoot data data.length index fastcode = .ok none := by
  simp only [readFoot, offset_ok hle, int32_rest hsize hle, Checked.ok_bind,
    footMemRead_drop hle, if_neg hroom, Checked.pure_eq_ok]

end Steps

/-! ## Behind the head -/

section BodyAndFoot

variable {data : Bytes} {index : Nat}

/-- What reading the body makes of a packet whose head is set up. -/
structure BodyRead (before after : FSNetPacket) (data : Bytes) (index : Nat) : Prop where
  head : after.head = before.head
  body : before.head.uid ≠ 0 →
    after.body.bufferPtr = some (slice data index before.head.bodyLength.toNat) ∧
      after.body.length = before.head.size
  bodyKept : before.head.uid = 0 → after.body = before.body

/-- What reading body and foot of a complete frame makes of a packet whose head is set up. -/
structure FrameRead (before after : FSNetPacket) (data : Bytes) (index : Nat) : Prop
    extends BodyRead before after data index where
  foot : after.foot = footAt data (index + before.head.bodyLength.toNat)
  sid : after.sid = before.head.sessionID
  integrity : after.bFastIntegrity = (before.head.xor ^^^
    xorSum (slice data index (before.head.bodyLength.toNat + 8)) == 0)

namespace FSNetPacket

/-- The body is read when its bytes are there; a heartbeat has none. -/
theorem readBody_ok (this : FSNetPacket) (index : Nat) (fastcode : UInt8)
    (hsize : data.length < 2 ^ 31)
    (hnonneg : 0 ≤ this.head.bodyLength) (hfit : index + this.head.bodyLength ≤ data.length) :
    ∃ after : FSNetPacket,
      this.readBody data data.length index fastcode =
        .ok (some (after, ((index + this.head.bodyLength.toNat : Nat) : Int),
          fastcode ^^^ xorSum (slice data index this.head.bodyLength.toNat))) ∧
      BodyRead this after data index ∧ after.bFastIntegrity = this.bFastIntegrity := by
  by_cases huid : this.head.uid = 0
  · rw [FSNetBufferHead.bodyLength_heartbeat huid]
    refine ⟨this, by simp [readBody, huid, slice], ⟨rfl, fun h => absurd huid h, fun _ => rfl⟩, rfl⟩
  · rw [FSNetBufferHead.bodyLength_body huid] at hnonneg hfit
    have hle : index ≤ data.length := by omega
    have hrest : this.head.size.toInt ≤ (data.drop index).length := by
      rw [List.length_drop]
      omega
    rcases FSNetBufferBody.memRead_ok hnonneg hrest with ⟨body, hread, hptr, hlen⟩
    -- The next index stays inside the buffer, so it is an `int32`.
    have hnext : int32 ((index : Int) + body.memSize) =
        .ok ((index + this.head.size.toInt.toNat : Nat) : Int) := by
      rw [FSNetBufferBody.memSize, hlen, int32_ok (by omega) (by omega)]
      congr 1
      omega
    have hxor : body.xor = xorSum (slice data index this.head.size.toInt.toNat) := by
      rw [FSNetBufferBody.xor, FSNetBufferBody.bytes, hptr]
      rfl
    rw [FSNetBufferHead.bodyLength_body huid]
    refine ⟨{ this with body := body }, ?_, ⟨rfl, fun _ => ⟨?_, hlen⟩, fun h => absurd h huid⟩, rfl⟩
    · simp only [readBody, if_pos (Ne.symm huid), offset_ok hle, int32_rest hsize hle,
        Checked.ok_bind, hread, hnext, hxor, Checked.pure_eq_ok]
    · rw [FSNetBufferHead.bodyLength_body huid]
      exact hptr

theorem readBody_refused (this : FSNetPacket) (fastcode : UInt8) (hsize : data.length < 2 ^ 31)
    (hle : index ≤ data.length)
    (hfit : ¬ (0 ≤ this.head.bodyLength ∧ index + this.head.bodyLength ≤ data.length)) :
    this.readBody data data.length index fastcode = .ok none := by
  -- A heartbeat has no body to refuse.
  have huid : this.head.uid ≠ 0 := by
    intro huid
    rw [FSNetBufferHead.bodyLength_heartbeat huid] at hfit
    omega
  rw [FSNetBufferHead.bodyLength_body huid] at hfit
  have hrest : ¬ (0 ≤ this.head.size.toInt ∧
      this.head.size.toInt ≤ (data.drop index).length) := by
    rw [List.length_drop]
    omega
  simp only [readBody, if_pos (Ne.symm huid), offset_ok hle, int32_rest hsize hle,
    Checked.ok_bind, FSNetBufferBody.memRead_refused hrest, Checked.pure_eq_ok]

theorem readBodyAndFoot_complete (this : FSNetPacket) (hsize : data.length < 2 ^ 31)
    (h : Complete this.head data index) :
    ∃ after : FSNetPacket,
      this.readBodyAndFoot data data.length index =
        .ok (after, ((index + this.head.bodyLength.toNat + 8 : Nat) : Int)) ∧
      FrameRead this after data index := by
  obtain ⟨hnonneg, hfit⟩ := h
  rcases readBody_ok this.heartbeatSid index (0 ^^^ this.head.xor) hsize
    (by simpa using hnonneg) (by simp only [heartbeatSid_head]; omega) with ⟨t, hread, hbody, -⟩
  simp only [heartbeatSid_head] at hread
  have hthead : t.head = this.head := by simpa using hbody.head
  have hroom : index + this.head.bodyLength.toNat + 8 ≤ data.length := by omega
  simp only [readBodyAndFoot, hread, Checked.ok_bind, readFoot_ok _ hsize hroom,
    Checked.pure_eq_ok]
  refine ⟨_, rfl, ⟨hthead, ?_, ?_⟩, rfl, ?_, ?_⟩
  · simpa using hbody.body
  · simpa using hbody.bodyKept
  · rw [hthead]
  · -- The sums of body and foot are the sum of both.
    rw [← slice_append_slice, xorSum_append, UInt8.zero_xor, UInt8.xor_assoc]

theorem readBodyAndFoot_incomplete (this : FSNetPacket) (hsize : data.length < 2 ^ 31)
    (hle : index ≤ data.length) (h : ¬ Complete this.head data index) :
    ∃ after : FSNetPacket,
      this.readBodyAndFoot data data.length index = .ok (after, (data.length : Int)) ∧
      after.head = this.head ∧ after.bFastIntegrity = this.bFastIntegrity := by
  by_cases hbodyFits : 0 ≤ this.head.bodyLength ∧ index + this.head.bodyLength ≤ data.length
  · -- The body is there, the foot is not.
    obtain ⟨hnonneg, hfit⟩ := hbodyFits
    rcases readBody_ok this.heartbeatSid index (0 ^^^ this.head.xor) hsize
      (by simpa using hnonneg) (by simpa using hfit) with ⟨t, hread, hbody, hflag⟩
    simp only [heartbeatSid_head] at hread
    have hroom : ¬ index + this.head.bodyLength.toNat + 8 ≤ data.length := by
      intro hroom
      exact h ⟨hnonneg, by omega⟩
    have hle' : index + this.head.bodyLength.toNat ≤ data.length := by omega
    refine ⟨t, ?_, by simpa using hbody.head, by simpa using hflag⟩
    simp only [readBodyAndFoot, hread, Checked.ok_bind, readFoot_none _ hsize hle' hroom,
      Checked.pure_eq_ok]
  · -- The body is refused: its size is negative or larger than the rest.
    have hread := readBody_refused this.heartbeatSid (0 ^^^ this.head.xor) hsize hle
      (by simpa using hbodyFits)
    refine ⟨this.heartbeatSid, ?_, by simp, by simp⟩
    simp only [readBodyAndFoot, hread, Checked.ok_bind, Checked.pure_eq_ok]

end FSNetPacket

end BodyAndFoot

/-! ## Whole buffers -/

namespace FSNetPacket

variable {data : Bytes} {w : Int32}

/-- With a head found and read, decoding goes on behind it. -/
theorem decode_head (this : FSNetPacket) {i : Nat} (hsize : data.length < 2 ^ 31)
    (hw : SyncwordAt w data i) (hfit : i + 16 ≤ data.length) :
    this.decode data data.length w =
      { this with head := headAt data i }.readBodyAndFoot data data.length (i + 16 : Nat) := by
  simp only [decode, findHead_found hsize hw hfit, Checked.ok_bind]

theorem decode_frame (this : FSNetPacket) {i : Nat} (hsize : data.length < 2 ^ 31)
    (h : FrameAt w data i) :
    ∃ after : FSNetPacket,
      this.decode data data.length w =
        .ok (after, ((i + 24 + (headAt data i).bodyLength.toNat : Nat) : Int)) ∧
      FrameRead { this with head := headAt data i } after data (i + 16) := by
  rw [decode_head this hsize h.syncword h.head_fits]
  rcases readBodyAndFoot_complete { this with head := headAt data i } hsize h.complete with
    ⟨after, hread, hframe⟩
  refine ⟨after, ?_, hframe⟩
  rw [hread]
  simp only [Except.ok.injEq, Prod.mk.injEq, true_and]
  omega

/-- Without a complete frame the whole buffer is consumed and the verdict stays what it was. -/
theorem decode_noFrame (this : FSNetPacket) (hsize : data.length < 2 ^ 31)
    (h : ∀ i, ¬ FrameAt w data i) :
    ∃ after : FSNetPacket,
      this.decode data data.length w = .ok (after, (data.length : Int)) ∧
      after.bFastIntegrity = this.bFastIntegrity := by
  by_cases hfound : ∃ i, SyncwordAt w data i ∧ i + 16 ≤ data.length
  · rcases hfound with ⟨i, hw, hfit⟩
    -- A head is read, but no complete frame starts with it.
    have hshort : ¬ Complete (headAt data i) data (i + 16) := fun hc => h i ⟨hw, hfit, hc⟩
    rw [decode_head this hsize hw hfit]
    rcases readBodyAndFoot_incomplete { this with head := headAt data i } hsize hfit hshort with
      ⟨after, hread, -, hflag⟩
    exact ⟨after, hread, hflag⟩
  · have hnone : findHead data data.length w = .ok none :=
      findHead_none hsize fun i hw hfit => hfound ⟨i, hw, hfit⟩
    refine ⟨{ this with head := { this.head with syncword := w } }, ?_, rfl⟩
    simp only [decode, hnone, Checked.ok_bind, Checked.pure_eq_ok]

/-- The verdict on a frame is the sum of all its bytes, head included. -/
theorem integrity_frameBytes {this after : FSNetPacket} {i : Nat} (h : FrameAt w data i)
    (hread : FrameRead { this with head := headAt data i } after data (i + 16)) :
    after.bFastIntegrity = (xorSum (frameBytes data i) == 0) := by
  have hnonneg : 0 ≤ (headAt data i).bodyLength := h.complete.1
  have hsplit : frameBytes data i =
      slice data i 16 ++ slice data (i + 16) ((headAt data i).bodyLength.toNat + 8) := by
    rw [slice_append_slice, frameBytes]
    congr 1
    omega
  rw [hread.integrity, hsplit, xorSum_append, headAt_xor h.head_fits]

/-- A packet whose verdict is pending is accepted exactly when a complete frame of zero sum is
decoded on it. -/
theorem decode_accepts_iff (this : FSNetPacket) (hsize : data.length < 2 ^ 31)
    (hpending : this.bFastIntegrity = false) :
    ∃ (after : FSNetPacket) (bytesRead : Int),
      this.decode data data.length w = .ok (after, bytesRead) ∧
      (after.bFastIntegrity = true ↔ ∃ i, FrameAt w data i ∧ xorSum (frameBytes data i) = 0) := by
  by_cases hex : ∃ i, FrameAt w data i
  · rcases hex with ⟨i, hi⟩
    rcases decode_frame this hsize hi with ⟨after, hdec, hread⟩
    refine ⟨after, _, hdec, ?_⟩
    rw [integrity_frameBytes hi hread, beq_iff_eq]
    refine ⟨fun h => ⟨i, hi, h⟩, ?_⟩
    rintro ⟨j, hj, hzero⟩
    rwa [hi.unique hj]
  · have hnone : ∀ i, ¬ FrameAt w data i := fun i hi => hex ⟨i, hi⟩
    rcases decode_noFrame this hsize hnone with ⟨after, hdec, hflag⟩
    refine ⟨after, _, hdec, ?_⟩
    rw [hflag, hpending]
    constructor
    · intro h
      cases h
    · rintro ⟨i, hi, -⟩
      exact absurd hi (hnone i)

/-- `ReUse(Data, BufferSize, BytesRead, w)` accepts exactly the complete frames of zero sum, stores
what the frame says, and consumes a complete frame whole and anything else entirely. -/
theorem reUse_frame_grammar (this : FSNetPacket) (buf : RecvBuffer) (w : Int32) :
    ∃ (after : FSNetPacket) (bytesRead : Int),
      this.reUse buf.bytes buf.bufferSize w = .ok (after, bytesRead) ∧
      (after.bFastIntegrity = true ↔
        ∃ i, FrameAt w buf.bytes i ∧ xorSum (frameBytes buf.bytes i) = 0) ∧
      (∀ i, FrameAt w buf.bytes i →
        bytesRead = i + 24 + (headAt buf.bytes i).bodyLength ∧
        after.head = headAt buf.bytes i ∧
        after.foot = footAt buf.bytes (i + 16 + (headAt buf.bytes i).bodyLength.toNat) ∧
        ((headAt buf.bytes i).uid ≠ 0 →
          after.body.bytes =
            slice buf.bytes (i + 16) (headAt buf.bytes i).bodyLength.toNat) ∧
        after.sid.toInt = (headAt buf.bytes i).reserved.toNat % 2 ^ 22) ∧
      ((∀ i, ¬ FrameAt w buf.bytes i) → bytesRead = buf.bufferSize) := by
  rcases decode_accepts_iff (w := w) { this with sid := 0, bFastIntegrity := false } buf.size_lt rfl
    with ⟨after, bytesRead, hdec, haccepts⟩
  refine ⟨after, bytesRead, hdec, haccepts, ?_, ?_⟩
  · intro i hi
    -- The run that was found is the one that reads the frame.
    rcases decode_frame { this with sid := 0, bFastIntegrity := false } buf.size_lt hi with
      ⟨after', hdec', hread⟩
    rw [hdec] at hdec'
    cases hdec'
    have hnonneg : 0 ≤ (headAt buf.bytes i).bodyLength := hi.complete.1
    refine ⟨by omega, hread.head, hread.foot, ?_, ?_⟩
    · intro huid
      rw [FSNetBufferBody.bytes, (hread.body huid).1]
      rfl
    · rw [hread.sid, FSNetBufferHead.sessionID_toInt]
  · intro hnone
    rcases decode_noFrame { this with sid := 0, bFastIntegrity := false } buf.size_lt hnone with
      ⟨after', hdec', -⟩
    rw [hdec] at hdec'
    cases hdec'
    rfl

end FSNetPacket

end Septem
