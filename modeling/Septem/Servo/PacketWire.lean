import Septem.Servo.PacketGrammar

/-!
# PacketWire — what `WriteToArray` puts on the wire and `ReUse` takes off it

`wire p` is the frame of a packet as one byte string.  `WriteToArray` produces it whenever its
`int32` size computation does not overflow (`Fits`), and decoding it, behind any noise that does
not contain the syncword earlier and in front of anything else, gives back head, body and foot
together with the verdict `p.xor = 0`.
-/

namespace Septem

open Cxx

namespace FSNetPacket

/-- The body as it is sent: a heartbeat has none. -/
def bodyPart (this : FSNetPacket) : Bytes :=
  if this.head.uid ≠ 0 then this.body.bytes else []

def wire (this : FSNetPacket) : Bytes :=
  toBytes this.head ++ (this.bodyPart ++ toBytes this.foot)

/-- The size of the frame is an `int32`. -/
def Fits (this : FSNetPacket) : Prop :=
  24 + this.bodyPart.length < 2 ^ 31

/-- `length == BufferHead.size`, the relation the header file asks of a packet. -/
def Sized (this : FSNetPacket) : Prop :=
  this.head.size = this.body.length

instance (this : FSNetPacket) : Decidable this.Fits :=
  inferInstanceAs (Decidable (_ < _))

instance (this : FSNetPacket) : Decidable this.Sized :=
  inferInstanceAs (Decidable (_ = _))

theorem length_toBytes_head (h : FSNetBufferHead) : (toBytes h).length = 16 :=
  length_toBytes h

theorem length_toBytes_foot (f : FSNetBufferFoot) : (toBytes f).length = 8 :=
  length_toBytes f

theorem length_wire (this : FSNetPacket) : this.wire.length = 24 + this.bodyPart.length := by
  simp only [wire, List.length_append, length_toBytes_head, length_toBytes_foot]
  omega

theorem bodyPart_heartbeat {this : FSNetPacket} (huid : this.head.uid = 0) :
    this.bodyPart = [] := by
  simp [bodyPart, huid]

theorem bodyPart_body {this : FSNetPacket} (huid : this.head.uid ≠ 0) :
    this.bodyPart = this.body.bytes := by
  simp [bodyPart, huid]

theorem xorSum_wire (this : FSNetPacket) : xorSum this.wire = this.xor := by
  by_cases huid : this.head.uid = 0
  · rw [wire, bodyPart_heartbeat huid, List.nil_append, xorSum_append, xor, if_pos huid]
    rfl
  · rw [wire, bodyPart_body huid, xorSum_append, xorSum_append, xor, if_neg huid,
      UInt8.xor_assoc]
    rfl

/-! ## Encoding -/

theorem uid_pos_iff {this : FSNetPacket} : this.head.uid > 0 ↔ this.head.uid ≠ 0 := by
  constructor
  · intro h h0
    rw [h0] at h
    exact absurd h (by decide)
  · intro h
    exact UInt16.pos_iff_ne_zero.2 h

theorem writeSize_eq {this : FSNetPacket} (h : this.Fits) :
    this.writeSize = .ok (this.wire.length : Int) := by
  have hlt : 24 + this.bodyPart.length < 2 ^ 31 := h
  by_cases huid : this.head.uid = 0
  · rw [length_wire, bodyPart_heartbeat huid, writeSize, if_neg (by simp [huid])]
    rfl
  · rw [bodyPart_body huid] at hlt
    rw [length_wire, bodyPart_body huid, writeSize, if_pos (uid_pos_iff.2 huid),
      FSNetBufferBody.length_toInt, FSNetBufferHead.sizeof_eq, FSNetBufferFoot.sizeof_eq,
      int32_ok (by omega) (by omega)]
    congr 1

theorem writeSize_overflow {this : FSNetPacket} (h : ¬ this.Fits) :
    this.writeSize = .error .signedOverflow := by
  have hge : ¬ 24 + this.bodyPart.length < 2 ^ 31 := h
  by_cases huid : this.head.uid = 0
  · rw [bodyPart_heartbeat huid] at hge
    exact absurd (by decide) hge
  · rw [bodyPart_body huid] at hge
    rw [writeSize, if_pos (uid_pos_iff.2 huid), FSNetBufferBody.length_toInt,
      FSNetBufferHead.sizeof_eq, FSNetBufferFoot.sizeof_eq]
    exact if_neg (by omega)

/-- `WriteToArray` writes the frame, whatever the array held before. -/
theorem writeToArray_eq {this : FSNetPacket} (h : this.Fits) (inBufferArr : Bytes) :
    this.writeToArray inBufferArr = .ok this.wire := by
  rcases resize_ok inBufferArr (Int.natCast_nonneg this.wire.length) 0 with ⟨arr, harr, hlen⟩
  rw [Int.toNat_natCast] at hlen
  by_cases huid : this.head.uid = 0
  · -- A heartbeat: two chunks fill the array.
    have hchunks : [toBytes this.head, toBytes this.foot].flatten = this.wire := by
      simp [wire, bodyPart_heartbeat huid]
    rcases Checked.bind_eq_ok.1 (putAll_fill (hchunks ▸ hlen.symm)) with ⟨c₁, h₁, hrest⟩
    rcases Checked.bind_eq_ok.1 hrest with ⟨c₂, h₂, hend⟩
    cases hend
    simp only [writeToArray, writeSize_eq h, Checked.ok_bind, harr, h₁, huid, ne_eq, not_true,
      if_false, h₂, hchunks, Checked.pure_eq_ok]
  · -- Three chunks fill the array.
    have hchunks : [toBytes this.head, this.body.bytes, toBytes this.foot].flatten = this.wire := by
      simp [wire, bodyPart_body huid]
    rcases Checked.bind_eq_ok.1 (putAll_fill (hchunks ▸ hlen.symm)) with ⟨c₁, h₁, hrest⟩
    rcases Checked.bind_eq_ok.1 hrest with ⟨c₂, h₂, hrest⟩
    rcases Checked.bind_eq_ok.1 hrest with ⟨c₃, h₃, hend⟩
    cases hend
    simp only [writeToArray, writeSize_eq h, Checked.ok_bind, harr, h₁, huid, ne_eq,
      not_false_eq_true, if_true, h₂, h₃, hchunks, Checked.pure_eq_ok]

theorem writeToArray_overflow {this : FSNetPacket} (h : ¬ this.Fits) (inBufferArr : Bytes) :
    this.writeToArray inBufferArr = .error .signedOverflow := by
  simp only [writeToArray, writeSize_overflow h, Checked.error_bind]

/-- A packet that was written had a frame of `int32` size, and that frame was written. -/
theorem writeToArray_inv {this : FSNetPacket} {inBufferArr frame : Bytes}
    (h : this.writeToArray inBufferArr = .ok frame) : this.Fits ∧ frame = this.wire := by
  by_cases hfits : this.Fits
  · rw [writeToArray_eq hfits] at h
    exact ⟨hfits, (Except.ok.inj h).symm⟩
  · rw [writeToArray_overflow hfits] at h
    cases h

/-! ## Decoding what was encoded -/

theorem bodyLength_of_sized {this : FSNetPacket} (h : this.Sized) :
    this.head.bodyLength = this.bodyPart.length := by
  by_cases huid : this.head.uid = 0
  · rw [FSNetBufferHead.bodyLength_heartbeat huid, bodyPart_heartbeat huid]
    rfl
  · have hsize : this.head.size = this.body.length := h
    rw [FSNetBufferHead.bodyLength_body huid, bodyPart_body huid, hsize,
      FSNetBufferBody.length_toInt]

section Decoding

variable (this : FSNetPacket) (noise rest : Bytes)

theorem headAt_wire : headAt (noise ++ (this.wire ++ rest)) noise.length = this.head := by
  -- The head is the part between the noise and the body.
  have hmid := slice_middle noise (toBytes this.head) (this.bodyPart ++ toBytes this.foot ++ rest)
  rw [length_toBytes_head] at hmid
  have hslice : slice (noise ++ (this.wire ++ rest)) noise.length 16 = toBytes this.head := by
    simpa [wire] using hmid
  rw [headAt, hslice, ofBytes_toBytes]

theorem slice_bodyPart :
    slice (noise ++ (this.wire ++ rest)) (noise.length + 16) this.bodyPart.length =
      this.bodyPart := by
  have hmid := slice_middle (noise ++ toBytes this.head) this.bodyPart (toBytes this.foot ++ rest)
  rw [List.length_append, length_toBytes_head] at hmid
  simpa [wire] using hmid

theorem slice_foot :
    slice (noise ++ (this.wire ++ rest)) (noise.length + 16 + this.bodyPart.length) 8 =
      toBytes this.foot := by
  have hmid := slice_middle (noise ++ toBytes this.head ++ this.bodyPart) (toBytes this.foot) rest
  rw [List.length_append, List.length_append, length_toBytes_head, length_toBytes_foot] at hmid
  simpa [wire] using hmid

theorem footAt_wire :
    footAt (noise ++ (this.wire ++ rest)) (noise.length + 16 + this.bodyPart.length) =
      this.foot := by
  rw [footAt, slice_foot, ofBytes_toBytes]

/-- Behind noise without an earlier syncword, an encoded packet is a frame. -/
theorem frameAt_wire (hsized : this.Sized)
    (hfirst : FirstOccurrence (toBytes this.head.syncword) (noise ++ this.wire) noise.length) :
    FrameAt this.head.syncword (noise ++ (this.wire ++ rest)) noise.length := by
  have hword : (toBytes this.head.syncword).length = 4 := length_toBytes _
  have hlen := this.length_wire
  refine ⟨⟨?_, ?_⟩, ?_, ?_⟩
  · simp only [List.length_append]
    omega
  · -- What follows the frame cannot move the first syncword.
    rw [← List.append_assoc]
    refine hfirst.append rest ?_
    simp only [List.length_append]
    omega
  · simp only [List.length_append]
    omega
  · rw [headAt_wire, Complete, bodyLength_of_sized hsized]
    simp only [List.length_append]
    omega

/-- Decoding an encoded packet behind noise gives its head, body and foot back. -/
theorem reUse_wire (prior : FSNetPacket) (hsized : this.Sized)
    (hsize : (noise ++ (this.wire ++ rest)).length < 2 ^ 31)
    (hfirst : FirstOccurrence (toBytes this.head.syncword) (noise ++ this.wire) noise.length) :
    ∃ after : FSNetPacket,
      prior.reUse (noise ++ (this.wire ++ rest)) (noise ++ (this.wire ++ rest)).length
          this.head.syncword =
        .ok (after, ((noise.length + this.wire.length : Nat) : Int)) ∧
      after.head = this.head ∧ after.foot = this.foot ∧
      (this.head.uid ≠ 0 → after.body.bytes = this.body.bytes) ∧
      after.bFastIntegrity = (this.xor == 0) := by
  rcases decode_frame { prior with sid := 0, bFastIntegrity := false } hsize
    (frameAt_wire this noise rest hsized hfirst) with ⟨after, hdec, hread⟩
  have hlen : this.head.bodyLength.toNat = this.bodyPart.length := by
    rw [bodyLength_of_sized hsized, Int.toNat_natCast]
  rw [headAt_wire] at hdec hread
  refine ⟨after, ?_, hread.head, ?_, ?_, ?_⟩
  · rw [reUse, hdec, hlen, length_wire]
    congr 2
    omega
  · rw [hread.foot]
    simp only [hlen, footAt_wire]
  · intro huid
    have hbody := slice_bodyPart this noise rest
    rw [bodyPart_body huid] at hbody hlen
    rw [FSNetBufferBody.bytes, (hread.body huid).1]
    simp only [hlen, Option.getD_some, hbody]
  · -- Body and foot are read as two slices; with the head they are the whole frame.
    have hsum : xorSum (slice (noise ++ (this.wire ++ rest)) (noise.length + 16)
        (this.bodyPart.length + 8)) = xorSum (this.bodyPart ++ toBytes this.foot) := by
      rw [← slice_append_slice, slice_bodyPart, slice_foot]
    have hhead : this.head.xor = xorSum (toBytes this.head) := rfl
    rw [hread.integrity]
    simp only [hlen, hsum, hhead]
    rw [← xorSum_append, ← xorSum_wire, wire]

end Decoding

/-! ## Encoding what was decoded -/

section Encoding

variable {data : Bytes} {index : Nat}

theorem toBytes_headAt (h : index + 16 ≤ data.length) :
    toBytes (headAt data index) = slice data index 16 :=
  Unpadded.toBytes_ofBytes _ (length_slice h)

theorem toBytes_footAt (h : index + 8 ≤ data.length) :
    toBytes (footAt data index) = slice data index 8 :=
  Unpadded.toBytes_ofBytes _ (length_slice h)

/-- What is sent as the body is what was read as the body; for a heartbeat that is nothing, even
if the packet still holds an older body. -/
theorem bodyPart_of_read {before after : FSNetPacket} (h : BodyRead before after data index) :
    after.bodyPart = slice data index before.head.bodyLength.toNat := by
  by_cases huid : before.head.uid = 0
  · have huid' : after.head.uid = 0 := by rw [h.head, huid]
    rw [bodyPart_heartbeat huid', FSNetBufferHead.bodyLength_heartbeat huid]
    simp [slice]
  · have huid' : after.head.uid ≠ 0 := by rwa [h.head]
    rw [bodyPart_body huid', FSNetBufferBody.bytes, (h.body huid).1]
    rfl

/-- The frame of a packet that was read is the frame it was read from. -/
theorem wire_of_frameRead {this after : FSNetPacket} {w : Int32} {i : Nat}
    (hframe : FrameAt w data i)
    (h : FrameRead { this with head := headAt data i } after data (i + 16)) :
    after.wire = frameBytes data i := by
  have hcomplete : Complete (headAt data i) data (i + 16) := hframe.complete
  obtain ⟨hnonneg, hfit⟩ := hcomplete
  have hbody := bodyPart_of_read h.toBodyRead
  have hhead : after.head = headAt data i := h.head
  have hfoot : after.foot = footAt data (i + 16 + (headAt data i).bodyLength.toNat) := h.foot
  calc
    after.wire
        = slice data i 16 ++ (slice data (i + 16) (headAt data i).bodyLength.toNat ++
            slice data (i + 16 + (headAt data i).bodyLength.toNat) 8) := by
              rw [wire, hbody, hhead, hfoot, toBytes_headAt hframe.head_fits,
                toBytes_footAt (by omega)]
    _ = slice data i (16 + ((headAt data i).bodyLength.toNat + 8)) := by
          rw [slice_append_slice, slice_append_slice]
    _ = frameBytes data i := by
          rw [frameBytes]
          congr 1
          omega

/-- Encoding undoes decoding: after a complete frame was read, `WriteToArray` produces the bytes
that `ReUse` consumed from the start of the frame on. -/
theorem writeToArray_reUse (this : FSNetPacket) (buf : RecvBuffer) {w : Int32} {i : Nat}
    (h : FrameAt w buf.bytes i) :
    ∃ (after : FSNetPacket) (bytesRead : Nat),
      this.reUse buf.bytes buf.bufferSize w = .ok (after, (bytesRead : Int)) ∧
      i + 24 ≤ bytesRead ∧ bytesRead ≤ buf.bytes.length ∧
      ∀ inBufferArr : Bytes,
        after.writeToArray inBufferArr = .ok ((buf.bytes.take bytesRead).drop i) := by
  have hsize := buf.size_lt
  have hcomplete : Complete (headAt buf.bytes i) buf.bytes (i + 16) := h.complete
  obtain ⟨hnonneg, hfit⟩ := hcomplete
  rcases decode_frame { this with sid := 0, bFastIntegrity := false } hsize h with
    ⟨after, hdec, hread⟩
  refine ⟨after, _, hdec, by omega, by omega, ?_⟩
  intro inBufferArr
  have hwire : after.wire = frameBytes buf.bytes i := wire_of_frameRead h hread
  have hfits : after.Fits := by
    have hlen := after.length_wire
    rw [hwire, frameBytes, length_slice (by omega)] at hlen
    rw [Fits]
    omega
  rw [writeToArray_eq hfits, hwire, frameBytes, slice, List.drop_take]
  congr 2
  omega

/-- A heartbeat behind a byte of noise, read into a packet that still holds a body. -/
theorem writeToArray_reUse_heartbeat :
    let prior : FSNetPacket := { new with body := FSNetBufferBody.ofArray [1, 2, 3] (by decide) }
    let buf : RecvBuffer := ⟨0 :: new.wire, by decide⟩
    ∃ (after : FSNetPacket) (bytesRead : Nat),
      prior.reUse buf.bytes buf.bufferSize defaultSyncwordInt32 = .ok (after, (bytesRead : Int)) ∧
      after.body.bytes = [1, 2, 3] ∧ after.writeToArray [9] = .ok new.wire := by
  intro prior buf
  have hframe : FrameAt defaultSyncwordInt32 buf.bytes 1 := ⟨by decide, by decide, by decide⟩
  rcases writeToArray_reUse prior buf hframe with ⟨after, bytesRead, hread, -, -, hwrite⟩
  have hread' : prior.reUse buf.bytes buf.bufferSize defaultSyncwordInt32 =
      .ok ({ new with body := prior.body, bFastIntegrity := false }, 25) := by
    decide
  rw [hread'] at hread
  have hbytes : bytesRead = 25 := by
    have h25 := congrArg Prod.snd (Except.ok.inj hread)
    exact (Int.ofNat.inj h25).symm
  have hafter := congrArg Prod.fst (Except.ok.inj hread)
  subst hbytes hafter
  exact ⟨_, _, hread', rfl, hwrite [9]⟩

end Encoding

end FSNetPacket

end Septem
