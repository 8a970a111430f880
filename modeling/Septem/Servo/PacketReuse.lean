import Septem.Servo.PacketGrammar

/-!
# PacketReuse — decoding on a packet that had an earlier life

`ReUse` is called on recycled packets, so what it leaves behind should depend on the frame alone:
the same as on any other packet, and the same as the buffer constructor builds.  It does for every
frame with a body.  The body of a heartbeat frame is never touched, although the header file says
"recv buffer no body" and `ReUseAsHeartbeat` resets it, so there the old body stays reachable.
-/

namespace Septem

open Cxx

namespace FSNetPacket

/-- Equal in every member; of the body, its length and the bytes behind its pointer. -/
structure SameState (a b : FSNetPacket) : Prop where
  head : a.head = b.head
  length : a.body.length = b.body.length
  bytes : a.body.bytes = b.body.bytes
  foot : a.foot = b.foot
  sid : a.sid = b.sid
  integrity : a.bFastIntegrity = b.bFastIntegrity

/-- Decoding the frame at `i` on `p` and on `q` and constructing a packet from it yield the same
state, and the body bytes of this state are those of the frame. -/
def ForgetsPast (p q : FSNetPacket) (buf : RecvBuffer) (w : Int32) (i : Nat) : Prop :=
  ∃ (a b c : FSNetPacket) (bytesRead : Int),
    p.reUse buf.bytes buf.bufferSize w = .ok (a, bytesRead) ∧
    q.reUse buf.bytes buf.bufferSize w = .ok (b, bytesRead) ∧
    ofBuffer buf.bytes buf.bufferSize w = .ok (c, bytesRead) ∧
    SameState a b ∧ SameState a c ∧
    a.body.bytes = slice buf.bytes (i + 16) (headAt buf.bytes i).bodyLength.toNat

end FSNetPacket

/-! ## What a frame determines -/

section FrameRead

variable {before after before' after' : FSNetPacket} {data : Bytes} {index : Nat}

/-- The body a frame leaves: its own, or the old one when it is a heartbeat. -/
theorem BodyRead.bytes_eq (h : BodyRead before after data index) :
    after.body.bytes =
      if before.head.uid ≠ 0 then slice data index before.head.bodyLength.toNat
      else before.body.bytes := by
  by_cases huid : before.head.uid = 0
  · rw [if_neg (not_not_intro huid), h.bodyKept huid]
  · rw [if_pos huid, FSNetBufferBody.bytes, (h.body huid).1]
    rfl

/-- The length of a body is the number of its bytes, so the bytes determine it. -/
theorem FSNetBufferBody.length_eq_of_bytes {a b : FSNetBufferBody} (h : a.bytes = b.bytes) :
    a.length = b.length := by
  refine Int32.toInt_inj.1 ?_
  rw [a.length_toInt, b.length_toInt, h]

/-- Two reads of one frame agree in everything but the body, and in the body too if it was read
or was the same before. -/
theorem FrameRead.sameState (h : FrameRead before after data index)
    (h' : FrameRead before' after' data index) (hhead : before.head = before'.head)
    (hbody : before.head.uid ≠ 0 ∨ before.body.bytes = before'.body.bytes) :
    FSNetPacket.SameState after after' := by
  have hbytes : after.body.bytes = after'.body.bytes := by
    rw [h.toBodyRead.bytes_eq, h'.toBodyRead.bytes_eq, ← hhead]
    rcases hbody with huid | hsame
    · rw [if_pos huid, if_pos huid]
    · rw [hsame]
  refine ⟨?_, FSNetBufferBody.length_eq_of_bytes hbytes, hbytes, ?_, ?_, ?_⟩
  · rw [h.head, h'.head, hhead]
  · rw [h.foot, h'.foot, hhead]
  · rw [h.sid, h'.sid, hhead]
  · rw [h.integrity, h'.integrity, hhead]

end FrameRead

/-! ## ReUse -/

namespace FSNetPacket

/-- `ReUse` forgets what the packet was exactly when the frame has a body or there is no old body
to forget. -/
theorem reUse_forgetsPast_iff (p q : FSNetPacket) (buf : RecvBuffer) (w : Int32) (i : Nat)
    (h : FrameAt w buf.bytes i) :
    ForgetsPast p q buf w i ↔
      (headAt buf.bytes i).uid ≠ 0 ∨ (p.body.bytes = [] ∧ q.body.bytes = []) := by
  rcases decode_frame { p with sid := 0, bFastIntegrity := false } buf.size_lt h with
    ⟨a, hdecA, hreadA⟩
  rcases decode_frame { q with sid := 0, bFastIntegrity := false } buf.size_lt h with
    ⟨b, hdecB, hreadB⟩
  rcases decode_frame { new with sid := 0, bFastIntegrity := false } buf.size_lt h with
    ⟨c, hdecC, hreadC⟩
  have hbytes := hreadA.toBodyRead.bytes_eq
  by_cases huid : (headAt buf.bytes i).uid = 0
  · -- A heartbeat: both packets keep the body they had, a new packet has none.
    have hempty : slice buf.bytes (i + 16) (headAt buf.bytes i).bodyLength.toNat = [] := by
      rw [FSNetBufferHead.bodyLength_heartbeat huid]
      rfl
    have hkeepA : a.body = p.body := hreadA.bodyKept huid
    have hkeepB : b.body = q.body := hreadB.bodyKept huid
    constructor
    · rintro ⟨a', b', c', n, hA, hB, -, hsame, -, hslice⟩
      obtain rfl : a = a' := by
        rw [show p.reUse buf.bytes buf.bufferSize w = _ from hdecA] at hA
        cases hA
        rfl
      obtain rfl : b = b' := by
        rw [show q.reUse buf.bytes buf.bufferSize w = _ from hdecB] at hB
        cases hB
        rfl
      have hp : p.body.bytes = [] := by rw [← hkeepA, hslice, hempty]
      refine .inr ⟨hp, ?_⟩
      rw [← hkeepB, ← hsame.bytes, hkeepA, hp]
    · rintro (hne | ⟨hp, hq⟩)
      · exact absurd huid hne
      · refine ⟨a, b, c, _, hdecA, hdecB, hdecC, ?_, ?_, ?_⟩
        · exact hreadA.sameState hreadB rfl (.inr (hp.trans hq.symm))
        · exact hreadA.sameState hreadC rfl (.inr hp)
        · rw [hempty, hkeepA, hp]
  · refine iff_of_true ?_ (.inl huid)
    refine ⟨a, b, c, _, hdecA, hdecB, hdecC, ?_, ?_, ?_⟩
    · exact hreadA.sameState hreadB rfl (.inl huid)
    · exact hreadA.sameState hreadC rfl (.inl huid)
    · rw [hbytes]
      exact if_pos huid

/-- A heartbeat of the default syncword on the wire. -/
def heartbeatBuffer : RecvBuffer :=
  { bytes := toBytes (createHeartbeat defaultSyncwordInt32 1).head ++
      toBytes (createHeartbeat defaultSyncwordInt32 1).foot
    size_lt := by decide }

/-- A packet that has carried the body byte 7. -/
def carriedSeven : FSNetPacket :=
  { head := { uid := 7, size := 1 }, body := FSNetBufferBody.ofArray [7] (by decide) }

/-- A packet of class 3 with two body bytes on the wire. -/
def twoBytesBuffer : RecvBuffer :=
  { bytes := toBytes ({ uid := 3, size := 2 } : FSNetBufferHead) ++ [1, 2] ++
      toBytes ({ timestamp := 5 } : FSNetBufferFoot)
    size_lt := by decide }

/-- Of a packet that has been in use and a new one the same becomes. -/
theorem reUse_forgetsPast_twoBytes :
    ForgetsPast carriedSeven new twoBytesBuffer defaultSyncwordInt32 0 :=
  (reUse_forgetsPast_iff carriedSeven new twoBytesBuffer defaultSyncwordInt32 0
    ⟨by decide, by decide, by decide⟩).2 (.inl (by decide))

/-- The body byte 7 is still there after a heartbeat has been decoded on its packet. -/
theorem reUse_keeps_body :
    FrameAt defaultSyncwordInt32 heartbeatBuffer.bytes 0 ∧
    (∃ after : FSNetPacket,
      carriedSeven.reUse heartbeatBuffer.bytes heartbeatBuffer.bufferSize defaultSyncwordInt32 =
        .ok (after, 24) ∧
      after.head.uid = 0 ∧ after.bFastIntegrity = true ∧ after.body.bytes = [7]) ∧
    ¬ ForgetsPast carriedSeven new heartbeatBuffer defaultSyncwordInt32 0 := by
  have hframe : FrameAt defaultSyncwordInt32 heartbeatBuffer.bytes 0 :=
    ⟨by decide, by decide, by decide⟩
  have hcall : ∃ after : FSNetPacket,
      carriedSeven.reUse heartbeatBuffer.bytes heartbeatBuffer.bufferSize defaultSyncwordInt32 =
        .ok (after, 24) ∧
      after.head.uid = 0 ∧ after.bFastIntegrity = true ∧ after.body.bytes = [7] :=
    ⟨_, rfl, by decide, by decide, rfl⟩
  refine ⟨hframe, hcall, ?_⟩
  rintro ⟨a, b, c, n, hA, -, -, -, -, hslice⟩
  rcases hcall with ⟨after, hafter, -, -, hbody⟩
  rw [hafter] at hA
  cases hA
  -- The frame has no body bytes.
  rw [hbody] at hslice
  exact absurd hslice (by decide)

end FSNetPacket

end Septem
