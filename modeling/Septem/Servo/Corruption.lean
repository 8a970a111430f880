import Septem.Servo.PacketSeal

/-!
# Corruption — one byte of a sealed frame is changed

The fastcode makes the exclusive-or of a frame zero, so a changed byte is noticed whenever the
receiver still adds up the same bytes.  Which bytes it adds up is decided by three of the fields
themselves: the syncword says where the frame starts, `uid` and `size` where it ends.  A change
there can leave a shorter frame, or one inside the body, and that one may sum to zero by chance.
-/

namespace Septem

open Cxx

/-! ## The fields of a head -/

section HeadFields

variable (data : Bytes) (i : Nat)

theorem headAt_uid : (headAt data i).uid = ofBytes (slice data (i + 6) 2) := by
  change ofBytes ((((slice data i 16).drop 4).drop 1).drop 1 |>.take 2) = _
  simp [slice, List.drop_drop, List.drop_take, List.take_take]

theorem headAt_size : (headAt data i).size = ofBytes (slice data (i + 8) 4) := by
  change ofBytes (((((slice data i 16).drop 4).drop 1).drop 1).drop 2 |>.take 4) = _
  simp [slice, List.drop_drop, List.drop_take, List.take_take]

/-- The length a head announces is written in its bytes 6 to 11. -/
theorem bodyLength_set {j : Nat} (hj : j < i + 6 ∨ i + 12 ≤ j) (b : UInt8) :
    (headAt (data.set j b) i).bodyLength = (headAt data i).bodyLength := by
  have huid : (headAt (data.set j b) i).uid = (headAt data i).uid := by
    rw [headAt_uid, headAt_uid, slice_set (by omega)]
  have hsize : (headAt (data.set j b) i).size = (headAt data i).size := by
    rw [headAt_size, headAt_size, slice_set (by omega)]
  rw [FSNetBufferHead.bodyLength, huid, hsize, FSNetBufferHead.bodyLength]

end HeadFields

namespace FSNetPacket

section Corrupted

variable (this : FSNetPacket) {j : Nat} {b : UInt8}

theorem headAt_wire_zero : headAt this.wire 0 = this.head := by
  have h := headAt_wire this [] []
  rwa [List.append_nil, List.nil_append] at h

/-- Behind the syncword a change leaves the syncword where it was. -/
theorem syncwordAt_set (hj : 4 ≤ j) :
    SyncwordAt this.head.syncword (this.wire.set j b) 0 := by
  have hlen := this.length_wire
  have hword : (toBytes this.head.syncword).length = 4 := length_toBytes _
  refine ⟨?_, ?_, fun k hk => absurd hk (Nat.not_lt_zero k)⟩
  · rw [List.length_set]
    omega
  · have hocc : OccursAt (toBytes this.head.syncword) this.wire 0 := this.firstOccurrence_wire.1
    rw [OccursAt, slice_set (by omega)]
    exact hocc

/-- A change in the syncword removes it from the front. -/
theorem not_occursAt_set (hj : j < 4) (hlen : j < this.wire.length) (hb : b ≠ this.wire[j]) :
    ¬ OccursAt (toBytes this.head.syncword) (this.wire.set j b) 0 := by
  intro hocc
  have hword : (toBytes this.head.syncword).length = 4 := length_toBytes _
  have hold : OccursAt (toBytes this.head.syncword) this.wire 0 := this.firstOccurrence_wire.1
  -- Both strings start with the syncword, so they agree at `j`.
  have hsame : slice (this.wire.set j b) 0 4 = slice this.wire 0 4 := by
    rw [← hword, hocc, hold]
  have hget : (slice (this.wire.set j b) 0 4)[j]? = (slice this.wire 0 4)[j]? := by rw [hsame]
  simp only [slice, List.drop_zero, List.getElem?_take, if_pos hj] at hget
  rw [List.getElem?_set_self hlen, List.getElem?_eq_getElem hlen] at hget
  exact hb (Option.some.inj hget)

/-- With the syncword intact, the receiver reads the frame the changed head announces, if it is
no longer than what was sent. -/
theorem frameAt_set_iff (hj : 4 ≤ j) {i : Nat} :
    FrameAt this.head.syncword (this.wire.set j b) i ↔
      i = 0 ∧ 0 ≤ (headAt (this.wire.set j b) 0).bodyLength ∧
        (headAt (this.wire.set j b) 0).bodyLength ≤ this.bodyPart.length := by
  have hlen : (this.wire.set j b).length = 24 + this.bodyPart.length := by
    rw [List.length_set, length_wire]
  constructor
  · intro h
    obtain rfl := h.syncword.unique (syncwordAt_set this hj)
    obtain ⟨hnonneg, hfit⟩ := h.complete
    rw [hlen] at hfit
    exact ⟨rfl, hnonneg, by omega⟩
  · rintro ⟨rfl, hnonneg, hle⟩
    refine ⟨syncwordAt_set this hj, ?_, hnonneg, ?_⟩
    · rw [hlen]
      omega
    · rw [hlen]
      omega

/-- A frame of the old length has a sum that shows the change. -/
theorem xorSum_frameBytes_set_ne (hzero : this.xor = 0) (hlen : j < this.wire.length)
    (hb : b ≠ this.wire[j])
    (hsame : (headAt (this.wire.set j b) 0).bodyLength = this.bodyPart.length) :
    xorSum (frameBytes (this.wire.set j b) 0) ≠ 0 := by
  have hwhole : frameBytes (this.wire.set j b) 0 = this.wire.set j b := by
    have hall : 24 + (headAt (this.wire.set j b) 0).bodyLength.toNat =
        (this.wire.set j b).length := by
      rw [hsame, Int.toNat_natCast, List.length_set, length_wire]
    rw [frameBytes, hall, slice, List.drop_zero, List.take_length]
  have hsum : xorSum this.wire = 0 := by rw [xorSum_wire, hzero]
  rw [hwhole, ← hsum]
  exact xorSum_set_ne hlen hb

/-- With the syncword intact, the frames that sum to zero are shorter than the one sent. -/
theorem exists_zeroFrame_set_iff (hzero : this.xor = 0) (h4 : 4 ≤ j) (hlen : j < this.wire.length)
    (hb : b ≠ this.wire[j]) :
    (∃ i, FrameAt this.head.syncword (this.wire.set j b) i ∧
      xorSum (frameBytes (this.wire.set j b) i) = 0) ↔
      0 ≤ (headAt (this.wire.set j b) 0).bodyLength ∧
        (headAt (this.wire.set j b) 0).bodyLength < this.bodyPart.length ∧
        xorSum (frameBytes (this.wire.set j b) 0) = 0 := by
  constructor
  · rintro ⟨i, hi, hsum⟩
    rcases (frameAt_set_iff this h4).1 hi with ⟨rfl, hnonneg, hle⟩
    refine ⟨hnonneg, Int.lt_iff_le_and_ne.2 ⟨hle, ?_⟩, hsum⟩
    intro hsame
    exact xorSum_frameBytes_set_ne this hzero hlen hb hsame hsum
  · rintro ⟨hnonneg, hlt, hsum⟩
    exact ⟨0, (frameAt_set_iff this h4).2 ⟨rfl, hnonneg, Int.le_of_lt hlt⟩, hsum⟩

end Corrupted

/-- A frame sealed from fastcode 0 with one byte changed.  Outside of syncword, uid and size the
change is always noticed; in uid and size it is missed exactly when a shorter frame is announced
whose bytes sum to zero; in the syncword exactly when such a frame stands behind the front. -/
theorem corrupted_verdict (this prior : FSNetPacket) (inBufferArr frame : Bytes)
    (hfresh : this.head.fastcode = 0) (hsized : this.Sized)
    (hwrite : this.onSeal.writeToArray inBufferArr = .ok frame)
    (j : Nat) (hj : j < frame.length) (b : UInt8) (hb : b ≠ frame[j]) :
    ∃ (after : FSNetPacket) (bytesRead : Int),
      prior.reUse (frame.set j b) (frame.set j b).length this.head.syncword =
        .ok (after, bytesRead) ∧
      (4 ≤ j ∧ j < 6 ∨ 12 ≤ j → after.bFastIntegrity = false) ∧
      (6 ≤ j ∧ j < 12 → (after.bFastIntegrity = true ↔
        0 ≤ (headAt (frame.set j b) 0).bodyLength ∧
        (headAt (frame.set j b) 0).bodyLength < this.bodyPart.length ∧
        xorSum (frameBytes (frame.set j b) 0) = 0)) ∧
      (j < 4 → (after.bFastIntegrity = true ↔
        ∃ i, 0 < i ∧ FrameAt this.head.syncword (frame.set j b) i ∧
          xorSum (frameBytes (frame.set j b) i) = 0)) := by
  obtain ⟨hfits, rfl⟩ := writeToArray_inv hwrite
  have hzero : this.onSeal.xor = 0 := by rw [onSeal_xor, hfresh]
  have hpart : (headAt this.onSeal.wire 0).bodyLength = this.bodyPart.length := by
    rw [headAt_wire_zero, bodyLength_of_sized (onSeal_sized hsized)]
    rfl
  have hsize : (this.onSeal.wire.set j b).length < 2 ^ 31 := by
    rw [List.length_set, length_wire]
    exact hfits
  rcases decode_accepts_iff (w := this.head.syncword)
    { prior with sid := 0, bFastIntegrity := false } hsize rfl with
    ⟨after, bytesRead, hdec, haccepts⟩
  have hshorter (h4 : 4 ≤ j) : after.bFastIntegrity = true ↔
      0 ≤ (headAt (this.onSeal.wire.set j b) 0).bodyLength ∧
      (headAt (this.onSeal.wire.set j b) 0).bodyLength < this.bodyPart.length ∧
      xorSum (frameBytes (this.onSeal.wire.set j b) 0) = 0 := by
    rw [haccepts]
    exact exists_zeroFrame_set_iff this.onSeal hzero h4 hj hb
  refine ⟨after, bytesRead, hdec, ?_, ?_, ?_⟩
  · intro houtside
    have h4 : 4 ≤ j := by omega
    refine Bool.eq_false_iff.2 fun hacc => ?_
    -- The announced length is the old one, so no shorter frame is read.
    rcases (hshorter h4).1 hacc with ⟨-, hlt, -⟩
    rw [bodyLength_set _ 0 (by omega), hpart] at hlt
    exact Int.lt_irrefl _ hlt
  · intro hinside
    exact hshorter (by omega)
  · intro h4
    rw [haccepts]
    constructor
    · rintro ⟨i, hi, hsum⟩
      refine ⟨i, Nat.pos_of_ne_zero ?_, hi, hsum⟩
      rintro rfl
      exact not_occursAt_set this.onSeal h4 hj hb hi.syncword.2.1
    · rintro ⟨i, -, hi, hsum⟩
      exact ⟨i, hi, hsum⟩

/-! ## Changes that are missed -/

/-- A packet with eight body bytes. -/
def eightZeros (timestamp : UInt64) : FSNetPacket :=
  { head := { uid := 1, size := 8 }
    body := FSNetBufferBody.ofArray [0, 0, 0, 0, 0, 0, 0, 0] (by decide)
    foot := { timestamp } }

/-- A packet whose body is a heartbeat frame. -/
def heartbeatInside : FSNetPacket :=
  { head := { uid := 7, size := 24 }
    body := FSNetBufferBody.ofArray (createHeartbeat defaultSyncwordInt32 2).wire (by decide)
    foot := { timestamp := 1 } }

theorem corrupted_verdict_eightZeros :
    ∃ (after : FSNetPacket) (bytesRead : Int),
      new.reUse ((eightZeros 1).onSeal.wire.set 16 5)
        ((eightZeros 1).onSeal.wire.set 16 5).length defaultSyncwordInt32 =
          .ok (after, bytesRead) ∧
      after.bFastIntegrity = false := by
  have hwrite : (eightZeros 1).onSeal.writeToArray [] = .ok (eightZeros 1).onSeal.wire :=
    writeToArray_eq (by decide) []
  rcases corrupted_verdict (eightZeros 1) new [] _ rfl (by decide) hwrite 16 (by decide) 5
    (by decide) with ⟨after, bytesRead, hread, houtside, -, -⟩
  exact ⟨after, bytesRead, hread, houtside (.inr (by decide))⟩

/-- Writing the packet, changing byte `j` to `b` and decoding gives a valid packet. -/
def Missed (this : FSNetPacket) (j : Nat) (b : UInt8) : Prop :=
  this.head.fastcode = 0 ∧ this.Sized ∧
  ∃ (frame : Bytes) (after : FSNetPacket) (bytesRead : Int),
    this.onSeal.writeToArray [] = .ok frame ∧ j < frame.length ∧ frame[j]? ≠ some b ∧
    new.reUse (frame.set j b) (frame.set j b).length this.head.syncword =
      .ok (after, bytesRead) ∧
    after.bFastIntegrity = true

/-- A frame of zero sum in the changed bytes is accepted. -/
theorem missed_of_frameAt {this : FSNetPacket} {j : Nat} {b : UInt8}
    (hfresh : this.head.fastcode = 0) (hsized : this.Sized) (hfits : this.onSeal.Fits)
    (hj : j < this.onSeal.wire.length) (hb : this.onSeal.wire[j]? ≠ some b) (i : Nat)
    (hframe : FrameAt this.head.syncword (this.onSeal.wire.set j b) i)
    (hsum : xorSum (frameBytes (this.onSeal.wire.set j b) i) = 0) : this.Missed j b := by
  have hsize : (this.onSeal.wire.set j b).length < 2 ^ 31 := by
    rw [List.length_set, length_wire]
    exact hfits
  rcases decode_accepts_iff (w := this.head.syncword) { new with sid := 0, bFastIntegrity := false }
    hsize rfl with ⟨after, bytesRead, hdec, haccepts⟩
  exact ⟨hfresh, hsized, this.onSeal.wire, after, bytesRead, writeToArray_eq hfits [], hj, hb, hdec,
    haccepts.2 ⟨i, hframe, hsum⟩⟩

/-- A changed `uid` makes a heartbeat of the first 24 bytes, a changed `size` cuts the body, and
a damaged syncword leaves the frame in the body to be found. -/
theorem corruption_missed :
    (eightZeros 1).Missed 6 0 ∧ (eightZeros 8).Missed 8 0 ∧ heartbeatInside.Missed 0 0 := by
  refine ⟨?_, ?_, ?_⟩
  · exact missed_of_frameAt rfl rfl (by decide) (by decide) (by decide) 0
      ⟨by decide, by decide, by decide⟩ (by decide)
  · exact missed_of_frameAt rfl rfl (by decide) (by decide) (by decide) 0
      ⟨by decide, by decide, by decide⟩ (by decide)
  · exact missed_of_frameAt rfl rfl (by decide) (by decide) (by decide) 16
      ⟨by decide, by decide, by decide⟩ (by decide)

end FSNetPacket

end Septem
