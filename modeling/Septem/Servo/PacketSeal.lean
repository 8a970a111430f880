import Septem.Servo.PacketWire

/-!
# PacketSeal — the fastcode seal and the two integrity checks

The header file calls `fastcode` the "xor value without this byte", but `FSNetBufferHead::XOR`
runs over all 16 bytes of the head, the fastcode byte included.  Hence the exclusive-or of a
packet is its fastcode times everything else (`xor_eq_fastcode`), sealing swaps the fastcode with
what the packet summed to (`onSeal_xor`), and a sealed packet sums to the fastcode it had before.

The receiver accepts a frame of sum `0`, the sender's `CheckIntegrity` one whose sum is its own
fastcode; `accepted_iff` and `checkIntegrity_iff` say what either amounts to.
-/

namespace Septem

open Cxx

namespace FSNetPacket

/-- The exclusive-or of everything that is sent except the fastcode byte. -/
def bareXor (this : FSNetPacket) : UInt8 :=
  { this with head := { this.head with fastcode := 0 } : FSNetPacket }.xor

theorem xor_eq_fastcode (this : FSNetPacket) :
    this.xor = this.head.fastcode ^^^ this.bareXor := by
  by_cases huid : this.head.uid = 0
  · simp only [bareXor, xor, huid, if_true]
    rw [this.head.xor_eq_fastcode, UInt8.xor_assoc, huid]
  · simp only [bareXor, xor, huid, if_false]
    rw [this.head.xor_eq_fastcode, UInt8.xor_assoc, UInt8.xor_assoc, UInt8.xor_assoc]

/-! ## Sealing -/

@[simp] theorem onSeal_fastcode (this : FSNetPacket) : this.onSeal.head.fastcode = this.xor := rfl

@[simp] theorem onSeal_bareXor (this : FSNetPacket) : this.onSeal.bareXor = this.bareXor := rfl

/-- A sealed packet sums to the fastcode it had before the seal. -/
theorem onSeal_xor (this : FSNetPacket) : this.onSeal.xor = this.head.fastcode := by
  calc
    this.onSeal.xor
        = this.xor ^^^ this.bareXor := by
            rw [xor_eq_fastcode, onSeal_fastcode, onSeal_bareXor]
    _ = this.head.fastcode ^^^ this.bareXor ^^^ this.bareXor := by rw [xor_eq_fastcode]
    _ = this.head.fastcode := by rw [UInt8.xor_assoc, UInt8.xor_self, UInt8.xor_zero]

theorem onStampSeal_xor (this : FSNetPacket) (now : UInt64) :
    (this.onStampSeal now).xor = this.head.fastcode :=
  onSeal_xor _

theorem onSeal_sized {this : FSNetPacket} (h : this.Sized) : this.onSeal.Sized := h

theorem onSeal_fits {this : FSNetPacket} : this.onSeal.Fits ↔ this.Fits := Iff.rfl

/-! ## Receiving -/

/-- Write a packet to an array and decode the array on the packet `prior`, with the syncword of
the sender. -/
def transmit (this prior : FSNetPacket) (inBufferArr : Bytes) : Checked (FSNetPacket × Int) := do
  let bytes ← this.writeToArray inBufferArr
  prior.reUse bytes bytes.length this.head.syncword

/-- The receiver takes the packet for intact. -/
def Accepted (this prior : FSNetPacket) (inBufferArr : Bytes) : Prop :=
  ∃ (after : FSNetPacket) (bytesRead : Int),
    this.transmit prior inBufferArr = .ok (after, bytesRead) ∧ after.bFastIntegrity = true

theorem firstOccurrence_wire (this : FSNetPacket) :
    FirstOccurrence (toBytes this.head.syncword) ([] ++ this.wire) 0 := by
  refine ⟨?_, fun j hj => absurd hj (Nat.not_lt_zero j)⟩
  rcases this.head.toBytes_eq with ⟨tail, htail⟩
  rw [OccursAt, List.nil_append, wire, htail, List.append_assoc]
  exact slice_middle [] (toBytes this.head.syncword) (tail ++ (this.bodyPart ++ toBytes this.foot))

theorem accepted_iff {this : FSNetPacket} (hsized : this.Sized) (prior : FSNetPacket)
    (inBufferArr : Bytes) : this.Accepted prior inBufferArr ↔ this.xor = 0 ∧ this.Fits := by
  by_cases hfits : this.Fits
  · -- The array holds just the frame: no noise before it and nothing behind it.
    have hlen : ([] ++ (this.wire ++ [])).length < 2 ^ 31 := by
      have : 24 + this.bodyPart.length < 2 ^ 31 := hfits
      simpa [length_wire] using this
    rcases reUse_wire this [] [] prior hsized hlen this.firstOccurrence_wire with
      ⟨after, hread, -, -, -, hflag⟩
    rw [List.append_nil, List.nil_append] at hread
    have htransmit : this.transmit prior inBufferArr =
        .ok (after, ((([] : Bytes).length + this.wire.length : Nat) : Int)) := by
      rw [transmit, writeToArray_eq hfits, Checked.ok_bind, hread]
    constructor
    · rintro ⟨after', n, h, hacc⟩
      rw [htransmit] at h
      cases h
      rw [hflag, beq_iff_eq] at hacc
      exact ⟨hacc, hfits⟩
    · rintro ⟨hzero, -⟩
      exact ⟨after, _, htransmit, by rw [hflag, hzero]; rfl⟩
  · refine iff_of_false ?_ (fun h => hfits h.2)
    rintro ⟨after, n, h, -⟩
    rw [transmit, writeToArray_overflow hfits] at h
    cases h

/-- A seal yields an accepted frame exactly when the fastcode was `0` before it, and sealing once
more keeps the fastcode exactly when the other bytes sum to `0`. -/
theorem seal_accepted_iff (this prior : FSNetPacket) (inBufferArr : Bytes) (now : UInt64)
    (hsized : this.Sized) :
    (this.onSeal.Accepted prior inBufferArr ↔ this.head.fastcode = 0 ∧ this.Fits) ∧
    ((this.onStampSeal now).Accepted prior inBufferArr ↔ this.head.fastcode = 0 ∧ this.Fits) ∧
    (this.onSeal.onSeal.head.fastcode = this.onSeal.head.fastcode ↔ this.bareXor = 0) := by
  refine ⟨?_, ?_, ?_⟩
  · rw [accepted_iff (onSeal_sized hsized), onSeal_xor, onSeal_fits]
  · have hstamped : (this.onStampSeal now).Sized := hsized
    rw [accepted_iff hstamped, onStampSeal_xor]
    exact Iff.rfl
  · rw [onSeal_fastcode, onSeal_fastcode, onSeal_xor, xor_eq_fastcode]
    constructor
    · intro h
      -- Sealing twice gives back the first fastcode, sealing once the sum.
      have hzero : this.head.fastcode ^^^ 0 = this.head.fastcode ^^^ this.bareXor := by
        rw [UInt8.xor_zero]
        exact h
      exact ((UInt8.xor_right_inj _).1 hzero).symm
    · intro h
      rw [h, UInt8.xor_zero]

/-- A packet of class 7 with two body bytes. -/
def twoBytes : FSNetPacket where
  head := { uid := 7, size := 2 }
  body := FSNetBufferBody.ofArray [1, 2] (by decide)
  foot := { timestamp := 5 }

/-- A packet object that has been in use. -/
def usedBefore : FSNetPacket where
  head := { uid := 3, size := 1, fastcode := 9 }
  body := FSNetBufferBody.ofArray [8] (by decide)
  sid := 4
  bFastIntegrity := true

/-- Sealed once it is accepted, on whatever object; sealed once more it has another fastcode. -/
theorem twoBytes_seal_accepted :
    twoBytes.onSeal.Accepted usedBefore [255] ∧
      (twoBytes.onStampSeal 6).Accepted usedBefore [255] ∧
      twoBytes.onSeal.onSeal.head.fastcode ≠ twoBytes.onSeal.head.fastcode := by
  have h := seal_accepted_iff twoBytes usedBefore [255] 6 (by decide)
  refine ⟨h.1.2 ⟨rfl, by decide⟩, h.2.1.2 ⟨rfl, by decide⟩, ?_⟩
  intro hsame
  exact absurd (h.2.2.1 hsame) (by decide)

/-- A packet that has been sealed before: class 7, no body bytes, timestamp 1. -/
def sealedBefore : FSNetPacket :=
  { head := { uid := 7 }, foot := { timestamp := 1 } : FSNetPacket }.onSeal

/-- Sealing it again makes the receiver reject it, and changes the fastcode. -/
theorem sealedBefore_rejected :
    sealedBefore.Sized ∧ ¬ sealedBefore.onSeal.Accepted new [] ∧
      sealedBefore.onSeal.onSeal.head.fastcode ≠ sealedBefore.onSeal.head.fastcode := by
  refine ⟨by decide, ?_, by decide⟩
  rintro ⟨after, n, h, hacc⟩
  have hrun : (sealedBefore.onSeal.transmit new []).map (fun r => r.1.bFastIntegrity) =
      .ok false := by decide
  rw [h] at hrun
  simp [Except.map, hacc] at hrun

/-! ## The sender's check -/

/-- `CheckIntegrity` compares the sum, fastcode included, with the fastcode. -/
theorem checkIntegrity_iff (this : FSNetPacket) :
    this.checkIntegrity.1 = true ↔ this.bareXor = 0 := by
  rw [checkIntegrity, beq_iff_eq, xor_eq_fastcode]
  constructor
  · intro h
    have hzero : this.head.fastcode ^^^ this.bareXor = this.head.fastcode ^^^ 0 := by
      rw [UInt8.xor_zero]
      exact h
    exact (UInt8.xor_right_inj _).1 hzero
  · intro h
    rw [h, UInt8.xor_zero]

/-! ## Heartbeats -/

theorem reUseAsHeartbeat_sized (this : FSNetPacket) (w : Int32) (now : UInt64) :
    (this.reUseAsHeartbeat w now).Sized := rfl

/-- A heartbeat is its own seal from fastcode `0`. -/
theorem reUseAsHeartbeat_xor (this : FSNetPacket) (w : Int32) (now : UInt64) :
    (this.reUseAsHeartbeat w now).xor = 0 :=
  onSeal_xor { this with
    head := { this.head.reset with syncword := w }
    body := FSNetBufferBody.reset
    foot := FSNetBufferFoot.setNow now }

theorem createHeartbeat_xor (w : Int32) (now : UInt64) : (createHeartbeat w now).xor = 0 :=
  onSeal_xor { new with
    head := { new.head with syncword := w }
    foot := FSNetBufferFoot.setNow now }

/-- Apart from the fastcode, a heartbeat carries its syncword and its timestamp. -/
theorem reUseAsHeartbeat_bareXor (this : FSNetPacket) (w : Int32) (now : UInt64) :
    (this.reUseAsHeartbeat w now).bareXor = xorSum (toBytes w) ^^^ xorSum (toBytes now) := by
  -- `Reset` has zeroed all members of the head behind the syncword.
  have hzeros : xorSum ([0] ++ ([0] ++ (toBytes (0 : UInt16) ++ (toBytes (0 : Int32) ++
      toBytes (0 : UInt32))))) = 0 := by decide
  calc
    (this.reUseAsHeartbeat w now).bareXor
        = xorSum (toBytes w ++ ([0] ++ ([0] ++ (toBytes (0 : UInt16) ++ (toBytes (0 : Int32) ++
            toBytes (0 : UInt32)))))) ^^^ xorSum (toBytes now) := rfl
    _ = xorSum (toBytes w) ^^^ xorSum (toBytes now) := by
          rw [xorSum_append, hzeros, UInt8.xor_zero]

end FSNetPacket

end Septem
