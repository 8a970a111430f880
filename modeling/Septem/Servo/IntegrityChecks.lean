import Septem.Servo.PacketSeal
import Septem.Servo.ServoProtocol

/-!
# IntegrityChecks — `CheckIntegrity` against the receiver

The sender's check asks that the bytes other than the fastcode sum to `0`, the receiver's that
they sum to the fastcode.  Both fail for the same packets only in the cases `agree_iff` lists;
the packets the sender itself sets up, sealed ones and heartbeats, are always accepted by the
receiver, and pass `CheckIntegrity` only when those bytes happen to sum to `0`.
-/

namespace Septem

open Cxx

namespace FSNetPacket

/-- The two verdicts agree: for a fastcode of `0` always, for another one when neither check
passes. -/
theorem agree_iff {this : FSNetPacket} (hsized : this.Sized) (prior : FSNetPacket)
    (inBufferArr : Bytes) :
    (this.checkIntegrity.1 = true ↔ this.Accepted prior inBufferArr) ↔
      if this.Fits then
        this.head.fastcode = 0 ∨ (this.bareXor ≠ 0 ∧ this.bareXor ≠ this.head.fastcode)
      else
        this.bareXor ≠ 0 := by
  have hsum : this.xor = 0 ↔ this.bareXor = this.head.fastcode := by
    rw [xor_eq_fastcode, UInt8.xor_eq_zero_iff]
    exact eq_comm
  rw [checkIntegrity_iff, accepted_iff hsized, hsum]
  -- A packet too long to be written is never accepted.
  by_cases hfits : this.Fits
  · simp only [hfits, and_true, if_true]
    constructor
    · intro hagree
      by_cases hzero : this.bareXor = 0
      · exact Or.inl ((hagree.1 hzero).symm.trans hzero)
      · exact Or.inr ⟨hzero, fun h => hzero (hagree.2 h)⟩
    · rintro (hfast | ⟨hzero, hfast⟩)
      · rw [hfast]
      · exact iff_of_false hzero hfast
  · simp [hfits]

/-- A heartbeat from `AllocHeartbeat` is valid exactly when its timestamp sums to the same as its
syncword. -/
theorem heartbeat_valid_iff (recycled : FSNetPacket) (w : Int32) (now : UInt64) :
    ((recycled.reUseAsHeartbeat w now).checkIntegrity.2.checkIntegrity.1 = true ∧
      (recycled.reUseAsHeartbeat w now).checkIntegrity.2.isValid = true) ↔
    xorSum (toBytes w) = xorSum (toBytes now) := by
  have hcheck : (recycled.reUseAsHeartbeat w now).checkIntegrity.1 = true ↔
      xorSum (toBytes w) = xorSum (toBytes now) := by
    rw [checkIntegrity_iff, reUseAsHeartbeat_bareXor, UInt8.xor_eq_zero_iff]
  exact (and_self_iff (a := (recycled.reUseAsHeartbeat w now).checkIntegrity.1 = true)).trans hcheck

/-- When the two checks agree on a packet, when a packet sealed from fastcode `0` passes the
sender's check, and when a heartbeat of `AllocHeartbeat` does. -/
theorem integrity_checks_iff (this prior : FSNetPacket) (inBufferArr : Bytes)
    (hsized : this.Sized) (servo servo' : FServoProtocol) (heap heap' : Heap FSNetPacket)
    (now : UInt64) (ret : SharedPtr) (heartbeat : FSNetPacket)
    (halloc : servo.allocHeartbeat heap now = .ok (ret, servo', heap'))
    (hderef : deref heap' ret = .ok heartbeat) :
    ((this.checkIntegrity.1 = true ↔ this.Accepted prior inBufferArr) ↔
      if this.Fits then
        this.head.fastcode = 0 ∨ (this.bareXor ≠ 0 ∧ this.bareXor ≠ this.head.fastcode)
      else
        this.bareXor ≠ 0) ∧
    (this.head.fastcode = 0 →
      ((this.onSeal.checkIntegrity.1 = true ∧ this.onSeal.isValid = true) ↔
        this.bareXor = 0)) ∧
    ((heartbeat.checkIntegrity.1 = true ∧ heartbeat.isValid = true) ↔
      xorSum (toBytes servo.syncword) = xorSum (toBytes now)) := by
  refine ⟨agree_iff hsized prior inBufferArr, ?_, ?_⟩
  · intro _
    rw [checkIntegrity_iff, onSeal_bareXor]
    exact and_iff_left rfl
  · rcases FServoProtocol.allocHeartbeat_packet halloc hderef with ⟨recycled, rfl⟩
    exact heartbeat_valid_iff recycled servo.syncword now

/-- A packet with body bytes, and a heartbeat of a protocol that has a used packet to recycle,
allocated at a time that sums to the same as the syncword. -/
theorem integrity_checks_twoBytes :
    (twoBytes.checkIntegrity.1 = true ↔ twoBytes.Accepted usedBefore [255]) ∧
      ¬ (twoBytes.onSeal.checkIntegrity.1 = true ∧ twoBytes.onSeal.isValid = true) ∧
      ∃ (ret : SharedPtr) (servo' : FServoProtocol) (heap' : Heap FSNetPacket)
        (heartbeat : FSNetPacket),
        ({ recyclePool := ⟨[0]⟩ } : FServoProtocol).allocHeartbeat [usedBefore] 2 =
          .ok (ret, servo', heap') ∧
        deref heap' ret = .ok heartbeat ∧
        heartbeat.checkIntegrity.1 = true ∧ heartbeat.isValid = true := by
  have halloc : ({ recyclePool := ⟨[0]⟩ } : FServoProtocol).allocHeartbeat [usedBefore] 2 =
      .ok (some 0, {},
        [(usedBefore.reUseAsHeartbeat defaultSyncwordInt32 2).checkIntegrity.2]) := rfl
  have h := integrity_checks_iff twoBytes usedBefore [255] (by decide) { recyclePool := ⟨[0]⟩ } {}
    [usedBefore] _ 2 (some 0) _ halloc rfl
  refine ⟨h.1.2 (by decide), ?_, _, _, _, _, halloc, rfl, h.2.2.2 (by decide)⟩
  intro hvalid
  exact absurd ((h.2.1 rfl).1 hvalid) (by decide)

/-- A new packet, sealed from fastcode `0`: the receiver accepts what is sent, `CheckIntegrity`
does not.  A heartbeat allocated at time `1` is not valid either. -/
theorem new_seal_checks_differ :
    new.onSeal.Sized ∧ new.head.fastcode = 0 ∧ new.onSeal.Accepted new [] ∧
      new.onSeal.checkIntegrity.1 = false ∧
      ∃ (servo' : FServoProtocol) (heap' : Heap FSNetPacket) (heartbeat : FSNetPacket),
        ({} : FServoProtocol).allocHeartbeat [] 1 = .ok (some 0, servo', heap') ∧
        deref heap' (some 0) = .ok heartbeat ∧ heartbeat.isValid = false := by
  have hsized : new.onSeal.Sized := rfl
  exact ⟨hsized, rfl, (accepted_iff hsized new []).2 (by decide), by decide, _, _, _, rfl, rfl,
    by decide⟩

end FSNetPacket

end Septem
