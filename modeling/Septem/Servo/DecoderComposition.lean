import Septem.Servo.PacketWire

/-!
# DecoderComposition — reading a frame at once or behind its head

`FSNetPacket` has two `ReUse` overloads: one looks for a head in a buffer and goes on behind it, the
other is given the head and the buffer behind it.  They repeat the reading of body and foot with
different indices.  `readBody_behind` and `readFoot_behind` say that a step at an index of a buffer
is the step at the start of what stands there; from these, `reUse_compose` says that the overloads
leave the same packet and count the same bytes on every exit.
-/

namespace Septem

open Cxx

variable {data : Bytes} {index : Nat}

theorem footAt_drop (data : Bytes) (index off : Nat) :
    footAt (data.drop index) off = footAt data (index + off) := by
  rw [footAt, slice_drop, footAt]

/-- A later step behind an index: it is refused on both sides, or reads the same on both sides and
moves the index alike. -/
inductive SameStep {β : Type} (index size : Nat) :
    Option (β × Int × UInt8) → Option (β × Int × UInt8) → Prop
  | refused : SameStep index size none none
  | read (b : β) (next : Nat) (fastcode : UInt8) (h : next ≤ size) :
      SameStep index size (some (b, (next : Int), fastcode))
        (some (b, ((index + next : Nat) : Int), fastcode))

theorem readFoot_behind (fastcode : UInt8) (hsize : data.length < 2 ^ 31) {off : Nat}
    (hle : index + off ≤ data.length) :
    ∃ behind whole,
      readFoot (data.drop index) (data.drop index).length off fastcode = .ok behind ∧
      readFoot data data.length (index + off : Nat) fastcode = .ok whole ∧
      SameStep index (data.drop index).length behind whole := by
  have hlen : (data.drop index).length = data.length - index := List.length_drop
  by_cases hroom : index + off + 8 ≤ data.length
  · have hroom' : off + 8 ≤ (data.drop index).length := by omega
    refine ⟨_, _, readFoot_ok fastcode (by omega) hroom', readFoot_ok fastcode hsize hroom, ?_⟩
    rw [footAt_drop, slice_drop, Nat.add_assoc]
    exact .read _ _ _ hroom'
  · refine ⟨none, none, readFoot_none fastcode (by omega) (by omega) (by omega),
      readFoot_none fastcode hsize hle hroom, .refused⟩

namespace FSNetPacket

theorem readBody_behind (this : FSNetPacket) (fastcode : UInt8) (hsize : data.length < 2 ^ 31)
    (hle : index ≤ data.length) :
    ∃ behind whole,
      this.readBody (data.drop index) (data.drop index).length 0 fastcode = .ok behind ∧
      this.readBody data data.length index fastcode = .ok whole ∧
      SameStep index (data.drop index).length behind whole := by
  have hlen : (data.drop index).length = data.length - index := List.length_drop
  by_cases huid : this.head.uid = 0
  · -- A heartbeat has no body: nothing is read on either side.
    refine ⟨_, _, ?_, ?_, .read this 0 fastcode (Nat.zero_le _)⟩
    · simp [readBody, huid]
    · simp [readBody, huid]
  by_cases hfit : 0 ≤ this.head.size.toInt ∧ this.head.size.toInt ≤ (data.drop index).length
  · -- The same bytes make the same body, and its size moves both indices.
    rcases FSNetBufferBody.memRead_ok hfit.1 hfit.2 with ⟨body, hread, -, hbodyLen⟩
    obtain ⟨next, hnext⟩ : ∃ next : Nat, body.memSize = next := by
      refine ⟨this.head.size.toInt.toNat, ?_⟩
      rw [FSNetBufferBody.memSize, hbodyLen]
      omega
    have hnextLe : next ≤ (data.drop index).length := by
      rw [FSNetBufferBody.memSize, hbodyLen] at hnext
      omega
    have hrest : int32 (((data.drop index).length : Int) - 0) =
        .ok ((data.drop index).length : Int) := int32_whole (by omega)
    have hbehind : int32 (0 + (next : Int)) = .ok (next : Int) := by
      rw [Int.zero_add, int32_ok (by omega) (by omega)]
    have hwhole : int32 ((index : Int) + next) = .ok ((index + next : Nat) : Int) :=
      int32_add (by omega)
    refine ⟨_, _, ?_, ?_, .read { this with body := body } next (fastcode ^^^ body.xor) hnextLe⟩
    · simp only [readBody, if_pos (Ne.symm huid), offset_zero, hrest, Checked.ok_bind, hread, hnext,
        hbehind, Checked.pure_eq_ok]
    · simp only [readBody, if_pos (Ne.symm huid), offset_ok hle, int32_rest hsize hle,
        Checked.ok_bind, hread, hnext, hwhole, Checked.pure_eq_ok]
  · -- Too few bytes are left, or the size is negative, whichever side is asked.
    refine ⟨none, none, ?_, ?_, .refused⟩
    · refine readBody_refused this fastcode (by omega) (Nat.zero_le _) ?_
      rw [FSNetBufferHead.bodyLength_body huid]
      omega
    · refine readBody_refused this fastcode hsize hle ?_
      rw [FSNetBufferHead.bodyLength_body huid]
      omega

/-- Body and foot at an index of a buffer are body and foot at the start of what stands there. -/
theorem readBodyAndFoot_behind (this : FSNetPacket) (hsize : data.length < 2 ^ 31)
    (hle : index ≤ data.length) :
    ∃ (after : FSNetPacket) (bytesRead : Nat),
      this.readBodyAndFoot (data.drop index) (data.drop index).length 0 =
        .ok (after, (bytesRead : Int)) ∧
      this.readBodyAndFoot data data.length index =
        .ok (after, ((index + bytesRead : Nat) : Int)) := by
  have hlen : (data.drop index).length = data.length - index := List.length_drop
  -- A failed step consumes everything, on both sides up to the same byte.
  have hall : ((index + (data.drop index).length : Nat) : Int) = data.length := by omega
  rcases readBody_behind this.heartbeatSid (0 ^^^ this.head.xor) hsize hle with
    ⟨behind, whole, hbehind, hwhole, hsame⟩
  cases hsame with
  | refused =>
      refine ⟨this.heartbeatSid, (data.drop index).length, ?_, ?_⟩
      · simp only [readBodyAndFoot, hbehind, Checked.ok_bind, Checked.pure_eq_ok]
      · simp only [readBodyAndFoot, hwhole, Checked.ok_bind, Checked.pure_eq_ok, hall]
  | read packet next fastcode hnext =>
      rcases readFoot_behind fastcode hsize (show index + next ≤ data.length by omega) with
        ⟨foot, foot', hfoot, hfoot', hsame⟩
      cases hsame with
      | refused =>
          refine ⟨packet, (data.drop index).length, ?_, ?_⟩
          · simp only [readBodyAndFoot, hbehind, hfoot, Checked.ok_bind, Checked.pure_eq_ok]
          · simp only [readBodyAndFoot, hwhole, hfoot', Checked.ok_bind, Checked.pure_eq_ok, hall]
      | read foot next' fastcode' _ =>
          refine ⟨{ packet with
            foot := foot
            bFastIntegrity := fastcode' == 0
            sid := packet.head.sessionID }, next', ?_, ?_⟩
          · simp only [readBodyAndFoot, hbehind, hfoot, Checked.ok_bind, Checked.pure_eq_ok]
          · simp only [readBodyAndFoot, hwhole, hfoot', Checked.ok_bind, Checked.pure_eq_ok]

/-- The two decoders compose: finding the head and reading on is the same as reading behind a head
that was found, on every exit. -/
theorem reUse_compose (this : FSNetPacket) (buf : RecvBuffer) {w : Int32} {i : Nat}
    (hw : SyncwordAt w buf.bytes i) (hfit : i + 16 ≤ buf.bytes.length) :
    ∃ (after : FSNetPacket) (b₁ b₂ : Int),
      this.reUse buf.bytes buf.bufferSize w = .ok (after, b₁) ∧
      this.reUseWithHead (headAt buf.bytes i) (buf.bytes.drop (i + 16)) (buf.bufferSize - i - 16) =
        .ok (after, b₂) ∧
      b₁ = i + 16 + b₂ := by
  have hrest : buf.bufferSize - i - 16 = (buf.bytes.drop (i + 16)).length := by
    rw [List.length_drop, RecvBuffer.bufferSize]
    omega
  have hhead := decode_head { this with sid := 0, bFastIntegrity := false } buf.size_lt hw hfit
  rcases readBodyAndFoot_behind
    { this with sid := 0, bFastIntegrity := false, head := headAt buf.bytes i } buf.size_lt hfit
    with ⟨after, bytesRead, hbehind, hwhole⟩
  refine ⟨after, _, bytesRead, hhead.trans hwhole, ?_, by omega⟩
  rw [hrest]
  exact hbehind

/-- A heartbeat behind a byte of noise, four bytes short of its foot. -/
theorem reUse_compose_truncated :
    let buf : RecvBuffer := ⟨(0 :: new.wire).take 21, by decide⟩
    ∃ (after : FSNetPacket) (b₁ b₂ : Int),
      new.reUse buf.bytes buf.bufferSize defaultSyncwordInt32 = .ok (after, b₁) ∧
      new.reUseWithHead (headAt buf.bytes 1) (buf.bytes.drop 17) 4 = .ok (after, b₂) ∧
      b₁ = 1 + 16 + b₂ := by
  intro buf
  have hw : SyncwordAt defaultSyncwordInt32 buf.bytes 1 := by decide
  exact reUse_compose new buf hw (by decide)

end FSNetPacket

end Septem
