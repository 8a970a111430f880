import Septem.Servo.PacketSeal
import Mathlib.Data.List.Forall2

/-!
# PacketStream — a stream of frames with noise between them

A sender concatenates encoded packets, arbitrary noise in front of each; a receiver decodes the
buffer front to back, on a fresh packet each time, and advances by `BytesRead`.  One round of the
receive loop takes exactly the noise and the frame behind it (`reUse_wire`), so by induction over
the stream the loop delivers exactly the packets sent.
-/

namespace Septem

open Cxx

namespace FSNetPacket

/-! ## The two ends -/

/-- The packets a sender of syncword `w` has to offer. -/
inductive Sendable (w : Int32) : FSNetPacket → Prop where
  | sealed (p : FSNetPacket) :
      p.head.syncword = w → p.head.fastcode = 0 → p.Sized → Sendable w p.onSeal
  | reUsedAsHeartbeat (p : FSNetPacket) (now : UInt64) : Sendable w (p.reUseAsHeartbeat w now)
  | createdHeartbeat (now : UInt64) : Sendable w (createHeartbeat w now)

/-- `g₁ ++ enc(p₁) ++ … ++ gₖ ++ enc(pₖ)` for noise `gᵢ` and packets `pᵢ`. -/
def encodeStream : List (Bytes × FSNetPacket) → Checked Bytes
  | [] => pure []
  | (noise, p) :: items => do
      let frame ← p.writeToArray []
      let stream ← encodeStream items
      return noise ++ (frame ++ stream)

/-- The receive loop, for at most `fuel` rounds: the packets decoded, each with its `BytesRead`,
and the bytes not consumed. -/
def decodeStream (w : Int32) : Nat → Bytes → Checked (List (FSNetPacket × Int) × Bytes)
  | 0, data => pure ([], data)
  | fuel + 1, data =>
      if data.isEmpty then
        pure ([], data)
      else do
        let (packet, bytesRead) ← new.reUse data data.length w
        let rest ← offset data bytesRead
        let (packets, unread) ← decodeStream w fuel rest
        return ((packet, bytesRead) :: packets, unread)

/-- What the receiver gets for one item of the stream. -/
structure Delivered (item : Bytes × FSNetPacket) (got : FSNetPacket × Int) : Prop where
  integrity : got.1.bFastIntegrity = true
  head : got.1.head = item.2.head
  foot : got.1.foot = item.2.foot
  body : item.2.head.uid ≠ 0 → got.1.body.bytes = item.2.body.bytes
  bytesRead : got.2 = item.1.length + 24 +
    (if item.2.head.uid = 0 then 0 else item.2.body.length.toInt)

/-! ## The round trip -/

namespace Sendable

variable {w : Int32} {p : FSNetPacket}

theorem syncword (h : Sendable w p) : p.head.syncword = w := by
  cases h with
  | sealed p hw _ _ => exact hw
  | reUsedAsHeartbeat p now => rfl
  | createdHeartbeat now => rfl

theorem sized (h : Sendable w p) : p.Sized := by
  cases h with
  | sealed p _ _ hsized => exact onSeal_sized hsized
  | reUsedAsHeartbeat p now => exact reUseAsHeartbeat_sized p w now
  | createdHeartbeat now => rfl

theorem xor_eq_zero (h : Sendable w p) : p.xor = 0 := by
  cases h with
  | sealed p _ hfresh _ => rw [onSeal_xor, hfresh]
  | reUsedAsHeartbeat p now => exact reUseAsHeartbeat_xor p w now
  | createdHeartbeat now => exact createHeartbeat_xor w now

end Sendable

/-- One round of the receive loop on noise, a frame, and whatever follows. -/
theorem reUse_item {w : Int32} {p : FSNetPacket} (hp : Sendable w p) (noise stream : Bytes)
    (hsize : (noise ++ (p.wire ++ stream)).length < 2 ^ 31)
    (hfirst : FirstOccurrence (toBytes w) (noise ++ p.wire) noise.length) :
    ∃ got : FSNetPacket,
      new.reUse (noise ++ (p.wire ++ stream)) (noise ++ (p.wire ++ stream)).length w =
        .ok (got, ((noise.length + p.wire.length : Nat) : Int)) ∧
      Delivered (noise, p) (got, ((noise.length + p.wire.length : Nat) : Int)) := by
  have hw : p.head.syncword = w := hp.syncword
  rw [← hw] at hfirst ⊢
  rcases reUse_wire p noise stream new hp.sized hsize hfirst with
    ⟨got, hread, hhead, hfoot, hbody, hflag⟩
  refine ⟨got, hread, ?_, hhead, hfoot, hbody, ?_⟩
  · rw [hflag, hp.xor_eq_zero]
    rfl
  · by_cases huid : p.head.uid = 0
    · simp only [huid, if_true, length_wire, bodyPart_heartbeat huid, List.length_nil]
      omega
    · simp only [huid, if_false, length_wire, bodyPart_body huid, FSNetBufferBody.length_toInt]
      omega

/-- Decoding a stream of sealed packets and heartbeats, with quiet noise between them, delivers
exactly the packets sent, in order, and consumes the buffer exactly. -/
theorem decodeStream_encodeStream (w : Int32) (items : List (Bytes × FSNetPacket)) (stream : Bytes)
    (hsend : ∀ item ∈ items, Sendable w item.2)
    (hquiet : ∀ item ∈ items, ∀ frame, item.2.writeToArray [] = .ok frame →
      FirstOccurrence (toBytes w) (item.1 ++ frame) item.1.length)
    (hstream : encodeStream items = .ok stream) (hsize : stream.length < 2 ^ 31)
    (fuel : Nat) (hfuel : items.length ≤ fuel) :
    ∃ packets : List (FSNetPacket × Int),
      decodeStream w fuel stream = .ok (packets, []) ∧ List.Forall₂ Delivered items packets := by
  induction items generalizing stream fuel with
  | nil =>
      cases hstream
      refine ⟨[], ?_, List.Forall₂.nil⟩
      cases fuel with
      | zero => rfl
      | succ fuel => rfl
  | cons item items ih =>
      obtain ⟨noise, p⟩ := item
      rcases Checked.bind_eq_ok.1 hstream with ⟨frame, hframe, hrest⟩
      rcases Checked.bind_eq_ok.1 hrest with ⟨tail, htail, hcat⟩
      cases hcat
      -- The first round meets the first item.
      have hfirst := hquiet (noise, p) List.mem_cons_self frame hframe
      obtain rfl := (writeToArray_inv hframe).2
      rcases reUse_item (hsend (noise, p) List.mem_cons_self) noise tail hsize hfirst with
        ⟨got, hread, hgot⟩
      -- The rest of the buffer is the encoding of the remaining items.
      have hoff : offset (noise ++ (p.wire ++ tail))
          ((noise.length + p.wire.length : Nat) : Int) = .ok tail := by
        rw [offset_ok (by simp only [List.length_append]; omega), ← List.append_assoc,
          ← List.length_append, List.drop_left]
      have htailSize : tail.length < 2 ^ 31 := by
        simp only [List.length_append] at hsize
        omega
      cases fuel with
      | zero => exact absurd hfuel (Nat.not_succ_le_zero _)
      | succ fuel =>
          rcases ih tail (fun item hitem => hsend item (List.mem_cons_of_mem _ hitem))
            (fun item hitem => hquiet item (List.mem_cons_of_mem _ hitem)) htail htailSize fuel
            (Nat.le_of_succ_le_succ hfuel) with ⟨packets, hdecode, hall⟩
          have hne : (noise ++ (p.wire ++ tail)).isEmpty = false := by
            have hpos : 0 < (noise ++ (p.wire ++ tail)).length := by
              simp only [List.length_append, length_wire]
              omega
            simpa [List.isEmpty_iff] using List.ne_nil_of_length_pos hpos
          refine ⟨(got, _) :: packets, ?_, List.Forall₂.cons hgot hall⟩
          simp only [decodeStream, hne, hread, Checked.ok_bind, hoff, hdecode,
            Checked.pure_eq_ok]
          rfl

/-- A packet of one body byte behind two noise bytes, and a heartbeat right behind it. -/
def sampleStream : List (Bytes × FSNetPacket) :=
  [([9, 9], { head := { uid := 7, size := 1 }, body := FSNetBufferBody.ofArray [5] (by decide),
              foot := { timestamp := 1 } : FSNetPacket }.onSeal),
   ([], createHeartbeat defaultSyncwordInt32 2)]

theorem decodeStream_sampleStream :
    ∃ (stream : Bytes) (packets : List (FSNetPacket × Int)),
      encodeStream sampleStream = .ok stream ∧
      decodeStream defaultSyncwordInt32 2 stream = .ok (packets, []) ∧
      List.Forall₂ Delivered sampleStream packets := by
  have hsend : ∀ item ∈ sampleStream, Sendable defaultSyncwordInt32 item.2 := by
    simp only [sampleStream, List.forall_mem_cons]
    exact ⟨.sealed _ rfl rfl rfl, .createdHeartbeat 2, nofun⟩
  have hquiet : ∀ item ∈ sampleStream, ∀ frame, item.2.writeToArray [] = .ok frame →
      FirstOccurrence (toBytes defaultSyncwordInt32) (item.1 ++ frame) item.1.length := by
    intro item hitem frame hframe
    obtain rfl := (writeToArray_inv hframe).2
    revert item
    simp only [sampleStream, List.forall_mem_cons]
    exact ⟨fun _ => by decide, fun _ => by decide, nofun⟩
  rcases decodeStream_encodeStream defaultSyncwordInt32 sampleStream _ hsend hquiet rfl
    (by decide) 2 (by decide) with ⟨packets, hdecode, hall⟩
  exact ⟨_, packets, rfl, hdecode, hall⟩

end FSNetPacket

end Septem
