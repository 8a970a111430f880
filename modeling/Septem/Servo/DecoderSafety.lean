import Septem.Servo.PacketGrammar

/-!
# DecoderSafety — decoding hostile bytes

Whatever a buffer holds, whatever packet it is decoded on: the decoders stay inside the buffer,
overflow no index, and report a `BytesRead` inside it.  The two that search for the syncword also
consume something of every buffer that is not empty, so the loop of a receiver (`drain`), which
advances by `BytesRead` and decodes the rest, ends with the whole buffer consumed.
-/

namespace Septem

open Cxx

namespace FSNetPacket

/-- `0 ≤ BytesRead ≤ BufferSize`. -/
def InBuffer (bufferSize bytesRead : Int) : Prop :=
  0 ≤ bytesRead ∧ bytesRead ≤ bufferSize

/-- `BytesRead` lies in the buffer, and it is not zero unless the buffer is empty. -/
def Advances (bufferSize bytesRead : Int) : Prop :=
  InBuffer bufferSize bytesRead ∧ (0 < bufferSize → 0 < bytesRead)

/-! ## Single decoders -/

section Decoders

variable {data : Bytes}

/-- Behind the head nothing can go wrong: the frame ends in the buffer, or the buffer is given
up. -/
theorem readBodyAndFoot_inBuffer (this : FSNetPacket) (hsize : data.length < 2 ^ 31) {index : Nat}
    (hle : index ≤ data.length) :
    ∃ (after : FSNetPacket) (bytesRead : Int),
      this.readBodyAndFoot data data.length index = .ok (after, bytesRead) ∧
      InBuffer data.length bytesRead := by
  by_cases hcomplete : Complete this.head data index
  · rcases readBodyAndFoot_complete this hsize hcomplete with ⟨after, hread, -⟩
    obtain ⟨hnonneg, hfit⟩ := hcomplete
    refine ⟨after, _, hread, ?_, ?_⟩
    · exact Int.natCast_nonneg _
    · omega
  · rcases readBodyAndFoot_incomplete this hsize hle hcomplete with ⟨after, hread, -, -⟩
    exact ⟨after, _, hread, Int.natCast_nonneg _, Int.le_refl _⟩

theorem decode_advances (this : FSNetPacket) (w : Int32) (hsize : data.length < 2 ^ 31) :
    ∃ (after : FSNetPacket) (bytesRead : Int),
      this.decode data data.length w = .ok (after, bytesRead) ∧
      Advances data.length bytesRead := by
  by_cases hex : ∃ i, FrameAt w data i
  · rcases hex with ⟨i, hi⟩
    rcases decode_frame this hsize hi with ⟨after, hdec, -⟩
    -- The size announced by the head has been compared with the bytes that are there.
    obtain ⟨hnonneg, hfit⟩ := hi.complete
    refine ⟨after, _, hdec, ⟨?_, ?_⟩, ?_⟩
    · exact Int.natCast_nonneg _
    · omega
    · intro _
      omega
  · have hnone : ∀ i, ¬ FrameAt w data i := fun i hi => hex ⟨i, hi⟩
    rcases decode_noFrame this hsize hnone with ⟨after, hdec, -⟩
    exact ⟨after, _, hdec, ⟨Int.natCast_nonneg _, Int.le_refl _⟩, fun hpos => hpos⟩

end Decoders

/-! ## The loop of a receiver -/

/-- A call that decodes the front of a buffer: a new packet, or an old one used again. -/
inductive Decoder
  | ofBuffer (inSyncword : Int32)
  | reUse (prior : FSNetPacket) (inSyncword : Int32)

def Decoder.call (data : Bytes) : Decoder → Checked (FSNetPacket × Int)
  | .ofBuffer w => FSNetPacket.ofBuffer data data.length w
  | .reUse prior w => prior.reUse data data.length w

/-- Decode, advance by `BytesRead`, and decode the rest.  The receiver chooses every call by what
it got before, so it may use the same packets again; the fuel counts the rounds. -/
def drain (choose : List (FSNetPacket × Int) → Decoder) :
    Nat → List (FSNetPacket × Int) → Bytes → Checked (List (FSNetPacket × Int) × Bytes)
  | 0, got, data => pure (got, data)
  | fuel + 1, got, data =>
      if data.isEmpty then
        pure (got, data)
      else do
        let (packet, bytesRead) ← (choose got).call data
        let rest ← offset data bytesRead
        drain choose fuel (got ++ [(packet, bytesRead)]) rest

theorem Decoder.call_advances (decoder : Decoder) {data : Bytes} (hsize : data.length < 2 ^ 31) :
    ∃ (after : FSNetPacket) (bytesRead : Int),
      decoder.call data = .ok (after, bytesRead) ∧ Advances data.length bytesRead := by
  cases decoder with
  | ofBuffer w => exact decode_advances _ w hsize
  | reUse prior w => exact decode_advances _ w hsize

/-- A round leaves a shorter buffer, so there are at most as many rounds as bytes. -/
theorem drain_ends (choose : List (FSNetPacket × Int) → Decoder) {fuel : Nat} {data : Bytes}
    (hsize : data.length < 2 ^ 31) (hfuel : data.length ≤ fuel) (got : List (FSNetPacket × Int)) :
    ∃ packets, drain choose fuel got data = .ok (packets, []) := by
  induction fuel generalizing data got with
  | zero =>
      have hnil : data = [] := List.eq_nil_of_length_eq_zero (Nat.le_zero.1 hfuel)
      exact ⟨got, by rw [hnil]; rfl⟩
  | succ fuel ih =>
      cases hempty : data.isEmpty with
      | true =>
          obtain rfl := List.isEmpty_iff.1 hempty
          exact ⟨got, rfl⟩
      | false =>
          have hpos : 0 < data.length := by
            cases data with
            | nil => cases hempty
            | cons b rest => exact Nat.succ_pos _
          rcases (choose got).call_advances hsize with ⟨packet, bytesRead, hcall, hadv⟩
          obtain ⟨⟨hnonneg, hle⟩, hprogress⟩ := hadv
          obtain ⟨n, rfl⟩ := Int.eq_ofNat_of_zero_le hnonneg
          -- Something was consumed, so the induction hypothesis has fuel for the rest.
          have hn : 0 < n := by
            have := hprogress (by omega)
            omega
          have hoff : offset data (n : Int) = .ok (data.drop n) := offset_ok (by omega)
          have hrest : (data.drop n).length < 2 ^ 31 := by
            rw [List.length_drop]
            omega
          have hfuel' : (data.drop n).length ≤ fuel := by
            rw [List.length_drop]
            omega
          rcases ih hrest hfuel' (got ++ [(packet, (n : Int))]) with ⟨packets, hdrain⟩
          refine ⟨packets, ?_⟩
          rw [drain, if_neg (by simp [hempty]), hcall, Checked.ok_bind]
          simp only [hoff, Checked.ok_bind, hdrain]

/-- On every buffer, syncword, head and prior packet the three decoders return with `BytesRead` in
the buffer, the two that search advance, and every loop over them consumes the whole buffer. -/
theorem decoders_safe (buf : RecvBuffer) :
    (∀ w, ∃ (after : FSNetPacket) (bytesRead : Int),
      ofBuffer buf.bytes buf.bufferSize w = .ok (after, bytesRead) ∧
      Advances buf.bufferSize bytesRead) ∧
    (∀ (this : FSNetPacket) w, ∃ (after : FSNetPacket) (bytesRead : Int),
      this.reUse buf.bytes buf.bufferSize w = .ok (after, bytesRead) ∧
      Advances buf.bufferSize bytesRead) ∧
    (∀ (this : FSNetPacket) inHead, ∃ (after : FSNetPacket) (bytesRead : Int),
      this.reUseWithHead inHead buf.bytes buf.bufferSize = .ok (after, bytesRead) ∧
      InBuffer buf.bufferSize bytesRead) ∧
    ∀ choose fuel, buf.bytes.length ≤ fuel →
      ∃ packets, drain choose fuel [] buf.bytes = .ok (packets, []) := by
  refine ⟨?_, ?_, ?_, ?_⟩
  · intro w
    exact decode_advances _ w buf.size_lt
  · intro this w
    exact decode_advances _ w buf.size_lt
  · intro this inHead
    exact readBodyAndFoot_inBuffer _ buf.size_lt (Nat.zero_le _)
  · intro choose fuel hfuel
    exact drain_ends choose buf.size_lt hfuel []

end FSNetPacket

end Septem
