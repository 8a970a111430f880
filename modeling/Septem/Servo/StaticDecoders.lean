import Septem.Servo.DecoderComposition
import Septem.Servo.WireCompatibility

/-!
# StaticDecoders — the three decoders of `TSNetPacket`

`TSNetPacket` has a buffer constructor and two `ReUse` overloads, each with its own copy of the
reading steps.  For a body type that keeps the contract `ReadBody`, and for heads with or without a
body:

* `readBodyAndFoot_read` and `readBodyAndFoot_failed` settle what follows a head;
* `reUse_agree_iff` says for which buffers the two overloads agree: only one of them compares the
  size in the head with the size of the body;
* `ofBuffer_iff` says when the constructor does what `ReUse` does on a new packet: it does not
  initialise two members.
-/

namespace Septem

open Cxx

namespace TSNetPacket

variable {T : Type} [StaticNetBody T] {k : Nat} {bytes : T → Bytes}
variable {data : Bytes} {index : Nat} {w : Int32}

/-! ## Heads with and without a body -/

/-- The number of body bytes a static decoder reads behind a head. -/
def bodySize (k : Nat) (h : FSNetBufferHead) : Nat :=
  if h.uid ≠ 0 then k else 0

theorem bodySize_heartbeat {h : FSNetBufferHead} (huid : h.uid = 0) : bodySize k h = 0 := by
  simp [bodySize, huid]

theorem bodySize_body {h : FSNetBufferHead} (huid : h.uid ≠ 0) : bodySize k h = k := by
  simp [bodySize, huid]

omit [StaticNetBody T] in
theorem heartbeatSid_heartbeat {this : TSNetPacket T} (huid : this.head.uid = 0) :
    this.heartbeatSid = { this with sid := this.head.sessionID } := by
  rw [heartbeatSid, if_pos huid.symm]

theorem readBody_heartbeat (this : TSNetPacket T) (huid : this.head.uid = 0)
    (bufferSize index : Int) (fastcode : UInt8) :
    this.readBody data bufferSize index fastcode = .ok (this, some (index, fastcode)) := by
  simp only [readBody, huid, ne_eq, not_true, if_false, Checked.pure_eq_ok]

/-- There is room for body and foot: both are read, whatever the head says about the size. -/
theorem readBodyAndFoot_read (hT : ReadBody T k bytes) (this : TSNetPacket T)
    (failed : Checked Int) (hsize : data.length < 2 ^ 31)
    (hfit : index + bodySize k this.head + 8 ≤ data.length) :
    ∃ after : TSNetPacket T,
      this.readBodyAndFoot data data.length index failed =
        .ok (after, ((index + bodySize k this.head + 8 : Nat) : Int)) ∧
      after.head = this.head ∧ after.sid = this.head.sessionID ∧
      after.bFastIntegrity = (this.head.xor ^^^
        xorSum (slice data index (bodySize k this.head + 8)) == 0) ∧
      (this.head.uid ≠ 0 → bytes after.body.obj = slice data index k) ∧
      after.foot = footAt data (index + bodySize k this.head) := by
  by_cases huid : this.head.uid = 0
  · -- A heartbeat: its foot follows at once.
    rw [bodySize_heartbeat huid] at hfit ⊢
    have hfoot := readFoot_ok (0 ^^^ this.head.xor) hsize (show index + 8 ≤ data.length from hfit)
    have hhead : ({ this with sid := this.head.sessionID } : TSNetPacket T).head.uid = 0 := huid
    simp only [readBodyAndFoot, heartbeatSid_heartbeat huid, readBody_heartbeat _ hhead, hfoot,
      Checked.ok_bind, Checked.pure_eq_ok]
    exact ⟨_, rfl, rfl, rfl, by simp, fun hbody => absurd huid hbody, rfl⟩
  · rw [bodySize_body huid] at hfit ⊢
    rcases readBodyAndFoot_complete hT this failed hsize huid hfit with ⟨after, hread, hframe⟩
    exact ⟨after, hread, hframe.head, hframe.sid, hframe.integrity, fun _ => hframe.body,
      hframe.foot⟩

/-- There is not: the decoder reports failure, and only a heartbeat has its session id already. -/
theorem readBodyAndFoot_failed (hT : ReadBody T k bytes) (this : TSNetPacket T)
    (hsize : data.length < 2 ^ 31) (hle : index ≤ data.length)
    (hfit : ¬ index + bodySize k this.head + 8 ≤ data.length) :
    ∃ after : TSNetPacket T,
      (∀ failed : Checked Int, this.readBodyAndFoot data data.length index failed =
        failed >>= fun bytesRead => pure (after, bytesRead)) ∧
      after.head = this.head ∧ after.bFastIntegrity = this.bFastIntegrity ∧
      after.sid = if this.head.uid = 0 then this.head.sessionID else this.sid := by
  by_cases huid : this.head.uid = 0
  · rw [bodySize_heartbeat huid] at hfit
    have hfoot := readFoot_none (0 ^^^ this.head.xor) hsize hle hfit
    have hhead : ({ this with sid := this.head.sessionID } : TSNetPacket T).head.uid = 0 := huid
    refine ⟨{ this with sid := this.head.sessionID }, fun failed => ?_, rfl, rfl,
      (if_pos huid).symm⟩
    simp only [readBodyAndFoot, heartbeatSid_heartbeat huid, readBody_heartbeat _ hhead, hfoot,
      Checked.ok_bind]
  · rw [bodySize_body huid] at hfit
    rcases readBodyAndFoot_incomplete hT this hsize huid hle hfit with ⟨obj, hread⟩
    exact ⟨_, hread, rfl, rfl, (if_neg huid).symm⟩

/-! ## The two overloads of `ReUse` -/

/-- The body at an index of a buffer is the body at the start of what stands there. -/
theorem readBody_behind (hT : ReadBody T k bytes) (this : TSNetPacket T) (fastcode : UInt8)
    (hsize : data.length < 2 ^ 31) (hle : index ≤ data.length) :
    ∃ packet : TSNetPacket T,
      (this.readBody (data.drop index) (data.drop index).length 0 fastcode = .ok (packet, none) ∧
        this.readBody data data.length index fastcode = .ok (packet, none)) ∨
      ∃ (next : Nat) (fastcode' : UInt8), next ≤ (data.drop index).length ∧
        this.readBody (data.drop index) (data.drop index).length 0 fastcode =
          .ok (packet, some ((next : Int), fastcode')) ∧
        this.readBody data data.length index fastcode =
          .ok (packet, some (((index + next : Nat) : Int), fastcode')) := by
  have hlen : (data.drop index).length = data.length - index := List.length_drop
  by_cases huid : this.head.uid = 0
  · exact ⟨this, Or.inr ⟨0, fastcode, Nat.zero_le _, readBody_heartbeat this huid _ _ _,
      readBody_heartbeat this huid _ _ _⟩⟩
  have hrest : int32 (((data.drop index).length : Int) - 0) =
      .ok ((data.drop index).length : Int) := int32_whole (by omega)
  by_cases hfit : (k : Int) ≤ (data.drop index).length
  · -- One call of `Deserialize` serves both sides: it sees the same bytes.
    rcases hT.deserialize this.body.obj (data.drop index) _ hfit (Int.le_refl _) with
      ⟨obj, hread, -⟩
    have hbehind : int32 (0 + (k : Int)) = .ok (k : Int) := by
      rw [Int.zero_add, int32_ok (by omega) (by omega)]
    have hwhole : int32 ((index : Int) + k) = .ok ((index + k : Nat) : Int) :=
      int32_add (by omega)
    refine ⟨{ this with body := { obj := obj } }, Or.inr
      ⟨k, fastcode ^^^ StaticNetBody.xor obj, Int.ofNat_le.1 hfit, ?_, ?_⟩⟩
    · simp only [readBody, if_pos (Ne.symm huid), offset_zero, hrest, Checked.ok_bind,
        TSNetBufferWrapper.deserialize, hread, Checked.pure_eq_ok, if_true,
        TSNetBufferWrapper.memSize, hT.memSize, hbehind, TSNetBufferWrapper.xor]
    · simp only [readBody, if_pos (Ne.symm huid), offset_ok hle, int32_rest hsize hle,
        Checked.ok_bind, TSNetBufferWrapper.deserialize, hread, Checked.pure_eq_ok, if_true,
        TSNetBufferWrapper.memSize, hT.memSize, hwhole, TSNetBufferWrapper.xor]
  · rcases hT.deserialize_refused this.body.obj (data.drop index) _ (Int.not_le.1 hfit)
      (Int.le_refl _) with ⟨obj, hread⟩
    refine ⟨{ this with body := { obj := obj } }, Or.inl ⟨?_, ?_⟩⟩
    · simp only [readBody, if_pos (Ne.symm huid), offset_zero, hrest, Checked.ok_bind,
        TSNetBufferWrapper.deserialize, hread, Checked.pure_eq_ok, Bool.false_eq_true, if_false]
    · simp only [readBody, if_pos (Ne.symm huid), offset_ok hle, int32_rest hsize hle,
        Checked.ok_bind, TSNetBufferWrapper.deserialize, hread, Checked.pure_eq_ok,
        Bool.false_eq_true, if_false]

theorem readBodyAndFoot_behind (hT : ReadBody T k bytes) (this : TSNetPacket T)
    (hsize : data.length < 2 ^ 31) (hle : index ≤ data.length) :
    ∃ (after : TSNetPacket T) (bytesRead : Nat),
      this.readBodyAndFoot (data.drop index) (data.drop index).length 0
          (pure ((data.drop index).length : Int)) = .ok (after, (bytesRead : Int)) ∧
      this.readBodyAndFoot data data.length index (pure (data.length : Int)) =
        .ok (after, ((index + bytesRead : Nat) : Int)) := by
  have hlen : (data.drop index).length = data.length - index := List.length_drop
  -- A failed step consumes everything, on both sides up to the same byte.
  have hall : ((index + (data.drop index).length : Nat) : Int) = data.length := by omega
  rcases readBody_behind hT this.heartbeatSid (0 ^^^ this.head.xor) hsize hle with
    ⟨packet, ⟨hbehind, hwhole⟩ | ⟨next, fastcode, hnext, hbehind, hwhole⟩⟩
  · refine ⟨packet, (data.drop index).length, ?_, ?_⟩
    · simp only [readBodyAndFoot, hbehind, Checked.ok_bind, Checked.pure_eq_ok]
    · simp only [readBodyAndFoot, hwhole, Checked.ok_bind, Checked.pure_eq_ok, hall]
  · rcases readFoot_behind fastcode hsize (show index + next ≤ data.length by omega) with
      ⟨foot, foot', hfoot, hfoot', hsame⟩
    cases hsame with
    | refused =>
        refine ⟨packet, (data.drop index).length, ?_, ?_⟩
        · simp only [readBodyAndFoot, hbehind, hfoot, Checked.ok_bind, Checked.pure_eq_ok]
        · simp only [readBodyAndFoot, hwhole, hfoot', Checked.ok_bind, Checked.pure_eq_ok, hall]
    | read foot next' fastcode' _ =>
        refine ⟨{ packet with
          foot := foot
          bFastIntegrity := fastcode' == 0
          sid := packet.head.sessionID }, next', ?_, ?_⟩
        · simp only [readBodyAndFoot, hbehind, hfoot, Checked.ok_bind, Checked.pure_eq_ok]
        · simp only [readBodyAndFoot, hwhole, hfoot', Checked.ok_bind, Checked.pure_eq_ok]

/-- What the two overloads leave and count, for a head at index `i`: the same verdict, the same
packet if it is valid, and the same bytes. -/
structure DecodersAgree (i : Nat) (whole behind : TSNetPacket T × Int) : Prop where
  verdict : whole.1.isValid = behind.1.isValid
  head : whole.1.isValid = true → whole.1.head = behind.1.head
  body : whole.1.isValid = true → whole.1.body = behind.1.body
  foot : whole.1.isValid = true → whole.1.foot = behind.1.foot
  sid : whole.1.isValid = true → whole.1.sid = behind.1.sid
  bytesRead : whole.2 = i + 16 + behind.2

theorem isValid_of_size_ne (hT : ReadBody T k bytes) {this : TSNetPacket T}
    (h : this.head.size.toInt ≠ k) : this.isValid = false := by
  rw [← Bool.not_eq_true]
  intro hvalid
  exact h ((isValid_iff hT this).1 hvalid).2

/-- Where both packets are invalid, only the bytes are left to compare. -/
theorem decodersAgree_invalid_iff {i : Nat} {whole behind : TSNetPacket T × Int}
    (hwhole : whole.1.isValid = false) (hbehind : behind.1.isValid = false) :
    DecodersAgree i whole behind ↔ whole.2 = i + 16 + behind.2 := by
  have hnever (P : Prop) (hvalid : whole.1.isValid = true) : P := by
    rw [hwhole] at hvalid
    cases hvalid
  constructor
  · exact DecodersAgree.bytesRead
  · intro hbytes
    exact ⟨hwhole.trans hbehind.symm, hnever _, hnever _, hnever _, hnever _, hbytes⟩

/-- A head of a wrong size ends the second overload before the body is read; the first one goes on
and consumes the frame as if the size were right. -/
theorem reUse_agree_of_wrong_size (hT : ReadBody T k bytes) (this : TSNetPacket T)
    (buf : RecvBuffer) {i : Nat} (hw : SyncwordAt w buf.bytes i)
    (hfit : i + 16 ≤ buf.bytes.length) (huid : (headAt buf.bytes i).uid ≠ 0)
    (hk : (headAt buf.bytes i).size.toInt ≠ k) :
    ∃ whole behind : TSNetPacket T × Int,
      this.reUse buf.bytes buf.bufferSize w = .ok whole ∧
      this.reUseWithHead (headAt buf.bytes i) (buf.bytes.drop (i + 16)) (buf.bufferSize - i - 16) =
        .ok behind ∧
      (DecodersAgree i whole behind ↔ buf.bytes.length ≤ i + 24 + k) := by
  have hsize := buf.size_lt
  have hmem : this.body.memSize ≠ (headAt buf.bytes i).size := by
    intro heq
    refine hk ?_
    rw [← heq]
    exact hT.memSize this.body.obj
  have hbehind : this.reUseWithHead (headAt buf.bytes i) (buf.bytes.drop (i + 16))
      (buf.bufferSize - i - 16) =
      .ok ({ this with sid := 0, bFastIntegrity := false, head := headAt buf.bytes i },
        buf.bufferSize - i - 16) := if_pos ⟨Ne.symm huid, hmem⟩
  have hhead := decode_head { this with sid := 0, bFastIntegrity := false }
    (pure buf.bufferSize) hsize hw hfit
  -- Whatever the first overload reads, it reads it behind a head that makes it invalid.
  have hagree (whole : TSNetPacket T × Int) (hwhole : whole.1.head = headAt buf.bytes i) :
      DecodersAgree i whole
        ({ this with sid := 0, bFastIntegrity := false, head := headAt buf.bytes i },
          buf.bufferSize - i - 16) ↔ whole.2 = buf.bufferSize := by
    have hinvalid : whole.1.isValid = false := isValid_of_size_ne hT (by rwa [hwhole])
    have hinvalid' : ({ this with
        sid := 0, bFastIntegrity := false, head := headAt buf.bytes i } : TSNetPacket T).isValid =
        false := isValid_of_size_ne hT hk
    rw [decodersAgree_invalid_iff hinvalid hinvalid']
    omega
  by_cases hroom : i + 16 + bodySize k (headAt buf.bytes i) + 8 ≤ buf.bytes.length
  · -- It reads a frame of a `T`: they agree if that frame ends the buffer.
    rcases readBodyAndFoot_read hT
      { this with sid := 0, bFastIntegrity := false, head := headAt buf.bytes i }
      (pure buf.bufferSize) hsize hroom with ⟨after, hread, hafter, -⟩
    refine ⟨_, _, hhead.trans hread, hbehind, ?_⟩
    rw [hagree _ hafter, RecvBuffer.bufferSize]
    rw [bodySize_body huid] at hroom ⊢
    omega
  · -- It fails, and then it consumes the whole buffer as well.
    rcases readBodyAndFoot_failed hT
      { this with sid := 0, bFastIntegrity := false, head := headAt buf.bytes i } hsize hfit hroom
      with ⟨after, hread, hafter, -⟩
    refine ⟨_, _, hhead.trans (hread (pure buf.bufferSize)), hbehind, ?_⟩
    rw [hagree _ hafter]
    rw [bodySize_body huid] at hroom
    exact iff_of_true rfl (by omega)

/-- The two overloads agree exactly when the head is a heartbeat's, has the right size, or nothing
stands behind the frame it announces. -/
theorem reUse_agree_iff (hT : ReadBody T k bytes) (this : TSNetPacket T) (buf : RecvBuffer)
    {i : Nat} (hw : SyncwordAt w buf.bytes i) (hfit : i + 16 ≤ buf.bytes.length) :
    ∃ whole behind : TSNetPacket T × Int,
      this.reUse buf.bytes buf.bufferSize w = .ok whole ∧
      this.reUseWithHead (headAt buf.bytes i) (buf.bytes.drop (i + 16)) (buf.bufferSize - i - 16) =
        .ok behind ∧
      (DecodersAgree i whole behind ↔
        (headAt buf.bytes i).uid = 0 ∨ (headAt buf.bytes i).size.toInt = k ∨
          buf.bytes.length ≤ i + 24 + k) := by
  by_cases hright : (headAt buf.bytes i).uid = 0 ∨ (headAt buf.bytes i).size.toInt = k
  · -- The size check lets the head pass, and from there on both do the same.
    have hrest : buf.bufferSize - i - 16 = (buf.bytes.drop (i + 16)).length := by
      rw [List.length_drop, RecvBuffer.bufferSize]
      omega
    have hpasses : ¬ (0 ≠ (headAt buf.bytes i).uid ∧
        this.body.memSize ≠ (headAt buf.bytes i).size) := by
      rintro ⟨huid, hne⟩
      rcases hright with h0 | hk
      · exact huid h0.symm
      · refine hne (Int32.toInt_inj.1 ?_)
        rw [hk]
        exact hT.memSize this.body.obj
    have hhead := decode_head { this with sid := 0, bFastIntegrity := false }
      (pure buf.bufferSize) buf.size_lt hw hfit
    rcases readBodyAndFoot_behind hT
      { this with sid := 0, bFastIntegrity := false, head := headAt buf.bytes i } buf.size_lt hfit
      with ⟨after, bytesRead, hbehind, hwhole⟩
    refine ⟨_, (after, (bytesRead : Int)), hhead.trans hwhole, ?_, ?_⟩
    · rw [hrest, reUseWithHead, if_neg hpasses]
      exact hbehind
    · refine iff_of_true ⟨rfl, fun _ => rfl, fun _ => rfl, fun _ => rfl, fun _ => rfl, ?_⟩ ?_
      · simp only []
        omega
      · rcases hright with h0 | hk
        · exact Or.inl h0
        · exact Or.inr (Or.inl hk)
  · have huid : (headAt buf.bytes i).uid ≠ 0 := fun h0 => hright (Or.inl h0)
    have hk : (headAt buf.bytes i).size.toInt ≠ k := fun hk => hright (Or.inr hk)
    rcases reUse_agree_of_wrong_size hT this buf hw hfit huid hk with
      ⟨whole, behind, hwhole, hbehind, hiff⟩
    refine ⟨whole, behind, hwhole, hbehind, ?_⟩
    rw [hiff, or_iff_right huid, or_iff_right hk]

/-- A head that announces `size` bytes for a body of one `uint16`, and eleven bytes behind it. -/
def sizedFrame (size : Int32) : RecvBuffer where
  bytes := toBytes ({ uid := 7, size := size } : FSNetBufferHead) ++ List.replicate 11 0
  size_lt := by
    rw [List.length_append, length_toBytes, List.length_replicate]
    decide

/-- With the right size the overloads agree, although a byte follows the frame. -/
theorem reUse_agree_rightSize :
    ∃ whole behind : TSNetPacket (PackedBody UInt16) × Int,
      new.reUse (sizedFrame 2).bytes (sizedFrame 2).bufferSize defaultSyncwordInt32 = .ok whole ∧
      new.reUseWithHead (headAt (sizedFrame 2).bytes 0) ((sizedFrame 2).bytes.drop 16) 11 =
        .ok behind ∧
      DecodersAgree 0 whole behind := by
  have hT : ReadBody (PackedBody UInt16) 2 (fun this => toBytes this.members) :=
    (PackedBody.wireBody (by decide)).readBody
  have hw : SyncwordAt defaultSyncwordInt32 (sizedFrame 2).bytes 0 := by decide
  rcases reUse_agree_iff hT new (sizedFrame 2) hw (by decide) with
    ⟨whole, behind, hwhole, hbehind, hiff⟩
  exact ⟨whole, behind, hwhole, hbehind, hiff.2 (Or.inr (Or.inl (by decide)))⟩

/-- With another size one overload consumes the 26 bytes of the frame, the other all 27. -/
theorem wrongSize_disagree :
    SyncwordAt defaultSyncwordInt32 (sizedFrame 5).bytes 0 ∧
    ∃ whole behind : TSNetPacket (PackedBody UInt16) × Int,
      new.reUse (sizedFrame 5).bytes (sizedFrame 5).bufferSize defaultSyncwordInt32 = .ok whole ∧
      new.reUseWithHead (headAt (sizedFrame 5).bytes 0) ((sizedFrame 5).bytes.drop 16) 11 =
        .ok behind ∧
      whole.2 = 26 ∧ behind.2 = 11 ∧ ¬ DecodersAgree 0 whole behind := by
  refine ⟨by decide, _, _, rfl, rfl, rfl, rfl, ?_⟩
  intro h
  exact absurd h.bytesRead (by decide)

/-! ## The buffer constructor -/

/-- The buffer has a syncword, at `i`, with a head behind it. -/
def HeadFound (w : Int32) (data : Bytes) (i : Nat) : Prop :=
  SyncwordAt w data i ∧ i + 16 ≤ data.length

/-- A head is found at `i` with room behind it for what a static decoder reads. -/
def StaticFrameAt (k : Nat) (w : Int32) (data : Bytes) (i : Nat) : Prop :=
  SyncwordAt w data i ∧ i + 24 + bodySize k (headAt data i) ≤ data.length

/-- The bytes of the frame at `i`. -/
def staticFrameBytes (k : Nat) (data : Bytes) (i : Nat) : Bytes :=
  slice data i (24 + bodySize k (headAt data i))

/-- The constructor leaves what `ReUse` leaves on a new packet, and a valid packet comes from a
complete frame of zero sum. -/
structure BuiltAsReUse (k : Nat) (w : Int32) (data : Bytes) (built reused : TSNetPacket T) :
    Prop where
  verdict : built.isValid = reused.isValid
  integrity : built.bFastIntegrity = reused.bFastIntegrity
  sid : built.sid = reused.sid
  valid : built.isValid = true →
    ∃ i, StaticFrameAt k w data i ∧ xorSum (staticFrameBytes k data i) = 0

theorem decode_noHead (this : TSNetPacket T) (failed : Checked Int)
    (hsize : data.length < 2 ^ 31) (h : ∀ i, ¬ HeadFound w data i) :
    this.decode data data.length w failed = failed >>= fun bytesRead =>
      pure ({ this with head := { this.head with syncword := w } }, bytesRead) := by
  have hnone : findHead data data.length w = .ok none :=
    findHead_none hsize fun i hw hfit => h i ⟨hw, hfit⟩
  simp only [decode, hnone, Checked.ok_bind]

theorem decode_read (hT : ReadBody T k bytes) (this : TSNetPacket T) (failed : Checked Int)
    {i : Nat} (hsize : data.length < 2 ^ 31) (h : StaticFrameAt k w data i) :
    ∃ after : TSNetPacket T,
      this.decode data data.length w failed =
        .ok (after, ((i + 24 + bodySize k (headAt data i) : Nat) : Int)) ∧
      after.head = headAt data i ∧ after.sid = (headAt data i).sessionID ∧
      after.bFastIntegrity = (xorSum (staticFrameBytes k data i) == 0) := by
  obtain ⟨hw, hfit⟩ := h
  have hroom : i + 16 + bodySize k (headAt data i) + 8 ≤ data.length := by omega
  rcases readBodyAndFoot_read hT { this with head := headAt data i } failed hsize hroom with
    ⟨after, hread, hhead, hsid, hintegrity, -⟩
  refine ⟨after, ?_, hhead, hsid, ?_⟩
  · rw [decode_head this failed hsize hw (by omega), hread]
    simp only [Except.ok.injEq, Prod.mk.injEq, true_and]
    omega
  · have hsplit : staticFrameBytes k data i =
        slice data i 16 ++ slice data (i + 16) (bodySize k (headAt data i) + 8) := by
      rw [slice_append_slice, staticFrameBytes]
      congr 1
      omega
    rw [hintegrity, hsplit, xorSum_append, headAt_xor (by omega)]

/-- Without a frame a head that was found still decides about the session id of a heartbeat. -/
theorem decode_failed (hT : ReadBody T k bytes) (this : TSNetPacket T) {i : Nat}
    (hsize : data.length < 2 ^ 31) (hhead : HeadFound w data i)
    (h : ¬ StaticFrameAt k w data i) :
    ∃ after : TSNetPacket T,
      (∀ failed : Checked Int, this.decode data data.length w failed =
        failed >>= fun bytesRead => pure (after, bytesRead)) ∧
      after.head = headAt data i ∧ after.bFastIntegrity = this.bFastIntegrity ∧
      after.sid = if (headAt data i).uid = 0 then (headAt data i).sessionID else this.sid := by
  have hroom : ¬ i + 16 + bodySize k (headAt data i) + 8 ≤ data.length :=
    fun hroom => h ⟨hhead.1, by omega⟩
  rcases readBodyAndFoot_failed hT { this with head := headAt data i } hsize hhead.2 hroom with
    ⟨after, hread, hafter⟩
  refine ⟨after, fun failed => ?_, hafter⟩
  rw [decode_head this failed hsize hhead.1 hhead.2]
  exact hread failed

/-- What two failed decoders leave is the same exactly when the constructor can report its failure
and its two members happen to hold what `ReUse` stores in them. -/
theorem builtAsReUse_failed_iff {built reused : TSNetPacket T} (hsize : data.length < 2 ^ 31)
    (hflag : reused.bFastIntegrity = false) :
    (∃ p q : TSNetPacket T × Int,
      (int32 ((data.length : Int) + 1) >>= fun bytesRead => pure (built, bytesRead)) = .ok p ∧
      ((pure (data.length : Int) : Checked Int) >>= fun bytesRead => pure (reused, bytesRead)) =
        .ok q ∧
      BuiltAsReUse k w data p.1 q.1) ↔
    built.bFastIntegrity = false ∧ (data.length : Int) + 1 < 2 ^ 31 ∧ built.sid = reused.sid := by
  by_cases hroom : (data.length : Int) + 1 < 2 ^ 31
  · rw [int32_ok (by omega) hroom]
    constructor
    · rintro ⟨p, q, hp, hq, h⟩
      cases hp
      cases hq
      exact ⟨h.integrity.trans hflag, hroom, h.sid⟩
    · rintro ⟨hbuilt, -, hsid⟩
      have hinvalid : built.isValid = false := by rw [isValid, hbuilt, Bool.false_and]
      refine ⟨_, _, rfl, rfl, ?_, hbuilt.trans hflag.symm, hsid, ?_⟩
      · rw [hinvalid, isValid, hflag, Bool.false_and]
      · intro hvalid
        rw [hinvalid] at hvalid
        cases hvalid
  · -- The constructor cannot even report its failure.
    have hover : int32 ((data.length : Int) + 1) = .error .signedOverflow := if_neg (by omega)
    refine iff_of_false ?_ (fun h => hroom h.2.1)
    rintro ⟨p, -, hp, -⟩
    rw [hover] at hp
    cases hp

/-- Where a frame is found, both decoders assign every member they are compared by. -/
theorem builtAsReUse_of_frame (hT : ReadBody T k bytes) (sid₀ : Int32) (bFastIntegrity₀ : Bool)
    (buf : RecvBuffer) {i : Nat} (hi : StaticFrameAt k w buf.bytes i) :
    ∃ built reused : TSNetPacket T × Int,
      ofBuffer sid₀ bFastIntegrity₀ buf.bytes buf.bufferSize w = .ok built ∧
      new.reUse buf.bytes buf.bufferSize w = .ok reused ∧
      BuiltAsReUse k w buf.bytes built.1 reused.1 := by
  rcases decode_read hT { new with sid := sid₀, bFastIntegrity := bFastIntegrity₀ }
    (int32 (buf.bufferSize + 1)) buf.size_lt hi with ⟨built, hbuilt, hhead, hsid, hflag⟩
  rcases decode_read hT { new with sid := 0, bFastIntegrity := false } (pure buf.bufferSize)
    buf.size_lt hi with ⟨reused, hreused, hhead', hsid', hflag'⟩
  refine ⟨_, _, hbuilt, hreused, ?_, hflag.trans hflag'.symm, hsid.trans hsid'.symm, ?_⟩
  · rw [Bool.eq_iff_iff, isValid_iff hT, isValid_iff hT, hflag, hflag', hhead, hhead']
  · intro hvalid
    have hset := ((isValid_iff hT built).1 hvalid).1
    rw [hflag, beq_iff_eq] at hset
    exact ⟨i, hi, hset⟩

/-- A head without a whole frame behind it: both fail, and a heartbeat's head assigns the session id
of both. -/
theorem builtAsReUse_iff_of_head (hT : ReadBody T k bytes) (sid₀ : Int32) (bFastIntegrity₀ : Bool)
    (buf : RecvBuffer) {i : Nat} (hi : HeadFound w buf.bytes i)
    (hnone : ¬ StaticFrameAt k w buf.bytes i) :
    (∃ built reused : TSNetPacket T × Int,
      ofBuffer sid₀ bFastIntegrity₀ buf.bytes buf.bufferSize w = .ok built ∧
      new.reUse buf.bytes buf.bufferSize w = .ok reused ∧
      BuiltAsReUse k w buf.bytes built.1 reused.1) ↔
    bFastIntegrity₀ = false ∧ buf.bufferSize + 1 < 2 ^ 31 ∧
      (sid₀ = 0 ∨ (headAt buf.bytes i).uid = 0) := by
  have hsize := buf.size_lt
  rcases decode_failed hT { new with sid := sid₀, bFastIntegrity := bFastIntegrity₀ } hsize hi
    hnone with ⟨built, hbuilt, -, hflag, hsid⟩
  rcases decode_failed hT { new with sid := 0, bFastIntegrity := false } hsize hi hnone with
    ⟨reused, hreused, -, hflag', hsid'⟩
  have hdecode := hbuilt (int32 (buf.bufferSize + 1))
  have hdecode' := hreused (pure buf.bufferSize)
  simp only [ofBuffer, reUse, RecvBuffer.bufferSize] at hdecode hdecode' ⊢
  rw [hdecode, hdecode', builtAsReUse_failed_iff hsize hflag', hflag, hsid, hsid']
  by_cases huid : (headAt buf.bytes i).uid = 0
  · simp only [huid, if_true, or_true]
  · simp only [huid, if_false, or_false]

/-- Without a head nothing is assigned at all. -/
theorem builtAsReUse_iff_of_noHead (sid₀ : Int32) (bFastIntegrity₀ : Bool)
    (buf : RecvBuffer) (hnone : ∀ i, ¬ HeadFound w buf.bytes i) :
    (∃ built reused : TSNetPacket T × Int,
      ofBuffer sid₀ bFastIntegrity₀ buf.bytes buf.bufferSize w = .ok built ∧
      new.reUse buf.bytes buf.bufferSize w = .ok reused ∧
      BuiltAsReUse k w buf.bytes built.1 reused.1) ↔
    bFastIntegrity₀ = false ∧ buf.bufferSize + 1 < 2 ^ 31 ∧ sid₀ = 0 := by
  have hsize := buf.size_lt
  have hdecode := decode_noHead
    ({ new with sid := sid₀, bFastIntegrity := bFastIntegrity₀ } : TSNetPacket T)
    (int32 (buf.bufferSize + 1)) hsize hnone
  have hdecode' := decode_noHead
    ({ new with sid := 0, bFastIntegrity := false } : TSNetPacket T)
    (pure buf.bufferSize) hsize hnone
  simp only [ofBuffer, reUse, RecvBuffer.bufferSize] at hdecode hdecode' ⊢
  rw [hdecode, hdecode', builtAsReUse_failed_iff hsize rfl]

/-- The constructor does what `ReUse` does on a new packet exactly when a complete frame is found,
or when it can count its failure and the members it does not initialise start as `ReUse` sets them:
the flag cleared, and the session id zero unless a heartbeat's head assigns it. -/
theorem ofBuffer_iff (hT : ReadBody T k bytes) (sid₀ : Int32) (bFastIntegrity₀ : Bool)
    (buf : RecvBuffer) (w : Int32) :
    (∃ built reused : TSNetPacket T × Int,
      ofBuffer sid₀ bFastIntegrity₀ buf.bytes buf.bufferSize w = .ok built ∧
      new.reUse buf.bytes buf.bufferSize w = .ok reused ∧
      BuiltAsReUse k w buf.bytes built.1 reused.1) ↔
    (∃ i, StaticFrameAt k w buf.bytes i) ∨
      (bFastIntegrity₀ = false ∧ buf.bufferSize + 1 < 2 ^ 31 ∧
        (sid₀ = 0 ∨ ∃ i, HeadFound w buf.bytes i ∧ (headAt buf.bytes i).uid = 0)) := by
  by_cases hframe : ∃ i, StaticFrameAt k w buf.bytes i
  · refine iff_of_true ?_ (Or.inl hframe)
    rcases hframe with ⟨i, hi⟩
    exact builtAsReUse_of_frame hT sid₀ bFastIntegrity₀ buf hi
  · rw [or_iff_right hframe]
    by_cases hfound : ∃ i, HeadFound w buf.bytes i
    · rcases hfound with ⟨i, hi⟩
      have hnone : ¬ StaticFrameAt k w buf.bytes i := fun h => hframe ⟨i, h⟩
      rw [builtAsReUse_iff_of_head hT sid₀ bFastIntegrity₀ buf hi hnone]
      -- The head decides whether the session id matters: there is only one.
      have honly : (∃ j, HeadFound w buf.bytes j ∧ (headAt buf.bytes j).uid = 0) ↔
          (headAt buf.bytes i).uid = 0 := by
        constructor
        · rintro ⟨j, hj, huid⟩
          rwa [hi.1.unique hj.1]
        · intro huid
          exact ⟨i, hi, huid⟩
      rw [honly]
    · have hnone : ∀ i, ¬ HeadFound w buf.bytes i := fun i hi => hfound ⟨i, hi⟩
      rw [builtAsReUse_iff_of_noHead sid₀ bFastIntegrity₀ buf hnone]
      have hnohead : ¬ ∃ i, HeadFound w buf.bytes i ∧ (headAt buf.bytes i).uid = 0 := by
        rintro ⟨i, hi, -⟩
        exact hnone i hi
      rw [or_iff_left hnohead]

/-- A receiver that has no bytes yet. -/
def emptyBuffer : RecvBuffer where
  bytes := []
  size_lt := by decide

/-- Nothing to read and clean memory: both say so. -/
theorem ofBuffer_cleanMemory :
    ∃ built reused : TSNetPacket FStaticNetBodyBase × Int,
      ofBuffer 0 false emptyBuffer.bytes emptyBuffer.bufferSize defaultSyncwordInt32 = .ok built ∧
      new.reUse emptyBuffer.bytes emptyBuffer.bufferSize defaultSyncwordInt32 = .ok reused ∧
      BuiltAsReUse 0 defaultSyncwordInt32 emptyBuffer.bytes built.1 reused.1 :=
  (ofBuffer_iff FStaticNetBodyBase.wireBody.readBody 0 false emptyBuffer
    defaultSyncwordInt32).2 (Or.inr ⟨rfl, by decide, Or.inl rfl⟩)

/-- A set bit in the memory of the new object makes a packet valid that nothing was read for. -/
theorem staleFlag_valid :
    ∃ built reused : TSNetPacket FStaticNetBodyBase × Int,
      ofBuffer 0 true emptyBuffer.bytes emptyBuffer.bufferSize defaultSyncwordInt32 = .ok built ∧
      new.reUse emptyBuffer.bytes emptyBuffer.bufferSize defaultSyncwordInt32 = .ok reused ∧
      built.1.isValid = true ∧ reused.1.isValid = false ∧
      ¬ BuiltAsReUse 0 defaultSyncwordInt32 emptyBuffer.bytes built.1 reused.1 := by
  have hbuilt : (ofBuffer 0 true emptyBuffer.bytes emptyBuffer.bufferSize
      defaultSyncwordInt32 : Checked (TSNetPacket FStaticNetBodyBase × Int)) =
      .ok ({ new with bFastIntegrity := true }, 1) := by
    decide
  have hreused : (new : TSNetPacket FStaticNetBodyBase).reUse emptyBuffer.bytes
      emptyBuffer.bufferSize defaultSyncwordInt32 = .ok (new, 0) := by
    decide
  refine ⟨_, _, hbuilt, hreused, by decide, by decide, ?_⟩
  intro h
  exact absurd h.verdict (by decide)

end TSNetPacket

end Septem
