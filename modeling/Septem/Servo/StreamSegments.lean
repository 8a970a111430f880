import Septem.Library.Segmentation
import Septem.Servo.PacketStream

/-!
# StreamSegments — the receive loop on any bytes

A block is noise and the complete frame behind it.  Every buffer is cut into blocks and a tail
without a complete frame in exactly one way, and the receive loop follows these cuts: each block
gives the packet that it gives alone, whatever stands in front of it or behind it
(`decodeStream_segments`).  The cuts depend on the noise and the heads only, so damage to bodies
and feet stays in the frames it hits (`damage_contained`).
-/

namespace Septem

open Cxx

namespace FSNetPacket

/-! ## Blocks -/

/-- Noise and one complete frame: the frame starts at the first syncword, at `i`, and ends the
block. -/
structure BlockAt (w : Int32) (block : Bytes) (i : Nat) : Prop extends FrameAt w block i where
  length_eq : (block.length : Int) = i + 24 + (headAt block i).bodyLength

def StreamBlock (w : Int32) (block : Bytes) : Prop :=
  ∃ i, BlockAt w block i

section Blocks

variable {w : Int32} {block rest : Bytes} {i : Nat}

theorem headAt_append (rest : Bytes) (hfit : i + 16 ≤ block.length) :
    headAt (block ++ rest) i = headAt block i := by
  rw [headAt, slice_append_left rest hfit, headAt]

theorem syncwordAt_append_iff (rest : Bytes) (hfit : i + 16 ≤ block.length) :
    SyncwordAt w (block ++ rest) i ↔ SyncwordAt w block i := by
  have hword : (toBytes w).length = 4 := length_toBytes w
  have hlen : (block ++ rest).length = block.length + rest.length := List.length_append
  have hocc (j : Nat) (hj : j ≤ i) :
      OccursAt (toBytes w) (block ++ rest) j ↔ OccursAt (toBytes w) block j :=
    occursAt_append_iff rest (by omega)
  constructor
  · rintro ⟨-, hat, hbefore⟩
    refine ⟨by omega, (hocc i (Nat.le_refl i)).1 hat, ?_⟩
    intro j hj hoccurs
    exact hbefore j hj ((hocc j (Nat.le_of_lt hj)).2 hoccurs)
  · rintro ⟨-, hat, hbefore⟩
    refine ⟨by omega, (hocc i (Nat.le_refl i)).2 hat, ?_⟩
    intro j hj hoccurs
    exact hbefore j hj ((hocc j (Nat.le_of_lt hj)).1 hoccurs)

/-- What follows a block does not change it. -/
theorem BlockAt.frameAt_append (h : BlockAt w block i) (rest : Bytes) :
    FrameAt w (block ++ rest) i := by
  have hhead := headAt_append rest h.head_fits
  have hlen : (block ++ rest).length = block.length + rest.length := List.length_append
  have hfit := h.head_fits
  refine ⟨(syncwordAt_append_iff rest h.head_fits).2 h.syncword, by omega, ?_⟩
  rw [hhead]
  exact ⟨h.complete.1, by have := h.complete.2; omega⟩

/-- A complete frame is the end of a block. -/
theorem blockAt_take {data : Bytes} (h : FrameAt w data i) :
    BlockAt w (data.take (i + 24 + (headAt data i).bodyLength.toNat)) i := by
  have hnonneg := h.complete.1
  have hroom := h.complete.2
  have hlen : (data.take (i + 24 + (headAt data i).bodyLength.toNat)).length =
      i + 24 + (headAt data i).bodyLength.toNat := by
    rw [List.length_take]
    omega
  have hsplit := List.take_append_drop (i + 24 + (headAt data i).bodyLength.toNat) data
  generalize data.take (i + 24 + (headAt data i).bodyLength.toNat) = block at hlen hsplit
  generalize data.drop (i + 24 + (headAt data i).bodyLength.toNat) = rest at hsplit
  have hfit : i + 16 ≤ block.length := by omega
  subst hsplit
  rw [headAt_append rest hfit] at hnonneg hlen
  exact
    { syncword := (syncwordAt_append_iff rest hfit).1 h.syncword
      head_fits := hfit
      complete := ⟨hnonneg, by omega⟩
      length_eq := by omega }

theorem streamBlock_cuts (w : Int32) : Cuts (StreamBlock w) where
  ne_nil := by
    rintro block ⟨i, h⟩ hnil
    have hfit := h.head_fits
    rw [hnil, List.length_nil] at hfit
    omega
  front := by
    rintro block block' rest rest' ⟨i, h⟩ ⟨j, h'⟩ heq
    have hframe := h.frameAt_append rest
    have hframe' := h'.frameAt_append rest'
    rw [heq] at hframe
    -- Both blocks end with the first frame of one and the same buffer.
    have hsame : i = j := hframe.unique hframe'
    subst hsame
    have hhead : headAt block i = headAt block' i := by
      rw [← headAt_append rest h.head_fits, heq, headAt_append rest' h'.head_fits]
    have hlen : block.length = block'.length := by
      have hlength := h.length_eq
      have hlength' := h'.length_eq
      rw [hhead] at hlength
      omega
    exact (List.append_inj heq hlen).1

/-- A buffer starts with a block exactly when there is a complete frame in it. -/
theorem stop_iff {data : Bytes} :
    (∀ block rest, data = block ++ rest → ¬ StreamBlock w block) ↔ ∀ i, ¬ FrameAt w data i := by
  constructor
  · intro hstop i hframe
    exact hstop _ _ (List.take_append_drop _ data).symm ⟨i, blockAt_take hframe⟩
  · rintro hnone block rest rfl ⟨i, h⟩
    exact hnone i (h.frameAt_append rest)

end Blocks

/-! ## Decoding a block -/

section Decoding

variable {w : Int32} {block rest : Bytes} {i : Nat} {before after after' : FSNetPacket}

theorem eq_of_bufferPtr {body body' : FSNetBufferBody} (hptr : body.bufferPtr = body'.bufferPtr)
    (hlength : body.length = body'.length) : body = body' := by
  cases body
  cases body'
  simp only at hptr hlength
  subst hptr
  subst hlength
  rfl

/-- What a complete frame makes of a packet is determined by the frame. -/
theorem frameRead_unique {data : Bytes} {index : Nat} (h : FrameRead before after data index)
    (h' : FrameRead before after' data index) : after = after' := by
  have hbody : after.body = after'.body := by
    by_cases huid : before.head.uid = 0
    · rw [h.bodyKept huid, h'.bodyKept huid]
    · rcases h.body huid with ⟨hptr, hlength⟩
      rcases h'.body huid with ⟨hptr', hlength'⟩
      exact eq_of_bufferPtr (hptr.trans hptr'.symm) (hlength.trans hlength'.symm)
  -- The other members are functions of the bytes.
  rcases after with ⟨head, body, foot, sid, integrity⟩
  rcases after' with ⟨head', body', foot', sid', integrity'⟩
  have hhead := h.head.trans h'.head.symm
  have hfoot := h.foot.trans h'.foot.symm
  have hsid := h.sid.trans h'.sid.symm
  have hintegrity := h.integrity.trans h'.integrity.symm
  simp only at hhead hbody hfoot hsid hintegrity
  rw [hhead, hbody, hfoot, hsid, hintegrity]

/-- Reading a frame of a block does not read what follows the block. -/
theorem frameRead_append (h : BlockAt w block i) (hhead : before.head = headAt block i)
    (hread : FrameRead before after (block ++ rest) (i + 16)) :
    FrameRead before after block (i + 16) := by
  have hnonneg := h.complete.1
  have hlen := h.length_eq
  rw [← hhead] at hnonneg hlen
  have hfit : i + 16 + (before.head.bodyLength.toNat + 8) ≤ block.length := by omega
  have hbody := hread.body
  have hfoot := hread.foot
  have hintegrity := hread.integrity
  rw [slice_append_left rest (by omega)] at hbody
  rw [footAt, slice_append_left rest (by omega)] at hfoot
  rw [slice_append_left rest hfit] at hintegrity
  exact
    { head := hread.head
      body := hbody
      bodyKept := hread.bodyKept
      foot := hfoot
      sid := hread.sid
      integrity := hintegrity }

/-- The packet that a block gives on its own. -/
def Alone (w : Int32) (block : Bytes) (got : FSNetPacket × Int) : Prop :=
  new.reUse block block.length w = .ok got ∧ got.2 = block.length

theorem Alone.unique {got got' : FSNetPacket × Int} (h : Alone w block got)
    (h' : Alone w block got') : got = got' :=
  Except.ok.inj (h.1.symm.trans h'.1)

/-- What a new packet is when the head of a block has been read. -/
def withHead (head : FSNetBufferHead) : FSNetPacket :=
  { new with sid := 0, bFastIntegrity := false, head }

theorem BlockAt.reUse (h : BlockAt w block i) (rest : Bytes)
    (hsize : (block ++ rest).length < 2 ^ 31) :
    ∃ after, new.reUse (block ++ rest) (block ++ rest).length w =
        .ok (after, (block.length : Int)) ∧
      FrameRead (withHead (headAt block i)) after block (i + 16) := by
  rcases decode_frame { new with sid := 0, bFastIntegrity := false } hsize
    (h.frameAt_append rest) with ⟨after, hdecode, hread⟩
  rw [headAt_append rest h.head_fits] at hdecode hread
  have hnonneg := h.complete.1
  have hend : ((i + 24 + (headAt block i).bodyLength.toNat : Nat) : Int) = block.length := by
    rw [h.length_eq]
    omega
  rw [hend] at hdecode
  exact ⟨after, hdecode, frameRead_append h rfl hread⟩

/-- A block gives the same packet in front of anything. -/
theorem StreamBlock.alone (h : StreamBlock w block) (hsize : block.length < 2 ^ 31) :
    ∃ got, Alone w block got ∧
      ∀ rest, (block ++ rest).length < 2 ^ 31 →
        new.reUse (block ++ rest) (block ++ rest).length w = .ok got := by
  rcases h with ⟨i, h⟩
  have hself : (block ++ []).length < 2 ^ 31 := by rwa [List.append_nil]
  rcases h.reUse [] hself with ⟨packet, halone, hread⟩
  rw [List.append_nil] at halone
  refine ⟨(packet, block.length), ⟨halone, rfl⟩, ?_⟩
  -- What follows the block is not read, so the packet is the one the block gives on its own.
  intro rest hrest
  rcases h.reUse rest hrest with ⟨packet', hreUse, hread'⟩
  rw [hreUse, frameRead_unique hread hread']

/-- The loop's last round, on bytes without a complete frame. -/
def LastRound (tail : Bytes) (last : List (FSNetPacket × Int)) : Prop :=
  (tail = [] ∧ last = []) ∨
    ∃ packet : FSNetPacket, tail ≠ [] ∧ last = [(packet, (tail.length : Int))] ∧
      packet.bFastIntegrity = false

/-- One round of the receive loop that consumes `block`. -/
theorem decodeStream_round {got : FSNetPacket × Int} {packets : List (FSNetPacket × Int)}
    {unread : Bytes} {fuel : Nat} (hne : block ≠ [])
    (hread : new.reUse (block ++ rest) (block ++ rest).length w = .ok got)
    (hbytes : got.2 = block.length)
    (hrest : decodeStream w fuel rest = .ok (packets, unread)) :
    decodeStream w (fuel + 1) (block ++ rest) = .ok (got :: packets, unread) := by
  have hoff : offset (block ++ rest) got.2 = .ok rest := by
    rw [hbytes, offset_ok (by rw [List.length_append]; omega), List.drop_left]
  have hempty : (block ++ rest).isEmpty = false :=
    List.isEmpty_eq_false_iff.2 (List.append_ne_nil_of_left_ne_nil hne rest)
  rcases got with ⟨packet, bytesRead⟩
  simp only [decodeStream, hempty, hread, Checked.ok_bind, hoff, hrest, Checked.pure_eq_ok]
  rfl

theorem decodeStream_tail {tail : Bytes} (hnone : ∀ i, ¬ FrameAt w tail i)
    (hsize : tail.length < 2 ^ 31) :
    ∃ last, LastRound tail last ∧
      ∀ fuel, 0 < fuel → decodeStream w fuel tail = .ok (last, []) := by
  by_cases hempty : tail = []
  · refine ⟨[], .inl ⟨hempty, rfl⟩, ?_⟩
    intro fuel hfuel
    rw [hempty]
    cases fuel with
    | zero => exact absurd hfuel (Nat.lt_irrefl 0)
    | succ fuel => rfl
  · rcases decode_noFrame { new with sid := 0, bFastIntegrity := false } hsize hnone with
      ⟨packet, hdecode, hverdict⟩
    refine ⟨[(packet, tail.length)], .inr ⟨packet, hempty, rfl, hverdict⟩, ?_⟩
    intro fuel hfuel
    cases fuel with
    | zero => exact absurd hfuel (Nat.lt_irrefl 0)
    | succ fuel =>
        -- `ReUse` reports all of the tail as read, and nothing is left for another round.
        have hrest : decodeStream w fuel [] = .ok ([], []) := by
          cases fuel with
          | zero => rfl
          | succ fuel => rfl
        have hread : new.reUse (tail ++ []) (tail ++ []).length w =
            .ok (packet, (tail.length : Int)) := by
          rw [List.append_nil]
          exact hdecode
        have hround := decodeStream_round hempty hread rfl hrest
        rwa [List.append_nil] at hround

/-- The loop goes from block to block. -/
theorem decodeStream_blocks {blocks : List Bytes} {tail : Bytes}
    {last : List (FSNetPacket × Int)}
    (hlast : ∀ fuel, 0 < fuel → decodeStream w fuel tail = .ok (last, []))
    (hblocks : ∀ block ∈ blocks, StreamBlock w block)
    (hsize : (blocks.flatten ++ tail).length < 2 ^ 31) :
    ∃ packets, List.Forall₂ (Alone w) blocks packets ∧
      ∀ fuel, blocks.length < fuel →
        decodeStream w fuel (blocks.flatten ++ tail) = .ok (packets ++ last, []) := by
  induction blocks with
  | nil => exact ⟨[], .nil, hlast⟩
  | cons block blocks ih =>
      rw [List.flatten_cons, List.append_assoc] at hsize ⊢
      have hlen : (block ++ (blocks.flatten ++ tail)).length =
          block.length + (blocks.flatten ++ tail).length := List.length_append
      have hblock := hblocks block List.mem_cons_self
      rcases hblock.alone (by omega) with ⟨got, halone, hread⟩
      rcases ih (fun other hother => hblocks other (List.mem_cons_of_mem block hother))
        (by omega) with ⟨packets, hpackets, hdecode⟩
      refine ⟨got :: packets, .cons halone hpackets, ?_⟩
      intro fuel hfuel
      cases fuel with
      | zero => exact absurd hfuel (Nat.not_lt_zero _)
      | succ fuel =>
          exact decodeStream_round ((streamBlock_cuts w).ne_nil hblock) (hread _ hsize) halone.2
            (hdecode fuel (Nat.lt_of_succ_lt_succ hfuel))

/-- A heartbeat behind two noise bytes. -/
def heartbeatBlock : Bytes :=
  [9, 9] ++ (createHeartbeat defaultSyncwordInt32 2).wire

theorem heartbeatBlock_blockAt : BlockAt defaultSyncwordInt32 heartbeatBlock 2 where
  syncword := by decide
  head_fits := by decide
  complete := by decide
  length_eq := by decide

/-- Every buffer is cut in exactly one way into blocks, each noise and the complete frame behind
it, and a tail without a complete frame.  The receive loop consumes the whole buffer and delivers
for each block what the block gives on its own, and one invalid packet for a tail that is not
empty. -/
theorem decodeStream_segments (w : Int32) (data : Bytes) (hsize : data.length < 2 ^ 31) :
    ∃ blocks tail, Segments (StreamBlock w) data blocks tail ∧
      (∀ blocks' tail', Segments (StreamBlock w) data blocks' tail' →
        blocks = blocks' ∧ tail = tail') ∧
      ∃ packets last, List.Forall₂ (Alone w) blocks packets ∧ LastRound tail last ∧
        ∀ fuel, blocks.length < fuel →
          decodeStream w fuel data = .ok (packets ++ last, []) := by
  rcases exists_segments (streamBlock_cuts w) data with ⟨blocks, tail, h⟩
  refine ⟨blocks, tail, h, fun _ _ h' => h.unique (streamBlock_cuts w) h', ?_⟩
  have hlen : data.length = blocks.flatten.length + tail.length := by
    rw [h.join, List.length_append]
  rcases decodeStream_tail (stop_iff.1 h.stop) (by omega) with ⟨last, hlast, hdecode⟩
  have hall : (blocks.flatten ++ tail).length < 2 ^ 31 := by rwa [← h.join]
  rcases decodeStream_blocks hdecode h.isBlock hall with ⟨packets, hpackets, hblocks⟩
  rw [← h.join] at hblocks
  exact ⟨packets, last, hpackets, hlast, hblocks⟩

theorem decodeStream_segments_heartbeat :
    ∃ (blocks : List Bytes) (tail : Bytes) (packets last : List (FSNetPacket × Int)),
      Segments (StreamBlock defaultSyncwordInt32) (heartbeatBlock ++ [1]) blocks tail ∧
      List.Forall₂ (Alone defaultSyncwordInt32) blocks packets ∧ LastRound tail last := by
  rcases decodeStream_segments defaultSyncwordInt32 (heartbeatBlock ++ [1]) (by decide) with
    ⟨blocks, tail, h, -, packets, last, hpackets, hlast, -⟩
  exact ⟨blocks, tail, packets, last, h, hpackets, hlast⟩

/-! ## Damage -/

/-- The second block is the first with other bytes in body and foot. -/
def Damaged (w : Int32) (block block' : Bytes) : Prop :=
  ∃ i, BlockAt w block i ∧ block'.length = block.length ∧
    block'.take (i + 16) = block.take (i + 16)

/-- What is left of a damaged block's packet: the noise and the head are read as before, and a
frame that was valid is taken for valid exactly when the damage does not change its sum. -/
structure Contained (block block' : Bytes) (got got' : FSNetPacket × Int) : Prop where
  bytesRead : got'.2 = got.2
  head : got'.1.head = got.1.head
  same : block' = block → got' = got
  verdict : got.1.bFastIntegrity = true →
    (got'.1.bFastIntegrity = true ↔ xorSum block' = xorSum block)

theorem blockAt_of_take {block' : Bytes} (h : BlockAt w block i)
    (hlength : block'.length = block.length)
    (htake : block'.take (i + 16) = block.take (i + 16)) :
    BlockAt w block' i ∧ headAt block' i = headAt block i := by
  have hfront : (block.take (i + 16)).length = i + 16 := by
    rw [List.length_take]
    have hfit := h.head_fits
    omega
  have hsplit := List.take_append_drop (i + 16) block
  have hsplit' := List.take_append_drop (i + 16) block'
  rw [htake] at hsplit'
  have hfit : i + 16 ≤ (block.take (i + 16)).length := Nat.le_of_eq hfront.symm
  -- The head ends where the damage may begin.
  have hhead : headAt block' i = headAt block i := by
    calc
      headAt block' i
          = headAt (block.take (i + 16) ++ block'.drop (i + 16)) i := by rw [hsplit']
      _ = headAt (block.take (i + 16)) i := headAt_append _ hfit
      _ = headAt (block.take (i + 16) ++ block.drop (i + 16)) i := (headAt_append _ hfit).symm
      _ = headAt block i := by rw [hsplit]
  have hword : SyncwordAt w block' i := by
    have hsyncword := h.syncword
    rw [← hsplit, syncwordAt_append_iff _ hfit] at hsyncword
    rw [← hsplit', syncwordAt_append_iff _ hfit]
    exact hsyncword
  refine ⟨?_, hhead⟩
  exact
    { syncword := hword
      head_fits := by
        rw [hlength]
        exact h.head_fits
      complete := by
        rw [hhead, Complete, hlength]
        exact h.complete
      length_eq := by
        rw [hhead, hlength]
        exact h.length_eq }

/-- The verdict on the packet of a block is the sum of the frame. -/
theorem BlockAt.verdict_eq (h : BlockAt w block i)
    (hread : FrameRead (withHead (headAt block i)) after block (i + 16)) :
    after.bFastIntegrity = (xorSum (block.drop i) == 0) := by
  have hnonneg := h.complete.1
  have hlen := h.length_eq
  have hframe : frameBytes block i = block.drop i := by
    rw [frameBytes, slice]
    apply List.take_of_length_le
    rw [List.length_drop]
    omega
  rw [← hframe]
  exact integrity_frameBytes h.toFrameAt hread

theorem xorSum_take_drop (data : Bytes) (n : Nat) :
    xorSum data = xorSum (data.take n) ^^^ xorSum (data.drop n) := by
  rw [← xorSum_append, List.take_append_drop]

theorem Damaged.contained {block' : Bytes} (h : Damaged w block block')
    (hsize : block.length < 2 ^ 31) {got got' : FSNetPacket × Int} (hgot : Alone w block got)
    (hgot' : Alone w block' got') : Contained block block' got got' := by
  rcases h with ⟨i, hblock, hlength, htake⟩
  rcases blockAt_of_take hblock hlength htake with ⟨hblock', hhead⟩
  have hself : (block ++ []).length < 2 ^ 31 := by rwa [List.append_nil]
  have hself' : (block' ++ []).length < 2 ^ 31 := by rwa [List.append_nil, hlength]
  rcases hblock.reUse [] hself with ⟨packet, hread, hframe⟩
  rcases hblock'.reUse [] hself' with ⟨packet', hread', hframe'⟩
  rw [List.append_nil] at hread hread'
  have hsame : got = (packet, (block.length : Int)) := Except.ok.inj (hgot.1.symm.trans hread)
  have hsame' : got' = (packet', (block'.length : Int)) := Except.ok.inj (hgot'.1.symm.trans hread')
  subst hsame
  subst hsame'
  refine ⟨congrArg Nat.cast hlength, ?_, ?_, ?_⟩
  · rw [hframe.head, hframe'.head, withHead, withHead, hhead]
  · intro heq
    subst heq
    exact hgot'.unique hgot
  · intro hvalid
    rw [hblock.verdict_eq hframe, beq_iff_eq] at hvalid
    -- The noise is the same in both.
    have hnoise : block'.take i = block.take i := by
      have hcut := congrArg (List.take i) htake
      rwa [List.take_take, List.take_take, Nat.min_eq_left (Nat.le_add_right i 16)] at hcut
    rw [hblock'.verdict_eq hframe', beq_iff_eq, xorSum_take_drop block' i,
      xorSum_take_drop block i, hnoise, hvalid, UInt8.xor_right_inj]

theorem damaged_blocks {blocks blocks' : List Bytes}
    (h : List.Forall₂ (Damaged w) blocks blocks') :
    (∀ block' ∈ blocks', StreamBlock w block') ∧
      blocks'.flatten.length = blocks.flatten.length := by
  induction h with
  | nil => exact ⟨nofun, rfl⟩
  | cons hdamaged _ ih =>
      rcases hdamaged with ⟨i, hblock, hlength, htake⟩
      refine ⟨List.forall_mem_cons.2 ⟨⟨i, (blockAt_of_take hblock hlength htake).1⟩, ih.1⟩, ?_⟩
      rw [List.flatten_cons, List.flatten_cons, List.length_append, List.length_append, hlength,
        ih.2]

theorem forall₂_getElem? {α β : Type} {R : α → β → Prop} {xs : List α} {ys : List β}
    (h : List.Forall₂ R xs ys) {k : Nat} {x : α} {y : β} (hx : xs[k]? = some x)
    (hy : ys[k]? = some y) : R x y := by
  rcases List.getElem?_eq_some_iff.1 hx with ⟨hk, rfl⟩
  rcases List.getElem?_eq_some_iff.1 hy with ⟨hk', rfl⟩
  exact h.get hk hk'

/-- Damage to bodies and feet, of any number of frames, stays in the frames it hits: the loop cuts
the damaged stream at the same places, and gets for each block what `Contained` says; for a block
that is not hit this is the packet it would have got. -/
theorem damage_contained (w : Int32) (data : Bytes) (blocks : List Bytes) (tail : Bytes)
    (h : Segments (StreamBlock w) data blocks tail) (hsize : data.length < 2 ^ 31)
    (blocks' : List Bytes) (hdamage : List.Forall₂ (Damaged w) blocks blocks')
    (fuel : Nat) (hfuel : blocks.length < fuel) :
    ∃ packets packets' last : List (FSNetPacket × Int),
      decodeStream w fuel data = .ok (packets ++ last, []) ∧
      decodeStream w fuel (blocks'.flatten ++ tail) = .ok (packets' ++ last, []) ∧
      packets.length = blocks.length ∧ packets'.length = blocks.length ∧
      ∀ (k : Nat) (block block' : Bytes) (got got' : FSNetPacket × Int),
        blocks[k]? = some block → blocks'[k]? = some block' →
        packets[k]? = some got → packets'[k]? = some got' → Contained block block' got got' := by
  rcases damaged_blocks hdamage with ⟨hblocks', hlength⟩
  have hlen : data.length = blocks.flatten.length + tail.length := by
    rw [h.join, List.length_append]
  have hall : (blocks.flatten ++ tail).length < 2 ^ 31 := by rwa [← h.join]
  have hall' : (blocks'.flatten ++ tail).length < 2 ^ 31 := by
    rwa [List.length_append, hlength, ← hlen]
  rcases decodeStream_tail (stop_iff.1 h.stop) (by omega) with ⟨last, -, hlast⟩
  rcases decodeStream_blocks hlast h.isBlock hall with ⟨packets, hpackets, hdecode⟩
  rcases decodeStream_blocks hlast hblocks' hall' with ⟨packets', hpackets', hdecode'⟩
  rw [← h.join] at hdecode
  refine ⟨packets, packets', last, hdecode fuel hfuel,
    hdecode' fuel (hdamage.length_eq ▸ hfuel), hpackets.length_eq.symm,
    hpackets'.length_eq.symm.trans hdamage.length_eq.symm, ?_⟩
  intro k block block' got got' hblock hblock' hgot hgot'
  -- A block is no longer than the buffer it was cut from.
  have hshort : block.length < 2 ^ 31 := by
    have hmem : block.Sublist blocks.flatten :=
      List.sublist_flatten_of_mem (List.mem_of_getElem? hblock)
    have hle := hmem.length_le
    omega
  exact (forall₂_getElem? hdamage hblock hblock').contained hshort
    (forall₂_getElem? hpackets hblock hgot) (forall₂_getElem? hpackets' hblock' hgot')

/-- The heartbeat with another byte in its timestamp. -/
def damagedBlock : Bytes :=
  heartbeatBlock.set 20 7

theorem damage_contained_heartbeat :
    ∃ packets packets' : List (FSNetPacket × Int),
      decodeStream defaultSyncwordInt32 2 heartbeatBlock = .ok (packets, []) ∧
      decodeStream defaultSyncwordInt32 2 damagedBlock = .ok (packets', []) := by
  have hsegments : Segments (StreamBlock defaultSyncwordInt32) heartbeatBlock [heartbeatBlock] [] :=
    { join := rfl
      isBlock := List.forall_mem_singleton.2 ⟨2, heartbeatBlock_blockAt⟩
      stop := by
        apply stop_iff.2
        intro i hframe
        exact absurd hframe.head_fits (by rw [List.length_nil]; omega) }
  have hdamage : List.Forall₂ (Damaged defaultSyncwordInt32) [heartbeatBlock] [damagedBlock] :=
    .cons ⟨2, heartbeatBlock_blockAt, by decide, by decide⟩ .nil
  rcases damage_contained defaultSyncwordInt32 heartbeatBlock [heartbeatBlock] [] hsegments
    (by decide) [damagedBlock] hdamage 2 (by decide) with
    ⟨packets, packets', last, hdecode, hdecode', -⟩
  exact ⟨packets ++ last, packets' ++ last, hdecode, hdecode'⟩

end Decoding

end FSNetPacket

end Septem
