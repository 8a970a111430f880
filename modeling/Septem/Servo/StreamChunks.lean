import Septem.Servo.StreamSegments

/-!
# StreamChunks — a stream that arrives in pieces

The receive loop is called with one buffer after the other and keeps nothing from one call to the
next, so a frame that is cut by the end of a buffer is lost.  `CleanStream` describes a stream of
complete frames in which the syncword stands at the frame starts only.  However such a stream is
cut, each cut costs at most one packet, and no cut makes the loop take anything else for a packet
(`chunks_delivered`).
-/

namespace Septem

open Cxx
open scoped List

section Prepend

variable {w : Int32} {pre data block : Bytes} {i : Nat} {before after : FSNetPacket}

/-! ## Bytes in front of a frame -/

theorem syncword_ne_nil (w : Int32) : toBytes w ≠ [] := by
  have hword : (toBytes w).length = 4 := length_toBytes w
  intro hnil
  rw [hnil] at hword
  cases hword

theorem headAt_prepend : headAt (pre ++ data) (pre.length + i) = headAt data i := by
  rw [headAt, slice_append_right, headAt]

theorem complete_prepend_iff (h : FSNetBufferHead) (index : Nat) :
    Complete h (pre ++ data) (pre.length + index) ↔ Complete h data index := by
  rw [Complete, Complete, List.length_append]
  constructor
  · rintro ⟨hnonneg, hroom⟩
    exact ⟨hnonneg, by omega⟩
  · rintro ⟨hnonneg, hroom⟩
    exact ⟨hnonneg, by omega⟩

/-- The first syncword behind bytes in which none starts. -/
theorem SyncwordAt.prepend (h : SyncwordAt w data i)
    (hquiet : ∀ j < pre.length, ¬ OccursAt (toBytes w) (pre ++ data) j) :
    SyncwordAt w (pre ++ data) (pre.length + i) := by
  rcases h with ⟨hfit, hat, hbefore⟩
  refine ⟨by rw [List.length_append]; omega, (occursAt_prepend_iff pre).2 hat, ?_⟩
  intro j hj hoccurs
  by_cases hpre : j < pre.length
  · exact hquiet j hpre hoccurs
  · obtain ⟨j', rfl⟩ := Nat.exists_eq_add_of_le (Nat.not_lt.1 hpre)
    exact hbefore j' (Nat.lt_of_add_lt_add_left hj) ((occursAt_prepend_iff pre).1 hoccurs)

theorem SyncwordAt.unprepend (h : SyncwordAt w (pre ++ data) (pre.length + i)) :
    SyncwordAt w data i := by
  rcases h with ⟨hfit, hat, hbefore⟩
  rw [List.length_append] at hfit
  refine ⟨by omega, (occursAt_prepend_iff pre).1 hat, ?_⟩
  intro j hj hoccurs
  exact hbefore _ (Nat.add_lt_add_left hj _) ((occursAt_prepend_iff pre).2 hoccurs)

/-- A frame behind bytes in which no syncword starts. -/
theorem FrameAt.prepend (h : FrameAt w data i)
    (hquiet : ∀ j < pre.length, ¬ OccursAt (toBytes w) (pre ++ data) j) :
    FrameAt w (pre ++ data) (pre.length + i) where
  syncword := h.syncword.prepend hquiet
  head_fits := by
    have hfit := h.head_fits
    rw [List.length_append]
    omega
  complete := by
    rw [headAt_prepend, Nat.add_assoc]
    exact (complete_prepend_iff _ _).2 h.complete

theorem FrameAt.unprepend (h : FrameAt w (pre ++ data) (pre.length + i)) : FrameAt w data i where
  syncword := h.syncword.unprepend
  head_fits := by
    have hfit := h.head_fits
    rw [List.length_append] at hfit
    omega
  complete := by
    have hcomplete := h.complete
    rw [headAt_prepend, Nat.add_assoc] at hcomplete
    exact (complete_prepend_iff _ _).1 hcomplete

/-- A packet is read from the frame alone. -/
theorem frameRead_prepend_iff (pre : Bytes) :
    FrameRead before after (pre ++ data) (pre.length + i) ↔ FrameRead before after data i := by
  constructor
  · intro h
    have hbody := h.body
    have hfoot := h.foot
    have hintegrity := h.integrity
    rw [slice_append_right] at hbody hintegrity
    rw [Nat.add_assoc, footAt, slice_append_right] at hfoot
    exact ⟨⟨h.head, hbody, h.bodyKept⟩, hfoot, h.sid, hintegrity⟩
  · intro h
    have hbody := h.body
    have hfoot := h.foot
    have hintegrity := h.integrity
    rw [← slice_append_right pre] at hbody hintegrity
    rw [footAt, ← slice_append_right pre, ← Nat.add_assoc] at hfoot
    exact ⟨⟨h.head, hbody, h.bodyKept⟩, hfoot, h.sid, hintegrity⟩

/-- What follows a buffer does not change its first frame. -/
theorem FrameAt.append (h : FrameAt w data i) (rest : Bytes) : FrameAt w (data ++ rest) i := by
  have hframe := (FSNetPacket.blockAt_take h).frameAt_append
    (data.drop (i + 24 + (headAt data i).bodyLength.toNat) ++ rest)
  rwa [← List.append_assoc, List.take_append_drop] at hframe

namespace FSNetPacket

theorem BlockAt.prepend (h : BlockAt w block i)
    (hquiet : ∀ j < pre.length, ¬ OccursAt (toBytes w) (pre ++ block) j) :
    BlockAt w (pre ++ block) (pre.length + i) where
  toFrameAt := h.toFrameAt.prepend hquiet
  length_eq := by
    have hlength := h.length_eq
    rw [headAt_prepend, List.length_append]
    omega

theorem BlockAt.unprepend (h : BlockAt w (pre ++ block) (pre.length + i)) : BlockAt w block i where
  toFrameAt := h.toFrameAt.unprepend
  length_eq := by
    have hlength := h.length_eq
    rw [headAt_prepend, List.length_append] at hlength
    omega

end FSNetPacket

end Prepend

namespace FSNetPacket

/-! ## Clean streams -/

/-- The stream carries the packets, one in each of its frames, with noise in front of the frames; the
syncword stands at the start of the frames and nowhere else in them, nor twice in what is left
behind the last one. -/
inductive CleanStream (w : Int32) : Bytes → List FSNetPacket → Prop
  | tail {tail : Bytes} (hnone : ∀ i, ¬ FrameAt w tail i)
      (honce : ∀ i j, OccursAt (toBytes w) tail i → OccursAt (toBytes w) tail j → i = j) :
      CleanStream w tail []
  | frame {block rest : Bytes} {i : Nat} {packet : FSNetPacket} {packets : List FSNetPacket}
      (hblock : BlockAt w block i)
      (hread : FrameRead (withHead (headAt block i)) packet block (i + 16))
      (honce : ∀ j < block.length, OccursAt (toBytes w) (block ++ rest) j → j = i)
      (h : CleanStream w rest packets) : CleanStream w (block ++ rest) (packet :: packets)

section CleanStream

variable {w : Int32} {data front back : Bytes} {packets : List FSNetPacket}

/-- Bytes in which no syncword starts are noise. -/
theorem CleanStream.prepend {pre : Bytes} (h : CleanStream w data packets)
    (hquiet : ∀ j < pre.length, ¬ OccursAt (toBytes w) (pre ++ data) j) :
    CleanStream w (pre ++ data) packets := by
  -- Whatever stands in the longer stream stands behind the noise.
  have hbehind {j : Nat} (hoccurs : OccursAt (toBytes w) (pre ++ data) j) :
      ∃ j', j = pre.length + j' ∧ OccursAt (toBytes w) data j' := by
    by_cases hj : j < pre.length
    · exact absurd hoccurs (hquiet j hj)
    · obtain ⟨j', rfl⟩ := Nat.exists_eq_add_of_le (Nat.not_lt.1 hj)
      exact ⟨j', rfl, (occursAt_prepend_iff pre).1 hoccurs⟩
  cases h with
  | tail hnone honce =>
      refine .tail ?_ ?_
      · intro k hframe
        rcases hbehind hframe.syncword.2.1 with ⟨i, rfl, -⟩
        exact hnone i hframe.unprepend
      · intro j k hj hk
        rcases hbehind hj with ⟨j', rfl, hj'⟩
        rcases hbehind hk with ⟨k', rfl, hk'⟩
        rw [honce j' k' hj' hk']
  | @frame block rest i packet packets hblock hread honce h =>
      rw [← List.append_assoc]
      have hquiet' (j : Nat) (hj : j < pre.length) : ¬ OccursAt (toBytes w) (pre ++ block) j := by
        intro hoccurs
        have hlonger := hoccurs.append rest (syncword_ne_nil w)
        rw [List.append_assoc] at hlonger
        exact hquiet j hj hlonger
      refine .frame (hblock.prepend hquiet') ?_ ?_ h
      · rw [headAt_prepend, Nat.add_assoc]
        exact (frameRead_prepend_iff pre).2 hread
      · intro j hj hoccurs
        rw [List.append_assoc] at hoccurs
        rcases hbehind hoccurs with ⟨j', rfl, hj'⟩
        rw [List.length_append] at hj
        rw [honce j' (Nat.lt_of_add_lt_add_left hj) hj']

/-- What is left of a stream without a frame is cut anywhere. -/
theorem cut_tail (hnone : ∀ i, ¬ FrameAt w (front ++ back) i)
    (honce : ∀ i j, OccursAt (toBytes w) (front ++ back) i →
      OccursAt (toBytes w) (front ++ back) j → i = j) :
    CleanStream w front [] ∧ CleanStream w back [] := by
  constructor
  · refine .tail (fun i hframe => hnone i (hframe.append back)) ?_
    intro i j hi hj
    exact honce i j (hi.append back (syncword_ne_nil w)) (hj.append back (syncword_ne_nil w))
  · refine .tail ?_ ?_
    · -- There is one syncword only, so the first one behind the cut is the first one of all.
      intro i hframe
      have hat := (occursAt_prepend_iff front).2 hframe.syncword.2.1
      refine hnone (front.length + i) (hframe.prepend ?_)
      intro j hj hoccurs
      have hsame := honce j (front.length + i) hoccurs hat
      omega
    · intro i j hi hj
      have hsame := honce _ _ ((occursAt_prepend_iff front).2 hi)
        ((occursAt_prepend_iff front).2 hj)
      exact Nat.add_left_cancel hsame

variable {left rest : Bytes} {i : Nat} {packet : FSNetPacket}

/-- A block that is not complete contains no frame. -/
theorem cut_front (hblock : BlockAt w (front ++ left) i) (hleft : left ≠ [])
    (honce : ∀ j < (front ++ left).length,
      OccursAt (toBytes w) (front ++ left ++ rest) j → j = i) : CleanStream w front [] := by
  have hat {j : Nat} (hoccurs : OccursAt (toBytes w) front j) : j = i := by
    have hfit := hoccurs.fits (syncword_ne_nil w)
    have hword : (toBytes w).length = 4 := length_toBytes w
    have hlonger := (hoccurs.append left (syncword_ne_nil w)).append rest (syncword_ne_nil w)
    exact honce j (by rw [List.length_append]; omega) hlonger
  refine .tail ?_ ?_
  · intro k hframe
    obtain rfl := hat hframe.syncword.2.1
    have hlength := hblock.length_eq
    have hroom := hframe.complete.2
    have hpos := List.length_pos_iff.2 hleft
    rw [headAt_append left hframe.head_fits, List.length_append] at hlength
    omega
  · intro j k hj hk
    rw [hat hj, hat hk]

/-- The rest of a frame that has been cut is noise. -/
theorem cut_frame (h : CleanStream w rest packets) (hcut : i < front.length)
    (honce : ∀ j < (front ++ left).length,
      OccursAt (toBytes w) (front ++ left ++ rest) j → j = i) :
    CleanStream w (left ++ rest) packets := by
  refine h.prepend ?_
  intro j hj hoccurs
  have hlonger := (occursAt_prepend_iff front).2 hoccurs
  rw [← List.append_assoc] at hlonger
  have hsame := honce _ (by rw [List.length_append]; omega) hlonger
  omega

/-- Noise that has been cut leaves noise. -/
theorem cut_noise (h : CleanStream w rest packets) (hcut : front.length ≤ i)
    (hblock : BlockAt w (front ++ left) i)
    (hread : FrameRead (withHead (headAt (front ++ left) i)) packet (front ++ left) (i + 16))
    (honce : ∀ j < (front ++ left).length,
      OccursAt (toBytes w) (front ++ left ++ rest) j → j = i) :
    CleanStream w (left ++ rest) (packet :: packets) := by
  obtain ⟨i, rfl⟩ := Nat.exists_eq_add_of_le hcut
  rw [headAt_prepend, Nat.add_assoc, frameRead_prepend_iff] at hread
  refine .frame hblock.unprepend hread ?_ h
  intro j hj hoccurs
  have hlonger := (occursAt_prepend_iff front).2 hoccurs
  rw [← List.append_assoc] at hlonger
  exact Nat.add_left_cancel (honce _ (by rw [List.length_append]; omega) hlonger)

/-- A clean stream that is cut anywhere makes two clean streams, and at most one packet is lost:
the one through whose frame the cut goes. -/
theorem CleanStream.cut (h : CleanStream w data packets) (hjoin : data = front ++ back) :
    ∃ got lost later, packets = got ++ lost ++ later ∧ lost.length ≤ 1 ∧
      CleanStream w front got ∧ CleanStream w back later := by
  induction h generalizing front with
  | tail hnone honce =>
      subst hjoin
      rcases cut_tail hnone honce with ⟨hfront, hback⟩
      exact ⟨[], [], [], rfl, Nat.zero_le 1, hfront, hback⟩
  | @frame block rest i packet packets hblock hread honce h ih =>
      -- The first block and the part in front of the cut begin the same buffer, so one begins the
      -- other.
      have hblockPrefix : block <+: front ++ back := hjoin ▸ List.prefix_append block rest
      have hfrontPrefix : front <+: front ++ back := List.prefix_append front back
      rcases Nat.lt_or_ge front.length block.length with hless | hge
      · rcases List.prefix_of_prefix_length_le hfrontPrefix hblockPrefix (Nat.le_of_lt hless) with
          ⟨left, rfl⟩
        rw [List.append_assoc] at hjoin
        obtain rfl := List.append_cancel_left hjoin
        have hleft : left ≠ [] := by
          rintro rfl
          rw [List.append_nil] at hless
          exact Nat.lt_irrefl _ hless
        have hfront := cut_front hblock hleft honce
        -- A cut through the frame loses its packet, a cut through the noise in front of it does
        -- not.
        by_cases hcut : i < front.length
        · exact ⟨[], [packet], packets, rfl, Nat.le_refl 1, hfront, cut_frame h hcut honce⟩
        · exact ⟨[], [], packet :: packets, rfl, Nat.zero_le 1, hfront,
            cut_noise h (Nat.not_lt.1 hcut) hblock hread honce⟩
      · -- The cut is behind the block.
        rcases List.prefix_of_prefix_length_le hblockPrefix hfrontPrefix hge with ⟨front', rfl⟩
        rw [List.append_assoc] at hjoin
        have hrest : rest = front' ++ back := List.append_cancel_left hjoin
        rcases ih hrest with ⟨got, lost, later, hpackets, hlost, hfront, hback⟩
        refine ⟨packet :: got, lost, later, by rw [hpackets]; rfl, hlost, ?_, hback⟩
        refine .frame hblock hread ?_ hfront
        intro j hj hoccurs
        refine honce j hj ?_
        rw [hrest, ← List.append_assoc]
        exact hoccurs.append back (syncword_ne_nil w)

/-! ## What the receive loop gets -/

/-- The receive loop, called on the buffer, gets the packets, and behind them at most one more,
which is not valid. -/
def Received (w : Int32) (buffer : Bytes) (packets : List FSNetPacket) : Prop :=
  ∃ (got last : List (FSNetPacket × Int)) (tail : Bytes), got.map Prod.fst = packets ∧
    LastRound tail last ∧
    ∀ fuel, buffer.length < fuel → decodeStream w fuel buffer = .ok (got ++ last, [])

theorem CleanStream.received (h : CleanStream w data packets) (hsize : data.length < 2 ^ 31) :
    Received w data packets := by
  induction h with
  | @tail tail hnone honce =>
      rcases decodeStream_tail hnone hsize with ⟨last, hlast, hdecode⟩
      refine ⟨[], last, tail, rfl, hlast, ?_⟩
      intro fuel hfuel
      exact hdecode fuel (Nat.zero_lt_of_lt hfuel)
  | @frame block rest i packet packets hblock hread honce h ih =>
      have hlen : (block ++ rest).length = block.length + rest.length := List.length_append
      have hne : block ≠ [] := (streamBlock_cuts w).ne_nil ⟨i, hblock⟩
      have hpos := List.length_pos_iff.2 hne
      -- The loop reads the packet that the stream carries in this frame.
      rcases hblock.reUse rest hsize with ⟨packet', hreUse, hread'⟩
      obtain rfl := frameRead_unique hread hread'
      rcases ih (by omega) with ⟨got, last, tail, hgot, hlast, hdecode⟩
      refine ⟨(packet, block.length) :: got, last, tail, by rw [List.map_cons, hgot], hlast, ?_⟩
      intro fuel hfuel
      cases fuel with
      | zero => exact absurd hfuel (Nat.not_lt_zero _)
      | succ fuel => exact decodeStream_round hne hreUse rfl (hdecode fuel (by omega))

/-- Cut into buffers, a clean stream is received without at most one packet for each cut, in order,
and nothing else is received. -/
theorem CleanStream.chunks (h : CleanStream w data packets) {chunks : List Bytes}
    (hsize : ∀ chunk ∈ chunks, chunk.length < 2 ^ 31) (hjoin : chunks.flatten = data) :
    ∃ parts : List (List FSNetPacket), List.Forall₂ (Received w) chunks parts ∧
      parts.flatten <+ packets ∧
      packets.length ≤ parts.flatten.length + (chunks.length - 1) := by
  induction chunks generalizing data packets with
  | nil =>
      subst hjoin
      have hnil : packets = [] := by
        generalize hdata : ([] : List Bytes).flatten = data at h
        cases h with
        | tail => rfl
        | frame hblock =>
            rcases List.append_eq_nil_iff.1 hdata.symm with ⟨hempty, -⟩
            exact absurd hempty ((streamBlock_cuts w).ne_nil ⟨_, hblock⟩)
      rw [hnil]
      exact ⟨[], .nil, .refl [], Nat.zero_le _⟩
  | cons chunk chunks ih =>
      have hsplit : data = chunk ++ chunks.flatten := hjoin.symm
      have hfirst := hsize chunk List.mem_cons_self
      cases chunks with
      | nil =>
          rw [List.flatten_nil, List.append_nil] at hsplit
          subst hsplit
          refine ⟨[packets], .cons (h.received hfirst) .nil, ?_, Nat.le_add_right_of_le ?_⟩
          · rw [List.flatten_singleton]
          · rw [List.flatten_singleton]
      | cons next chunks =>
          -- One packet at most is lost at this cut, and the rest is a clean stream again.
          rcases h.cut hsplit with ⟨got, lost, later, rfl, hlost, hfront, hback⟩
          rcases ih hback (fun later hlater => hsize later (List.mem_cons_of_mem chunk hlater)) rfl
            with ⟨parts, hparts, hsublist, hcount⟩
          refine ⟨got :: parts, .cons (hfront.received hfirst) hparts, ?_, ?_⟩
          · rw [List.flatten_cons]
            exact (List.sublist_append_left got lost).append hsublist
          · rw [List.flatten_cons]
            simp only [List.length_append, List.length_cons] at hcount ⊢
            omega

end CleanStream

/-! ## From the sender -/

/-- In the stream that is sent the syncword stands at the starts of the frames only. -/
def FramesOnly (w : Int32) : List (Bytes × FSNetPacket) → Prop
  | [] => True
  | (noise, p) :: items =>
      (∀ stream, encodeStream ((noise, p) :: items) = .ok stream →
        ∀ j < noise.length + p.wire.length, OccursAt (toBytes w) stream j → j = noise.length) ∧
      FramesOnly w items

section Sender

variable {w : Int32} {p : FSNetPacket} {noise rest : Bytes}

/-- A frame behind noise is a block. -/
theorem blockAt_wire (hp : Sendable w p)
    (honly : ∀ j < noise.length + p.wire.length,
      OccursAt (toBytes w) (noise ++ (p.wire ++ rest)) j → j = noise.length) :
    BlockAt w (noise ++ p.wire) noise.length := by
  have hw := hp.syncword
  have hhead := p.headAt_wire noise []
  have hat : OccursAt (toBytes w) (noise ++ p.wire) (noise.length + 0) := by
    rw [← hw]
    exact (occursAt_prepend_iff noise).2 p.firstOccurrence_wire.1
  have hfirst : FirstOccurrence (toBytes w) (noise ++ p.wire) noise.length := by
    refine ⟨hat, ?_⟩
    intro j hj hoccurs
    have hlonger := hoccurs.append rest (syncword_ne_nil w)
    rw [List.append_assoc] at hlonger
    exact Nat.ne_of_lt hj (honly j (Nat.lt_add_right _ hj) hlonger)
  rw [← hw] at hfirst
  have hframe := p.frameAt_wire noise [] hp.sized hfirst
  rw [List.append_nil] at hframe hhead
  rw [hw] at hframe
  refine ⟨hframe, ?_⟩
  rw [hhead, bodyLength_of_sized hp.sized, List.length_append, length_wire]
  omega

/-- The frame of an item stands in front of what is sent for the others. -/
theorem encodeStream_cons {item : Bytes × FSNetPacket} {items : List (Bytes × FSNetPacket)}
    {sent : Bytes} (hfits : item.2.Fits) (hsent : encodeStream items = .ok sent) :
    encodeStream (item :: items) = .ok (item.1 ++ item.2.wire ++ sent) := by
  rw [encodeStream, writeToArray_eq hfits, Checked.ok_bind, hsent, List.append_assoc]
  rfl

theorem encodeStream_cons_inv {item : Bytes × FSNetPacket} {items : List (Bytes × FSNetPacket)}
    {stream : Bytes} (hstream : encodeStream (item :: items) = .ok stream) :
    item.2.Fits ∧ ∃ tail, encodeStream items = .ok tail ∧
      stream = item.1 ++ item.2.wire ++ tail := by
  rcases Checked.bind_eq_ok.1 hstream with ⟨frame, hframe, hrest⟩
  rcases Checked.bind_eq_ok.1 hrest with ⟨tail, htail, hcat⟩
  cases hcat
  rcases writeToArray_inv hframe with ⟨hfits, rfl⟩
  exact ⟨hfits, tail, htail, (List.append_assoc _ _ _).symm⟩

/-- Noise in front of a frame is only counted. -/
theorem Delivered.prepend {packet : FSNetPacket} {n : Int} (h : Delivered ([], p) (packet, n))
    (noise : Bytes) : Delivered (noise, p) (packet, noise.length + n) where
  integrity := h.integrity
  head := h.head
  foot := h.foot
  body := h.body
  bytesRead := by
    have hbytes := h.bytesRead
    simp only [List.length_nil] at hbytes ⊢
    omega

/-- The packet that is read from the frame of an item is the one that is delivered. -/
theorem frameRead_item (hp : Sendable w p) (hfits : p.Fits)
    (hblock : BlockAt w (noise ++ p.wire) noise.length) :
    ∃ packet, FrameRead (withHead (headAt (noise ++ p.wire) noise.length)) packet
        (noise ++ p.wire) (noise.length + 16) ∧
      ∃ n, Delivered (noise, p) (packet, n) := by
  -- The frame is short enough for a buffer, whatever noise there is in front of it.
  have hlined : BlockAt w (noise ++ p.wire) (noise.length + 0) := hblock
  have hbare : BlockAt w p.wire 0 := hlined.unprepend
  have hsize : ([] ++ (p.wire ++ [])).length < 2 ^ 31 := by
    rw [List.nil_append, List.append_nil, length_wire]
    exact hfits
  rcases hbare.reUse [] hsize with ⟨packet, hreUse, hread⟩
  rcases reUse_item hp [] [] hsize hbare.syncword.2 with ⟨got, hgot, hgives⟩
  rw [List.nil_append] at hgot
  rw [hgot] at hreUse
  obtain rfl : got = packet := congrArg Prod.fst (Except.ok.inj hreUse)
  have hhead : headAt (noise ++ p.wire) noise.length = headAt p.wire 0 := by
    rw [← Nat.add_zero noise.length, headAt_prepend]
  refine ⟨got, ?_, _, hgives.prepend noise⟩
  rw [hhead]
  exact (frameRead_prepend_iff noise).2 hread

/-- The first `k` items have arrived whole, and no more. -/
structure Arrived (items : List (Bytes × FSNetPacket)) (received : Bytes) (k : Nat) : Prop where
  le_length : k ≤ items.length
  whole_iff : ∀ j ≤ items.length, ∃ sent, encodeStream (items.take j) = .ok sent ∧
    (sent <+: received ↔ j ≤ k)

/-- The first item has not arrived whole. -/
theorem Arrived.zero {item : Bytes × FSNetPacket} {items : List (Bytes × FSNetPacket)}
    {received tail : Bytes} {k : Nat} (h : Arrived items tail k)
    (hfits : item.2.Fits) (hshort : received.length < (item.1 ++ item.2.wire).length) :
    Arrived (item :: items) received 0 where
  le_length := Nat.zero_le _
  whole_iff j hj := by
    cases j with
    | zero => exact ⟨[], rfl, iff_of_true List.nil_prefix (Nat.le_refl 0)⟩
    | succ j =>
        rcases h.whole_iff j (Nat.le_of_succ_le_succ hj) with ⟨sent, hsent, -⟩
        refine ⟨_, encodeStream_cons hfits hsent, iff_of_false ?_ (Nat.not_succ_le_zero j)⟩
        intro hprefix
        have hle := hprefix.length_le
        rw [List.length_append] at hle
        omega

/-- The first item, and `k` of the others. -/
theorem Arrived.succ {item : Bytes × FSNetPacket} {items : List (Bytes × FSNetPacket)}
    {received : Bytes} {k : Nat} (h : Arrived items received k) (hfits : item.2.Fits) :
    Arrived (item :: items) (item.1 ++ item.2.wire ++ received) (k + 1) where
  le_length := Nat.succ_le_succ h.le_length
  whole_iff j hj := by
    cases j with
    | zero => exact ⟨[], rfl, iff_of_true List.nil_prefix (Nat.zero_le _)⟩
    | succ j =>
        rcases h.whole_iff j (Nat.le_of_succ_le_succ hj) with ⟨sent, hsent, hiff⟩
        refine ⟨_, encodeStream_cons hfits hsent, ?_⟩
        rw [List.prefix_append_right_inj, hiff, Nat.succ_le_succ_iff]

/-- What has arrived of a stream in which the syncword stands at the starts of the frames only is a
clean stream, and carries the packets whose frames have arrived whole. -/
theorem cleanStream_arrived (items : List (Bytes × FSNetPacket)) {stream front : Bytes}
    (hsend : ∀ item ∈ items, Sendable w item.2) (honly : FramesOnly w items)
    (hstream : encodeStream items = .ok stream) (hfront : front <+: stream) :
    ∃ (packets : List FSNetPacket) (k : Nat),
      List.Forall₂ (fun item packet => ∃ n, Delivered item (packet, n)) items packets ∧
      Arrived items front k ∧ CleanStream w front (packets.take k) := by
  induction items generalizing stream front with
  | nil =>
      cases hstream
      obtain rfl := List.prefix_nil.1 hfront
      refine ⟨[], 0, .nil, ⟨Nat.le_refl 0, ?_⟩, .tail (fun i hframe => ?_) (fun i j hi _ => ?_)⟩
      · intro j hj
        exact ⟨[], by rw [List.take_nil]; rfl, iff_of_true List.prefix_rfl hj⟩
      · exact absurd hframe.head_fits (Nat.not_succ_le_zero _)
      · exact absurd (hi.fits (syncword_ne_nil w)) (Nat.not_succ_le_zero _)
  | cons item items ih =>
      rcases item with ⟨noise, p⟩
      rcases encodeStream_cons_inv hstream with ⟨hfits, tail, htail, rfl⟩
      have hp := hsend (noise, p) List.mem_cons_self
      have htailSend (item) (hitem : item ∈ items) := hsend item (List.mem_cons_of_mem _ hitem)
      have hthis := honly.1 _ hstream
      have hblock : BlockAt w (noise ++ p.wire) noise.length := by
        rw [List.append_assoc] at hthis
        exact blockAt_wire hp hthis
      rcases frameRead_item hp hfits hblock with ⟨packet, hread, hgives⟩
      rw [← List.length_append] at hthis
      rcases Nat.lt_or_ge front.length (noise ++ p.wire).length with hshort | hlong
      · -- The first frame is not complete.
        rcases ih htailSend honly.2 htail List.nil_prefix with
          ⟨packets, k, hdelivered, harrived, -⟩
        refine ⟨packet :: packets, 0, .cons hgives hdelivered, harrived.zero hfits hshort, ?_⟩
        rcases List.prefix_of_prefix_length_le hfront (List.prefix_append _ tail)
          (Nat.le_of_lt hshort) with ⟨left, hleft⟩
        rw [← hleft] at hblock hthis hshort
        refine cut_front hblock ?_ hthis
        rintro rfl
        rw [List.append_nil] at hshort
        exact Nat.lt_irrefl _ hshort
      · rcases List.prefix_of_prefix_length_le (List.prefix_append _ tail) hfront hlong with
          ⟨front', rfl⟩
        rw [List.prefix_append_right_inj] at hfront
        rcases ih htailSend honly.2 htail hfront with
          ⟨packets, k, hdelivered, harrived, hclean⟩
        refine ⟨packet :: packets, k + 1, .cons hgives hdelivered, harrived.succ hfits, ?_⟩
        rw [List.take_succ_cons]
        refine .frame hblock hread ?_ hclean
        intro j hj hoccurs
        rcases hfront with ⟨later, rfl⟩
        refine hthis j hj ?_
        rw [← List.append_assoc]
        exact hoccurs.append later (syncword_ne_nil w)

/-- The whole stream carries all packets. -/
theorem Arrived.all {items : List (Bytes × FSNetPacket)} {stream : Bytes} {k : Nat}
    (h : Arrived items stream k) (hstream : encodeStream items = .ok stream) : k = items.length := by
  rcases h.whole_iff items.length (Nat.le_refl _) with ⟨sent, hsent, hiff⟩
  rw [List.take_length, hstream] at hsent
  cases hsent
  exact Nat.le_antisymm h.le_length (hiff.1 List.prefix_rfl)

/-- What is sent is a clean stream if the syncword stands at the starts of the frames only, and
carries the packets that were sent. -/
theorem cleanStream_encodeStream (items : List (Bytes × FSNetPacket)) {stream : Bytes}
    (hsend : ∀ item ∈ items, Sendable w item.2) (honly : FramesOnly w items)
    (hstream : encodeStream items = .ok stream) :
    ∃ packets, CleanStream w stream packets ∧
      List.Forall₂ (fun item packet => ∃ n, Delivered item (packet, n)) items packets := by
  rcases cleanStream_arrived items hsend honly hstream List.prefix_rfl with
    ⟨packets, k, hdelivered, harrived, hclean⟩
  rw [harrived.all hstream, hdelivered.length_eq, List.take_length] at hclean
  exact ⟨packets, hclean, hdelivered⟩

end Sender

/-- Sealed packets and heartbeats are sent, and the stream arrives in pieces, cut anywhere, of fewer
than `2 ^ 31` bytes each.  The receive loop, called on the pieces one after the other, gets the
packets in order, all but at most one for each cut, and takes nothing else for a packet. -/
theorem chunks_delivered (w : Int32) (items : List (Bytes × FSNetPacket)) (stream : Bytes)
    (hsend : ∀ item ∈ items, Sendable w item.2) (honly : FramesOnly w items)
    (hstream : encodeStream items = .ok stream) (chunks : List Bytes)
    (hsize : ∀ chunk ∈ chunks, chunk.length < 2 ^ 31) (hjoin : chunks.flatten = stream) :
    ∃ (packets : List FSNetPacket) (parts : List (List FSNetPacket)),
      List.Forall₂ (fun item packet => ∃ n, Delivered item (packet, n)) items packets ∧
      List.Forall₂ (Received w) chunks parts ∧ parts.flatten <+ packets ∧
      items.length ≤ parts.flatten.length + (chunks.length - 1) := by
  rcases cleanStream_encodeStream items hsend honly hstream with
    ⟨packets, hclean, hdelivered⟩
  rcases hclean.chunks hsize hjoin with ⟨parts, hparts, hsublist, hcount⟩
  exact ⟨packets, parts, hdelivered, hparts, hsublist, hdelivered.length_eq ▸ hcount⟩

/-- A heartbeat behind two noise bytes, and another one. -/
def twoHeartbeats : List (Bytes × FSNetPacket) :=
  [([9, 9], createHeartbeat defaultSyncwordInt32 2), ([], createHeartbeat defaultSyncwordInt32 3)]

theorem sendable_twoHeartbeats : ∀ item ∈ twoHeartbeats, Sendable defaultSyncwordInt32 item.2 := by
  simp only [twoHeartbeats, List.forall_mem_cons]
  exact ⟨.createdHeartbeat 2, .createdHeartbeat 3, nofun⟩

theorem framesOnly_twoHeartbeats : FramesOnly defaultSyncwordInt32 twoHeartbeats := by
  refine ⟨fun stream hstream => ?_, fun stream hstream => ?_, trivial⟩
  · cases hstream
    decide
  · cases hstream
    decide

/-- The cut goes through the second of two frames. -/
theorem chunks_delivered_twoHeartbeats :
    ∃ (stream : Bytes) (packets : List FSNetPacket) (parts : List (List FSNetPacket)),
      encodeStream twoHeartbeats = .ok stream ∧
      List.Forall₂ (fun item packet => ∃ n, Delivered item (packet, n)) twoHeartbeats packets ∧
      List.Forall₂ (Received defaultSyncwordInt32) [stream.take 30, stream.drop 30] parts ∧
      parts.flatten <+ packets ∧ 2 ≤ parts.flatten.length + 1 := by
  have hsent : ∃ stream, encodeStream twoHeartbeats = .ok stream ∧
      ∀ chunk ∈ [stream.take 30, stream.drop 30], chunk.length < 2 ^ 31 :=
    ⟨_, rfl, by decide⟩
  rcases hsent with ⟨stream, hstream, hsize⟩
  have hjoin : [stream.take 30, stream.drop 30].flatten = stream := by simp
  rcases chunks_delivered defaultSyncwordInt32 twoHeartbeats stream sendable_twoHeartbeats
    framesOnly_twoHeartbeats hstream _ hsize hjoin with
    ⟨packets, parts, hdelivered, hparts, hsublist, hcount⟩
  exact ⟨stream, packets, parts, hstream, hdelivered, hparts, hsublist, hcount⟩

end FSNetPacket

end Septem
