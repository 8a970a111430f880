import Septem.Servo.StreamChunks
import Septem.Sockets.SocketLink

/-!
# PacketTransport — packets over a connection

A sender hands the frames of its packets to the `send` of one `CSocketTCP`, and the `recv` of
another one fills the buffers that the receive loop decodes.  Whatever the connection does, what has
been received is the beginning of what was handed to `send` (`Link.Sound`), and the beginning of a
stream of frames carries exactly the packets whose frames have arrived whole (`cleanStream_arrived`).
Together: the packets received are the first ones sent (`packets_arrive`).
-/

namespace Septem

open Cxx CSocketTCP
open scoped List

/-- What the operation hands to `send`. -/
def LinkOp.data : LinkOp → Bytes
  | .send data => data
  | .sendRound _ => []
  | .recv _ => []
  | .recvRound _ => []

namespace Link

/-- What `send` has been called with. -/
def handed (s : Link) : Bytes :=
  s.offered ++ s.sendingData

section Handed

variable {s s' : Link}

theorem handed_congr (hsends : s'.sends = s.sends) (hsending : s'.sending = s.sending) :
    s'.handed = s.handed := by
  rw [handed, handed, offered, offered, sendingData, sendingData, hsends, hsending]

/-- A call of `send` ends. -/
theorem handed_returned {data : Bytes} {l : Nat} (hsends : s'.sends = s.sends ++ [(data, l)])
    (hsending : s'.sending = none) : s'.handed = s.offered ++ data := by
  rw [handed, offered_concat hsends, sendingData, hsending, Option.elim_none, List.append_nil]

/-- A call of `send` goes on. -/
theorem handed_round {data : Bytes} {l : Nat} (hsends : s'.sends = s.sends)
    (hsending : s'.sending = some (data, l)) : s'.handed = s.offered ++ data := by
  rw [handed, offered, hsends, sendingData, hsending, Option.elim_some, offered]

theorem handed_idle (hidle : s.sending = none) : s.handed = s.offered := by
  rw [handed, sendingData, hidle, Option.elim_none, List.append_nil]

theorem step_handed {op : LinkOp} (hop : s.Allowed op) (hstep : step s op = .ok s') :
    s'.handed = s.handed ++ op.data := by
  cases op with
  | send data =>
      rw [handed_idle hop, LinkOp.data]
      cases htransfer : s.sender.transfer data.length with
      | returned l =>
          simp only [step, htransfer, Checked.pure_eq_ok, Except.ok.injEq] at hstep
          subst hstep
          exact handed_returned rfl hop
      | round l =>
          simp only [step, htransfer, Checked.pure_eq_ok, Except.ok.injEq] at hstep
          subst hstep
          exact handed_round rfl rfl
  | sendRound n =>
      rw [LinkOp.data, List.append_nil]
      cases hsending : s.sending with
      | none =>
          simp only [step, hsending, Checked.pure_eq_ok, Except.ok.injEq] at hstep
          rw [hstep]
      | some call =>
          rcases call with ⟨data, l⟩
          have hhanded : s.handed = s.offered ++ data := handed_round rfl hsending
          rw [hhanded]
          rcases hround : s.sender.transferRound data.length l n with ⟨sender, transfer⟩
          cases transfer with
          | returned l' =>
              simp only [step, hsending, hround, Checked.pure_eq_ok, Except.ok.injEq] at hstep
              subst hstep
              exact handed_returned rfl rfl
          | round l' =>
              simp only [step, hsending, hround, Checked.pure_eq_ok, Except.ok.injEq] at hstep
              subst hstep
              exact handed_round rfl rfl
  | recv count =>
      rw [LinkOp.data, List.append_nil]
      cases htransfer : s.receiver.transfer count with
      | returned l =>
          simp only [step, htransfer, Checked.pure_eq_ok, Except.ok.injEq] at hstep
          subst hstep
          exact handed_congr rfl rfl
      | round l =>
          simp only [step, htransfer, Checked.pure_eq_ok, Except.ok.injEq] at hstep
          subst hstep
          exact handed_congr rfl rfl
  | recvRound n =>
      rw [LinkOp.data, List.append_nil]
      cases hreceiving : s.receiving with
      | none =>
          simp only [step, hreceiving, Checked.pure_eq_ok, Except.ok.injEq] at hstep
          rw [hstep]
      | some call =>
          rcases call with ⟨count, data⟩
          rcases hround : s.receiver.transferRound count data.length n with ⟨receiver, transfer⟩
          cases transfer with
          | returned l' =>
              simp only [step, hreceiving, hround, Checked.pure_eq_ok, Except.ok.injEq] at hstep
              subst hstep
              exact handed_congr rfl rfl
          | round l' =>
              simp only [step, hreceiving, hround, Checked.pure_eq_ok, Except.ok.injEq] at hstep
              subst hstep
              exact handed_congr rfl rfl

end Handed

/-! ## Runs -/

/-- The connection is sound and has been handed `data`. -/
structure Carries (s : Link) (data : Bytes) : Prop extends Sound s where
  handed_eq : s.handed = data

theorem Carries.step {s : Link} {data : Bytes} (h : s.Carries data) {op : LinkOp}
    (hop : s.Allowed op) : ∃ s', Link.step s op = .ok s' ∧ s'.Carries (data ++ op.data) := by
  rcases step_sound h.toSound hop with ⟨s', hstep, hsound⟩
  refine ⟨s', hstep, hsound, ?_⟩
  rw [step_handed hop hstep, h.handed_eq]

theorem run_carries (sender receiver : CSocketTCP) {ops : List LinkOp}
    (h : Along Link.step Allowed (new sender receiver) ops) :
    ∃ s, run Link.step (new sender receiver) ops = .ok s ∧ s.Carries (ops.flatMap LinkOp.data) := by
  have hstep (s : Link) (data : Bytes) (op : LinkOp) (hs : s.Carries data) (hop : s.Allowed op) :
      ∃ s', Link.step s op = .ok s' ∧ s'.Carries (data ++ op.data) := hs.step hop
  have hnew : (new sender receiver).Carries [] := ⟨new_sound sender receiver, rfl⟩
  rw [List.flatMap_eq_foldl]
  exact run_simulates hstep hnew h

/-! ## Packets -/

open FSNetPacket (Arrived Delivered FramesOnly Received Sendable encodeStream cleanStream_arrived
  twoHeartbeats sendable_twoHeartbeats framesOnly_twoHeartbeats)

/-- Sealed packets and heartbeats, with the syncword at the starts of their frames only, are handed
to `send` in any number of calls.  However the system calls of the two ends are interleaved, however
little each of them transfers and wherever one fails: the receive loop gets from what has been
received exactly the packets whose frames have arrived whole, and these are the first ones sent.
When the sender is still valid, has handed over all and nothing is under way, they are all packets.
Called on the buffer of each `recv` instead, the loop misses at most one packet for each cut. -/
theorem packets_arrive (w : Int32) (items : List (Bytes × FSNetPacket)) (stream : Bytes)
    (hsend : ∀ item ∈ items, Sendable w item.2) (honly : FramesOnly w items)
    (hstream : encodeStream items = .ok stream) (hsize : stream.length < 2 ^ 31)
    (sender receiver : CSocketTCP) (ops : List LinkOp)
    (hops : Along step Allowed (new sender receiver) ops)
    (hhanded : ops.flatMap LinkOp.data <+: stream) :
    ∃ (s : Link) (packets : List FSNetPacket) (k : Nat),
      run step (new sender receiver) ops = .ok s ∧
      List.Forall₂ (fun item packet => ∃ n, Delivered item (packet, n)) items packets ∧
      Arrived items s.received k ∧ Received w s.received (packets.take k) ∧
      (s.sender.isValid = true → s.sending = none → s.wire = [] →
        ops.flatMap LinkOp.data = stream → k = items.length) ∧
      (s.receiving = none → ∃ parts : List (List FSNetPacket),
        List.Forall₂ (Received w) (s.recvs.map Prod.snd) parts ∧
        parts.flatten <+ packets.take k ∧ k ≤ parts.flatten.length + (s.recvs.length - 1)) := by
  rcases run_carries sender receiver hops with ⟨s, hrun, hs⟩
  -- The connection keeps the order, so what has arrived begins the stream.
  have hprefix : s.received <+: stream := by
    rw [← hs.handed_eq] at hhanded
    exact hs.received_prefix.trans hhanded
  have hlength : s.received.length < 2 ^ 31 := Nat.lt_of_le_of_lt hprefix.length_le hsize
  rcases cleanStream_arrived items hsend honly hstream hprefix with
    ⟨packets, k, hdelivered, harrived, hclean⟩
  refine ⟨s, packets, k, hrun, hdelivered, harrived, hclean.received hlength, ?_, ?_⟩
  · intro hvalid hidle hwire hall
    -- Nothing is left on the way, so the whole stream has arrived.
    rw [hs.received_eq hvalid hidle hwire, ← handed_idle hidle, hs.handed_eq, hall] at harrived
    exact harrived.all hstream
  · intro hidle
    -- The buffers that `recv` has filled, one after the other, are what has been received.
    have hjoin : (s.recvs.map Prod.snd).flatten = s.received := by
      rw [received, hidle, Option.elim_none, List.append_nil]
    have hsizes (chunk : Bytes) (hchunk : chunk ∈ s.recvs.map Prod.snd) :
        chunk.length < 2 ^ 31 := by
      have hle := (List.sublist_flatten_of_mem hchunk).length_le
      rw [hjoin] at hle
      exact Nat.lt_of_le_of_lt hle hlength
    rcases hclean.chunks hsizes hjoin with ⟨parts, hparts, hsublist, hcount⟩
    have hk : k ≤ packets.length := hdelivered.length_eq ▸ harrived.le_length
    rw [List.length_take, Nat.min_eq_left hk, List.length_map] at hcount
    exact ⟨parts, hparts, hsublist, hcount⟩

/-- Two heartbeats are sent; the second one is still under way in part. -/
theorem packets_arrive_twoHeartbeats :
    let one : CSocketTCP :=
      { source := { valid := true }, dest := { valid := true }, socket := 3, valid := true }
    ∃ (stream : Bytes) (s : Link) (packets : List FSNetPacket) (k : Nat),
      encodeStream twoHeartbeats = .ok stream ∧
      run step (new one one) [.send stream, .recv 30, .sendRound 40, .recvRound 30] = .ok s ∧
      s.received = stream.take 30 ∧ Arrived twoHeartbeats s.received k ∧
      Received defaultSyncwordInt32 s.received (packets.take k) := by
  intro one
  have hsent : ∃ stream, encodeStream twoHeartbeats = .ok stream ∧ stream.length < 2 ^ 31 ∧
      Along step Allowed (new one one) [.send stream, .recv 30, .sendRound 40, .recvRound 30] ∧
      ∃ s, run step (new one one) [.send stream, .recv 30, .sendRound 40, .recvRound 30] = .ok s ∧
        s.received = stream.take 30 :=
    ⟨_, rfl, by decide, by decide, _, rfl, by decide⟩
  rcases hsent with ⟨stream, hstream, hsize, hops, s, hrun, hreceived⟩
  have hhanded : [LinkOp.send stream, .recv 30, .sendRound 40, .recvRound 30].flatMap LinkOp.data
      <+: stream := by simp [LinkOp.data]
  rcases packets_arrive defaultSyncwordInt32 twoHeartbeats stream sendable_twoHeartbeats
    framesOnly_twoHeartbeats hstream hsize one one _ hops hhanded with
    ⟨s', packets, k, hrun', -, harrived, hgot, -⟩
  rw [hrun] at hrun'
  cases hrun'
  exact ⟨stream, s, packets, k, hstream, hrun, hreceived, harrived, hgot⟩

end Link

end Septem
