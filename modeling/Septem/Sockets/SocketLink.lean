import Septem.Sockets.SocketTCP

/-!
# SocketLink — two `CSocketTCP` objects at the ends of a connection

One end calls `send`, the other `recv`.  Their loops are interleaved at the system calls, each of
which transfers some of the bytes it is asked to, or fails; the kernel keeps the order of the bytes
on the way.  A transfer that fails makes its socket invalid, and an invalid socket transfers
nothing any more; so what is sent later cannot close up with what was sent before a failure, and
what has been received is always the beginning of what `send` has been called with
(`link_delivers`).
-/

namespace Septem

open Cxx CSocketTCP

inductive LinkOp
  | send (data : Bytes)
  /-- the system call of the `send` in progress answers `n` -/
  | sendRound (n : Int)
  | recv (count : Nat)
  | recvRound (n : Int)
  deriving DecidableEq, Repr

structure Link where
  sender : CSocketTCP
  receiver : CSocketTCP
  /-- the bytes under way -/
  wire : Bytes := []
  /-- the data of the `send` in progress, and how many of them have been sent -/
  sending : Option (Bytes × Nat) := none
  /-- the count of the `recv` in progress, and what it has received -/
  receiving : Option (Nat × Bytes) := none
  /-- the data of the `send` calls that have returned, with what they returned -/
  sends : List (Bytes × Nat) := []
  /-- the counts of the `recv` calls that have returned, with what they received -/
  recvs : List (Nat × Bytes) := []
  deriving DecidableEq, Repr

namespace Link

def new (sender receiver : CSocketTCP) : Link :=
  { sender, receiver }

def step (s : Link) : LinkOp → Checked Link
  | .send data =>
      match s.sender.transfer data.length with
      | .returned l => pure { s with sends := s.sends ++ [(data, l)] }
      | .round l => pure { s with sending := some (data, l) }
  | .sendRound n =>
      match s.sending with
      | none => pure s
      | some (data, l) =>
          let wire := s.wire ++ slice data l n.toNat
          match s.sender.transferRound data.length l n with
          | (sender, .returned l) =>
              pure { s with sender, wire, sending := none, sends := s.sends ++ [(data, l)] }
          | (sender, .round l) => pure { s with sender, wire, sending := some (data, l) }
  | .recv count =>
      match s.receiver.transfer count with
      | .returned _ => pure { s with recvs := s.recvs ++ [(count, [])] }
      | .round _ => pure { s with receiving := some (count, []) }
  | .recvRound n =>
      match s.receiving with
      | none => pure s
      | some (count, data) =>
          let after := data ++ s.wire.take n.toNat
          let wire := s.wire.drop n.toNat
          match s.receiver.transferRound count data.length n with
          | (receiver, .returned _) =>
              pure { s with
                receiver, wire, receiving := none, recvs := s.recvs ++ [(count, after)] }
          | (receiver, .round _) =>
              pure { s with receiver, wire, receiving := some (count, after) }

/-- Each end makes one call at a time, and the system calls transfer no more than there is. -/
def Allowed (s : Link) : LinkOp → Prop
  | .send _ => s.sending = none
  | .sendRound n =>
      match s.sending with
      | none => True
      | some (data, l) => Answers (data.length - l) n
  | .recv _ => s.receiving = none
  | .recvRound n =>
      match s.receiving with
      | none => True
      | some (count, data) => Answers (count - data.length) n ∧ n ≤ s.wire.length

instance (s : Link) (op : LinkOp) : Decidable (s.Allowed op) :=
  match op with
  | .send _ => inferInstanceAs (Decidable (s.sending = none))
  | .sendRound n =>
      match hsending : s.sending with
      | none => isTrue (by rw [Allowed, hsending]; trivial)
      | some (data, l) =>
          decidable_of_iff (Answers (data.length - l) n) (by rw [Allowed, hsending])
  | .recv _ => inferInstanceAs (Decidable (s.receiving = none))
  | .recvRound n =>
      match hreceiving : s.receiving with
      | none => isTrue (by rw [Allowed, hreceiving]; trivial)
      | some (count, data) =>
          decidable_of_iff (Answers (count - data.length) n ∧ n ≤ s.wire.length)
            (by rw [Allowed, hreceiving])

/-! ## What has been sent and received -/

/-- What the `send` calls that have returned were called with. -/
def offered (s : Link) : Bytes :=
  (s.sends.map Prod.fst).flatten

/-- What they have sent, by what they returned. -/
def sent (s : Link) : Bytes :=
  (s.sends.map fun call => call.1.take call.2).flatten

/-- What the `send` in progress was called with. -/
def sendingData (s : Link) : Bytes :=
  s.sending.elim [] fun call => call.1

/-- What it has sent. -/
def sendingSent (s : Link) : Bytes :=
  s.sending.elim [] fun call => call.1.take call.2

/-- What has been received, by the `recv` in progress too. -/
def received (s : Link) : Bytes :=
  (s.recvs.map Prod.snd).flatten ++ s.receiving.elim [] Prod.snd

/-- A valid sender has sent everything it was asked to; what an invalid one has sent is the
beginning of it. -/
structure SendSide (s : Link) : Prop where
  inOrder : s.sent <+: s.offered
  whole : s.sender.isValid = true → ∀ call ∈ s.sends, call.2 = call.1.length
  sending : ∀ data l, s.sending = some (data, l) → s.sender.isValid = true ∧ l < data.length

/-- A valid receiver has received as much as it asked for. -/
structure RecvSide (s : Link) : Prop where
  full : s.receiver.isValid = true → ∀ call ∈ s.recvs, call.2.length = call.1
  receiving : ∀ count data, s.receiving = some (count, data) →
    s.receiver.isValid = true ∧ data.length < count

structure Sound (s : Link) : Prop extends SendSide s, RecvSide s where
  conserved : s.received ++ s.wire = s.sent ++ s.sendingSent

section Sound

variable {s t : Link}

theorem SendSide.sent_eq (h : s.SendSide) (hvalid : s.sender.isValid = true) :
    s.sent = s.offered := by
  have hcalls : (s.sends.map fun call => call.1.take call.2) = s.sends.map Prod.fst := by
    apply List.map_congr_left
    intro call hcall
    rw [h.whole hvalid call hcall, List.take_length]
  rw [sent, hcalls, offered]

theorem sent_concat {data : Bytes} {l : Nat} (hsends : t.sends = s.sends ++ [(data, l)]) :
    t.sent = s.sent ++ data.take l := by
  rw [sent, hsends, List.map_append, List.flatten_append, List.map_singleton,
    List.flatten_singleton, sent]

theorem offered_concat {data : Bytes} {l : Nat} (hsends : t.sends = s.sends ++ [(data, l)]) :
    t.offered = s.offered ++ data := by
  rw [offered, hsends, List.map_append, List.flatten_append, List.map_singleton,
    List.flatten_singleton, offered]

/-- A `send` returns.  A socket that was invalid has sent nothing; one that is valid now has sent
everything. -/
theorem SendSide.returned (h : s.SendSide) {data : Bytes} {l : Nat}
    (hsends : t.sends = s.sends ++ [(data, l)]) (hsending : t.sending = none)
    (hbefore : s.sender.isValid = true ∨ l = 0)
    (hafter : t.sender.isValid = true → s.sender.isValid = true ∧ l = data.length) :
    t.SendSide where
  inOrder := by
    rw [sent_concat hsends, offered_concat hsends]
    -- Only behind complete calls may there be a part of this one.
    rcases hbefore with hvalid | hzero
    · rw [h.sent_eq hvalid]
      exact (List.prefix_append_right_inj s.offered).2 (List.take_prefix l data)
    · rw [hzero, List.take_zero, List.append_nil]
      exact h.inOrder.trans (List.prefix_append _ _)
  whole := by
    intro ht call hcall
    rw [hsends] at hcall
    rcases List.mem_append.1 hcall with hold | hnew
    · exact h.whole (hafter ht).1 call hold
    · rw [List.mem_singleton.1 hnew]
      exact (hafter ht).2
  sending := by
    intro other l' hother
    rw [hsending] at hother
    cases hother

/-- A `recv` returns; a socket that is valid now has received everything. -/
theorem RecvSide.returned (h : s.RecvSide) {count : Nat} {data : Bytes}
    (hrecvs : t.recvs = s.recvs ++ [(count, data)]) (hreceiving : t.receiving = none)
    (hafter : t.receiver.isValid = true → s.receiver.isValid = true ∧ data.length = count) :
    t.RecvSide where
  full := by
    intro ht call hcall
    rw [hrecvs] at hcall
    rcases List.mem_append.1 hcall with hold | hnew
    · exact h.full (hafter ht).1 call hold
    · rw [List.mem_singleton.1 hnew]
      exact (hafter ht).2
  receiving := by
    intro other data' hother
    rw [hreceiving] at hother
    cases hother

theorem received_concat {count : Nat} {data : Bytes} (hrecvs : t.recvs = s.recvs ++ [(count, data)])
    (hreceiving : t.receiving = none) :
    t.received = (s.recvs.map Prod.snd).flatten ++ data := by
  rw [received, hrecvs, hreceiving, Option.elim_none, List.append_nil, List.map_append,
    List.flatten_append, List.map_singleton, List.flatten_singleton]

end Sound

/-! ## Steps -/

section Steps

variable {s : Link}

theorem transfer_cases (this : CSocketTCP) (count : Nat) :
    (this.isValid = true ∧ 0 < count ∧ this.transfer count = .round 0) ∨
      (this.transfer count = .returned 0 ∧ (this.isValid = true → count = 0)) := by
  cases hvalid : this.isValid with
  | false => exact .inr ⟨by rw [transfer, hvalid]; rfl, nofun⟩
  | true =>
      by_cases hpos : 0 < count
      · exact .inl ⟨rfl, hpos, by rw [transfer, hvalid, if_pos hpos]; rfl⟩
      · exact .inr ⟨by rw [transfer, hvalid, if_neg hpos]; rfl, fun _ => by omega⟩

theorem step_send (h : s.Sound) {data : Bytes} (hidle : s.sending = none) :
    ∃ s', step s (.send data) = .ok s' ∧ s'.Sound := by
  have hnone : s.sendingSent = [] := by rw [sendingSent, hidle, Option.elim_none]
  rcases transfer_cases s.sender data.length with ⟨hvalid, hpos, hround⟩ | ⟨hreturned, hzero⟩
  · have hstep : step s (.send data) = .ok { s with sending := some (data, 0) } := by
      simp only [step, hround, Checked.pure_eq_ok]
    refine ⟨_, hstep, ⟨⟨h.inOrder, h.whole, ?_⟩, ⟨h.full, h.receiving⟩, ?_⟩⟩
    · intro data' l hsome
      cases hsome
      exact ⟨hvalid, hpos⟩
    · have hconserved := h.conserved
      rw [hnone] at hconserved
      exact hconserved
  · -- The loop is not entered: nothing is to be sent, or the socket is invalid.
    have hstep : step s (.send data) = .ok { s with sends := s.sends ++ [(data, 0)] } := by
      simp only [step, hreturned, Checked.pure_eq_ok]
    have hside : ({ s with sends := s.sends ++ [(data, 0)] } : Link).SendSide := by
      refine h.toSendSide.returned rfl ?_ (.inr rfl) ?_
      · exact hidle
      · intro hvalid
        exact ⟨hvalid, (hzero hvalid).symm⟩
    refine ⟨_, hstep, ⟨hside, ⟨h.full, h.receiving⟩, ?_⟩⟩
    have hsent : ({ s with sends := s.sends ++ [(data, 0)] } : Link).sent = s.sent := by
      rw [sent_concat (s := s) rfl, List.take_zero, List.append_nil]
    rw [hsent]
    exact h.conserved

/-- The bytes a system call has taken stand behind those of the rounds before it. -/
theorem take_append_slice (data : Bytes) (l k : Nat) :
    data.take l ++ slice data l k = data.take (l + k) := by
  rw [slice, ← List.take_add]

theorem step_sendRound (h : s.Sound) {n : Int} (hn : s.Allowed (.sendRound n)) :
    ∃ s', step s (.sendRound n) = .ok s' ∧ s'.Sound := by
  cases hsending : s.sending with
  | none => exact ⟨s, by simp only [step, hsending, Checked.pure_eq_ok], h⟩
  | some call =>
      rcases call with ⟨data, l⟩
      rcases h.sending data l hsending with ⟨hvalid, hl⟩
      have hconserved := h.conserved
      have hunder : s.sendingSent = data.take l := by rw [sendingSent, hsending, Option.elim_some]
      rw [hunder] at hconserved
      -- What is on the wire after the system call.
      have hwire : s.received ++ (s.wire ++ slice data l n.toNat) =
          s.sent ++ data.take (l + n.toNat) := by
        rw [← List.append_assoc, hconserved, List.append_assoc, take_append_slice]
      rw [Allowed, hsending] at hn
      rcases transferRound_cases s.sender hn hl with
        ⟨hfail, hround⟩ | ⟨hpos, hmore, hround⟩ | ⟨hpos, hall, hround⟩
      · -- The system call has failed, and the call returns short.
        have hzero : n.toNat = 0 := by omega
        rw [hzero, Nat.add_zero] at hwire
        have hstep : step s (.sendRound n) = .ok { s with
            sender := { s.sender with valid := false }
            wire := s.wire ++ slice data l 0
            sending := none
            sends := s.sends ++ [(data, l)] } := by
          simp only [step, hsending, hround, hzero, Checked.pure_eq_ok]
        have hside : ({ s with
            sender := { s.sender with valid := false }
            wire := s.wire ++ slice data l 0
            sending := none
            sends := s.sends ++ [(data, l)] } : Link).SendSide := by
          refine h.toSendSide.returned rfl rfl (.inl hvalid) ?_
          intro hafter
          rw [isValid_invalidate] at hafter
          cases hafter
        refine ⟨_, hstep, ⟨hside, ⟨h.full, h.receiving⟩, ?_⟩⟩
        rw [sent_concat (s := s) rfl]
        simp only [sendingSent, Option.elim_none, List.append_nil]
        exact hwire
      · -- A part has been sent, and the loop goes on.
        have hstep : step s (.sendRound n) = .ok { s with
            wire := s.wire ++ slice data l n.toNat
            sending := some (data, l + n.toNat) } := by
          simp only [step, hsending, hround, Checked.pure_eq_ok]
        refine ⟨_, hstep, ⟨⟨h.inOrder, h.whole, ?_⟩, ⟨h.full, h.receiving⟩, hwire⟩⟩
        intro data' l' hsome
        cases hsome
        exact ⟨hvalid, hmore⟩
      · -- The rest has been sent, and the call returns.
        have hstep : step s (.sendRound n) = .ok { s with
            wire := s.wire ++ slice data l n.toNat
            sending := none
            sends := s.sends ++ [(data, data.length)] } := by
          simp only [step, hsending, hround, Checked.pure_eq_ok]
        have hside : ({ s with
            wire := s.wire ++ slice data l n.toNat
            sending := none
            sends := s.sends ++ [(data, data.length)] } : Link).SendSide :=
          h.toSendSide.returned rfl rfl (.inl hvalid) fun hafter => ⟨hafter, rfl⟩
        refine ⟨_, hstep, ⟨hside, ⟨h.full, h.receiving⟩, ?_⟩⟩
        rw [sent_concat (s := s) rfl]
        simp only [sendingSent, Option.elim_none, List.append_nil]
        rw [hall] at hwire
        exact hwire

theorem step_recv (h : s.Sound) {count : Nat} (hidle : s.receiving = none) :
    ∃ s', step s (.recv count) = .ok s' ∧ s'.Sound := by
  have hreceived : s.received = (s.recvs.map Prod.snd).flatten := by
    rw [received, hidle, Option.elim_none, List.append_nil]
  have hconserved := h.conserved
  rcases transfer_cases s.receiver count with ⟨hvalid, hpos, hround⟩ | ⟨hreturned, hzero⟩
  · have hstep : step s (.recv count) = .ok { s with receiving := some (count, []) } := by
      simp only [step, hround, Checked.pure_eq_ok]
    refine ⟨_, hstep, ⟨⟨h.inOrder, h.whole, h.sending⟩, ⟨h.full, ?_⟩, ?_⟩⟩
    · intro count' data hsome
      cases hsome
      exact ⟨hvalid, hpos⟩
    · rw [hreceived] at hconserved
      simp only [received, Option.elim_some, List.append_nil]
      exact hconserved
  · have hstep : step s (.recv count) = .ok { s with recvs := s.recvs ++ [(count, [])] } := by
      simp only [step, hreturned, Checked.pure_eq_ok]
    have hside : ({ s with recvs := s.recvs ++ [(count, [])] } : Link).RecvSide := by
      refine h.toRecvSide.returned rfl ?_ ?_
      · exact hidle
      · intro hvalid
        exact ⟨hvalid, (hzero hvalid).symm⟩
    refine ⟨_, hstep, ⟨⟨h.inOrder, h.whole, h.sending⟩, hside, ?_⟩⟩
    have hafter : ({ s with recvs := s.recvs ++ [(count, [])] } : Link).received = s.received := by
      rw [hreceived]
      simp [received, hidle]
    rw [hafter]
    exact hconserved

theorem step_recvRound (h : s.Sound) {n : Int} (hn : s.Allowed (.recvRound n)) :
    ∃ s', step s (.recvRound n) = .ok s' ∧ s'.Sound := by
  cases hreceiving : s.receiving with
  | none => exact ⟨s, by simp only [step, hreceiving, Checked.pure_eq_ok], h⟩
  | some call =>
      rcases call with ⟨count, data⟩
      rcases h.receiving count data hreceiving with ⟨hvalid, hlt⟩
      rw [Allowed, hreceiving] at hn
      rcases hn with ⟨hanswers, hwire⟩
      have hgrown : (data ++ s.wire.take n.toNat).length = data.length + n.toNat := by
        rw [List.length_append, List.length_take, Nat.min_eq_left (by omega)]
      -- What the system call has taken from the wire stands behind what was received before.
      have hconserved : (s.recvs.map Prod.snd).flatten ++ (data ++ s.wire.take n.toNat) ++
          s.wire.drop n.toNat = s.sent ++ s.sendingSent := by
        rw [← h.conserved, received, hreceiving, Option.elim_some]
        simp only [List.append_assoc, List.take_append_drop]
      rcases transferRound_cases s.receiver hanswers hlt with
        ⟨hfail, hround⟩ | ⟨hpos, hmore, hround⟩ | ⟨hpos, hall, hround⟩
      · -- The system call has failed or the other end has closed: the call returns short.
        have hstep : step s (.recvRound n) = .ok { s with
            receiver := { s.receiver with valid := false }
            wire := s.wire.drop n.toNat
            receiving := none
            recvs := s.recvs ++ [(count, data ++ s.wire.take n.toNat)] } := by
          simp only [step, hreceiving, hround, Checked.pure_eq_ok]
        have hside : ({ s with
            receiver := { s.receiver with valid := false }
            wire := s.wire.drop n.toNat
            receiving := none
            recvs := s.recvs ++ [(count, data ++ s.wire.take n.toNat)] } : Link).RecvSide := by
          refine h.toRecvSide.returned rfl rfl ?_
          intro hafter
          rw [isValid_invalidate] at hafter
          cases hafter
        refine ⟨_, hstep, ⟨⟨h.inOrder, h.whole, h.sending⟩, hside, ?_⟩⟩
        rw [received_concat (s := s) rfl rfl]
        exact hconserved
      · -- The buffer is not full yet.
        have hstep : step s (.recvRound n) = .ok { s with
            wire := s.wire.drop n.toNat
            receiving := some (count, data ++ s.wire.take n.toNat) } := by
          simp only [step, hreceiving, hround, Checked.pure_eq_ok]
        refine ⟨_, hstep, ⟨⟨h.inOrder, h.whole, h.sending⟩, ⟨h.full, ?_⟩, hconserved⟩⟩
        intro count' data' hsome
        cases hsome
        exact ⟨hvalid, by rw [hgrown]; exact hmore⟩
      · have hstep : step s (.recvRound n) = .ok { s with
            wire := s.wire.drop n.toNat
            receiving := none
            recvs := s.recvs ++ [(count, data ++ s.wire.take n.toNat)] } := by
          simp only [step, hreceiving, hround, Checked.pure_eq_ok]
        have hside : ({ s with
            wire := s.wire.drop n.toNat
            receiving := none
            recvs := s.recvs ++ [(count, data ++ s.wire.take n.toNat)] } : Link).RecvSide :=
          h.toRecvSide.returned rfl rfl fun hafter => ⟨hafter, by rw [hgrown, hall]⟩
        refine ⟨_, hstep, ⟨⟨h.inOrder, h.whole, h.sending⟩, hside, ?_⟩⟩
        rw [received_concat (s := s) rfl rfl]
        exact hconserved

theorem step_sound (h : s.Sound) {op : LinkOp} (hop : s.Allowed op) :
    ∃ s', step s op = .ok s' ∧ s'.Sound := by
  cases op with
  | send data => exact step_send h hop
  | sendRound n => exact step_sendRound h hop
  | recv count => exact step_recv h hop
  | recvRound n => exact step_recvRound h hop

end Steps

/-! ## Runs -/

theorem new_sound (sender receiver : CSocketTCP) : (new sender receiver).Sound where
  inOrder := List.prefix_rfl
  whole := nofun
  sending := nofun
  full := nofun
  receiving := nofun
  conserved := rfl

/-- What has been sent is the beginning of what `send` was called with. -/
theorem SendSide.all_inOrder {s : Link} (h : s.SendSide) :
    s.sent ++ s.sendingSent <+: s.offered ++ s.sendingData := by
  cases hsending : s.sending with
  | none =>
      simp only [sendingSent, sendingData, hsending, Option.elim_none, List.append_nil]
      exact h.inOrder
  | some call =>
      simp only [sendingSent, sendingData, hsending, Option.elim_some]
      rw [h.sent_eq (h.sending call.1 call.2 hsending).1]
      exact (List.prefix_append_right_inj s.offered).2 (List.take_prefix _ _)

/-- So is what has been received. -/
theorem Sound.received_prefix {s : Link} (h : s.Sound) :
    s.received <+: s.offered ++ s.sendingData := by
  have hsent : s.received <+: s.sent ++ s.sendingSent := by
    rw [← h.conserved]
    exact List.prefix_append _ _
  exact hsent.trans h.all_inOrder

/-- A valid sender has returned and nothing is under way. -/
theorem Sound.received_eq {s : Link} (h : s.Sound) (hvalid : s.sender.isValid = true)
    (hidle : s.sending = none) (hwire : s.wire = []) : s.received = s.offered := by
  calc s.received
    _ = s.received ++ s.wire := by rw [hwire, List.append_nil]
    _ = s.sent ++ s.sendingSent := h.conserved
    _ = s.sent := by rw [sendingSent, hidle, Option.elim_none, List.append_nil]
    _ = s.offered := h.sent_eq hvalid

/-- However the two ends take turns and however little every system call transfers: what has been
received is the beginning of what `send` was called with, and together with what is under way it is
what has been sent.  While the sender is valid every `send` that has returned has sent all of its
data, while the receiver is every `recv` has filled its buffer, and when a valid sender has returned
and nothing is under way, what `send` was called with is received. -/
theorem link_delivers (sender receiver : CSocketTCP) (ops : List LinkOp)
    (h : Along step Allowed (new sender receiver) ops) :
    ∃ s, run step (new sender receiver) ops = .ok s ∧
      s.received <+: s.offered ++ s.sendingData ∧
      s.received ++ s.wire = s.sent ++ s.sendingSent ∧
      (s.sender.isValid = true → ∀ call ∈ s.sends, call.2 = call.1.length) ∧
      (s.receiver.isValid = true → ∀ call ∈ s.recvs, call.2.length = call.1) ∧
      (s.sender.isValid = true → s.sending = none → s.wire = [] → s.received = s.offered) := by
  rcases run_keeps (fun s op (hs : s.Sound) hop => step_sound hs hop) (new_sound sender receiver) h
    with ⟨s, hrun, hs⟩
  exact ⟨s, hrun, hs.received_prefix, hs.conserved, hs.whole, hs.full, hs.received_eq⟩

/-- Three bytes are sent by two system calls and received by two others, and then the sender fails. -/
theorem link_delivers_partial :
    let one : CSocketTCP :=
      { source := { valid := true }, dest := { valid := true }, socket := 3, valid := true }
    let ops : List LinkOp := [.send [1, 2, 3], .recv 4, .sendRound 2, .recvRound 1, .sendRound 1,
      .recvRound 2, .send [4, 5], .sendRound (-1), .send [6]]
    Along step Allowed (new one one) ops ∧
      ∃ s, run step (new one one) ops = .ok s ∧ s.received <+: s.offered ++ s.sendingData ∧
        s.received = [1, 2, 3] ∧ s.offered = [1, 2, 3, 4, 5, 6] := by
  intro one ops
  have halong : Along step Allowed (new one one) ops := by decide
  rcases link_delivers one one ops halong with ⟨s, hrun, hprefix, -⟩
  cases hrun
  exact ⟨halong, _, rfl, hprefix, rfl, rfl⟩

end Link

end Septem
