import Septem.Library.Fifo
import Septem.Library.Run
import Septem.Servo.ServoProtocol

/-!
# PacketDelivery — runs of `Push`, `Pop` and `PopWithRecycle`

A `Session` is a protocol object in use, together with a record of what its clients pushed and
what they were handed.  `StepRight` is what an exactly-once FIFO has to do in one step,
`StepCondition` the condition under which this one does it: a `Pop` must be made on a pool that
is not empty, with an out parameter that already holds the packet to come, and `PopWithRecycle`
is never right.  Under that condition the protocol is the abstract queue of `Fifo`.
-/

namespace Septem

open Cxx

/-- An operation with its argument; for an out parameter, what the variable holds before. -/
inductive ServoOp
  | push (inNetPacket : ObjectId)
  | pop (outNetPacket : SharedPtr)
  | popWithRecycle (outRecyclePacket : SharedPtr)
  deriving DecidableEq, Repr

structure Session where
  servo : FServoProtocol
  heap : Heap FSNetPacket
  /-- the packets pushed, in order -/
  pushed : List ObjectId := []
  /-- what the calls that returned `true` left in the out parameter, in order -/
  delivered : List SharedPtr := []

namespace Session

/-- The packets pushed and not yet popped, oldest first. -/
def pending (s : Session) : List ObjectId :=
  s.pushed.drop s.delivered.length

/-- A session with a newly constructed protocol. -/
def new (heap : Heap FSNetPacket) (recyclePoolMaxnum : Int32) : Checked Session := do
  let (servo, heap) ← FServoProtocol.new heap recyclePoolMaxnum
  return { servo, heap }

/-- Record a delivery. -/
def deliver (s : Session) (ret : Bool) (out : SharedPtr) : Session :=
  if ret then { s with delivered := s.delivered ++ [out] } else s

/-- Execute one operation: its value, its out parameter afterwards (null for `Push`, which has
none) and the session. -/
def call (s : Session) : ServoOp → Checked (Bool × SharedPtr × Session)
  | .push ptr => do
      let (ret, servo) ← s.servo.push (some ptr)
      return (ret, none, { s with servo, pushed := s.pushed ++ [ptr] })
  | .pop out => do
      let (ret, out, servo) ← s.servo.pop out
      return (ret, out, { s with servo }.deliver ret out)
  | .popWithRecycle out => do
      let (ret, out, servo, heap) ← s.servo.popWithRecycle s.heap out
      return (ret, out, { s with servo, heap }.deliver ret out)

def step (s : Session) (op : ServoOp) : Checked Session := do
  let (_, _, s) ← s.call op
  return s

/-! ## The specification of a step -/

/-- What a `Pop` owes its caller, by the packets pending before it. -/
def PopRight (s s' : Session) (before : SharedPtr) (ret : Bool) (after : SharedPtr) : Prop :=
  (ret = true ↔ s.pending ≠ []) ∧
  (ret = true → ∃ packet, s.pending.head? = some packet ∧ after = some packet) ∧
  (ret = false → after = before ∧ s'.servo = s.servo)

/-- The step returns, counts the pending packets and, if it is a `Pop`, pops the oldest one. -/
def StepRight (s : Session) (op : ServoOp) : Prop :=
  ∃ (ret : Bool) (out : SharedPtr) (s' : Session), s.call op = .ok (ret, out, s') ∧
    s'.servo.packetPoolNum = s'.pending.length ∧
    match op with
    | .push _ => True
    | .pop before => PopRight s s' before ret out
    | .popWithRecycle before => PopRight s s' before ret out

/-- The condition on the state before the step. -/
def StepCondition (s : Session) : ServoOp → Prop
  | .push _ => s.servo.packetPool.pool.length + 1 < 2 ^ 31
  | .pop before => before ≠ none ∧ s.servo.packetPool.pool.head? = some before
  | .popWithRecycle _ => False

instance (s : Session) (op : ServoOp) : Decidable (s.StepCondition op) :=
  match op with
  | .push _ => inferInstanceAs (Decidable (_ < _))
  | .pop _ => inferInstanceAs (Decidable (_ ∧ _))
  | .popWithRecycle _ => inferInstanceAs (Decidable False)

/-! ## The invariant -/

/-- What was pushed is what was delivered and then what is pooled, and the counter counts. -/
structure Accounted (s : Session) : Prop where
  pushed_eq : s.pushed.map some = s.delivered ++ s.servo.packetPool.pool
  count_eq : s.servo.packetPoolCount = s.servo.packetPool.pool.length
  count_lt : s.servo.packetPoolCount < 2 ^ 31

theorem Accounted.pool_eq {s : Session} (h : s.Accounted) :
    s.servo.packetPool.pool = s.pending.map some := by
  rw [pending, List.map_drop, h.pushed_eq, List.drop_left]

theorem Accounted.pending_eq {s : Session} (h : s.Accounted) {packets : List ObjectId}
    (hpool : s.servo.packetPool.pool = packets.map some) : s.pending = packets := by
  have hsome : s.pending.map some = packets.map some := by rw [← h.pool_eq, hpool]
  exact List.map_injective_iff.2 (fun _ _ => Option.some.inj) hsome

theorem Accounted.pending_length {s : Session} (h : s.Accounted) :
    s.servo.packetPoolNum = s.pending.length := by
  rw [FServoProtocol.packetPoolNum, h.count_eq, h.pool_eq, List.length_map]

/-- A new session has seen no packet. -/
theorem new_fresh {heap : Heap FSNetPacket} {maxnum : Int32} {s : Session}
    (h : new heap maxnum = .ok s) :
    s.pushed = [] ∧ s.delivered = [] ∧ s.servo.packetPool.pool = [] ∧
      s.servo.packetPoolCount = 0 := by
  rcases Checked.bind_eq_ok.1 h with ⟨⟨servo, heap'⟩, hservo, hs⟩
  rcases Checked.bind_eq_ok.1 hservo with ⟨⟨pool, heap''⟩, -, hret⟩
  cases hret
  cases hs
  exact ⟨rfl, rfl, rfl, rfl⟩

theorem new_accounted {heap : Heap FSNetPacket} {maxnum : Int32} {s : Session}
    (h : new heap maxnum = .ok s) : s.Accounted := by
  rcases new_fresh h with ⟨hpushed, hdelivered, hpool, hcount⟩
  exact ⟨by rw [hpushed, hdelivered, hpool]; rfl, by rw [hcount, hpool]; rfl,
    by rw [hcount]; decide⟩

/-! ## Single calls -/

/-- The session after a `Push`. -/
def afterPush (s : Session) (ptr : ObjectId) : Session :=
  { s with
    servo := { s.servo with
      packetPool := ⟨s.servo.packetPool.pool ++ [some ptr]⟩
      packetPoolCount := s.servo.packetPoolCount + 1 }
    pushed := s.pushed ++ [ptr] }

/-- The session after a `Pop` that found the entries `rest` behind the first one. -/
def afterPop (s : Session) (rest : List SharedPtr) (out : SharedPtr) : Session :=
  { s with
    servo := { s.servo with
      packetPool := ⟨rest⟩
      packetPoolCount := s.servo.packetPoolCount - 1 }
    delivered := s.delivered ++ [out] }

theorem call_push {s : Session} (h : s.Accounted) {ptr : ObjectId}
    (hroom : s.servo.packetPoolCount + 1 < 2 ^ 31) :
    s.call (.push ptr) = .ok (true, none, s.afterPush ptr) := by
  have hlo : -2 ^ 31 ≤ s.servo.packetPoolCount + 1 := by
    rw [h.count_eq]
    omega
  simp only [call, FServoProtocol.push_eq, int32_ok hlo hroom]
  rfl

/-- A push that returned found room for one more in the counter. -/
theorem push_room {s s' : Session} {ptr : ObjectId} {ret : Bool} {out : SharedPtr}
    (h : s.call (.push ptr) = .ok (ret, out, s')) : s.servo.packetPoolCount + 1 < 2 ^ 31 := by
  rcases Checked.bind_eq_ok.1 h with ⟨⟨ret', servo⟩, hpush, -⟩
  rw [FServoProtocol.push_eq] at hpush
  cases hint : int32 (s.servo.packetPoolCount + 1) with
  | error e => simp [hint, Except.map] at hpush
  | ok count => exact (int32_eq_ok.1 hint).1.2

theorem call_pop {s : Session} (h : s.Accounted) {first out : SharedPtr} {rest : List SharedPtr}
    (hpool : s.servo.packetPool.pool = first :: rest) :
    s.call (.pop out) = .ok (true, out, s.afterPop rest out) := by
  have hlo : -2 ^ 31 ≤ s.servo.packetPoolCount - 1 := by
    rw [h.count_eq]
    omega
  have hhi : s.servo.packetPoolCount - 1 < 2 ^ 31 := by
    have := h.count_lt
    omega
  simp only [call, FServoProtocol.pop_nonempty hpool, int32_ok hlo hhi]
  rfl

theorem afterPush_accounted {s : Session} (h : s.Accounted) {ptr : ObjectId}
    (hroom : s.servo.packetPoolCount + 1 < 2 ^ 31) : (s.afterPush ptr).Accounted where
  pushed_eq := by simp [afterPush, h.pushed_eq]
  count_eq := by simp [afterPush, h.count_eq]
  count_lt := hroom

/-- Popping keeps the accounts when the out parameter holds the packet that leaves the pool. -/
theorem afterPop_accounted {s : Session} (h : s.Accounted) {first : SharedPtr}
    {rest : List SharedPtr} (hpool : s.servo.packetPool.pool = first :: rest) :
    (s.afterPop rest first).Accounted where
  pushed_eq := by simp [afterPop, h.pushed_eq, hpool]
  count_eq := by simp [afterPop, h.count_eq, hpool]
  count_lt := by
    have := h.count_lt
    simp only [afterPop]
    omega

/-- `PopWithRecycle` never does what a `Pop` owes its caller. -/
theorem popWithRecycle_wrong (s : Session) (before : SharedPtr) :
    ¬ s.StepRight (.popWithRecycle before) := by
  rintro ⟨ret, out, s', hcall, -, hright⟩
  rcases Checked.bind_eq_ok.1 hcall with ⟨⟨ret', out', servo, heap⟩, hpop, hret⟩
  cases hret
  -- It returns `true` with a null pointer, and the oldest packet is not null.
  rcases FServoProtocol.popWithRecycle_returns hpop with ⟨hret, hout⟩
  rcases hright.2.1 hret with ⟨packet, -, hpacket⟩
  rw [hout] at hpacket
  cases hpacket

theorem push_right_iff {s : Session} (h : s.Accounted) (ptr : ObjectId) :
    s.StepRight (.push ptr) ↔ s.StepCondition (.push ptr) := by
  have hcond : s.StepCondition (.push ptr) ↔ s.servo.packetPoolCount + 1 < 2 ^ 31 := by
    rw [h.count_eq, StepCondition]
    omega
  rw [hcond]
  constructor
  · rintro ⟨ret, out, s', hcall, -⟩
    exact push_room hcall
  · intro hroom
    exact ⟨true, none, s.afterPush ptr, call_push h hroom,
      (afterPush_accounted h hroom).pending_length, trivial⟩

/-- The first packet of the pool is the oldest one pending. -/
theorem Accounted.pending_cons {s : Session} (h : s.Accounted) {first : SharedPtr}
    {rest : List SharedPtr} (hpool : s.servo.packetPool.pool = first :: rest) :
    ∃ (packet : ObjectId) (others : List ObjectId),
      s.pending = packet :: others ∧ first = some packet := by
  have hsame := h.pool_eq
  rw [hpool] at hsame
  cases hpending : s.pending with
  | nil =>
      rw [hpending] at hsame
      cases hsame
  | cons packet others =>
      rw [hpending] at hsame
      exact ⟨packet, others, rfl, (List.cons.inj hsame).1⟩

theorem pop_right_iff {s : Session} (h : s.Accounted) (before : SharedPtr) :
    s.StepRight (.pop before) ↔ s.StepCondition (.pop before) := by
  cases hpool : s.servo.packetPool.pool with
  | nil =>
      -- `std::queue::pop` on an empty queue.
      refine iff_of_false ?_ (by simp [StepCondition, hpool])
      rintro ⟨ret, out, s', hcall, -⟩
      rw [call, FServoProtocol.pop_empty hpool] at hcall
      cases hcall
  | cons first rest =>
      rcases h.pending_cons hpool with ⟨packet, others, hpending, hfirst⟩
      constructor
      · -- `Pop` left its out parameter alone, so it must have held the packet before.
        rintro ⟨ret, out, s', hcall, -, hright⟩
        rw [call_pop h hpool] at hcall
        cases hcall
        rcases hright.2.1 rfl with ⟨oldest, holdest, hout⟩
        rw [hpending] at holdest
        cases holdest
        refine ⟨by simp [hout], ?_⟩
        rw [hpool, hout, hfirst]
        rfl
      · rintro ⟨-, hhead⟩
        have hbefore : before = first := by
          rw [hpool] at hhead
          exact (Option.some.inj hhead).symm
        subst hbefore
        refine ⟨true, before, s.afterPop rest before, call_pop h hpool,
          (afterPop_accounted h hpool).pending_length, ?_, ?_, nofun⟩
        · simp [hpending]
        · exact fun _ => ⟨packet, by simp [hpending], hfirst⟩

/-- The step does what it owes exactly under `StepCondition`. -/
theorem stepRight_iff {s : Session} (h : s.Accounted) (op : ServoOp) :
    s.StepRight op ↔ s.StepCondition op := by
  cases op with
  | push ptr => exact push_right_iff h ptr
  | pop before => exact pop_right_iff h before
  | popWithRecycle before => exact iff_of_false (popWithRecycle_wrong s before) id

/-! ## Runs -/

/-- The operation of the abstract queue. -/
def toFifo : ServoOp → Fifo.Op ObjectId
  | .push ptr => .push ptr
  | .pop _ => .pop
  | .popWithRecycle _ => .pop

/-- `s'` is `s` after the operations `ops` of the abstract queue. -/
structure FollowsFifo (s s' : Session) (ops : List (Fifo.Op ObjectId)) : Prop where
  pending_eq : s'.pending = Fifo.pendingAfter s.pending ops
  pushed_eq : s'.pushed = s.pushed ++ Fifo.pushedBy ops
  delivered_eq : s'.delivered = s.delivered ++ (Fifo.deliveredBy s.pending ops).map some

theorem FollowsFifo.refl (s : Session) : FollowsFifo s s [] :=
  ⟨rfl, (List.append_nil s.pushed).symm, (List.append_nil s.delivered).symm⟩

theorem FollowsFifo.trans {s t u : Session} {ops ops' : List (Fifo.Op ObjectId)}
    (hst : FollowsFifo s t ops) (htu : FollowsFifo t u ops') :
    FollowsFifo s u (ops ++ ops') where
  pending_eq := by
    rw [htu.pending_eq, hst.pending_eq, Fifo.pendingAfter_append]
  pushed_eq := by
    rw [htu.pushed_eq, hst.pushed_eq, List.append_assoc, Fifo.pushedBy_append]
  delivered_eq := by
    rw [htu.delivered_eq, hst.delivered_eq, hst.pending_eq, List.append_assoc,
      Fifo.deliveredBy_append, List.map_append]

/-- One step of the protocol under the condition is one step of the abstract queue. -/
theorem step_follows {s : Session} (h : s.Accounted) {op : ServoOp} (hcond : s.StepCondition op) :
    ∃ s', s.step op = .ok s' ∧ s'.Accounted ∧ FollowsFifo s s' [toFifo op] := by
  cases op with
  | push ptr =>
      have hroom : s.servo.packetPoolCount + 1 < 2 ^ 31 := by
        rw [h.count_eq]
        simp only [StepCondition] at hcond
        omega
      have hacc : (s.afterPush ptr).Accounted := afterPush_accounted h hroom
      refine ⟨s.afterPush ptr, by rw [step, call_push h hroom]; rfl, hacc, ?_, rfl, ?_⟩
      · refine hacc.pending_eq ?_
        simp [afterPush, toFifo, Fifo.pendingAfter, Fifo.next, h.pool_eq]
      · simp [afterPush, toFifo, Fifo.deliveredBy, Fifo.delivered?]
  | pop before =>
      cases hpool : s.servo.packetPool.pool with
      | nil => simp [StepCondition, hpool] at hcond
      | cons first rest =>
          have hfirst : before = first := by
            have := hcond.2
            rw [hpool] at this
            exact (Option.some.inj this).symm
          subst hfirst
          have hacc := afterPop_accounted h hpool
          have hpending : (before :: rest) = s.pending.map some := by rw [← h.pool_eq, hpool]
          refine ⟨s.afterPop rest before, by rw [step, call_pop h hpool]; rfl, hacc, ?_, ?_, ?_⟩
          · refine hacc.pending_eq ?_
            simp [afterPop, toFifo, Fifo.pendingAfter, Fifo.next, List.map_tail, ← hpending]
          · simp [afterPop, toFifo, Fifo.pushedBy]
          · have hhead : s.pending.head?.toList.map some = [before] := by
              cases hp : s.pending with
              | nil => simp [hp] at hpending
              | cons packet others =>
                  simp only [hp, List.map_cons, List.cons.injEq] at hpending
                  simp [hpending.1]
            simp [afterPop, toFifo, Fifo.deliveredBy, Fifo.delivered?, hhead]
  | popWithRecycle before => exact hcond.elim

/-- A run along which the condition holds returns, and is a run of the abstract queue. -/
theorem run_follows {s : Session} (h : s.Accounted) {ops : List ServoOp}
    (hcond : Along step StepCondition s ops) :
    ∃ s', run step s ops = .ok s' ∧ s'.Accounted ∧ FollowsFifo s s' (ops.map toFifo) := by
  -- Simulated is the history of the abstract queue, that is the list of its operations so far.
  have hstep (t : Session) (history : List (Fifo.Op ObjectId)) (op : ServoOp)
      (ht : t.Accounted ∧ FollowsFifo s t history) (hop : StepCondition t op) :
      ∃ t', step t op = .ok t' ∧ t'.Accounted ∧ FollowsFifo s t' (history ++ [toFifo op]) := by
    rcases step_follows ht.1 hop with ⟨t', hstep, hacc, hfollow⟩
    exact ⟨t', hstep, hacc, ht.2.trans hfollow⟩
  have hhistory : ops.foldl (fun history op => history ++ [toFifo op]) [] = ops.map toFifo := by
    rw [List.foldl_append_eq_append, List.nil_append, ← List.flatMap_def, ← List.map_eq_flatMap]
  rw [← hhistory]
  exact run_simulates hstep ⟨h, FollowsFifo.refl s⟩ hcond

/-- The steps of a run from the constructed protocol are all right exactly when they all meet
the condition, and then what was delivered is a prefix of what was pushed. -/
theorem fifo_delivery_iff (heap : Heap FSNetPacket) (maxnum : Int32) (s : Session)
    (hnew : new heap maxnum = .ok s) (ops : List ServoOp) :
    (Along step StepRight s ops ↔ Along step StepCondition s ops) ∧
    (Along step StepCondition s ops → ∃ s', run step s ops = .ok s' ∧
      s'.delivered <+: s'.pushed.map some ∧
      s'.pushed.map some = s'.delivered ++ s'.pending.map some ∧
      s'.servo.packetPoolNum = s'.pending.length) := by
  have hstart : s.Accounted := new_accounted hnew
  constructor
  · have hiff (t : Session) (op : ServoOp) (ht : t.Accounted) :
        StepRight t op ↔ StepCondition t op := stepRight_iff ht op
    have hstep (t : Session) (op : ServoOp) (ht : t.Accounted) (hcond : StepCondition t op) :
        ∃ t', step t op = .ok t' ∧ t'.Accounted := by
      rcases step_follows ht hcond with ⟨t', hnext, hacc, -⟩
      exact ⟨t', hnext, hacc⟩
    exact along_iff_of_step hiff hstep hstart ops
  · intro hcond
    rcases run_follows hstart hcond with ⟨s', hrun, hacc, hfollow⟩
    rcases new_fresh hnew with ⟨hpushed, hdelivered, -, -⟩
    have hpending : s.pending = [] := by rw [pending, hpushed, List.drop_nil]
    refine ⟨s', hrun, ?_, ?_, hacc.pending_length⟩
    · rw [hfollow.delivered_eq, hfollow.pushed_eq, hpending, hpushed, hdelivered]
      exact (Fifo.deliveredBy_prefix _).map some
    · rw [hacc.pushed_eq, hacc.pool_eq]

/-- One packet pushed and popped into a variable that already holds it. -/
theorem fifo_delivery_preloaded :
    ∃ s s' : Session, new [default] 0 = .ok s ∧
      run step s [.push 0, .pop (some 0)] = .ok s' ∧ s'.delivered <+: s'.pushed.map some := by
  have hnew : new [default] 0 = .ok { servo := {}, heap := [default] } := rfl
  have hcond : Along step StepCondition { servo := {}, heap := [default] }
      [.push 0, .pop (some 0)] := by
    decide
  rcases (fifo_delivery_iff [default] 0 _ hnew [.push 0, .pop (some 0)]).2 hcond with
    ⟨s', hrun, hprefix, -⟩
  exact ⟨_, s', hnew, hrun, hprefix⟩

/-- One packet pushed and popped into a null pointer: `Pop` returns `true` and the caller has
nothing; and `Pop` on the empty pool is undefined. -/
theorem pop_loses_packet :
    ∃ s s' : Session, new [default] FServoProtocol.recyclePoolMaxnum = .ok s ∧
      run step s [.push 0, .pop none] = .ok s' ∧ s'.delivered = [none] ∧
      ¬ Along step StepRight s [.push 0, .pop none] ∧
      s.call (.pop none) = .error .emptyContainer := by
  rcases TSharedRecyclePool.new_ok [(default : FSNetPacket)] FServoProtocol.recyclePoolMaxnum with
    ⟨⟨pool, heap⟩, hpool⟩
  have hnew : new [default] FServoProtocol.recyclePoolMaxnum =
      .ok { servo := { recyclePool := pool }, heap := heap } := by
    simp [new, FServoProtocol.new, hpool]
  refine ⟨_, _, hnew, rfl, rfl, ?_, rfl⟩
  rintro ⟨-, hrest⟩
  rcases (hrest _ rfl).1 with ⟨ret, out, s', hcall, -, hright⟩
  cases hcall
  rcases hright.2.1 rfl with ⟨packet, -, hout⟩
  cases hout

end Session

end Septem
