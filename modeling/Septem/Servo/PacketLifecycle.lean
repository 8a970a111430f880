import Septem.Servo.PacketRecycling

/-!
# PacketLifecycle — a protocol object with all of its clients

Clients take packets from the protocol, work on them, `Push` them for others, `Pop` what others
pushed and give packets back.  `Pop` cannot assign its out parameter, so the packet it removes
reaches nobody: `lost` records it.  In every run of clients that touch, push and return only what
they hold and pop only while packets are pending, each packet object created is pooled, held,
pending or lost, exactly once (`packets_accounted`); a pending packet is what it was when it was
pushed, whatever the clients do meanwhile; and every `Pop` costs the recycle pool one packet.
-/

namespace Septem

open Cxx

namespace Recycling

/-! ## What a step leaves alone -/

theorem hold_append (client : ClientId) (ptr : SharedPtr) (held others : List (ClientId × ObjectId)) :
    hold client ptr (held ++ others) = hold client ptr held ++ others := by
  cases ptr with
  | none => rfl
  | some ptr => rfl

/-- Further holders change nothing for the clients whose operations are executed. -/
theorem step_append (s : Recycling) {op : RecycleOp} (hop : s.Allowed op)
    (others : List (ClientId × ObjectId)) :
    step { s with held := s.held ++ others } op =
      (step s op).map fun s' => { s' with held := s'.held ++ others } := by
  cases op with
  | allocNetPacket client => rfl
  | allocHeartbeat client now =>
      cases hheartbeat : s.servo.allocHeartbeat s.heap now with
      | error e => simp only [step, hheartbeat, Checked.error_bind, Except.map]
      | ok made =>
          simp only [step, hheartbeat, Checked.ok_bind, hold_append]
          rfl
  | deallockNetPacket client ptr bForceRecycle =>
      have hrelease : release client ptr (s.held ++ others) =
          release client ptr s.held ++ others := by
        cases ptr with
        | none => rfl
        | some ptr => exact List.erase_append_left others hop
      cases hdealloc : s.servo.deallockNetPacket s.heap ptr bForceRecycle with
      | error e => simp only [step, hdealloc, Checked.error_bind, Except.map]
      | ok left =>
          simp only [step, hdealloc, Checked.ok_bind, hrelease]
          rfl
  | work client ptr f =>
      cases hmutate : mutate s.heap (some ptr) f with
      | error e => simp only [step, hmutate, Checked.error_bind, Except.map]
      | ok heap =>
          simp only [step, hmutate, Checked.ok_bind]
          rfl

/-- The received packets are none of these operations' business. -/
theorem step_packetPool {s s' : Recycling} {op : RecycleOp} (hstep : step s op = .ok s') :
    s'.servo.packetPool = s.servo.packetPool ∧
      s'.servo.packetPoolCount = s.servo.packetPoolCount := by
  cases op with
  | allocNetPacket client =>
      cases hstep
      exact ⟨rfl, rfl⟩
  | allocHeartbeat client now =>
      rcases Checked.bind_eq_ok.1 hstep with ⟨⟨ret, servo, heap⟩, hheartbeat, hs⟩
      rcases Checked.bind_eq_ok.1 hheartbeat with ⟨heap₁, -, hrest⟩
      rcases Checked.bind_eq_ok.1 hrest with ⟨heap₂, -, hret⟩
      cases hret
      cases hs
      exact ⟨rfl, rfl⟩
  | deallockNetPacket client ptr bForceRecycle =>
      rcases Checked.bind_eq_ok.1 hstep with ⟨⟨servo, heap⟩, hdealloc, hs⟩
      cases hs
      rw [FServoProtocol.deallockNetPacket] at hdealloc
      split at hdealloc
      · cases hdealloc
        exact ⟨rfl, rfl⟩
      · rcases Checked.bind_eq_ok.1 hdealloc with ⟨heap₁, -, hret⟩
        cases hret
        exact ⟨rfl, rfl⟩
  | work client ptr f =>
      rcases Checked.bind_eq_ok.1 hstep with ⟨heap, -, hs⟩
      cases hs
      exact ⟨rfl, rfl⟩

theorem mutate_frame {heap heap' : Heap FSNetPacket} {ptr other : ObjectId}
    {f : FSNetPacket → FSNetPacket} (h : mutate heap (some ptr) f = .ok heap') (hne : ptr ≠ other) :
    heap'[other]? = heap[other]? := by
  rcases mutate_inv h with ⟨i, packet, hi, -, hset, -⟩
  cases hi
  rw [hset, List.getElem?_set_ne hne]

/-- What is neither pooled nor held stays as it is. -/
theorem step_heap {s s' : Recycling} {op : RecycleOp} (hop : s.Allowed op)
    (hstep : step s op = .ok s') {ptr : ObjectId} (hlt : ptr < s.heap.length)
    (hheld : ptr ∉ s.heldPackets) (hpooled : ptr ∉ s.servo.recyclePool.mPool) :
    s'.heap[ptr]? = s.heap[ptr]? := by
  have hother {client : ClientId} {held : ObjectId} (hmem : (client, held) ∈ s.held) :
      held ≠ ptr := by
    intro heq
    apply hheld
    rw [← heq]
    exact List.mem_map_of_mem hmem
  cases op with
  | allocNetPacket client =>
      cases hstep
      exact TSharedRecyclePool.alloc_getElem? hlt
  | allocHeartbeat client now =>
      rcases Checked.bind_eq_ok.1 hstep with ⟨⟨ret, servo, heap⟩, hheartbeat, hs⟩
      rcases Checked.bind_eq_ok.1 hheartbeat with ⟨heap₁, hreuse, hrest⟩
      rcases Checked.bind_eq_ok.1 hrest with ⟨heap₂, hcheck, hret⟩
      cases hret
      cases hs
      -- The heartbeat is a pooled packet or a new one.
      have hne : (s.servo.recyclePool.alloc s.heap).1 ≠ ptr := by
        cases hpool : s.servo.recyclePool.mPool with
        | nil =>
            simp only [TSharedRecyclePool.alloc, hpool, makeShared]
            exact (Nat.ne_of_lt hlt).symm
        | cons taken rest =>
            simp only [TSharedRecyclePool.alloc, hpool]
            intro heq
            apply hpooled
            rw [hpool, ← heq]
            exact List.mem_cons_self
      calc
        heap[ptr]?
            = heap₁[ptr]? := mutate_frame hcheck hne
        _ = (s.servo.recyclePool.alloc s.heap).2.2[ptr]? := mutate_frame hreuse hne
        _ = s.heap[ptr]? := TSharedRecyclePool.alloc_getElem? hlt
  | deallockNetPacket client inSharedPtr bForceRecycle =>
      rcases Checked.bind_eq_ok.1 hstep with ⟨⟨servo, heap⟩, hdealloc, hs⟩
      cases hs
      cases inSharedPtr with
      | none =>
          cases hdealloc
          rfl
      | some returned =>
          rcases Checked.bind_eq_ok.1 hdealloc with ⟨heap₁, hclean, hret⟩
          cases hret
          exact mutate_frame hclean (hother hop)
  | work client held f =>
      rcases Checked.bind_eq_ok.1 hstep with ⟨heap, hmutate, hs⟩
      cases hs
      exact mutate_frame hmutate (hother hop)

end Recycling

/-! ## The protocol object with its clients -/

inductive LifecycleOp
  | recycle (op : RecycleOp)
  /-- the client lets go of the packet without giving it back -/
  | discard (client : ClientId) (ptr : ObjectId)
  | push (client : ClientId) (inNetPacket : ObjectId)
  | pop (client : ClientId) (outNetPacket : SharedPtr)
  | popWithRecycle (client : ClientId) (outRecyclePacket : SharedPtr)

structure Lifecycle extends Recycling where
  /-- the packets pushed and not popped yet, oldest first, each with its value when pushed -/
  pending : List (ObjectId × FSNetPacket) := []
  /-- the packets nobody can reach any more -/
  lost : List ObjectId := []

namespace Lifecycle

def new (heap : Heap FSNetPacket) (recyclePoolMaxnum : Int32) : Checked Lifecycle := do
  let s ← Recycling.new heap recyclePoolMaxnum
  return { toRecycling := s }

/-- Record that the oldest pending packet was popped. -/
def loseOldest (s : Lifecycle) : Lifecycle :=
  match s.pending with
  | [] => s
  | (ptr, _) :: pending => { s with pending, lost := ptr :: s.lost }

def step (s : Lifecycle) : LifecycleOp → Checked Lifecycle
  | .recycle op => do
      let recycling ← Recycling.step s.toRecycling op
      return { s with toRecycling := recycling }
  | .discard client ptr =>
      pure { s with held := s.held.erase (client, ptr), lost := ptr :: s.lost }
  | .push client ptr => do
      let (_, servo) ← s.servo.push (some ptr)
      let value := s.heap.getD ptr default
      return { s with
        servo, held := s.held.erase (client, ptr), pending := s.pending ++ [(ptr, value)] }
  | .pop _ out => do
      let (_, _, servo) ← s.servo.pop out
      return { s.loseOldest with servo }
  | .popWithRecycle client out => do
      let (_, _, servo, heap) ← s.servo.popWithRecycle s.heap out
      return { s.loseOldest with servo, heap, held := Recycling.release client out s.held }

/-- A client pushes, works on and returns only what it holds, pushes no packet that the counter
cannot count, and pops only while packets are pending. -/
def Allowed (s : Lifecycle) : LifecycleOp → Prop
  | .recycle op => s.toRecycling.Allowed op
  | .discard client ptr => (client, ptr) ∈ s.held
  | .push client ptr => (client, ptr) ∈ s.held ∧ s.pending.length + 1 < 2 ^ 31
  | .pop _ _ => s.pending ≠ []
  | .popWithRecycle client out =>
      s.pending ≠ [] ∧ s.toRecycling.Allowed (.deallockNetPacket client out false)

instance (s : Lifecycle) (op : LifecycleOp) : Decidable (s.Allowed op) :=
  match op with
  | .recycle op => inferInstanceAs (Decidable (s.toRecycling.Allowed op))
  | .discard client ptr => inferInstanceAs (Decidable ((client, ptr) ∈ s.held))
  | .push client ptr =>
      inferInstanceAs (Decidable ((client, ptr) ∈ s.held ∧ s.pending.length + 1 < 2 ^ 31))
  | .pop _ _ => decidable_of_iff (¬ s.pending.isEmpty) (by simp [Allowed])
  | .popWithRecycle client out =>
      decidable_of_iff
        (¬ s.pending.isEmpty ∧ s.toRecycling.Allowed (.deallockNetPacket client out false))
        (by simp [Allowed])

/-- The operations after which a packet is lost. -/
def Loses : LifecycleOp → Bool
  | .recycle _ => false
  | .push _ _ => false
  | .discard _ _ => true
  | .pop _ _ => true
  | .popWithRecycle _ _ => true

def pendingPackets (s : Lifecycle) : List ObjectId :=
  s.pending.map Prod.fst

/-- The packets that are neither pooled nor held by a client. -/
def absent (s : Lifecycle) : List ObjectId :=
  s.pendingPackets ++ s.lost

/-- Somebody who holds the absent packets and never does anything. -/
def bystander (packets : List ObjectId) : List (ClientId × ObjectId) :=
  packets.map fun ptr => (0, ptr)

theorem map_snd_bystander (packets : List ObjectId) :
    (bystander packets).map Prod.snd = packets := by
  rw [bystander, List.map_map]
  exact List.map_id packets

/-- Every packet is pooled, held, pending or lost, exactly once; the counter counts the pending
ones, and these are as they were pushed. -/
structure Tracked (base : Nat) (s : Lifecycle) : Prop where
  exclusive : ({ s.toRecycling with
    held := s.held ++ bystander s.absent } : Recycling).Exclusive base
  pool : s.servo.packetPool.pool = s.pendingPackets.map some
  count : s.servo.packetPoolCount = s.pending.length
  counted : s.pending.length < 2 ^ 31
  unchanged : ∀ p ∈ s.pending, s.heap[p.1]? = some p.2

namespace Tracked

variable {base : Nat} {s : Lifecycle}

theorem perm (h : s.Tracked base) :
    (s.servo.recyclePool.mPool ++ s.heldPackets ++ s.pendingPackets ++ s.lost).Perm
      (List.range' base (s.heap.length - base)) := by
  have hperm := h.exclusive.accounts.perm
  rw [Recycling.heldPackets, List.map_append, map_snd_bystander, absent, ← List.append_assoc,
    ← List.append_assoc] at hperm
  exact hperm

/-- An absent packet exists, and nobody holds it. -/
theorem absent_apart (h : s.Tracked base) {ptr : ObjectId} (hptr : ptr ∈ s.absent) :
    ptr < s.heap.length ∧ ptr ∉ s.heldPackets ∧ ptr ∉ s.servo.recyclePool.mPool := by
  -- To the account the packet is one more that is held.
  have hmem : ((0 : ClientId), ptr) ∈ s.held ++ bystander s.absent :=
    List.mem_append_right _ (List.mem_map_of_mem hptr)
  have hnodup := (List.nodup_append.1 h.exclusive.accounts.nodup).2.1
  rw [Recycling.heldPackets, List.map_append, map_snd_bystander] at hnodup
  refine ⟨h.exclusive.lt_heap hmem, ?_, h.exclusive.not_pooled hmem⟩
  intro hheld
  exact (List.nodup_append.1 hnodup).2.2 ptr hheld ptr hptr rfl

/-- A step that only hands packets over keeps the account of them. -/
theorem handOver (h : s.Tracked base) {t : Lifecycle}
    (hpool : t.servo.recyclePool = s.servo.recyclePool) (hheap : t.heap = s.heap)
    (hperm : (t.heldPackets ++ t.absent).Perm (s.heldPackets ++ s.absent)) :
    ({ t.toRecycling with held := t.held ++ bystander t.absent } : Recycling).Exclusive base := by
  have hheld (u : Lifecycle) :
      ({ u.toRecycling with held := u.held ++ bystander u.absent } : Recycling).heldPackets =
        u.heldPackets ++ u.absent := by
    rw [Recycling.heldPackets, List.map_append, map_snd_bystander]
    rfl
  have hacc := h.exclusive.accounts
  have hclean := h.exclusive.clean
  rw [hheld s] at hacc
  refine ⟨?_, ?_⟩
  · rw [hheld t]
    simp only [hpool, hheap]
    exact hacc.perm_held hperm
  · simp only [hpool, hheap]
    exact hclean

end Tracked

/-- What a client lets go of moves from the held to the absent packets. -/
theorem perm_letGo {s : Lifecycle} {client : ClientId} {ptr : ObjectId}
    (hheld : (client, ptr) ∈ s.held) {absent : List ObjectId}
    (habsent : absent.Perm (ptr :: s.absent)) :
    ((s.held.erase (client, ptr)).map Prod.snd ++ absent).Perm (s.heldPackets ++ s.absent) := by
  have hcons : (ptr :: (s.held.erase (client, ptr)).map Prod.snd).Perm s.heldPackets :=
    ((List.perm_cons_erase hheld).map Prod.snd).symm
  -- The packet moves from one list to the other, in front of the absent ones.
  have hmove : ((s.held.erase (client, ptr)).map Prod.snd ++ absent).Perm
      (ptr :: (s.held.erase (client, ptr)).map Prod.snd ++ s.absent) :=
    (habsent.append_left _).trans List.perm_middle
  exact hmove.trans (hcons.append_right s.absent)

/-! ## Steps -/

section Steps

variable {base : Nat} {s : Lifecycle}

theorem step_recycle (h : s.Tracked base) {op : RecycleOp} (hop : s.toRecycling.Allowed op) :
    ∃ s', step s (.recycle op) = .ok s' ∧ s'.Tracked base ∧ s'.lost = s.lost := by
  -- To the recycling the absent packets are held as well, by somebody who does nothing.
  have hallowed : ({ s.toRecycling with
      held := s.held ++ bystander s.absent } : Recycling).Allowed op := by
    cases op with
    | allocNetPacket client => exact trivial
    | allocHeartbeat client now => exact trivial
    | work client ptr f => exact List.mem_append_left _ hop
    | deallockNetPacket client ptr bForceRecycle =>
        cases ptr with
        | none => exact trivial
        | some ptr => exact List.mem_append_left _ hop
  rcases Recycling.step_exclusive h.exclusive hallowed with ⟨all, hall, hexclusive⟩
  rw [Recycling.step_append s.toRecycling hop] at hall
  cases hstep : Recycling.step s.toRecycling op with
  | error e =>
      rw [hstep] at hall
      cases hall
  | ok recycling =>
      rw [hstep] at hall
      cases hall
      rcases Recycling.step_packetPool hstep with ⟨hpool, hcount⟩
      refine ⟨{ s with toRecycling := recycling }, ?_, ⟨hexclusive, ?_, ?_, h.counted, ?_⟩, rfl⟩
      · rw [step, hstep]
        rfl
      · exact (congrArg TNetPacketQueue.pool hpool).trans h.pool
      · exact hcount.trans h.count
      · intro p hp
        -- A pending packet is neither pooled nor held, so the step does not touch it.
        have habsent : p.1 ∈ s.absent := List.mem_append_left _ (List.mem_map_of_mem hp)
        rcases h.absent_apart habsent with ⟨hlt, hheld, hpooled⟩
        exact (Recycling.step_heap hop hstep hlt hheld hpooled).trans (h.unchanged p hp)

theorem step_discard (h : s.Tracked base) {client : ClientId} {ptr : ObjectId}
    (hheld : (client, ptr) ∈ s.held) :
    ∃ s', step s (.discard client ptr) = .ok s' ∧ s'.Tracked base ∧ s'.lost = ptr :: s.lost := by
  refine ⟨_, rfl, ⟨h.handOver rfl rfl ?_, h.pool, h.count, h.counted, h.unchanged⟩, rfl⟩
  apply perm_letGo hheld
  exact List.perm_middle

theorem step_push (h : s.Tracked base) {client : ClientId} {ptr : ObjectId}
    (hheld : (client, ptr) ∈ s.held) (hroom : s.pending.length + 1 < 2 ^ 31) :
    ∃ s', step s (.push client ptr) = .ok s' ∧ s'.Tracked base ∧ s'.lost = s.lost := by
  have hlt : ptr < s.heap.length := h.exclusive.lt_heap (List.mem_append_left _ hheld)
  have hcount : int32 (s.servo.packetPoolCount + 1) = .ok (s.servo.packetPoolCount + 1) := by
    rw [h.count]
    exact int32_ok (by omega) (by omega)
  have hpush : s.servo.push (some ptr) = .ok (true, { s.servo with
      packetPool := ⟨s.servo.packetPool.pool ++ [some ptr]⟩
      packetPoolCount := s.servo.packetPoolCount + 1 }) := by
    rw [FServoProtocol.push_eq, hcount]
    rfl
  have hstep : step s (.push client ptr) = .ok { s with
      servo := { s.servo with
        packetPool := ⟨s.servo.packetPool.pool ++ [some ptr]⟩
        packetPoolCount := s.servo.packetPoolCount + 1 }
      held := s.held.erase (client, ptr)
      pending := s.pending ++ [(ptr, s.heap.getD ptr default)] } := by
    rw [step, hpush]
    rfl
  have hlen : (s.pending ++ [(ptr, s.heap.getD ptr default)]).length = s.pending.length + 1 := by
    rw [List.length_append, List.length_singleton]
  refine ⟨_, hstep, ⟨h.handOver rfl rfl ?_, ?_, ?_, hlen ▸ hroom, ?_⟩, rfl⟩
  · apply perm_letGo hheld
    simp only [absent, pendingPackets, List.map_append, List.map_cons, List.map_nil,
      List.append_assoc, List.singleton_append]
    exact List.perm_middle
  · simp only [pendingPackets, List.map_append, h.pool]
    rfl
  · simp only [h.count, hlen, Int.natCast_succ]
  · intro p hp
    rcases List.mem_append.1 hp with hold | hnew
    · exact h.unchanged p hold
    · cases List.mem_singleton.1 hnew
      have hget : s.heap[ptr]? = some s.heap[ptr] := List.getElem?_eq_getElem hlt
      rw [hget, List.getD_eq_getElem?_getD, hget, Option.getD_some]

/-- The oldest pending packet goes to nobody. -/
theorem step_pop (h : s.Tracked base) (hpending : s.pending ≠ []) (client : ClientId)
    (out : SharedPtr) :
    ∃ (oldest : ObjectId) (s' : Lifecycle), step s (.pop client out) = .ok s' ∧
      s'.Tracked base ∧ s'.lost = oldest :: s.lost ∧ s'.held = s.held := by
  rcases List.exists_cons_of_ne_nil hpending with ⟨⟨oldest, value⟩, rest, hrest⟩
  have hpool : s.servo.packetPool.pool = some oldest :: rest.map fun p => some p.1 := by
    rw [h.pool, pendingPackets, hrest, List.map_map]
    rfl
  have hlen : s.pending.length = rest.length + 1 := by rw [hrest, List.length_cons]
  have hfewer : rest.length + 1 < 2 ^ 31 := hlen ▸ h.counted
  have hcount : int32 (s.servo.packetPoolCount - 1) = .ok (rest.length : Int) := by
    have hpred : s.servo.packetPoolCount - 1 = (rest.length : Int) := by
      rw [h.count, hlen, Int.natCast_succ, Int.add_sub_cancel]
    rw [hpred]
    exact int32_ok (by omega) (by omega)
  have hpop := FServoProtocol.pop_nonempty hpool out
  rw [hcount] at hpop
  have hstep : step s (.pop client out) = .ok { s with
      servo := { s.servo with
        packetPool := ⟨rest.map fun p => some p.1⟩, packetPoolCount := (rest.length : Int) }
      pending := rest
      lost := oldest :: s.lost } := by
    rw [step, hpop, loseOldest, hrest]
    rfl
  refine ⟨oldest, _, hstep, ⟨h.handOver rfl rfl ?_, ?_, rfl, ?_, ?_⟩, rfl, rfl⟩
  · apply List.Perm.append_left
    simp only [absent, pendingPackets, hrest, List.map_cons]
    exact List.perm_middle
  · rw [pendingPackets, List.map_map]
    rfl
  · exact Nat.lt_of_succ_lt hfewer
  · intro p hp
    apply h.unchanged
    rw [hrest]
    exact List.mem_cons_of_mem _ hp

/-- `PopWithRecycle` is a `Pop` and a `DeallockNetPacket`. -/
theorem popWithRecycle_eq (s : Lifecycle) (client : ClientId) (out : SharedPtr) :
    step s (.popWithRecycle client out) = step s (.pop client none) >>= fun popped =>
      step popped (.recycle (.deallockNetPacket client out false)) := by
  cases hpop : s.servo.pop none with
  | error e => simp only [step, FServoProtocol.popWithRecycle, hpop, Checked.error_bind]
  | ok popped =>
      rcases popped with ⟨ret, newPacket, servo⟩
      rcases FServoProtocol.pop_returns hpop with ⟨hret, hout⟩
      subst hret
      subst hout
      have hheap : s.loseOldest.heap = s.heap := by
        rw [loseOldest]
        split <;> rfl
      have hheld : s.loseOldest.held = s.held := by
        rw [loseOldest]
        split <;> rfl
      cases hdealloc : servo.deallockNetPacket s.heap out false with
      | error e =>
          -- `Pop` cannot assign its argument, so `PopWithRecycle` sees the null pointer it passed.
          simp only [step, Recycling.step, FServoProtocol.popWithRecycle, hpop, hheap, hdealloc,
            Checked.ok_bind, Checked.error_bind, Checked.pure_eq_ok]
      | ok recycled =>
          simp only [step, Recycling.step, FServoProtocol.popWithRecycle, hpop, hheap, hheld,
            hdealloc, Checked.ok_bind, Checked.pure_eq_ok]

theorem step_popWithRecycle (h : s.Tracked base) (hpending : s.pending ≠ []) {client : ClientId}
    {out : SharedPtr} (hout : s.toRecycling.Allowed (.deallockNetPacket client out false)) :
    ∃ (oldest : ObjectId) (s' : Lifecycle), step s (.popWithRecycle client out) = .ok s' ∧
      s'.Tracked base ∧ s'.lost = oldest :: s.lost := by
  rcases step_pop h hpending client none with ⟨oldest, popped, hpop, htracked, hlost, hheld⟩
  -- Popping leaves what the client holds.
  have hout' : popped.toRecycling.Allowed (.deallockNetPacket client out false) := by
    cases out with
    | none => exact trivial
    | some ptr =>
        have hmem : (client, ptr) ∈ s.held := hout
        rw [← hheld] at hmem
        exact hmem
  rcases step_recycle htracked hout' with ⟨s', hrecycle, htracked', hlost'⟩
  refine ⟨oldest, s', ?_, htracked', hlost'.trans hlost⟩
  rw [popWithRecycle_eq, hpop, Checked.ok_bind, hrecycle]

/-- Each step loses a packet or none. -/
theorem step_tracked (h : s.Tracked base) {op : LifecycleOp} (hop : s.Allowed op) :
    ∃ s', step s op = .ok s' ∧ s'.Tracked base ∧
      s'.lost.length = s.lost.length + (Loses op).toNat := by
  cases op with
  | recycle op =>
      rcases step_recycle h hop with ⟨s', hstep, htracked, hlost⟩
      exact ⟨s', hstep, htracked, congrArg List.length hlost⟩
  | discard client ptr =>
      rcases step_discard h hop with ⟨s', hstep, htracked, hlost⟩
      exact ⟨s', hstep, htracked, congrArg List.length hlost⟩
  | push client ptr =>
      rcases step_push h hop.1 hop.2 with ⟨s', hstep, htracked, hlost⟩
      exact ⟨s', hstep, htracked, congrArg List.length hlost⟩
  | pop client out =>
      rcases step_pop h hop client out with ⟨oldest, s', hstep, htracked, hlost, -⟩
      exact ⟨s', hstep, htracked, congrArg List.length hlost⟩
  | popWithRecycle client out =>
      rcases step_popWithRecycle h hop.1 hop.2 with ⟨oldest, s', hstep, htracked, hlost⟩
      exact ⟨s', hstep, htracked, congrArg List.length hlost⟩

end Steps

/-! ## Runs -/

theorem new_tracked {heap : Heap FSNetPacket} {maxnum : Int32} {s : Lifecycle}
    (h : new heap maxnum = .ok s) : s.Tracked heap.length ∧ s.lost = [] := by
  rcases Checked.bind_eq_ok.1 h with ⟨recycling, hrecycling, hs⟩
  cases hs
  have hexclusive := Recycling.new_exclusive hrecycling
  rcases Checked.bind_eq_ok.1 hrecycling with ⟨⟨servo, heap'⟩, hservo, hret⟩
  rcases Checked.bind_eq_ok.1 hservo with ⟨made, -, hmade⟩
  cases hmade
  cases hret
  exact ⟨⟨hexclusive, rfl, rfl, Nat.two_pow_pos 31, nofun⟩, rfl⟩

theorem foldl_loses (ops : List LifecycleOp) (n : Nat) :
    ops.foldl (fun n op => n + (Loses op).toNat) n = n + ops.countP Loses := by
  induction ops generalizing n with
  | nil => rfl
  | cons op ops ih =>
      have hcount : (op :: ops).countP Loses = (Loses op).toNat + ops.countP Loses := by
        rw [List.countP_cons, Nat.add_comm]
        cases Loses op <;> rfl
      rw [List.foldl_cons, ih, hcount, Nat.add_assoc]

/-- In every run in which clients touch, push and return only what they hold and pop only while
packets are pending: each packet created is pooled, held, pending or lost, exactly once; each
`Pop` and `PopWithRecycle` has lost one; the counter counts the pending packets; these are as they
were pushed; and the pooled ones are clean. -/
theorem packets_accounted (heap : Heap FSNetPacket) (maxnum : Int32) (s : Lifecycle)
    (hnew : new heap maxnum = .ok s) (ops : List LifecycleOp) (hops : Along step Allowed s ops) :
    ∃ s', run step s ops = .ok s' ∧
      (s'.servo.recyclePool.mPool ++ s'.heldPackets ++ s'.pendingPackets ++ s'.lost).Perm
        (List.range' heap.length (s'.heap.length - heap.length)) ∧
      s'.lost.length = ops.countP Loses ∧
      s'.servo.packetPool.pool = s'.pendingPackets.map some ∧
      s'.servo.packetPoolNum = s'.pending.length ∧
      (∀ p ∈ s'.pending, deref s'.heap (some p.1) = .ok p.2) ∧
      (∀ ptr ∈ s'.servo.recyclePool.mPool, ∃ packet,
        deref s'.heap (some ptr) = .ok packet ∧ packet.Clean) := by
  -- The abstract component only counts the packets lost.
  have hstep (t : Lifecycle) (n : Nat) (op : LifecycleOp)
      (h : t.Tracked heap.length ∧ t.lost.length = n) (hop : t.Allowed op) :
      ∃ t', step t op = .ok t' ∧
        (t'.Tracked heap.length ∧ t'.lost.length = n + (Loses op).toNat) := by
    rcases step_tracked h.1 hop with ⟨t', ht', htracked, hlost⟩
    rw [h.2] at hlost
    exact ⟨t', ht', htracked, hlost⟩
  rcases new_tracked hnew with ⟨hstart, hnone⟩
  have hsimulates : ∃ s', run step s ops = .ok s' ∧ (s'.Tracked heap.length ∧
      s'.lost.length = ops.foldl (fun n op => n + (Loses op).toNat) 0) :=
    run_simulates hstep ⟨hstart, congrArg List.length hnone⟩ hops
  rcases hsimulates with ⟨s', hrun, h, hlost⟩
  rw [foldl_loses, Nat.zero_add] at hlost
  refine ⟨s', hrun, h.perm, hlost, h.pool, h.count, ?_, ?_⟩
  · intro p hp
    exact deref_some.2 (h.unchanged p hp)
  · intro ptr hptr
    rcases h.exclusive.clean ptr hptr with ⟨packet, hget, hclean⟩
    exact ⟨packet, deref_some.2 hget, hclean⟩

/-- A packet is pushed by one client and popped by another, who recycles an older one. -/
def sampleOps : List LifecycleOp :=
  [.recycle (.allocNetPacket 0), .recycle (.work 0 0 FSNetPacket.onSeal), .push 0 0,
    .recycle (.allocHeartbeat 1 5), .popWithRecycle 1 (some 1)]

/-- One of the two packets is lost. -/
theorem packets_accounted_sample :
    ∃ s s' : Lifecycle, new [] 1 = .ok s ∧ run step s sampleOps = .ok s' ∧
      s'.lost.length = 1 ∧ s'.servo.packetPoolNum = s'.pending.length := by
  have hnew : new [] 1 =
      .ok { toRecycling := { servo := { recyclePool := ⟨[0]⟩ }, heap := [default] } } := rfl
  have hops : Along step Allowed
      { toRecycling := { servo := { recyclePool := ⟨[0]⟩ }, heap := [default] } } sampleOps := by
    decide
  rcases packets_accounted [] 1 _ hnew sampleOps hops with
    ⟨s', hrun, -, hlost, -, hcount, -, -⟩
  exact ⟨_, s', hnew, hrun, hlost, hcount⟩

end Lifecycle

end Septem
