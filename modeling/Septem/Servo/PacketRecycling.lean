import Septem.Core.RecyclePoolPeak
import Septem.Servo.ServoProtocol

/-!
# PacketRecycling — clients of `AllocNetPacket`, `AllocHeartbeat` and `DeallockNetPacket`

Any number of clients take packets from the protocol, work on those they hold, and give them back.
`Exclusive` is what the recycle pool relies on: every packet object is pooled or held, exactly
once, and what is pooled is clean.  The protocol keeps it as long as the clients touch and return
only what they hold (`Allowed`), so a packet that is handed out is in nobody's use and shows
nothing of its earlier one.
-/

namespace Septem

open Cxx

/-- What `OnDealloc` leaves: no body, no session, no announced size, not valid. -/
structure FSNetPacket.Clean (packet : FSNetPacket) : Prop where
  body : packet.body = FSNetBufferBody.new
  sid : packet.sid = 0
  size : packet.head.size = 0
  integrity : packet.bFastIntegrity = false

theorem FSNetPacket.onDealloc_clean (packet : FSNetPacket) : packet.onDealloc.Clean :=
  ⟨rfl, rfl, rfl, rfl⟩

theorem FSNetPacket.default_clean : (default : FSNetPacket).Clean :=
  ⟨rfl, rfl, rfl, rfl⟩

/-! ## Clean pools -/

/-- Every pooled packet exists and is clean. -/
def TSharedRecyclePool.CleanIn (pool : TSharedRecyclePool) (heap : Heap FSNetPacket) : Prop :=
  ∀ ptr ∈ pool.mPool, ∃ packet, heap[ptr]? = some packet ∧ packet.Clean

namespace TSharedRecyclePool

variable {pool : TSharedRecyclePool} {heap : Heap FSNetPacket}

/-- New objects do not change the old ones. -/
theorem CleanIn.append (h : pool.CleanIn heap) (objects : Heap FSNetPacket) :
    pool.CleanIn (heap ++ objects) := by
  intro ptr hptr
  rcases h ptr hptr with ⟨packet, hget, hclean⟩
  have hlt : ptr < heap.length := (List.getElem?_eq_some_iff.1 hget).1
  exact ⟨packet, by rw [List.getElem?_append_left hlt, hget], hclean⟩

/-- Work on a packet that is not pooled leaves the pool clean. -/
theorem CleanIn.set (h : pool.CleanIn heap) {ptr : ObjectId} (hptr : ptr ∉ pool.mPool)
    (packet : FSNetPacket) : pool.CleanIn (heap.set ptr packet) := by
  intro other hother
  have hne : ptr ≠ other := fun heq => hptr (heq ▸ hother)
  rw [List.getElem?_set_ne hne]
  exact h other hother

theorem pushNew_clean (n : Nat) (h : pool.CleanIn heap) :
    (pushNew n pool heap).1.CleanIn (pushNew n pool heap).2 := by
  induction n generalizing pool heap with
  | zero => exact h
  | succ n ih =>
      have hpush : ({ pool with mPool := heap.length :: pool.mPool } : TSharedRecyclePool).CleanIn
          (heap ++ [default]) := by
        intro ptr hptr
        rcases List.mem_cons.1 hptr with rfl | hold
        · exact ⟨default, List.getElem?_concat_length, FSNetPacket.default_clean⟩
        · exact h.append [default] ptr hold
      exact ih hpush

theorem new_clean {inNum : Int32} {made : TSharedRecyclePool × Heap FSNetPacket}
    (h : new heap inNum = .ok made) : made.1.CleanIn made.2 := by
  have hempty : ({} : TSharedRecyclePool).CleanIn heap := nofun
  rcases Checked.bind_eq_ok.1 h with ⟨imax, -, hrest⟩
  split at hrest
  · cases hrest
    exact pushNew_clean _ hempty
  · cases hrest
    exact hempty

/-- `Alloc` keeps the pool clean and hands out a clean packet. -/
theorem alloc_clean (h : pool.CleanIn heap) :
    (pool.alloc heap).2.1.CleanIn (pool.alloc heap).2.2 ∧
      ∃ packet, (pool.alloc heap).2.2[(pool.alloc heap).1]? = some packet ∧ packet.Clean := by
  cases hpool : pool.mPool with
  | nil =>
      simp only [alloc, hpool, makeShared]
      exact ⟨h.append [default], default, List.getElem?_concat_length, FSNetPacket.default_clean⟩
  | cons ret rest =>
      simp only [alloc, hpool]
      have hret : ret ∈ pool.mPool := by simp [hpool]
      refine ⟨?_, h ret hret⟩
      intro ptr hptr
      exact h ptr (by simp [hpool, hptr])

end TSharedRecyclePool

/-! ## Clients -/

abbrev ClientId : Type := Nat

inductive RecycleOp
  | allocNetPacket (client : ClientId)
  | allocHeartbeat (client : ClientId) (now : UInt64)
  | deallockNetPacket (client : ClientId) (inSharedPtr : SharedPtr) (bForceRecycle : Bool)
  /-- the client works on a packet: `ReUse`, `OnSeal`, writes to the body -/
  | work (client : ClientId) (ptr : ObjectId) (f : FSNetPacket → FSNetPacket)

/-- A protocol object in use, with a record of who holds which packet. -/
structure Recycling where
  servo : FServoProtocol
  heap : Heap FSNetPacket
  held : List (ClientId × ObjectId) := []

namespace Recycling

def new (heap : Heap FSNetPacket) (recyclePoolMaxnum : Int32) : Checked Recycling := do
  let (servo, heap) ← FServoProtocol.new heap recyclePoolMaxnum
  return { servo, heap }

/-- Record that the client holds what the pointer designates. -/
def hold (client : ClientId) (ptr : SharedPtr) (held : List (ClientId × ObjectId)) :
    List (ClientId × ObjectId) :=
  match ptr with
  | none => held
  | some ptr => (client, ptr) :: held

/-- Record that the client no longer holds it. -/
def release (client : ClientId) (ptr : SharedPtr) (held : List (ClientId × ObjectId)) :
    List (ClientId × ObjectId) :=
  match ptr with
  | none => held
  | some ptr => held.erase (client, ptr)

def step (s : Recycling) : RecycleOp → Checked Recycling
  | .allocNetPacket client =>
      let (ret, servo, heap) := s.servo.allocNetPacket s.heap
      pure { servo, heap, held := hold client ret s.held }
  | .allocHeartbeat client now => do
      let (ret, servo, heap) ← s.servo.allocHeartbeat s.heap now
      return { servo, heap, held := hold client ret s.held }
  | .deallockNetPacket client ptr bForceRecycle => do
      let (servo, heap) ← s.servo.deallockNetPacket s.heap ptr bForceRecycle
      return { servo, heap, held := release client ptr s.held }
  | .work _ ptr f => do
      let heap ← mutate s.heap (some ptr) f
      return { s with heap }

/-- A client returns and works on only what it holds; a null pointer may be returned. -/
def Allowed (s : Recycling) : RecycleOp → Prop
  | .deallockNetPacket client (some ptr) _ => (client, ptr) ∈ s.held
  | .work client ptr _ => (client, ptr) ∈ s.held
  | _ => True

instance (s : Recycling) (op : RecycleOp) : Decidable (s.Allowed op) :=
  match op with
  | .allocNetPacket _ => inferInstanceAs (Decidable True)
  | .allocHeartbeat _ _ => inferInstanceAs (Decidable True)
  | .deallockNetPacket _ none _ => inferInstanceAs (Decidable True)
  | .deallockNetPacket client (some ptr) _ =>
      inferInstanceAs (Decidable ((client, ptr) ∈ s.held))
  | .work client ptr _ => inferInstanceAs (Decidable ((client, ptr) ∈ s.held))

/-- The packets held, by whomever. -/
def heldPackets (s : Recycling) : List ObjectId :=
  s.held.map Prod.snd

/-- Every packet object is pooled or held, exactly once, and the pooled ones are clean. -/
structure Exclusive (base : Nat) (s : Recycling) : Prop where
  accounts : s.servo.recyclePool.Accounts s.heldPackets base s.heap.length
  clean : s.servo.recyclePool.CleanIn s.heap

namespace Exclusive

variable {base : Nat} {s : Recycling}

/-- What is held is not pooled. -/
theorem not_pooled (h : s.Exclusive base) {client : ClientId} {ptr : ObjectId}
    (hheld : (client, ptr) ∈ s.held) : ptr ∉ s.servo.recyclePool.mPool := by
  intro hpooled
  have hmem : ptr ∈ s.heldPackets := List.mem_map_of_mem hheld
  exact (List.nodup_append.1 h.accounts.nodup).2.2 ptr hpooled ptr hmem rfl

theorem lt_heap (h : s.Exclusive base) {client : ClientId} {ptr : ObjectId}
    (hheld : (client, ptr) ∈ s.held) : ptr < s.heap.length :=
  h.accounts.lt_size (List.mem_append_right _ (List.mem_map_of_mem hheld))

/-- Work on a held packet concerns no pooled one. -/
theorem set_held (h : s.Exclusive base) {client : ClientId} {ptr : ObjectId}
    (hheld : (client, ptr) ∈ s.held) (packet : FSNetPacket) :
    ({ s with heap := s.heap.set ptr packet } : Recycling).Exclusive base := by
  have hlen : (s.heap.set ptr packet).length = s.heap.length := List.length_set
  have hacc : s.servo.recyclePool.Accounts s.heldPackets base (s.heap.set ptr packet).length := by
    rw [hlen]
    exact h.accounts
  exact ⟨hacc, h.clean.set (h.not_pooled hheld) packet⟩

/-- A packet taken from the recycle pool is held by the client who asked for it. -/
theorem alloc (h : s.Exclusive base) (client : ClientId) :
    ({ servo := { s.servo with recyclePool := (s.servo.recyclePool.alloc s.heap).2.1 }
       heap := (s.servo.recyclePool.alloc s.heap).2.2
       held := (client, (s.servo.recyclePool.alloc s.heap).1) :: s.held } : Recycling).Exclusive
      base :=
  ⟨TSharedRecyclePool.alloc_accounts h.accounts, (TSharedRecyclePool.alloc_clean h.clean).1⟩

/-- A held packet that is clean can be pooled. -/
theorem dealloc (h : s.Exclusive base) {client : ClientId} {ptr : ObjectId}
    (hheld : (client, ptr) ∈ s.held) {packet : FSNetPacket} (hget : s.heap[ptr]? = some packet)
    (hclean : packet.Clean) :
    ({ servo := { s.servo with recyclePool := s.servo.recyclePool.dealloc (some ptr) }
       heap := s.heap
       held := s.held.erase (client, ptr) } : Recycling).Exclusive base := by
  have hmem : ptr ∈ s.heldPackets := List.mem_map_of_mem hheld
  -- What is left of the held packets is what they were without `ptr`.
  have hrest : ((s.held.erase (client, ptr)).map Prod.snd).Perm (s.heldPackets.erase ptr) := by
    have hcons : (ptr :: (s.held.erase (client, ptr)).map Prod.snd).Perm s.heldPackets :=
      ((List.perm_cons_erase hheld).map Prod.snd).symm
    exact (hcons.trans (List.perm_cons_erase hmem)).cons_inv
  refine ⟨(TSharedRecyclePool.dealloc_accounts h.accounts hmem).perm_held hrest, ?_⟩
  intro other hother
  rcases List.mem_cons.1 hother with rfl | hpooled
  · exact ⟨packet, hget, hclean⟩
  · exact h.clean other hpooled

end Exclusive

/-! ## Steps -/

section Steps

variable {base : Nat} {s : Recycling}

theorem step_allocNetPacket (h : s.Exclusive base) (client : ClientId) :
    ∃ s', step s (.allocNetPacket client) = .ok s' ∧ s'.Exclusive base :=
  ⟨_, rfl, h.alloc client⟩

/-- A heartbeat is a packet taken from the pool and worked on twice before its client sees it. -/
theorem step_allocHeartbeat (h : s.Exclusive base) (client : ClientId) (now : UInt64) :
    ∃ s', step s (.allocHeartbeat client now) = .ok s' ∧ s'.Exclusive base := by
  have htaken := h.alloc client
  rcases mutate_set (htaken.lt_heap List.mem_cons_self)
    (fun packet => packet.reUseAsHeartbeat s.servo.syncword now) with ⟨recycled, hreuse⟩
  have hreused := htaken.set_held List.mem_cons_self
    (recycled.reUseAsHeartbeat s.servo.syncword now)
  rcases mutate_set (hreused.lt_heap List.mem_cons_self)
    (fun packet => packet.checkIntegrity.2) with ⟨heartbeat, hcheck⟩
  refine ⟨_, ?_, hreused.set_held List.mem_cons_self heartbeat.checkIntegrity.2⟩
  simp only [step, FServoProtocol.allocHeartbeat, hreuse, hcheck, Checked.ok_bind]
  rfl

theorem step_work (h : s.Exclusive base) {client : ClientId} {ptr : ObjectId}
    (hheld : (client, ptr) ∈ s.held) (f : FSNetPacket → FSNetPacket) :
    ∃ s', step s (.work client ptr f) = .ok s' ∧ s'.Exclusive base := by
  rcases mutate_set (h.lt_heap hheld) f with ⟨packet, hset⟩
  refine ⟨_, ?_, h.set_held hheld (f packet)⟩
  rw [step, hset]
  rfl

/-- A returned packet is cleaned and moves to the pool. -/
theorem step_deallockNetPacket (h : s.Exclusive base) {client : ClientId} {ptr : ObjectId}
    (hheld : (client, ptr) ∈ s.held) (bForceRecycle : Bool) :
    ∃ s', step s (.deallockNetPacket client (some ptr) bForceRecycle) = .ok s' ∧
      s'.Exclusive base := by
  rcases mutate_set (h.lt_heap hheld) FSNetPacket.onDealloc with ⟨packet, hset⟩
  have hcleaned := h.set_held hheld packet.onDealloc
  have hget : (s.heap.set ptr packet.onDealloc)[ptr]? = some packet.onDealloc :=
    List.getElem?_set_self (h.lt_heap hheld)
  refine ⟨_, ?_, hcleaned.dealloc hheld hget packet.onDealloc_clean⟩
  simp only [step, FServoProtocol.deallockNetPacket, hset, Checked.ok_bind, release]
  rfl

theorem step_exclusive {op : RecycleOp} (h : s.Exclusive base) (hop : s.Allowed op) :
    ∃ s', step s op = .ok s' ∧ s'.Exclusive base := by
  cases op with
  | allocNetPacket client => exact step_allocNetPacket h client
  | allocHeartbeat client now => exact step_allocHeartbeat h client now
  | work client ptr f => exact step_work h hop f
  | deallockNetPacket client ptr bForceRecycle =>
      cases ptr with
      | none => exact ⟨s, rfl, h⟩
      | some ptr => exact step_deallockNetPacket h hop bForceRecycle

end Steps

/-! ## Runs -/

theorem new_exclusive {heap : Heap FSNetPacket} {maxnum : Int32} {s : Recycling}
    (h : new heap maxnum = .ok s) : s.Exclusive heap.length := by
  rcases Checked.bind_eq_ok.1 h with ⟨⟨servo, heap'⟩, hservo, hs⟩
  rcases Checked.bind_eq_ok.1 hservo with ⟨⟨pool, heap''⟩, hpool, hret⟩
  rcases TSharedRecyclePool.new_accounts heap maxnum with ⟨pool', made, hmade, hacc, -⟩
  have hclean := TSharedRecyclePool.new_clean hpool
  rw [hpool] at hmade
  cases hmade
  cases hret
  cases hs
  exact ⟨hacc, hclean⟩

/-- In every run of clients that touch and return only what they hold: no packet is pooled twice,
pooled and held, or held twice; pooled packets are clean; and the packet `AllocNetPacket` hands out
next is in nobody's use and clean. -/
theorem recycling_exclusive (heap : Heap FSNetPacket) (maxnum : Int32) (s : Recycling)
    (hnew : new heap maxnum = .ok s) (ops : List RecycleOp) (hops : Along step Allowed s ops) :
    ∃ s', run step s ops = .ok s' ∧
      (s'.servo.recyclePool.mPool ++ s'.heldPackets).Nodup ∧
      (∀ ptr ∈ s'.servo.recyclePool.mPool, ∃ packet,
        deref s'.heap (some ptr) = .ok packet ∧ packet.Clean) ∧
      ∃ (ptr : ObjectId) (servo : FServoProtocol) (heap' : Heap FSNetPacket)
        (packet : FSNetPacket),
        s'.servo.allocNetPacket s'.heap = (some ptr, servo, heap') ∧
        ptr ∉ s'.heldPackets ∧ ptr ∉ servo.recyclePool.mPool ∧
        deref heap' (some ptr) = .ok packet ∧ packet.Clean ∧ packet.isValid = false := by
  rcases run_keeps (fun _ _ => step_exclusive) (new_exclusive hnew) hops with ⟨s', hrun, h⟩
  refine ⟨s', hrun, h.accounts.nodup, ?_, ?_⟩
  · intro ptr hptr
    rcases h.clean ptr hptr with ⟨packet, hget, hclean⟩
    exact ⟨packet, deref_some.2 hget, hclean⟩
  · rcases (TSharedRecyclePool.alloc_clean h.clean).2 with ⟨packet, hget, hclean⟩
    -- After the allocation the packet counts as held, once.
    have hnodup := (h.alloc 0).accounts.nodup
    have hsplit := List.nodup_append.1 hnodup
    refine ⟨_, _, _, packet, rfl, ?_, ?_, deref_some.2 hget, hclean, hclean.integrity⟩
    · exact (List.nodup_cons.1 hsplit.2.1).1
    · intro hpooled
      exact hsplit.2.2 _ hpooled _ List.mem_cons_self rfl

/-- Two clients, one of which seals its packet and returns it. -/
def sampleOps : List RecycleOp :=
  [.allocNetPacket 0, .work 0 0 FSNetPacket.onSeal, .allocHeartbeat 1 5,
    .deallockNetPacket 0 (some 0) true, .deallockNetPacket 0 none false]

theorem recycling_exclusive_sample :
    ∃ s s' : Recycling, new [] 1 = .ok s ∧ run step s sampleOps = .ok s' ∧
      (s'.servo.recyclePool.mPool ++ s'.heldPackets).Nodup := by
  have hnew : new [] 1 = .ok { servo := { recyclePool := ⟨[0]⟩ }, heap := [default] } := rfl
  have hops : Along step Allowed { servo := { recyclePool := ⟨[0]⟩ }, heap := [default] }
      sampleOps := by
    decide
  rcases recycling_exclusive [] 1 _ hnew sampleOps hops with ⟨s', hrun, hnodup, -⟩
  exact ⟨_, s', hnew, hrun, hnodup⟩

end Recycling

end Septem
