import Septem.Servo.ProtocolDispatch

/-!
# DispatchRouting — which packets end up in which protocol

`ProtocolDispatch` counts the bytes of a dispatched frame; here is where the frames go.  `Routing` is
what a factory with protocol objects is for: a table from uids to protocols, in which the first
registration of a uid stays, and for each protocol the valid frames dispatched to it, in order.

* `run_routes`: the factory and the protocols follow the routing, and no packet that is pending is
  changed by the frames that come after it;
* `run_objects`: how many packet objects a protocol has created by then.
-/

namespace Septem

open Cxx

/-! ## Received frames of one protocol -/

namespace Reception

variable {T : Type} [StaticNetBody T] {k : Nat} {bytes : T → Bytes} {base : Nat} {s : Reception T}

omit [StaticNetBody T] in
/-- The pending packets hold the frames, in this order. -/
def Received (k : Nat) (bytes : T → Bytes) (s : Reception T) (frames : List ReceivedFrame) : Prop :=
  List.Forall₂ (fun ptr frame => ∃ packet, deref s.heap (some ptr) = .ok packet ∧
    packet.Holds k bytes frame) s.pendingPackets frames

/-- Work on the packet taken leaves what was received. -/
theorem Owned.received_kept (h : s.Owned base) {frames : List ReceivedFrame}
    (hreceived : s.Received k bytes frames) (packet : TSNetPacket T) :
    List.Forall₂ (fun ptr frame => ∃ old,
      deref ((s.servo.recyclePool.alloc s.heap).2.2.set s.taken packet) (some ptr) = .ok old ∧
        old.Holds k bytes frame) s.pendingPackets frames := by
  -- The packet taken is none of the pending ones.
  have hboth := (List.forall₂_and_left _ _).2 ⟨h.pending_kept packet, hreceived⟩
  refine hboth.imp ?_
  rintro ptr frame ⟨hsame, old, hold, hholds⟩
  exact ⟨old, hsame.trans hold, hholds⟩

/-- A valid frame is received behind the others, an invalid one leaves them as they are. -/
theorem onReceivedPacket_received (hT : ReadBody T k bytes) (h : s.Owned base)
    {frames : List ReceivedFrame} (hreceived : s.Received k bytes frames) {frame : ReceivedFrame}
    (hcond : s.StepCondition k frame) :
    ∃ s', s.onReceivedPacket frame = .ok ((frame.consumed k : Int), s') ∧ s'.Owned base ∧
      s'.Received k bytes (if frame.Admissible k then frames ++ [frame] else frames) := by
  rcases onReceivedPacket_eq hT h frame with ⟨after, hholds, heq⟩
  have hnonneg := h.num_nonneg
  by_cases hadm : frame.Admissible k
  · rw [if_pos hadm, int32_ok (by omega) (hcond hadm)] at heq
    refine ⟨s.afterPush after, heq, h.afterPush after, ?_⟩
    rw [if_pos hadm, Received, pendingPackets_afterPush]
    refine List.rel_append (h.received_kept hreceived after) ?_
    exact List.Forall₂.cons ⟨after, deref_set h.taken_lt after, hholds hadm⟩ List.Forall₂.nil
  · rw [if_neg hadm] at heq
    refine ⟨s.afterRefusal after, heq, h.afterRefusal after, ?_⟩
    rw [if_neg hadm]
    exact h.received_kept hreceived after.onDealloc

/-! ## Packet objects -/

omit [StaticNetBody T] in
/-- With `n₀` packets made by the constructor, at most one more exists than the constructor made or
are pending. -/
structure Economical (n₀ base : Nat) (s : Reception T) : Prop extends s.Owned base where
  made_le : base + n₀ ≤ s.heap.length
  length_le : s.heap.length ≤ base + max n₀ (s.pendingPackets.length + 1)

theorem new_economical {poolMode : SPPMode} {heap : Heap (TSNetPacket T)} {maxnum : Int32}
    (h : new poolMode heap maxnum = .ok s) : s.Economical maxnum.toInt.toNat heap.length := by
  rcases Checked.bind_eq_ok.1 h with ⟨⟨servo, heap'⟩, hservo, hs⟩
  rcases Checked.bind_eq_ok.1 hservo with ⟨⟨recyclePool, heap''⟩, hrecycle, hrest⟩
  rcases Checked.bind_eq_ok.1 hrest with ⟨packetPool, -, hret⟩
  rcases TSharedRecyclePool.new_accounts heap maxnum with ⟨pool, made, hmade, -, hlen⟩
  rw [hrecycle] at hmade
  cases hmade
  cases hret
  cases hs
  refine ⟨(new_owned h).1, Nat.le_of_eq hlen.symm, ?_⟩
  rw [hlen]
  exact Nat.add_le_add_left (Nat.le_max_left _ _) _

/-- `Alloc` makes a packet only when all of them are pending. -/
theorem Owned.length_alloc (h : s.Owned base) :
    s.heap.length ≤ (s.servo.recyclePool.alloc s.heap).2.2.length ∧
      (s.servo.recyclePool.alloc s.heap).2.2.length ≤
        max s.heap.length (base + (s.pendingPackets.length + 1)) := by
  have hlen := h.accounts.length_add
  have hbase := h.accounts.base_le
  cases hpool : s.servo.recyclePool.mPool with
  | nil =>
      -- The pool is empty, so all packets made so far are pending.
      rw [hpool, List.length_nil] at hlen
      simp only [TSharedRecyclePool.alloc, hpool, makeShared, List.length_append,
        List.length_singleton]
      omega
  | cons ret rest =>
      simp only [TSharedRecyclePool.alloc, hpool]
      exact ⟨Nat.le_refl _, Nat.le_max_left _ _⟩

/-- A step creates nothing but the packet taken, and leaves every pending packet pending. -/
theorem step_length (hT : ReadBody T k bytes) (h : s.Owned base) {frame : ReceivedFrame}
    {s' : Reception T} (hstep : step s frame = .ok s') :
    s'.heap.length = (s.servo.recyclePool.alloc s.heap).2.2.length ∧
      s.pendingPackets.length ≤ s'.pendingPackets.length := by
  rcases onReceivedPacket_eq hT h frame with ⟨after, -, heq⟩
  rcases Checked.bind_eq_ok.1 hstep with ⟨⟨received, t⟩, hcall, hret⟩
  cases hret
  rw [heq] at hcall
  by_cases hadm : frame.Admissible k
  · rw [if_pos hadm] at hcall
    cases hcount : int32 (s.servo.packetPoolNum + 1) with
    | error e =>
        rw [hcount] at hcall
        cases hcall
    | ok count =>
        rw [hcount] at hcall
        cases hcall
        -- Pushing sets the packet taken in place, and no other.
        refine ⟨List.length_set, ?_⟩
        rw [pendingPackets_afterPush, List.length_append]
        exact Nat.le_add_right _ _
  · rw [if_neg hadm] at hcall
    cases hcall
    exact ⟨List.length_set, Nat.le_refl _⟩

theorem step_economical (hT : ReadBody T k bytes) {n₀ : Nat} (h : s.Economical n₀ base)
    {frame : ReceivedFrame} {s' : Reception T} (hstep : step s frame = .ok s') :
    s'.Economical n₀ base := by
  rcases h.length_alloc with ⟨hge, hle⟩
  rcases step_length hT h.toOwned hstep with ⟨hlen, hpending⟩
  have hmade := h.made_le
  have hlength := h.length_le
  refine ⟨(step_owned hT h.toOwned hstep).1, ?_, ?_⟩
  · rw [hlen]
    exact Nat.le_trans hmade hge
  · rw [hlen]
    omega

end Reception

/-! ## The routing -/

/-- What registrations and calls amount to. -/
structure Routing (ι : Type) where
  table : Int32 → Option ι := fun _ => none
  delivered : ι → List ReceivedFrame := fun _ => []

namespace Routing

variable {ι : Type} [DecidableEq ι]

/-- A uid keeps its first protocol; a valid frame of a known uid is delivered. -/
def next (k : ι → Nat) (a : Routing ι) : DispatchOp ι → Routing ι
  | .registerProtocolDeserialize uid protocol =>
      if a.table uid = none then
        { a with table := Function.update a.table uid (some protocol) }
      else
        a
  | .callProtocolDeserialize frame _ =>
      match a.table frame.uid with
      | some i =>
          let frames := if frame.Admissible (k i) then a.delivered i ++ [frame] else a.delivered i
          { a with delivered := Function.update a.delivered i frames }
      | none => a

/-- What has been delivered stays delivered. -/
theorem length_delivered_le (k : ι → Nat) (a : Routing ι) (op : DispatchOp ι) (i : ι) :
    (a.delivered i).length ≤ ((a.next k op).delivered i).length := by
  cases op with
  | registerProtocolDeserialize uid protocol =>
      rw [next]
      split
      · exact Nat.le_refl _
      · exact Nat.le_refl _
  | callProtocolDeserialize frame recivedBytesRead =>
      rw [next]
      split
      · rename_i j hj
        by_cases hij : i = j
        · subst hij
          simp only [Function.update_self]
          split
          · simp
          · exact Nat.le_refl _
        · simp [Function.update_of_ne hij]
      · exact Nat.le_refl _

end Routing

namespace Dispatcher

variable {ι : Type} [DecidableEq ι] {T : ι → Type} [(i : ι) → StaticNetBody (T i)]
  {k : ι → Nat} {bytes : (i : ι) → T i → Bytes}

omit [DecidableEq ι] in
/-- The factory has the table, and the protocols have received what was delivered. -/
structure Follows (k : ι → Nat) (bytes : (i : ι) → T i → Bytes) (s : Dispatcher ι T)
    (a : Routing ι) : Prop where
  table : ∀ uid : Int32, s.factory.protocolDeserializeDelegates[uid]? = (a.table uid).map some
  owned : ∀ i, ∃ base, (s.protocols i).Owned base
  received : ∀ i, (s.protocols i).Received (k i) (bytes i) (a.delivered i)

section Follows

variable {s : Dispatcher ι T} {a : Routing ι}

omit [DecidableEq ι] in
theorem fresh_follows (h : s.Fresh) : s.Follows k bytes {} where
  table uid := by
    rw [h.factory, Std.ExtTreeMap.getElem?_empty]
    rfl
  owned := (fresh_ready h).owned
  received i := by
    rcases h.protocols i with ⟨poolMode, heap, maxnum, hnew⟩
    rw [Reception.Received, (Reception.new_owned hnew).2]
    exact List.Forall₂.nil

omit [DecidableEq ι] [(i : ι) → StaticNetBody (T i)] in
theorem Follows.packetPoolNum_eq (h : s.Follows k bytes a) (i : ι) :
    (s.protocols i).servo.packetPoolNum = (a.delivered i).length := by
  rcases h.owned i with ⟨base, howned⟩
  rw [howned.count_eq, (h.received i).length_eq]

omit [(i : ι) → StaticNetBody (T i)] in
theorem Follows.register (h : s.Follows k bytes a) (uid : Int32) (protocol : ι) :
    ({ s with factory := (s.factory.registerProtocolDeserialize uid (some protocol)).2 } :
      Dispatcher ι T).Follows k bytes (a.next k (.registerProtocolDeserialize uid protocol)) := by
  have hmem : uid ∈ s.factory.protocolDeserializeDelegates ↔ a.table uid ≠ none := by
    rw [Std.ExtTreeMap.mem_iff_isSome_getElem?, h.table]
    cases a.table uid with
    | none => simp
    | some i => simp
  rw [FProtocolFactory.registerProtocolDeserialize, Routing.next]
  by_cases hknown : a.table uid = none
  · rw [if_pos hknown, if_neg fun hin => hmem.1 hin hknown]
    refine ⟨?_, h.owned, h.received⟩
    intro other
    simp only [Std.ExtTreeMap.getElem?_insert]
    by_cases huid : uid = other
    · subst huid
      -- The map and the table get the same new entry.
      rw [if_pos Std.ReflCmp.compare_self, Function.update_self]
      rfl
    · rw [if_neg fun hcmp => huid (Std.LawfulEqCmp.eq_of_compare hcmp),
        Function.update_of_ne (Ne.symm huid), h.table]
  · rw [if_neg hknown, if_pos (hmem.2 hknown)]
    exact h

/-- A call that leaves room in the counters follows the routing. -/
theorem Follows.call (hT : ∀ i, ReadBody (T i) (k i) (bytes i)) (h : s.Follows k bytes a)
    {frame : ReceivedFrame} {recivedBytesRead : Int32}
    (hroom : ∀ i, ((a.next k (.callProtocolDeserialize frame recivedBytesRead)).delivered i).length <
      2 ^ 31) :
    ∃ s', s.step (.callProtocolDeserialize frame recivedBytesRead) = .ok s' ∧
      s'.Follows k bytes (a.next k (.callProtocolDeserialize frame recivedBytesRead)) := by
  cases hfind : a.table frame.uid with
  | none =>
      have hunknown : s.factory.protocolDeserializeDelegates[frame.uid]? = none := by
        rw [h.table, hfind]
        rfl
      refine ⟨s, ?_, ?_⟩
      · rw [step, call_unknown frame hunknown]
        rfl
      · rw [Routing.next, hfind]
        exact h
  | some i =>
      have hregistered : s.factory.protocolDeserializeDelegates[frame.uid]? = some (some i) := by
        rw [h.table, hfind]
        rfl
      rcases h.owned i with ⟨base, howned⟩
      simp only [Routing.next, hfind] at hroom ⊢
      -- The counter has room, as it counts what has been delivered.
      have hcond : (s.protocols i).StepCondition (k i) frame := by
        intro hadm
        have hlt := hroom i
        rw [Function.update_self, if_pos hadm, List.length_append, List.length_singleton] at hlt
        rw [h.packetPoolNum_eq]
        omega
      rcases Reception.onReceivedPacket_received (hT i) howned (h.received i) hcond with
        ⟨reception, hcall, howned', hreceived⟩
      refine ⟨{ s with protocols := Function.update s.protocols i reception }, ?_, h.table, ?_, ?_⟩
      · rw [step, call_registered frame hregistered, hcall]
        rfl
      · intro j
        by_cases hij : j = i
        · subst hij
          simp only [Function.update_self]
          exact ⟨base, howned'⟩
        · simp only [Function.update_of_ne hij]
          exact h.owned j
      · intro j
        by_cases hij : j = i
        · subst hij
          simp only [Function.update_self]
          exact hreceived
        · simp only [Function.update_of_ne hij]
          exact h.received j

/-- A step leaves a protocol alone or is a step of it. -/
theorem step_protocols (hready : s.Ready) {op : DispatchOp ι} {s' : Dispatcher ι T}
    (hstep : s.step op = .ok s') (i : ι) :
    s'.protocols i = s.protocols i ∨
      ∃ frame, (s.protocols i).step frame = .ok (s'.protocols i) := by
  cases op with
  | registerProtocolDeserialize uid protocol =>
      cases hstep
      exact Or.inl rfl
  | callProtocolDeserialize frame recivedBytesRead =>
      rcases Checked.bind_eq_ok.1 hstep with ⟨called, hcall, hret⟩
      cases hret
      cases hfind : s.factory.protocolDeserializeDelegates[frame.uid]? with
      | none =>
          rw [call_unknown frame hfind] at hcall
          cases hcall
          exact Or.inl rfl
      | some f =>
          cases f with
          -- No empty delegate has been registered.
          | none => exact absurd hfind (hready.delegates frame.uid)
          | some j =>
              rw [call_registered frame hfind] at hcall
              rcases Checked.bind_eq_ok.1 hcall with ⟨received, hreceived, hret⟩
              cases hret
              by_cases hij : i = j
              · subst hij
                refine Or.inr ⟨frame, ?_⟩
                simp only [Function.update_self, Reception.step, hreceived]
                rfl
              · exact Or.inl (Function.update_of_ne hij _ _)

end Follows

/-- From new objects, a run follows the routing as long as the counters have room. -/
theorem run_follows (hT : ∀ i, ReadBody (T i) (k i) (bytes i)) {s₀ : Dispatcher ι T}
    (hfresh : s₀.Fresh) {ops : List (DispatchOp ι)}
    (hroom : ∀ i, ((ops.foldl (Routing.next k) {}).delivered i).length < 2 ^ 31) :
    ∃ s, run step s₀ ops = .ok s ∧ s.Follows k bytes (ops.foldl (Routing.next k) {}) := by
  -- The bound at the end of the run bounds every state before it, since deliveries only grow.
  let Good (a : Routing ι) : Prop := ∀ i, (a.delivered i).length < 2 ^ 31
  have hback (a : Routing ι) (op : DispatchOp ι) (hnext : Good (a.next k op)) : Good a :=
    fun i => Nat.lt_of_le_of_lt (a.length_delivered_le k op i) (hnext i)
  have hstep (s : Dispatcher ι T) (a : Routing ι) (op : DispatchOp ι) (h : s.Follows k bytes a)
      (hnext : Good (a.next k op)) :
      ∃ s', s.step op = .ok s' ∧ s'.Follows k bytes (a.next k op) := by
    cases op with
    | registerProtocolDeserialize uid protocol => exact ⟨_, rfl, h.register uid protocol⟩
    | callProtocolDeserialize frame recivedBytesRead => exact h.call hT hnext
  exact run_refines hstep hback (fresh_follows hfresh) hroom

/-- From new objects, every run of registrations and calls follows the routing, as long as no
protocol gets `2 ^ 31` valid frames: a uid is registered for the protocol that came first, and each
protocol has pending, unchanged and in order, exactly the valid frames dispatched to it.  All other
frames leave the pending packets, the counters and the registrations as they are; for an invalid one
a packet may have been made, which is then in the recycle pool. -/
theorem run_routes (hT : ∀ i, ReadBody (T i) (k i) (bytes i)) (s₀ : Dispatcher ι T)
    (hfresh : s₀.Fresh) (ops : List (DispatchOp ι))
    (hroom : ∀ i, ((ops.foldl (Routing.next k) {}).delivered i).length < 2 ^ 31) :
    ∃ s, run step s₀ ops = .ok s ∧
      (∀ uid : Int32, s.factory.protocolDeserializeDelegates[uid]? =
        ((ops.foldl (Routing.next k) {}).table uid).map some) ∧
      ∀ i, (s.protocols i).servo.packetPoolNum =
          ((ops.foldl (Routing.next k) {}).delivered i).length ∧
        (s.protocols i).Received (k i) (bytes i) ((ops.foldl (Routing.next k) {}).delivered i) := by
  rcases run_follows hT hfresh hroom with ⟨s, hrun, hend⟩
  exact ⟨s, hrun, hend.table, fun i => ⟨hend.packetPoolNum_eq i, hend.received i⟩⟩

/-- After such a run a protocol has created at least as many packets as its constructor made and as
are pending, and at most one more: invalid frames, however many, cost a single packet. -/
theorem run_objects (hT : ∀ i, ReadBody (T i) (k i) (bytes i)) (s₀ : Dispatcher ι T)
    (hfresh : s₀.Fresh) (ops : List (DispatchOp ι))
    (hroom : ∀ i, ((ops.foldl (Routing.next k) {}).delivered i).length < 2 ^ 31) :
    ∃ s, run step s₀ ops = .ok s ∧
      ∀ (i : ι) (poolMode : SPPMode) (heap : Heap (TSNetPacket (T i))) (maxnum : Int32),
        Reception.new poolMode heap maxnum = .ok (s₀.protocols i) →
        max maxnum.toInt.toNat ((ops.foldl (Routing.next k) {}).delivered i).length ≤
          (s.protocols i).heap.length - heap.length ∧
        (s.protocols i).heap.length - heap.length ≤
          max maxnum.toInt.toNat (((ops.foldl (Routing.next k) {}).delivered i).length + 1) := by
  rcases run_follows hT hfresh hroom with ⟨s, hrun, hend⟩
  refine ⟨s, hrun, ?_⟩
  intro i poolMode heap maxnum hnew
  -- Seen from one protocol, a step of the dispatcher is none, or a step of its own.
  have hkeep (t : Dispatcher ι T) (op : DispatchOp ι) (t' : Dispatcher ι T)
      (ht : t.Ready ∧ (t.protocols i).Economical maxnum.toInt.toNat heap.length) (_ : True)
      (hstep : t.step op = .ok t') :
      t'.Ready ∧ (t'.protocols i).Economical maxnum.toInt.toNat heap.length := by
    refine ⟨step_ready hT ht.1 hstep, ?_⟩
    rcases step_protocols ht.1 hstep i with hsame | ⟨frame, hframe⟩
    · rw [hsame]
      exact ht.2
    · exact Reception.step_economical (hT i) ht.2 hframe
  have hstart : s₀.Ready ∧ (s₀.protocols i).Economical maxnum.toInt.toNat heap.length :=
    ⟨fresh_ready hfresh, Reception.new_economical hnew⟩
  have heconomical := (inv_of_run hkeep hstart (fun _ _ => trivial) hrun).2
  have hpending := (hend.received i).length_eq
  have hmade := heconomical.made_le
  have hlength := heconomical.length_le
  have hall := heconomical.accounts.length_add
  rw [hpending] at hlength hall
  omega

/-- A frame of uid `7` before and after its registration, the second registration of the uid, and a
frame that is cut off. -/
def sampleOps : List (DispatchOp Bool) :=
  [.callProtocolDeserialize Reception.emptyFrame 100, .registerProtocolDeserialize 7 true,
    .registerProtocolDeserialize 7 false, .callProtocolDeserialize Reception.emptyFrame 100,
    .callProtocolDeserialize { inHead := { uid := 7 }, buf := ⟨[5, 0], by decide⟩ } 100]

/-- Two protocols without bodies. -/
def twoProtocols : Dispatcher Bool (fun _ => FStaticNetBodyBase) where
  protocols _ := { servo := { packetPool := .queue {}, recyclePool := {} }, heap := [] }

theorem twoProtocols_fresh : twoProtocols.Fresh where
  factory := rfl
  protocols _ := ⟨.queue, [], 0, rfl⟩

theorem run_routes_sample :
    ∃ s, run step twoProtocols sampleOps = .ok s ∧
      (s.protocols true).servo.packetPoolNum = 1 ∧
      (s.protocols false).servo.packetPoolNum = 0 := by
  have hT (_ : Bool) : ReadBody FStaticNetBodyBase 0 (fun _ => []) :=
    FStaticNetBodyBase.wireBody.readBody
  rcases run_routes hT twoProtocols twoProtocols_fresh sampleOps (by decide) with
    ⟨s, hrun, -, hprotocols⟩
  exact ⟨s, hrun, (hprotocols true).1, (hprotocols false).1⟩

theorem run_objects_sample :
    ∃ s, run step twoProtocols sampleOps = .ok s ∧
      1 ≤ (s.protocols true).heap.length ∧ (s.protocols true).heap.length ≤ 2 := by
  have hT (_ : Bool) : ReadBody FStaticNetBodyBase 0 (fun _ => []) :=
    FStaticNetBodyBase.wireBody.readBody
  rcases run_objects hT twoProtocols twoProtocols_fresh sampleOps (by decide) with
    ⟨s, hrun, hobjects⟩
  exact ⟨s, hrun, hobjects true .queue [] 0 rfl⟩

end Dispatcher

end Septem
