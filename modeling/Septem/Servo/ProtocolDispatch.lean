import Mathlib.Logic.Function.Basic
import Septem.Servo.ProtocolFactory
import Septem.Servo.Reception

/-!
# ProtocolDispatch — received frames on their way through `FProtocolFactory`

The delegates of the factory are `OnReceivedPacket` of protocol objects, each with a body type of
its own: a delegate is the name `i : ι` of such an object, and `T i` is its body type.  What the
receiver gets back is `RecivedBytesRead`, by which it goes on in its buffer.

* `call_registered` and `call_unknown` settle one call: a registered frame is received and counted
  by its protocol, for an unknown uid nothing assigns the out parameter;
* `countsBytes_iff` says when a call counts: `byteCount` is then the number, whatever the variable
  held before;
* `callProtocolDeserialize_counts_iff` says so for every state that registrations and calls reach
  from objects that are ready, as new ones are (`fresh_ready`).
-/

namespace Septem

open Cxx

namespace ReceivedFrame

/-- The key a frame is dispatched under. -/
def uid (frame : ReceivedFrame) : Int32 :=
  Int32.ofNat frame.inHead.uid.toNat

/-- The arguments of a dispatch of the frame, with what the out parameter holds before. -/
def args (frame : ReceivedFrame) (recivedBytesRead : Int32) : DeserializeArgs where
  inHead := frame.inHead
  buffer := frame.buf.bytes
  bufferSize := Int32.ofNat frame.buf.bytes.length
  recivedBytesRead := recivedBytesRead

@[simp] theorem args_uid (frame : ReceivedFrame) (recivedBytesRead : Int32) :
    (frame.args recivedBytesRead).uid = frame.uid := rfl

theorem args_bufferSize (frame : ReceivedFrame) (recivedBytesRead : Int32) :
    (frame.args recivedBytesRead).bufferSize.toInt = frame.buf.bufferSize :=
  Int32.toInt_ofNat_of_lt frame.buf.size_lt

end ReceivedFrame

/-- A factory and the protocol objects its delegates belong to. -/
structure Dispatcher (ι : Type) (T : ι → Type) where
  factory : FProtocolFactory ι := {}
  protocols : (i : ι) → Reception (T i)

inductive DispatchOp (ι : Type)
  | registerProtocolDeserialize (inUid : Int32) (protocol : ι)
  | callProtocolDeserialize (frame : ReceivedFrame) (recivedBytesRead : Int32)

namespace Dispatcher

variable {ι : Type} [DecidableEq ι] {T : ι → Type} [(i : ι) → StaticNetBody (T i)]

/-- `CallProtocolDeserialize`: what `RecivedBytesRead` is afterwards, and the objects. -/
def callProtocolDeserialize (s : Dispatcher ι T) (args : DeserializeArgs) :
    Checked (Int × Dispatcher ι T) :=
  match s.factory.callProtocolDeserialize args with
  | (.invoked i args, factory) => do
      let (recivedBytesRead, servo, heap) ← (s.protocols i).servo.onReceivedPacket
        (s.protocols i).heap args.inHead args.buffer args.bufferSize.toInt
      return (recivedBytesRead,
        { factory, protocols := Function.update s.protocols i { servo, heap } })
  -- Nothing has assigned the out parameter.
  | (.printed _, factory) => pure (args.recivedBytesRead.toInt, { s with factory })
  -- An empty `std::function` throws; there is none among the delegates here.
  | (.badFunctionCall, _) => .error .nullPointer

def step (s : Dispatcher ι T) : DispatchOp ι → Checked (Dispatcher ι T)
  | .registerProtocolDeserialize uid protocol =>
      pure { s with factory := (s.factory.registerProtocolDeserialize uid (some protocol)).2 }
  | .callProtocolDeserialize frame recivedBytesRead => do
      let (_, s) ← s.callProtocolDeserialize (frame.args recivedBytesRead)
      return s

omit [DecidableEq ι] in
/-- Nothing is registered, and the protocols are new, in whatever mode. -/
structure Fresh (s : Dispatcher ι T) : Prop where
  factory : s.factory = {}
  protocols : ∀ i, ∃ (poolMode : SPPMode) (heap : Heap (TSNetPacket (T i))) (maxnum : Int32),
    Reception.new poolMode heap maxnum = .ok (s.protocols i)

/-! ## The specification of a call -/

/-- The call assigns a number of bytes of the buffer, whatever the variable held before. -/
def CountsBytes (s : Dispatcher ι T) (frame : ReceivedFrame) : Prop :=
  ∃ counted : Int, 0 ≤ counted ∧ counted ≤ frame.buf.bufferSize ∧
    ∀ recivedBytesRead : Int32, ∃ s',
      s.callProtocolDeserialize (frame.args recivedBytesRead) = .ok (counted, s')

/-- The uid is registered, and a frame that is valid finds room in the counter of its protocol. -/
def CallCondition (k : ι → Nat) (s : Dispatcher ι T) (frame : ReceivedFrame) : Prop :=
  ∃ i, s.factory.protocolDeserializeDelegates[frame.uid]? = some (some i) ∧
    (s.protocols i).StepCondition (k i) frame

/-- The bytes a registered frame counts, by the registrations and the frame alone. -/
def byteCount (k : ι → Nat) (factory : FProtocolFactory ι) (frame : ReceivedFrame) : Nat :=
  match factory.protocolDeserializeDelegates[frame.uid]? with
  | some (some i) => frame.consumed (k i)
  | _ => 0

/-! ## The invariant -/

/-- Every delegate is that of a protocol, and the protocols keep their packets apart. -/
structure Ready (s : Dispatcher ι T) : Prop where
  delegates : ∀ uid : Int32, s.factory.protocolDeserializeDelegates[uid]? ≠ some none
  owned : ∀ i, ∃ base, (s.protocols i).Owned base

section Calls

variable {s : Dispatcher ι T} {k : ι → Nat} {bytes : (i : ι) → T i → Bytes}

omit [DecidableEq ι] in
theorem fresh_ready (h : s.Fresh) : s.Ready where
  delegates uid := by
    rw [h.factory, Std.ExtTreeMap.getElem?_empty]
    simp
  owned i := by
    rcases h.protocols i with ⟨poolMode, heap, maxnum, hnew⟩
    exact ⟨heap.length, (Reception.new_owned hnew).1⟩

/-! ## One call -/

/-- A registered frame is received by the protocol of its delegate. -/
theorem call_registered (frame : ReceivedFrame) {i : ι}
    (h : s.factory.protocolDeserializeDelegates[frame.uid]? = some (some i))
    (recivedBytesRead : Int32) :
    s.callProtocolDeserialize (frame.args recivedBytesRead) =
      (s.protocols i).onReceivedPacket frame >>= fun received =>
        pure (received.1, { s with protocols := Function.update s.protocols i received.2 }) := by
  have hinvoked : s.factory.callProtocolDeserialize (frame.args recivedBytesRead) =
      (.invoked i (frame.args recivedBytesRead), s.factory) := by
    simp only [FProtocolFactory.callProtocolDeserialize, ReceivedFrame.args_uid, h, invoke]
  simp only [callProtocolDeserialize, hinvoked, ReceivedFrame.args_bufferSize]
  simp only [ReceivedFrame.args, Reception.onReceivedPacket]
  cases (s.protocols i).servo.onReceivedPacket (s.protocols i).heap frame.inHead
    frame.buf.bytes frame.buf.bufferSize with
  | error e => rfl
  | ok received => rfl

/-- For an unknown uid the variable keeps what it held. -/
theorem call_unknown (frame : ReceivedFrame)
    (h : s.factory.protocolDeserializeDelegates[frame.uid]? = none) (recivedBytesRead : Int32) :
    s.callProtocolDeserialize (frame.args recivedBytesRead) = .ok (recivedBytesRead.toInt, s) := by
  have hprinted : s.factory.callProtocolDeserialize (frame.args recivedBytesRead) =
      (.printed (FProtocolFactory.notFoundMessage frame.inHead.uid), s.factory) := by
    simp only [FProtocolFactory.callProtocolDeserialize, ReceivedFrame.args_uid, h]
    rfl
  simp only [callProtocolDeserialize, hprinted]
  rfl

/-- A call whose condition is met counts, and what it counts is `byteCount`. -/
theorem call_counts (hT : ∀ i, ReadBody (T i) (k i) (bytes i)) (h : s.Ready)
    {frame : ReceivedFrame} (hcond : s.CallCondition k frame) (recivedBytesRead : Int32) :
    ∃ s', s.callProtocolDeserialize (frame.args recivedBytesRead) =
      .ok ((byteCount k s.factory frame : Int), s') := by
  rcases hcond with ⟨i, hi, hroom⟩
  rcases h.owned i with ⟨base, howned⟩
  rcases Reception.onReceivedPacket_returns (hT i) howned hroom with ⟨reception, hcall⟩
  refine ⟨{ s with protocols := Function.update s.protocols i reception }, ?_⟩
  rw [call_registered frame hi, hcall, byteCount, hi]
  rfl

/-- A call counts exactly when its condition is met. -/
theorem countsBytes_iff (hT : ∀ i, ReadBody (T i) (k i) (bytes i)) (h : s.Ready)
    (frame : ReceivedFrame) : s.CountsBytes frame ↔ s.CallCondition k frame := by
  constructor
  · rintro ⟨counted, -, -, hall⟩
    cases hfind : s.factory.protocolDeserializeDelegates[frame.uid]? with
    | none =>
        -- The number is what the variable held, but that can be anything.
        rcases hall 0 with ⟨s₀, h₀⟩
        rcases hall 1 with ⟨s₁, h₁⟩
        rw [call_unknown frame hfind] at h₀ h₁
        cases h₀
        cases h₁
    | some f =>
        cases f with
        | none => exact absurd hfind (h.delegates frame.uid)
        | some i =>
            -- The call returned, so its protocol did not overflow.
            rcases h.owned i with ⟨base, howned⟩
            rcases hall 0 with ⟨s', hcall⟩
            rw [call_registered frame hfind] at hcall
            rcases Checked.bind_eq_ok.1 hcall with ⟨received, hreceived, -⟩
            exact ⟨i, hfind, Reception.stepCondition_of_returns (hT i) howned hreceived⟩
  · intro hcond
    refine ⟨(byteCount k s.factory frame : Nat), Int.natCast_nonneg _, ?_, call_counts hT h hcond⟩
    rcases hcond with ⟨i, hi, -⟩
    rw [byteCount, hi, RecvBuffer.bufferSize]
    exact Int.ofNat_le.2 (frame.consumed_le (k i))

omit [DecidableEq ι] [(i : ι) → StaticNetBody (T i)] in
/-- A registration adds a delegate of a protocol, or nothing. -/
theorem register_ready (h : s.Ready) (uid : Int32) (protocol : ι) :
    ({ s with factory := (s.factory.registerProtocolDeserialize uid (some protocol)).2 } :
      Dispatcher ι T).Ready := by
  refine ⟨?_, h.owned⟩
  intro other
  simp only [FProtocolFactory.registerProtocolDeserialize]
  split
  · exact h.delegates other
  · rw [Std.ExtTreeMap.getElem?_insert]
    split
    · simp
    · exact h.delegates other

/-- A call that returns changes one protocol at most, and that one keeps its packets apart. -/
theorem call_ready (hT : ∀ i, ReadBody (T i) (k i) (bytes i)) (h : s.Ready)
    {frame : ReceivedFrame} {recivedBytesRead : Int32} {called : Int × Dispatcher ι T}
    (hcall : s.callProtocolDeserialize (frame.args recivedBytesRead) = .ok called) :
    called.2.Ready := by
  cases hfind : s.factory.protocolDeserializeDelegates[frame.uid]? with
  | none =>
      rw [call_unknown frame hfind] at hcall
      cases hcall
      exact h
  | some f =>
      cases f with
      | none => exact absurd hfind (h.delegates frame.uid)
      | some i =>
          rw [call_registered frame hfind] at hcall
          rcases Checked.bind_eq_ok.1 hcall with ⟨received, hreceived, hret⟩
          cases hret
          refine ⟨h.delegates, ?_⟩
          intro j
          by_cases hij : j = i
          · -- The protocol that was called: a call is one step of its reception.
            subst hij
            rcases h.owned j with ⟨base, howned⟩
            have hstep : Reception.step (s.protocols j) frame = .ok received.2 := by
              rw [Reception.step, hreceived]
              rfl
            have hkept := (Reception.step_owned (hT j) howned hstep).1
            exact ⟨base, by simpa using hkept⟩
          · simpa [Function.update_of_ne hij] using h.owned j

theorem step_ready (hT : ∀ i, ReadBody (T i) (k i) (bytes i)) (h : s.Ready)
    {op : DispatchOp ι} {s' : Dispatcher ι T} (hstep : step s op = .ok s') : s'.Ready := by
  cases op with
  | registerProtocolDeserialize uid protocol =>
      cases hstep
      exact register_ready h uid protocol
  | callProtocolDeserialize frame recivedBytesRead =>
      rcases Checked.bind_eq_ok.1 hstep with ⟨called, hcall, hret⟩
      cases hret
      exact call_ready hT h hcall

end Calls

/-- In every state that registrations and calls reach from objects that are ready, such as new ones:
a call assigns a number of bytes of the buffer, whatever the variable held before, exactly when its
uid is registered (and a valid frame finds room in the counter of its protocol); the number then
depends on the registrations, the head and the buffer alone. -/
theorem callProtocolDeserialize_counts_iff {k : ι → Nat} {bytes : (i : ι) → T i → Bytes}
    (hT : ∀ i, ReadBody (T i) (k i) (bytes i)) (s₀ : Dispatcher ι T) (hstart : s₀.Ready)
    (ops : List (DispatchOp ι)) (s : Dispatcher ι T) (hrun : run step s₀ ops = .ok s)
    (frame : ReceivedFrame) :
    (s.CountsBytes frame ↔ s.CallCondition k frame) ∧
    (s.CallCondition k frame → ∀ recivedBytesRead : Int32, ∃ s',
      s.callProtocolDeserialize (frame.args recivedBytesRead) =
        .ok ((byteCount k s.factory frame : Int), s')) := by
  have hready : s.Ready := by
    have hkeep (t : Dispatcher ι T) (op : DispatchOp ι) (t' : Dispatcher ι T) (ht : t.Ready)
        (_ : True) (hop : step t op = .ok t') : t'.Ready := step_ready hT ht hop
    exact inv_of_run hkeep hstart (fun _ _ => trivial) hrun
  exact ⟨countsBytes_iff hT hready frame, call_counts hT hready⟩

/-- One protocol, of a body without bytes, and nothing registered. -/
def unregistered : Dispatcher Unit (fun _ => FStaticNetBodyBase) where
  protocols _ := { servo := { packetPool := .queue {}, recyclePool := {} }, heap := [] }

theorem unregistered_fresh : unregistered.Fresh where
  factory := rfl
  protocols _ := ⟨.queue, [], 0, rfl⟩

theorem callProtocolDeserialize_counts_registered :
    ∃ s, run step unregistered [.registerProtocolDeserialize 7 ()] = .ok s ∧
      s.CountsBytes Reception.emptyFrame := by
  have hT (_ : Unit) : ReadBody FStaticNetBodyBase 0 (fun _ => []) :=
    FStaticNetBodyBase.wireBody.readBody
  refine ⟨_, rfl, ?_⟩
  refine (callProtocolDeserialize_counts_iff hT unregistered (fresh_ready unregistered_fresh)
    [.registerProtocolDeserialize 7 ()] _ rfl Reception.emptyFrame).1.2 ⟨(), ?_, ?_⟩
  · have huid : Reception.emptyFrame.uid = 7 := rfl
    simp [unregistered, FProtocolFactory.registerProtocolDeserialize, huid]
  · intro _
    decide

/-- A call for an unknown uid leaves the variable as it was, be it more than the whole buffer. -/
theorem unknownUid_uncounted :
    unregistered.Fresh ∧ Reception.emptyFrame.buf.bufferSize = 8 ∧
    unregistered.callProtocolDeserialize (Reception.emptyFrame.args 100) =
      .ok (100, unregistered) ∧
    unregistered.callProtocolDeserialize (Reception.emptyFrame.args (-1)) =
      .ok (-1, unregistered) ∧
    ¬ unregistered.CountsBytes Reception.emptyFrame := by
  have hnone : unregistered.factory.protocolDeserializeDelegates[Reception.emptyFrame.uid]? =
      none := Std.ExtTreeMap.getElem?_empty
  have hcall := call_unknown Reception.emptyFrame hnone
  refine ⟨unregistered_fresh, rfl, hcall 100, hcall (-1), ?_⟩
  rintro ⟨counted, -, hle, hall⟩
  rcases hall 100 with ⟨s', h100⟩
  rw [hcall 100] at h100
  cases h100
  exact absurd hle (by decide)

end Dispatcher

end Septem
