import Mathlib.Data.List.Perm.Basic
import Septem.Library.Run
import Septem.Servo.NetPacketPool

/-!
# StackDelivery — runs of `Push`, `Pop` and `IsEmpty` on a `TNetPacketStack`

The constructor resizes the deque to `MAX_NETPACKET_IN_POOL`, which does not reserve room but
appends that many null pointers.  They lie under everything that is pushed: as long as a pushed
packet is pending the stack is a LIFO, and once none is, `Pop` hands out a null pointer where it
should say that the pool is empty.
-/

namespace Septem

open Cxx

/-- An operation with its argument; for an out parameter, what the variable holds before. -/
inductive StackOp
  | push (inSharedPtr : SharedPtr)
  | pop (outSharedPtr : SharedPtr)
  | isEmpty
  deriving DecidableEq, Repr

/-- A stack in use, with a record of the packets that went through it. -/
structure StackSession where
  stack : TNetPacketStack
  /-- the packets pushed, latest first -/
  pushed : List SharedPtr := []
  /-- the packets pushed and not yet popped, latest first -/
  pending : List SharedPtr := []
  /-- what the calls of `Pop` that returned `true` left in the out parameter, latest first -/
  delivered : List SharedPtr := []

namespace StackSession

def new : Checked StackSession := do
  let stack ← TNetPacketStack.new
  return { stack }

/-- Execute one operation: its value, its out parameter afterwards (null for an operation that has
none) and the session. -/
def call (s : StackSession) : StackOp → Bool × SharedPtr × StackSession
  | .push ptr =>
      let (ret, stack) := s.stack.push ptr
      (ret, none, { s with stack, pushed := ptr :: s.pushed, pending := ptr :: s.pending })
  | .pop out =>
      let (ret, out, stack) := s.stack.pop out
      (ret, out, { s with
        stack
        pending := s.pending.tail
        delivered := if ret then out :: s.delivered else s.delivered })
  | .isEmpty => (s.stack.isEmpty, none, s)

def step (s : StackSession) (op : StackOp) : Checked StackSession :=
  pure (s.call op).2.2

/-! ## The specification of a step -/

/-- `Pop` returns `true` exactly when a packet is pending and then delivers the latest one, and
`IsEmpty` holds exactly when none is. -/
def StepRight (s : StackSession) : StackOp → Prop
  | .push _ => True
  | .pop before =>
      ((s.call (.pop before)).1 = true ↔ s.pending ≠ []) ∧
      ((s.call (.pop before)).1 = true →
        s.pending.head? = some (s.call (.pop before)).2.1) ∧
      ((s.call (.pop before)).1 = false → (s.call (.pop before)).2.1 = before)
  | .isEmpty => (s.call .isEmpty).1 = true ↔ s.pending = []

/-- `Pop` and `IsEmpty` are called while a packet is pending. -/
def StepCondition (s : StackSession) : StackOp → Prop
  | .push _ => True
  | .pop _ => s.pending ≠ []
  | .isEmpty => s.pending ≠ []

instance (s : StackSession) (op : StackOp) : Decidable (s.StepCondition op) :=
  match op with
  | .push _ => inferInstanceAs (Decidable True)
  | .pop _ => inferInstanceAs (Decidable (_ ≠ _))
  | .isEmpty => inferInstanceAs (Decidable (_ ≠ _))

/-! ## The invariant -/

/-- Under the pending packets lie the null pointers of the constructor, and every packet pushed is
delivered or pending. -/
structure OnNulls (s : StackSession) : Prop where
  pool_eq : s.stack.pool = List.replicate maxNetpacketInPool none ++ s.pending.reverse
  pushed_perm : (s.delivered ++ s.pending).Perm s.pushed

theorem exists_new : ∃ s : StackSession, new = .ok s ∧ s.pushed = [] ∧ s.pending = [] :=
  ⟨_, by rw [new, TNetPacketStack.new_eq]; rfl, rfl, rfl⟩

theorem new_onNulls {s : StackSession} (h : new = .ok s) : s.OnNulls := by
  rw [new, TNetPacketStack.new_eq] at h
  cases h
  exact ⟨by simp, List.Perm.refl _⟩

/-- The deque never gets empty. -/
theorem OnNulls.not_isEmpty {s : StackSession} (h : s.OnNulls) : s.stack.isEmpty = false := by
  have hpos : 0 < maxNetpacketInPool := by decide
  have hlen : s.stack.pool.length = maxNetpacketInPool + s.pending.length := by
    rw [h.pool_eq]
    simp
  rw [TNetPacketStack.isEmpty, hlen, beq_eq_false_iff_ne]
  omega

/-- With a packet pending, `Pop` delivers it. -/
theorem OnNulls.pop_eq {s : StackSession} (h : s.OnNulls) {packet : SharedPtr}
    {others : List SharedPtr} (hpending : s.pending = packet :: others) (out : SharedPtr) :
    s.stack.pop out =
      (true, packet, ⟨List.replicate maxNetpacketInPool none ++ others.reverse⟩) := by
  have hpool := h.pool_eq
  rw [hpending, List.reverse_cons, ← List.append_assoc] at hpool
  have hstack : s.stack =
      ⟨(List.replicate maxNetpacketInPool none ++ others.reverse) ++ [packet]⟩ := by
    rw [← hpool]
  rw [hstack, TNetPacketStack.pop_concat]

/-- With no packet pending, `Pop` delivers a null pointer of the constructor. -/
theorem OnNulls.pop_nothing {s : StackSession} (h : s.OnNulls) (hpending : s.pending = [])
    (out : SharedPtr) :
    s.stack.pop out = (true, none, ⟨List.replicate (maxNetpacketInPool - 1) none⟩) := by
  have hpool := h.pool_eq
  have hlast : List.replicate maxNetpacketInPool (none : SharedPtr) =
      List.replicate (maxNetpacketInPool - 1) none ++ [none] := List.replicate_succ'
  rw [hpending, List.reverse_nil, List.append_nil, hlast] at hpool
  have hstack : s.stack = ⟨List.replicate (maxNetpacketInPool - 1) none ++ [none]⟩ := by
    rw [← hpool]
  rw [hstack, TNetPacketStack.pop_concat]

/-- In any case `Pop` finds something to return. -/
theorem OnNulls.pop_fst {s : StackSession} (h : s.OnNulls) (out : SharedPtr) :
    (s.stack.pop out).1 = true := by
  simp [TNetPacketStack.pop, h.not_isEmpty]

theorem stepRight_iff {s : StackSession} (h : s.OnNulls) (op : StackOp) :
    s.StepRight op ↔ s.StepCondition op := by
  cases op with
  | push ptr => exact Iff.rfl
  | isEmpty =>
      simp only [StepRight, StepCondition, call, h.not_isEmpty]
      simp
  | pop before =>
      have htrue : (s.call (.pop before)).1 = true := h.pop_fst before
      constructor
      · intro hright
        exact hright.1.1 htrue
      · intro hne
        refine ⟨iff_of_true htrue hne, ?_, ?_⟩
        · intro _
          cases hpending : s.pending with
          | nil => exact absurd hpending hne
          | cons packet others => simp [call, h.pop_eq hpending]
        · intro hfalse
          rw [htrue] at hfalse
          cases hfalse

theorem step_onNulls {s : StackSession} {op : StackOp} (h : s.OnNulls)
    (hop : s.StepCondition op) : ∃ s', step s op = .ok s' ∧ s'.OnNulls := by
  refine ⟨_, rfl, ?_⟩
  cases op with
  | isEmpty => exact h
  | push ptr =>
      refine ⟨?_, ?_⟩
      · simp [call, TNetPacketStack.push, h.pool_eq]
      · exact List.perm_middle.trans (h.pushed_perm.cons ptr)
  | pop before =>
      cases hpending : s.pending with
      | nil => exact absurd hpending hop
      | cons packet others =>
          have hperm := h.pushed_perm
          rw [hpending] at hperm
          simp only [call, h.pop_eq hpending, hpending, List.tail_cons, if_true]
          exact ⟨rfl, List.perm_middle.symm.trans hperm⟩

/-! ## Runs -/

/-- The steps of a run from the constructed stack are all right exactly when `Pop` and `IsEmpty`
are called only while a packet is pending, and then what was delivered and what is pending is what
was pushed. -/
theorem lifo_delivery_iff (s : StackSession) (hnew : new = .ok s) (ops : List StackOp) :
    (Along step StepRight s ops ↔ Along step StepCondition s ops) ∧
    (Along step StepCondition s ops → ∃ s', run step s ops = .ok s' ∧
      (s'.delivered ++ s'.pending).Perm s'.pushed) := by
  have hstart : s.OnNulls := new_onNulls hnew
  constructor
  · have hiff (t : StackSession) (op : StackOp) (ht : t.OnNulls) :
        StepRight t op ↔ StepCondition t op := stepRight_iff ht op
    exact along_iff_of_step hiff (fun _ _ => step_onNulls) hstart ops
  · intro hcond
    rcases run_keeps (fun _ _ => step_onNulls) hstart hcond with ⟨s', hrun, h⟩
    exact ⟨s', hrun, h.pushed_perm⟩

/-- Two packets pushed, and the second one popped. -/
theorem lifo_delivery_two :
    ∃ s s' : StackSession, new = .ok s ∧
      run step s [.push (some 4), .push (some 7), .isEmpty, .pop none] = .ok s' ∧
      (s'.delivered ++ s'.pending).Perm s'.pushed := by
  rcases exists_new with ⟨s, hnew, -⟩
  have hcond : Along step StepCondition s
      [.push (some 4), .push (some 7), .isEmpty, .pop none] := by
    refine ⟨trivial, fun s₁ h₁ => ?_⟩
    cases h₁
    refine ⟨trivial, fun s₂ h₂ => ?_⟩
    cases h₂
    refine ⟨nofun, fun s₃ h₃ => ?_⟩
    cases h₃
    exact ⟨nofun, fun _ _ => trivial⟩
  rcases (lifo_delivery_iff s hnew _).2 hcond with ⟨s', hrun, hperm⟩
  exact ⟨s, s', hnew, hrun, hperm⟩

/-- On a new stack `Pop` returns `true` with a null pointer, and `IsEmpty` does not hold. -/
theorem new_stack_pops_null :
    ∃ s : StackSession, new = .ok s ∧ s.pushed = [] ∧
      (s.call (.pop (some 3))).1 = true ∧ (s.call (.pop (some 3))).2.1 = none ∧
      (s.call .isEmpty).1 = false ∧
      ¬ Along step StepRight s [.pop (some 3)] ∧ ¬ Along step StepRight s [.isEmpty] := by
  rcases exists_new with ⟨s, hnew, hpushed, hpending⟩
  have hnulls := new_onNulls hnew
  refine ⟨s, hnew, hpushed, hnulls.pop_fst _, ?_, hnulls.not_isEmpty, ?_, ?_⟩
  · simp only [call, hnulls.pop_nothing hpending]
  · rintro ⟨hright, -⟩
    exact (stepRight_iff hnulls _).1 hright hpending
  · rintro ⟨hright, -⟩
    exact (stepRight_iff hnulls _).1 hright hpending

end StackSession

end Septem
