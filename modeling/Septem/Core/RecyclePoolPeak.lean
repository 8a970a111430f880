import Mathlib.Data.List.Range
import Septem.Core.RecyclePool
import Septem.Library.Run

/-!
# RecyclePoolPeak — the memory of a recycle pool

A pool never gives an object back to the system, so what it has created stays.  `Accounts` says
where the objects are: each of them is pooled or held by a client, exactly once.  With it, runs of
`Alloc` and `Dealloc` create an object only when all of them are held, so there are never more than
the constructor made or the clients held at one time (`created_eq_peak`).
-/

namespace Septem

open Cxx

namespace TSharedRecyclePool

/-! ## Where the objects are -/

/-- The objects created between heap sizes `base` and `size` are the pooled ones and the held ones,
each of them once. -/
structure Accounts (this : TSharedRecyclePool) (held : List ObjectId) (base size : Nat) : Prop where
  base_le : base ≤ size
  perm : (this.mPool ++ held).Perm (List.range' base (size - base))

section Accounts

variable {T : Type} [Inhabited T] {this : TSharedRecyclePool} {held : List ObjectId}
  {base size : Nat}

theorem Accounts.nodup (h : this.Accounts held base size) : (this.mPool ++ held).Nodup :=
  h.perm.nodup_iff.2 List.nodup_range'

theorem Accounts.length_add (h : this.Accounts held base size) :
    this.mPool.length + held.length = size - base := by
  have hlen := h.perm.length_eq
  rwa [List.length_append, List.length_range'] at hlen

theorem Accounts.lt_size (h : this.Accounts held base size) {ptr : ObjectId}
    (hptr : ptr ∈ this.mPool ++ held) : ptr < size := by
  have hle := h.base_le
  have hrange : base ≤ ptr ∧ ptr < base + (size - base) :=
    List.mem_range'_1.1 (h.perm.mem_iff.1 hptr)
  rw [Nat.add_sub_cancel' hle] at hrange
  exact hrange.2

/-- The order in which the objects are held does not matter. -/
theorem Accounts.perm_held (h : this.Accounts held base size) {held' : List ObjectId}
    (hperm : held'.Perm held) : this.Accounts held' base size :=
  ⟨h.base_le, (hperm.append_left this.mPool).trans h.perm⟩

/-- One more object is the last one of a longer range. -/
theorem Accounts.create (h : this.Accounts held base size) {objects : List ObjectId}
    (hobjects : objects.Perm (size :: (this.mPool ++ held))) :
    objects.Perm (List.range' base (size + 1 - base)) := by
  have hle := h.base_le
  have hlast : List.range' base (size + 1 - base) = List.range' base (size - base) ++ [size] := by
    have hsucc : size + 1 - base = size - base + 1 := by omega
    have hend : base + (size - base) = size := by omega
    rw [hsucc, List.range'_1_concat, hend]
  rw [hlast]
  exact (hobjects.trans (h.perm.cons size)).trans (List.perm_append_singleton size _).symm

theorem pushNew_accounts (n : Nat) {heap : Heap T} (h : this.Accounts held base heap.length) :
    (pushNew n this heap).1.Accounts held base (pushNew n this heap).2.length ∧
      (pushNew n this heap).2.length = heap.length + n := by
  induction n generalizing this heap with
  | zero => exact ⟨h, rfl⟩
  | succ n ih =>
      have hlen : (heap ++ [(default : T)]).length = heap.length + 1 := by
        rw [List.length_append, List.length_singleton]
      have hpush : ({ this with mPool := heap.length :: this.mPool } : TSharedRecyclePool).Accounts
          held base (heap ++ [(default : T)]).length := by
        rw [hlen]
        exact ⟨Nat.le_succ_of_le h.base_le, h.create (List.Perm.refl _)⟩
      rcases ih hpush with ⟨hacc, hsize⟩
      refine ⟨hacc, ?_⟩
      calc
        (pushNew (n + 1) this heap).2.length
            = (heap ++ [(default : T)]).length + n := hsize
        _ = heap.length + (n + 1) := by rw [hlen, Nat.add_assoc, Nat.add_comm 1 n]

/-- The constructor creates `InNum` objects and pools them. -/
theorem new_accounts (heap : Heap T) (inNum : Int32) :
    ∃ (pool : TSharedRecyclePool) (heap' : Heap T), new heap inNum = .ok (pool, heap') ∧
      pool.Accounts [] heap.length heap'.length ∧
      heap'.length = heap.length + inNum.toInt.toNat := by
  have hempty : ({} : TSharedRecyclePool).Accounts [] heap.length heap.length :=
    ⟨Nat.le_refl _, by simp⟩
  have hdiff : inNum.toInt - ({} : TSharedRecyclePool).num.toInt = inNum.toInt :=
    Int.sub_zero _
  have himax : int32 (inNum.toInt - ({} : TSharedRecyclePool).num.toInt) = .ok inNum.toInt := by
    rw [hdiff]
    exact int32_ok inNum.le_toInt inNum.toInt_lt
  rw [new, reset, himax, Checked.ok_bind]
  split
  · rcases pushNew_accounts inNum.toInt.toNat hempty with ⟨hacc, hlen⟩
    exact ⟨_, _, rfl, hacc, hlen⟩
  · exact ⟨_, _, rfl, hempty, by omega⟩

/-- `Alloc` moves the top of the stack to the held objects, or creates a held object. -/
theorem alloc_accounts {heap : Heap T} (h : this.Accounts held base heap.length) :
    (this.alloc heap).2.1.Accounts ((this.alloc heap).1 :: held) base
      (this.alloc heap).2.2.length := by
  cases hpool : this.mPool with
  | nil =>
      have hcreate := h.create (List.Perm.refl _)
      rw [hpool, List.nil_append] at hcreate
      simp only [alloc, hpool, makeShared, List.length_append, List.length_singleton]
      exact ⟨Nat.le_succ_of_le h.base_le, by rw [hpool]; exact hcreate⟩
  | cons ret rest =>
      have hperm := h.perm
      rw [hpool] at hperm
      simp only [alloc, hpool]
      exact ⟨h.base_le, List.perm_middle.trans hperm⟩

/-- `Dealloc` moves a held object to the top of the stack. -/
theorem dealloc_accounts {ptr : ObjectId} (h : this.Accounts held base size) (hptr : ptr ∈ held) :
    (this.dealloc (some ptr)).Accounts (held.erase ptr) base size := by
  refine ⟨h.base_le, ?_⟩
  have hmove : (ptr :: (this.mPool ++ held.erase ptr)).Perm (this.mPool ++ held) :=
    List.perm_middle.symm.trans ((List.perm_cons_erase hptr).symm.append_left this.mPool)
  exact hmove.trans h.perm

end Accounts

end TSharedRecyclePool

/-! ## Runs -/

inductive PoolOp
  | alloc
  | dealloc (inSharedPtr : SharedPtr)
  deriving DecidableEq, Repr

/-- A pool in use, with a record of what its clients hold. -/
structure PoolSession (T : Type) where
  pool : TSharedRecyclePool
  heap : Heap T
  /-- the objects handed out and not yet returned -/
  held : List ObjectId := []
  /-- the largest number of objects held at one time -/
  peak : Nat := 0

namespace PoolSession

variable {T : Type} [Inhabited T]

/-- A session with a newly constructed pool. -/
def new (heap : Heap T) (inNum : Int32) : Checked (PoolSession T) := do
  let (pool, heap) ← TSharedRecyclePool.new heap inNum
  return { pool, heap }

def alloc (s : PoolSession T) : PoolSession T :=
  let (ret, pool, heap) := s.pool.alloc s.heap
  { pool, heap, held := ret :: s.held, peak := max s.peak (s.held.length + 1) }

def step (s : PoolSession T) : PoolOp → Checked (PoolSession T)
  | .alloc => pure s.alloc
  | .dealloc none => pure { s with pool := s.pool.dealloc none }
  | .dealloc (some ptr) =>
      pure { s with pool := s.pool.dealloc (some ptr), held := s.held.erase ptr }

/-- Only a held object is returned, or a null pointer. -/
def Returns (s : PoolSession T) : PoolOp → Prop
  | .alloc => True
  | .dealloc none => True
  | .dealloc (some ptr) => ptr ∈ s.held

omit [Inhabited T] in
instance (s : PoolSession T) (op : PoolOp) : Decidable (s.Returns op) :=
  match op with
  | .alloc => inferInstanceAs (Decidable True)
  | .dealloc none => inferInstanceAs (Decidable True)
  | .dealloc (some ptr) => inferInstanceAs (Decidable (ptr ∈ s.held))

/-- The objects the pool has created, when there were `base` objects before it. -/
def created (s : PoolSession T) (base : Nat) : Nat :=
  s.heap.length - base

/-- With `n₀` objects made by the constructor, more are created only for a new peak. -/
structure Bounded (n₀ base : Nat) (s : PoolSession T) : Prop where
  accounts : s.pool.Accounts s.held base s.heap.length
  held_le : s.held.length ≤ s.peak
  created_eq : s.created base = max n₀ s.peak

theorem alloc_bounded {n₀ base : Nat} {s : PoolSession T} (h : s.Bounded n₀ base) :
    s.alloc.Bounded n₀ base := by
  refine ⟨TSharedRecyclePool.alloc_accounts h.accounts, le_max_right _ _, ?_⟩
  have hcreated : s.heap.length - base = max n₀ s.peak := h.created_eq
  have hheld := h.held_le
  have hlen := h.accounts.length_add
  have hbase := h.accounts.base_le
  cases hpool : s.pool.mPool with
  | nil =>
      -- Everything created is held, so the new object makes a new peak.
      rw [hpool, List.length_nil] at hlen
      simp only [created, alloc, TSharedRecyclePool.alloc, hpool, makeShared, List.length_append,
        List.length_singleton]
      omega
  | cons ret rest =>
      -- An object is left, so the peak does not pass what was created.
      rw [hpool, List.length_cons] at hlen
      simp only [created, alloc, TSharedRecyclePool.alloc, hpool]
      omega

theorem step_bounded {n₀ base : Nat} {s : PoolSession T} {op : PoolOp} (h : s.Bounded n₀ base)
    (hop : s.Returns op) : ∃ s', step s op = .ok s' ∧ s'.Bounded n₀ base := by
  cases op with
  | alloc => exact ⟨_, rfl, alloc_bounded h⟩
  | dealloc ptr =>
      cases ptr with
      | none => exact ⟨_, rfl, h.accounts, h.held_le, h.created_eq⟩
      | some ptr =>
          refine ⟨_, rfl, TSharedRecyclePool.dealloc_accounts h.accounts hop, ?_, h.created_eq⟩
          exact Nat.le_trans List.length_erase_le h.held_le

theorem new_bounded (heap : Heap T) (inNum : Int32) :
    ∃ s : PoolSession T, new heap inNum = .ok s ∧ s.Bounded inNum.toInt.toNat heap.length := by
  rcases TSharedRecyclePool.new_accounts heap inNum with ⟨pool, heap', hnew, hacc, hlen⟩
  refine ⟨{ pool, heap := heap' }, by rw [new, hnew]; rfl, hacc, Nat.le_refl _, ?_⟩
  simp only [created, hlen]
  omega

theorem run_bounded {n₀ base : Nat} {s : PoolSession T} (h : s.Bounded n₀ base)
    {ops : List PoolOp} (hops : Along step Returns s ops) :
    ∃ s', run step s ops = .ok s' ∧ s'.Bounded n₀ base :=
  run_keeps (fun _ _ => step_bounded) h hops

omit [Inhabited T] in
/-- `Num()` counts the objects that are not held, as an `int32`. -/
theorem Bounded.num_eq {n₀ base : Nat} {s : PoolSession T} (h : s.Bounded n₀ base) :
    s.pool.num = Int32.ofNat (s.created base - s.held.length) := by
  have hlen := h.accounts.length_add
  rw [TSharedRecyclePool.num, created, ← hlen, Nat.add_sub_cancel]

/-- After every run that returns only held objects, the objects created are as many as the
constructor made or were held at one time, and `Num()` is the number of those not held, converted
to `int32`. -/
theorem created_eq_peak (heap : Heap T) (inNum : Int32) (s : PoolSession T)
    (hnew : new heap inNum = .ok s) (ops : List PoolOp) (hops : Along step Returns s ops) :
    ∃ s', run step s ops = .ok s' ∧
      s'.created heap.length = max inNum.toInt.toNat s'.peak ∧
      s'.pool.num = Int32.ofNat (s'.created heap.length - s'.held.length) ∧
      (s'.created heap.length < 2 ^ 31 + s'.held.length →
        s'.pool.num.toInt = s'.created heap.length - s'.held.length) := by
  rcases new_bounded heap inNum with ⟨t, ht, hstart⟩
  rw [hnew] at ht
  cases ht
  rcases run_bounded hstart hops with ⟨s', hrun, hbounded⟩
  refine ⟨s', hrun, hbounded.created_eq, hbounded.num_eq, ?_⟩
  intro hsmall
  have hle : s'.held.length ≤ s'.created heap.length := by
    have hcreated := hbounded.created_eq
    have hheld := hbounded.held_le
    omega
  rw [hbounded.num_eq, Int32.toInt_ofNat_of_lt (by omega)]
  omega

/-- Two objects held at one time, and one of them returned. -/
theorem created_eq_peak_sample :
    ∃ s s' : PoolSession UInt8, new [] 1 = .ok s ∧
      run step s [.alloc, .alloc, .dealloc (some 0)] = .ok s' ∧
      s'.created 0 = max 1 s'.peak := by
  have hnew : new ([] : Heap UInt8) 1 = .ok { pool := ⟨[0]⟩, heap := [0] } := rfl
  have hops : Along step Returns ({ pool := ⟨[0]⟩, heap := [0] } : PoolSession UInt8)
      [.alloc, .alloc, .dealloc (some 0)] := by
    decide
  rcases created_eq_peak [] 1 _ hnew _ hops with ⟨s', hrun, hcreated, -⟩
  exact ⟨_, s', hnew, hrun, hcreated⟩

/-! ## More objects than an `int32` counts -/

/-- Any number of objects can be held. -/
theorem exists_run_holding (n : Nat) (s : PoolSession T) :
    ∃ (ops : List PoolOp) (s' : PoolSession T), Along step Returns s ops ∧
      run step s ops = .ok s' ∧ s'.held.length = s.held.length + n := by
  induction n generalizing s with
  | zero => exact ⟨[], s, trivial, rfl, rfl⟩
  | succ n ih =>
      rcases ih s.alloc with ⟨ops, s', hops, hrun, hheld⟩
      refine ⟨.alloc :: ops, s', ⟨trivial, ?_⟩, hrun, ?_⟩
      · intro t ht
        cases ht
        exact hops
      · rw [hheld, alloc, List.length_cons]
        omega

/-- All held objects can be returned. -/
theorem exists_run_returning (s : PoolSession T) :
    ∃ (ops : List PoolOp) (s' : PoolSession T), Along step Returns s ops ∧
      run step s ops = .ok s' ∧ s'.held = [] ∧ s'.heap = s.heap := by
  induction hheld : s.held generalizing s with
  | nil => exact ⟨[], s, trivial, rfl, hheld, rfl⟩
  | cons ptr held ih =>
      have herase : s.held.erase ptr = held := by rw [hheld, List.erase_cons_head]
      rcases ih { s with pool := s.pool.dealloc (some ptr), held := s.held.erase ptr } herase with
        ⟨ops, s', hops, hrun, hempty, hheap⟩
      refine ⟨.dealloc (some ptr) :: ops, s', ⟨?_, ?_⟩, hrun, hempty, hheap⟩
      · rw [Returns, hheld]
        exact List.mem_cons_self
      · intro t ht
        cases ht
        exact hops

/-- When `2 ^ 31` objects have been held and returned, `Num()` is not their number. -/
theorem num_wraps :
    ∃ (s s' : PoolSession UInt8) (ops : List PoolOp), new [] 0 = .ok s ∧
      Along step Returns s ops ∧ run step s ops = .ok s' ∧
      s'.pool.num.toInt ≠ s'.created 0 - s'.held.length := by
  rcases new_bounded ([] : Heap UInt8) 0 with ⟨s, hnew, hstart⟩
  rcases exists_run_holding (2 ^ 31) s with ⟨ops, t, hops, hrun, hheld⟩
  rcases exists_run_returning t with ⟨ops', s', hops', hrun', hempty, hheap⟩
  have hall : run step s (ops ++ ops') = .ok s' := by
    rw [run_append, hrun, Checked.ok_bind, hrun']
  refine ⟨s, s', ops ++ ops', hnew, hops.append hrun hops', hall, ?_⟩
  -- All objects of the peak exist, so their number is no `int32`.
  rcases run_bounded hstart hops with ⟨t', ht', hbounded⟩
  rw [hrun] at ht'
  cases ht'
  have hlen : t.pool.mPool.length + t.held.length = t.heap.length - 0 :=
    hbounded.accounts.length_add
  have hlt := s'.pool.num.toInt_lt
  rw [hempty, created, hheap, List.length_nil]
  omega

end PoolSession

end Septem
