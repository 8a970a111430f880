import Mathlib.Data.List.Nodup
import Septem.Core.RecyclePoolPeak
import Septem.Library.Threads

/-!
# RecyclePoolThreads — a recycle pool that any number of threads use

`Alloc`, `Dealloc`, `Reset` and `Resize` of `Core/Templates/SeptemRecyclePool.hpp`, one statement at
a time: the threads are interleaved between any two of them.  All four lock the pool while they
work on it; `Alloc` of an empty pool makes its object after it has let go of the lock.

* `pool_safe`: in every interleaving the stack is never read or popped empty, at most one thread
  works on it, and each object created is pooled, held by one thread, or destroyed by `Resize`;
* `resize_returns_iff`: once it has the lock, `Resize` of a negative number pops the stack empty and
  beyond, unless the number is so small that the count wraps;
* `pool_peak`: `Alloc` and `Dealloc` of any number of threads create as many objects as the
  constructor, or as were held at one time, where a thread that has found the pool empty counts
  as holding the object it is about to make.

Threads may pass objects on: any of them may give back an object that one of them holds, if none is
giving it back already.
-/

namespace Septem

open Cxx

inductive PoolCall
  | alloc
  | dealloc (inSharedPtr : SharedPtr)
  | reset (poolCount : Int32)
  | resize (poolCount : Int32)
  deriving DecidableEq, Repr

/-- Where a thread is. -/
inductive PoolPc
  /-- in no call -/
  | idle
  /-- `ScopeLock _scopelock(&m_pool_locker)` -/
  | lock (call : PoolCall)
  /-- the first statement behind it -/
  | locked (call : PoolCall)
  /-- `ret = m_pool.top()` -/
  | top
  /-- `m_pool.pop()` in `Alloc` -/
  | pop (ret : ObjectId)
  /-- the loop that pushes new objects, with `left` rounds to go -/
  | grow (left : Nat)
  /-- the loop of `Resize` that pops objects, with `left` rounds to go -/
  | shrink (left : Nat)
  /-- the end of the lock's scope -/
  | unlock
  /-- the same in an `Alloc` that has found the pool empty -/
  | unlockEmpty
  /-- `return std::make_shared<T>()` -/
  | make
  deriving DecidableEq, Repr

/-- The pool, its objects and its lock, with a record of where the objects are. -/
structure PoolState (T : Type) where
  pool : TSharedRecyclePool
  heap : Heap T
  lockHolder : Option ThreadId := none
  held : List (ThreadId × ObjectId) := []
  /-- the objects that `Resize` has popped -/
  destroyed : List ObjectId := []
  /-- the threads that have found the pool empty and not made their object yet -/
  missing : List ThreadId := []
  /-- the largest number of objects held or missing at one time -/
  peak : Nat := 0

namespace PoolState

variable {T : Type} [Inhabited T]

/-- Keep the record of the peak. -/
def mark (this : PoolState T) : PoolState T :=
  { this with peak := max this.peak (this.held.length + this.missing.length) }

/-- Record that a thread that begins to give an object back has it from whoever held it. -/
def receive (t : ThreadId) (call : PoolCall) (held : List (ThreadId × ObjectId)) :
    List (ThreadId × ObjectId) :=
  held.map fun entry => if call = .dealloc (some entry.2) then (t, entry.2) else entry

section Receive

variable {t : ThreadId} {call : PoolCall} {held : List (ThreadId × ObjectId)}

@[simp] theorem map_snd_receive : (receive t call held).map Prod.snd = held.map Prod.snd := by
  rw [receive, List.map_map]
  apply List.map_congr_left
  intro entry _
  rw [Function.comp_apply]
  split <;> rfl

@[simp] theorem length_receive : (receive t call held).length = held.length :=
  List.length_map _

theorem mem_receive_self {entry : ThreadId × ObjectId} (h : entry ∈ held)
    (hcall : call = .dealloc (some entry.2)) : (t, entry.2) ∈ receive t call held :=
  List.mem_map.2 ⟨entry, h, if_pos hcall⟩

theorem mem_receive_of_ne {entry : ThreadId × ObjectId} (h : entry ∈ held)
    (hcall : call ≠ .dealloc (some entry.2)) : entry ∈ receive t call held :=
  List.mem_map.2 ⟨entry, h, if_neg hcall⟩

end Receive

/-- Record that the thread no longer holds what the pointer designates. -/
def release (t : ThreadId) (ptr : SharedPtr) (held : List (ThreadId × ObjectId)) :
    List (ThreadId × ObjectId) :=
  match ptr with
  | none => held
  | some ptr => held.erase (t, ptr)

/-- `int32 imax = PoolCount - m_pool.size()` in `Resize`: the difference is a `size_t`, and the
conversion keeps its low 32 bits. -/
def resizeMax (poolCount : Int32) (size : Nat) : Int32 :=
  (poolCount.toInt64.toUInt64 - UInt64.ofNat size).toInt64.toInt32

theorem toInt_resizeMax (poolCount : Int32) (size : Nat) :
    (resizeMax poolCount size).toInt = (poolCount.toInt - size).bmod (2 ^ 32) := by
  have hdiff : (poolCount.toInt64.toUInt64 - UInt64.ofNat size).toInt64.toInt =
      (poolCount.toInt - size).bmod (2 ^ 64) := by
    calc
      (poolCount.toInt64.toUInt64 - UInt64.ofNat size).toInt64.toInt
          = (poolCount.toInt64.toBitVec - BitVec.ofNat 64 size).toInt := rfl
      _ = (poolCount.toInt64.toInt - (BitVec.ofNat 64 size).toInt).bmod (2 ^ 64) :=
            BitVec.toInt_sub
      _ = (poolCount.toInt - (size : Int).bmod (2 ^ 64)).bmod (2 ^ 64) := by
            rw [Int32.toInt_toInt64, BitVec.toInt_ofNat']
      _ = (poolCount.toInt - size).bmod (2 ^ 64) := Int.sub_bmod_bmod
  rw [resizeMax, Int64.toInt_toInt32, hdiff]
  apply Int.bmod_bmod_of_dvd
  decide

theorem resizeMax_eq {poolCount : Int32} {size : Nat}
    (hlo : -2 ^ 31 ≤ poolCount.toInt - size) (hhi : poolCount.toInt - size < 2 ^ 31) :
    (resizeMax poolCount size).toInt = poolCount.toInt - size := by
  rw [toInt_resizeMax]
  exact Int.bmod_eq_of_le hlo hhi

/-- One statement of a thread; `call` is what it calls next if it is in no call. -/
def poolStep (t : ThreadId) (call : PoolCall) (this : PoolState T) (pc : PoolPc) :
    Checked (PoolState T × PoolPc) :=
  match pc with
  | .idle =>
      -- `Dealloc` tests its argument before it locks.
      if call = .dealloc none then
        pure (this, .idle)
      else
        pure ({ this with held := receive t call this.held }, .lock call)
  | .lock call =>
      if this.lockHolder = none then
        pure ({ this with lockHolder := some t }, .locked call)
      else
        pure (this, .lock call)
  | .locked .alloc =>
      if this.pool.mPool.isEmpty then
        pure ({ this with missing := t :: this.missing }.mark, .unlockEmpty)
      else
        pure (this, .top)
  | .top =>
      match this.pool.mPool with
      | [] => .error .emptyContainer
      | ret :: _ => pure (this, .pop ret)
  | .pop ret =>
      match this.pool.mPool with
      | [] => .error .emptyContainer
      | _ :: rest =>
          pure ({ this with pool := ⟨rest⟩, held := (t, ret) :: this.held }.mark, .unlock)
  | .locked (.dealloc ptr) =>
      pure ({ this with pool := this.pool.dealloc ptr, held := release t ptr this.held }, .unlock)
  | .locked (.reset poolCount) => do
      let imax ← int32 (poolCount.toInt - this.pool.num.toInt)
      if imax > 0 then
        return (this, .grow imax.toNat)
      else
        return (this, .unlock)
  | .locked (.resize poolCount) => do
      let imax := resizeMax poolCount this.pool.mPool.length
      if imax > 0 then
        return (this, .grow imax.toInt.toNat)
      else
        let imax ← int32 (-imax.toInt)
        return (this, .shrink imax.toNat)
  | .grow 0 => pure (this, .unlock)
  | .grow (left + 1) =>
      let (ptr, heap) := makeShared this.heap default
      pure ({ this with pool := ⟨ptr :: this.pool.mPool⟩, heap }, .grow left)
  | .shrink 0 => pure (this, .unlock)
  | .shrink (left + 1) =>
      match this.pool.mPool with
      | [] => .error .emptyContainer
      | ptr :: rest =>
          pure ({ this with pool := ⟨rest⟩, destroyed := ptr :: this.destroyed }, .shrink left)
  | .unlock => pure ({ this with lockHolder := none }, .idle)
  | .unlockEmpty => pure ({ this with lockHolder := none }, .make)
  | .make =>
      let (ret, heap) := makeShared this.heap default
      pure ({ this with
        heap, held := (t, ret) :: this.held, missing := this.missing.erase t }.mark, .idle)

end PoolState

/-- Any number of threads with a pool. -/
abbrev PoolThreads (T : Type) : Type := Threads (PoolState T) PoolPc

namespace PoolThreads

variable {T : Type}

/-- The pool is constructed before the threads begin. -/
def new [Inhabited T] (heap : Heap T) (inNum : Int32) : Checked (PoolThreads T) := do
  let (pool, heap) ← TSharedRecyclePool.new heap inNum
  return { shared := { pool, heap }, locals := fun _ => .idle }

def step [Inhabited T] : PoolThreads T → ThreadId × PoolCall → Checked (PoolThreads T) :=
  Threads.turn PoolState.poolStep

/-- The thread is giving the object back. -/
def GivesBack (ptr : ObjectId) (pc : PoolPc) : Prop :=
  pc = .lock (.dealloc (some ptr)) ∨ pc = .locked (.dealloc (some ptr))

instance (ptr : ObjectId) (pc : PoolPc) : Decidable (GivesBack ptr pc) :=
  inferInstanceAs (Decidable (_ ∨ _))

/-- Whoever is about to call gives back only what some thread holds, itself or another, and is not
giving back already. -/
def CallAllowed (s : PoolThreads T) : PoolCall → Prop
  | .dealloc (some ptr) =>
      ∃ entry ∈ s.shared.held, entry.2 = ptr ∧ ¬ GivesBack ptr (s.locals entry.1)
  | _ => True

/-- What `Reset` and `Resize` need behind their lock: counts that fit an `int32`, and for `Resize`
an argument that is not negative. -/
def CountAllowed (pool : TSharedRecyclePool) : PoolCall → Prop
  | .reset poolCount =>
      -2 ^ 31 ≤ poolCount.toInt - pool.num.toInt ∧ poolCount.toInt - pool.num.toInt < 2 ^ 31
  | .resize poolCount => 0 ≤ poolCount.toInt ∧ pool.mPool.length < 2 ^ 31
  | _ => True

def Allowed (s : PoolThreads T) (turn : ThreadId × PoolCall) : Prop :=
  match s.locals turn.1 with
  | .idle => s.CallAllowed turn.2
  | .locked call => CountAllowed s.shared.pool call
  | _ => True

instance (s : PoolThreads T) (call : PoolCall) : Decidable (s.CallAllowed call) :=
  match call with
  | .alloc => inferInstanceAs (Decidable True)
  | .dealloc none => inferInstanceAs (Decidable True)
  | .dealloc (some _) => inferInstanceAs (Decidable (∃ entry ∈ s.shared.held, _))
  | .reset _ => inferInstanceAs (Decidable True)
  | .resize _ => inferInstanceAs (Decidable True)

instance (pool : TSharedRecyclePool) (call : PoolCall) : Decidable (CountAllowed pool call) :=
  match call with
  | .alloc => inferInstanceAs (Decidable True)
  | .dealloc _ => inferInstanceAs (Decidable True)
  | .reset _ => inferInstanceAs (Decidable (_ ∧ _))
  | .resize _ => inferInstanceAs (Decidable (_ ∧ _))

instance (s : PoolThreads T) (turn : ThreadId × PoolCall) : Decidable (Allowed s turn) :=
  match hpc : s.locals turn.1 with
  | .idle => decidable_of_iff (s.CallAllowed turn.2) (by rw [Allowed, hpc])
  | .locked call => decidable_of_iff (CountAllowed s.shared.pool call) (by rw [Allowed, hpc])
  | .lock _ | .top | .pop _ | .grow _ | .shrink _ | .unlock | .unlockEmpty | .make =>
      isTrue (by rw [Allowed, hpc]; trivial)

/-! ## The invariant -/

/-- Between `lock` and `unlock`. -/
def InLock : PoolPc → Prop
  | .idle => False
  | .lock _ => False
  | .make => False
  | _ => True

/-- Whoever gives an object back holds it. -/
def Brings (t : ThreadId) (held : List (ThreadId × ObjectId)) : PoolCall → Prop
  | .dealloc (some ptr) => (t, ptr) ∈ held
  | _ => True

/-- What a thread relies on where it is. -/
def Fine (t : ThreadId) (this : PoolState T) : PoolPc → Prop
  | .lock call => Brings t this.held call
  | .locked call => Brings t this.held call
  | .top => this.pool.mPool ≠ []
  | .pop ret => this.pool.mPool.head? = some ret
  | .shrink left => left ≤ this.pool.mPool.length
  | _ => True

/-- The objects that are not pooled. -/
def away (this : PoolState T) : List ObjectId :=
  this.held.map Prod.snd ++ this.destroyed

structure Safe (base : Nat) (s : PoolThreads T) : Prop where
  accounts : s.shared.pool.Accounts (away s.shared) base s.shared.heap.length
  locked : LockedBy s.shared.lockHolder InLock s.locals
  fine : ∀ t, Fine t s.shared (s.locals t)

/-! ## Where the objects go -/

section Accounts

variable {pool : TSharedRecyclePool} {objects : List ObjectId} {base size : Nat}

/-- The top of the stack leaves the pool. -/
theorem accounts_pop (h : pool.Accounts objects base size) {ptr : ObjectId} {rest : List ObjectId}
    (hpool : pool.mPool = ptr :: rest) {objects' : List ObjectId}
    (hobjects : objects'.Perm (ptr :: objects)) :
    (⟨rest⟩ : TSharedRecyclePool).Accounts objects' base size := by
  have hperm := h.perm
  rw [hpool] at hperm
  exact ⟨h.base_le, ((hobjects.append_left rest).trans List.perm_middle).trans hperm⟩

/-- A new object is pooled. -/
theorem accounts_push (h : pool.Accounts objects base size) :
    (⟨size :: pool.mPool⟩ : TSharedRecyclePool).Accounts objects base (size + 1) :=
  ⟨Nat.le_succ_of_le h.base_le, h.create (List.Perm.refl _)⟩

/-- A new object goes past the pool. -/
theorem accounts_make (h : pool.Accounts objects base size) :
    pool.Accounts (size :: objects) base (size + 1) :=
  ⟨Nat.le_succ_of_le h.base_le, h.create List.perm_middle⟩

theorem perm_release {t : ThreadId} {ptr : ObjectId} {held : List (ThreadId × ObjectId)}
    (hheld : (t, ptr) ∈ held) :
    ((held.erase (t, ptr)).map Prod.snd).Perm ((held.map Prod.snd).erase ptr) := by
  have hcons : (ptr :: (held.erase (t, ptr)).map Prod.snd).Perm (held.map Prod.snd) :=
    ((List.perm_cons_erase hheld).map Prod.snd).symm
  have hmem : ptr ∈ held.map Prod.snd := List.mem_map_of_mem hheld
  exact (hcons.trans (List.perm_cons_erase hmem)).cons_inv

/-- A held object goes back to the pool. -/
theorem accounts_dealloc {this : PoolState T} (h : this.pool.Accounts (away this) base size)
    {t : ThreadId} {ptr : ObjectId} (hheld : (t, ptr) ∈ this.held) :
    (this.pool.dealloc (some ptr)).Accounts
      ((this.held.erase (t, ptr)).map Prod.snd ++ this.destroyed) base size := by
  have hmem : ptr ∈ this.held.map Prod.snd := List.mem_map_of_mem hheld
  have hback := TSharedRecyclePool.dealloc_accounts h (List.mem_append_left this.destroyed hmem)
  rw [away, List.erase_append_left this.destroyed hmem] at hback
  exact hback.perm_held ((perm_release hheld).append_right this.destroyed)

end Accounts

/-! ## Steps -/

section Lock

variable [Inhabited T] {s : PoolThreads T} {t : ThreadId}

/-- What a statement does to the lock: it leaves it alone, takes it free, or gives it up.  Outside
the lock the pool is left alone. -/
theorem poolStep_lock {this shared : PoolState T} {call : PoolCall} {pc mine : PoolPc}
    (hact : PoolState.poolStep t call this pc = .ok (shared, mine)) :
    (InLock pc ∨ shared.pool = this.pool) ∧
      ((shared.lockHolder = this.lockHolder ∧ (InLock mine ↔ InLock pc)) ∨
        (this.lockHolder = none ∧ shared.lockHolder = some t ∧ InLock mine) ∨
        (InLock pc ∧ shared.lockHolder = none ∧ ¬ InLock mine)) := by
  cases pc with
  | idle =>
      rw [PoolState.poolStep] at hact
      split at hact
      · cases hact
        exact ⟨.inr rfl, .inl ⟨rfl, Iff.rfl⟩⟩
      · cases hact
        exact ⟨.inr rfl, .inl ⟨rfl, Iff.rfl⟩⟩
  | lock call =>
      by_cases hfree : this.lockHolder = none
      · rw [PoolState.poolStep, if_pos hfree] at hact
        cases hact
        exact ⟨.inr rfl, .inr (.inl ⟨hfree, rfl, trivial⟩)⟩
      · rw [PoolState.poolStep, if_neg hfree] at hact
        cases hact
        exact ⟨.inr rfl, .inl ⟨rfl, Iff.rfl⟩⟩
  | locked call =>
      cases call with
      | alloc =>
          rw [PoolState.poolStep] at hact
          split at hact
          · cases hact
            exact ⟨.inl trivial, .inl ⟨rfl, Iff.rfl⟩⟩
          · cases hact
            exact ⟨.inl trivial, .inl ⟨rfl, Iff.rfl⟩⟩
      | dealloc ptr =>
          cases hact
          exact ⟨.inl trivial, .inl ⟨rfl, Iff.rfl⟩⟩
      | reset poolCount =>
          rcases Checked.bind_eq_ok.1 hact with ⟨imax, -, hret⟩
          split at hret
          · cases hret
            exact ⟨.inl trivial, .inl ⟨rfl, Iff.rfl⟩⟩
          · cases hret
            exact ⟨.inl trivial, .inl ⟨rfl, Iff.rfl⟩⟩
      | resize poolCount =>
          rw [PoolState.poolStep] at hact
          split at hact
          · cases hact
            exact ⟨.inl trivial, .inl ⟨rfl, Iff.rfl⟩⟩
          · rcases Checked.bind_eq_ok.1 hact with ⟨imax, -, hret⟩
            cases hret
            exact ⟨.inl trivial, .inl ⟨rfl, Iff.rfl⟩⟩
  | top =>
      rw [PoolState.poolStep] at hact
      split at hact
      · cases hact
      · cases hact
        exact ⟨.inl trivial, .inl ⟨rfl, Iff.rfl⟩⟩
  | pop ret =>
      rw [PoolState.poolStep] at hact
      split at hact
      · cases hact
      · cases hact
        exact ⟨.inl trivial, .inl ⟨rfl, Iff.rfl⟩⟩
  | grow left =>
      cases left with
      | zero =>
          cases hact
          exact ⟨.inl trivial, .inl ⟨rfl, Iff.rfl⟩⟩
      | succ left =>
          cases hact
          exact ⟨.inl trivial, .inl ⟨rfl, Iff.rfl⟩⟩
  | shrink left =>
      cases left with
      | zero =>
          cases hact
          exact ⟨.inl trivial, .inl ⟨rfl, Iff.rfl⟩⟩
      | succ left =>
          rw [PoolState.poolStep] at hact
          split at hact
          · cases hact
          · cases hact
            exact ⟨.inl trivial, .inl ⟨rfl, Iff.rfl⟩⟩
  | unlock =>
      cases hact
      exact ⟨.inl trivial, .inr (.inr ⟨trivial, rfl, id⟩)⟩
  | unlockEmpty =>
      cases hact
      exact ⟨.inl trivial, .inr (.inr ⟨trivial, rfl, id⟩)⟩
  | make =>
      cases hact
      exact ⟨.inr rfl, .inl ⟨rfl, Iff.rfl⟩⟩

/-- Whatever the threads call, the lock is held by the thread that works on the pool. -/
theorem step_locked (h : LockedBy s.shared.lockHolder InLock s.locals)
    {turn : ThreadId × PoolCall} {s' : PoolThreads T} (hstep : step s turn = .ok s') :
    LockedBy s'.shared.lockHolder InLock s'.locals := by
  rcases Checked.bind_eq_ok.1 hstep with ⟨⟨shared, mine⟩, hact, hs'⟩
  cases hs'
  rcases (poolStep_lock hact).2 with ⟨hholder, hmine⟩ | ⟨hfree, hholder, hmine⟩ |
    ⟨hpc, hholder, hmine⟩
  · rw [s.set_shared, hholder]
    exact h.keep hmine shared
  · rw [hfree] at h
    rw [s.set_shared, hholder]
    exact h.acquire hmine shared
  · rw [s.set_shared, hholder]
    exact h.release hpc hmine shared

end Lock

section Statements

variable [Inhabited T] {base : Nat} {s : PoolThreads T} {t : ThreadId}

omit [Inhabited T] in
theorem length_makeShared (heap : Heap T) (value : T) :
    (makeShared heap value).2.length = heap.length + 1 :=
  List.length_append

omit [Inhabited T] in
theorem Safe.nodup_held (h : s.Safe base) : (s.shared.held.map Prod.snd).Nodup := by
  have haway : (away s.shared).Nodup := List.Nodup.of_append_right h.accounts.nodup
  exact List.Nodup.of_append_left haway

omit [Inhabited T] in
/-- A thread that does not hold the lock leaves the pool alone, and what another thread is giving
back stays with that thread; so what the other threads rely on stays. -/
theorem Safe.others (h : s.Safe base) {shared : PoolState T}
    (hpool : InLock (s.locals t) ∨ shared.pool = s.shared.pool)
    (hheld : ∀ u, u ≠ t → ∀ ptr, GivesBack ptr (s.locals u) → (u, ptr) ∈ s.shared.held →
      (u, ptr) ∈ shared.held)
    (u : ThreadId) (hne : u ≠ t) : Fine u shared (s.locals u) := by
  have hcall {call : PoolCall} (hpc : s.locals u = .lock call ∨ s.locals u = .locked call)
      (hold : Brings u s.shared.held call) : Brings u shared.held call := by
    cases call with
    | dealloc ptr =>
        cases ptr with
        | none => exact trivial
        | some ptr => exact hheld u hne ptr hpc hold
    | alloc => exact trivial
    | reset poolCount => exact trivial
    | resize poolCount => exact trivial
  -- A thread behind the lock is alone there, so the pool that it has looked at is the one it finds.
  have hsame (hu : InLock (s.locals u)) : shared.pool = s.shared.pool := by
    rcases hpool with ht | hsame
    · exact absurd (h.locked.atMostOne u t hu ht) hne
    · exact hsame
  have hfine := h.fine u
  cases hpc : s.locals u with
  | lock call =>
      rw [hpc] at hfine
      exact hcall (.inl hpc) hfine
  | locked call =>
      rw [hpc] at hfine
      exact hcall (.inr hpc) hfine
  | top =>
      rw [hpc] at hfine hsame
      rw [Fine, hsame trivial]
      exact hfine
  | pop ret =>
      rw [hpc] at hfine hsame
      rw [Fine, hsame trivial]
      exact hfine
  | shrink left =>
      rw [hpc] at hfine hsame
      rw [Fine, hsame trivial]
      exact hfine
  | idle => exact trivial
  | grow left => exact trivial
  | unlock => exact trivial
  | unlockEmpty => exact trivial
  | make => exact trivial

/-- The statement returns and leaves a safe state behind. -/
def Runs (base : Nat) (s : PoolThreads T) (t : ThreadId) (call : PoolCall) : Prop :=
  ∃ s', step s (t, call) = .ok s' ∧ Safe base s'

/-- What a statement has to show: what it does to the objects, and what its thread relies on
next. -/
theorem Runs.of_step (h : s.Safe base) {call : PoolCall} {pc mine : PoolPc} {shared : PoolState T}
    (hpc : s.locals t = pc) (hact : PoolState.poolStep t call s.shared pc = .ok (shared, mine))
    (hheld : ∀ u, u ≠ t → ∀ ptr, GivesBack ptr (s.locals u) → (u, ptr) ∈ s.shared.held →
      (u, ptr) ∈ shared.held)
    (hacc : shared.pool.Accounts (away shared) base shared.heap.length)
    (hfine : Fine t shared mine) : Runs base s t call := by
  rw [← hpc] at hact
  have hstep : step s (t, call) = .ok (Threads.set s t shared mine) := Threads.turn_ok hact
  refine ⟨_, hstep, hacc, step_locked h.locked hstep, ?_⟩
  intro u
  by_cases hu : u = t
  · subst hu
    rw [s.set_locals_self]
    exact hfine
  · rw [s.set_locals_of_ne hu]
    exact h.others (poolStep_lock hact).1 hheld u hu

/-- The same for a statement that changes nothing. -/
theorem Runs.goOn (h : s.Safe base) {call : PoolCall} {pc mine : PoolPc}
    (hpc : s.locals t = pc) (hact : PoolState.poolStep t call s.shared pc = .ok (s.shared, mine))
    (hfine : Fine t s.shared mine) : Runs base s t call :=
  .of_step h hpc hact (fun _ _ _ _ hold => hold) h.accounts hfine

/-- An object may change hands here, but none that another thread is giving back. -/
theorem runs_idle (h : s.Safe base) {call : PoolCall} (hpc : s.locals t = .idle)
    (hcall : s.CallAllowed call) : Runs base s t call := by
  -- A null pointer returns before the lock.
  by_cases hnull : call = .dealloc none
  · exact .goOn h hpc (if_pos hnull) trivial
  · refine .of_step h hpc (if_neg hnull) ?_ ?_ ?_
    · intro u _ ptr hgives hold
      refine PoolState.mem_receive_of_ne hold ?_
      rintro rfl
      rcases hcall with ⟨entry, hmem, hentry, hfree⟩
      -- Each object is held once, so this entry is the other thread's.
      have hsame : entry = (u, ptr) :=
        List.inj_on_of_nodup_map h.nodup_held hmem hold hentry
      rw [hsame] at hfree
      exact hfree hgives
    · rw [away, PoolState.map_snd_receive]
      exact h.accounts
    · cases call with
      | dealloc ptr =>
          cases ptr with
          | none => exact trivial
          | some ptr =>
              rcases hcall with ⟨entry, hmem, rfl, -⟩
              exact PoolState.mem_receive_self hmem rfl
      | alloc => exact trivial
      | reset poolCount => exact trivial
      | resize poolCount => exact trivial

theorem runs_lock (h : s.Safe base) {call input : PoolCall} (hpc : s.locals t = .lock call) :
    Runs base s t input := by
  have hfine := h.fine t
  rw [hpc] at hfine
  by_cases hfree : s.shared.lockHolder = none
  · -- What the call relied on in front of the lock, it relies on behind it.
    exact .of_step h hpc (if_pos hfree) (fun _ _ _ _ hold => hold) h.accounts hfine
  · -- The lock is taken, so the thread spins.
    exact .goOn h hpc (if_neg hfree) hfine

theorem runs_alloc (h : s.Safe base) {input : PoolCall} (hpc : s.locals t = .locked .alloc) :
    Runs base s t input := by
  cases hempty : s.shared.pool.mPool with
  | nil =>
      have hact : PoolState.poolStep t input s.shared (.locked .alloc) =
          .ok ({ s.shared with missing := t :: s.shared.missing }.mark, .unlockEmpty) := by
        rw [PoolState.poolStep, hempty]
        rfl
      exact .of_step h hpc hact (fun _ _ _ _ hold => hold) h.accounts trivial
  | cons ret rest =>
      -- `size() > 0` has been read behind the lock, so it still holds where `top` and `pop` are
      -- called.
      have hact : PoolState.poolStep t input s.shared (.locked .alloc) = .ok (s.shared, .top) := by
        rw [PoolState.poolStep, hempty]
        rfl
      refine .goOn h hpc hact ?_
      rw [Fine, hempty]
      exact List.cons_ne_nil ret rest

theorem runs_top (h : s.Safe base) {input : PoolCall} (hpc : s.locals t = .top) :
    Runs base s t input := by
  have hfine := h.fine t
  rw [hpc] at hfine
  -- The test of `Alloc` still holds: the lock has not been given up since.
  rcases List.exists_cons_of_ne_nil hfine with ⟨ret, rest, hpool⟩
  have hact : PoolState.poolStep t input s.shared .top = .ok (s.shared, .pop ret) := by
    rw [PoolState.poolStep, hpool]
    rfl
  refine .goOn h hpc hact ?_
  rw [Fine, hpool]
  rfl

theorem runs_pop (h : s.Safe base) {input : PoolCall} {ret : ObjectId}
    (hpc : s.locals t = .pop ret) : Runs base s t input := by
  have hfine := h.fine t
  rw [hpc] at hfine
  rcases List.head?_eq_some_iff.1 hfine with ⟨rest, hpool⟩
  have hact : PoolState.poolStep t input s.shared (.pop ret) =
      .ok ({ s.shared with pool := ⟨rest⟩, held := (t, ret) :: s.shared.held }.mark, .unlock) := by
    rw [PoolState.poolStep, hpool]
    rfl
  exact .of_step h hpc hact (fun _ _ _ _ hold => List.mem_cons_of_mem _ hold)
    (accounts_pop h.accounts hpool (List.Perm.refl _)) trivial

theorem runs_dealloc (h : s.Safe base) {input : PoolCall} {ptr : SharedPtr}
    (hpc : s.locals t = .locked (.dealloc ptr)) : Runs base s t input := by
  have hfine := h.fine t
  rw [hpc] at hfine
  cases ptr with
  | none => exact .of_step h hpc rfl (fun _ _ _ _ hold => hold) h.accounts trivial
  | some ptr =>
      refine .of_step h hpc rfl ?_ (accounts_dealloc h.accounts hfine) trivial
      -- What other threads hold is not what this one gives back, whatever the pointers are.
      intro u hne other _ hold
      have hother : (u, other) ≠ (t, ptr) := fun heq => hne (congrArg Prod.fst heq)
      exact (List.mem_erase_of_ne hother).2 hold

theorem runs_grow (h : s.Safe base) {input : PoolCall} {left : Nat}
    (hpc : s.locals t = .grow left) : Runs base s t input := by
  cases left with
  | zero => exact .goOn h hpc rfl trivial
  | succ left =>
      refine .of_step h hpc rfl (fun _ _ _ _ hold => hold) ?_ trivial
      have hpush := accounts_push h.accounts
      rw [← length_makeShared s.shared.heap default] at hpush
      exact hpush

/-- One object less in the pool, and one more destroyed. -/
theorem poolStep_shrink {this : PoolState T} {ptr : ObjectId} {rest : List ObjectId}
    (hpool : this.pool.mPool = ptr :: rest) (call : PoolCall) (left : Nat) :
    PoolState.poolStep t call this (.shrink (left + 1)) =
      .ok ({ this with pool := ⟨rest⟩, destroyed := ptr :: this.destroyed }, .shrink left) := by
  rw [PoolState.poolStep, hpool]
  rfl

theorem runs_shrink (h : s.Safe base) {input : PoolCall} {left : Nat}
    (hpc : s.locals t = .shrink left) : Runs base s t input := by
  cases left with
  | zero => exact .goOn h hpc rfl trivial
  | succ left =>
      have hfine := h.fine t
      rw [hpc] at hfine
      rcases List.exists_cons_of_length_pos (Nat.lt_of_lt_of_le (Nat.succ_pos left) hfine) with
        ⟨ptr, rest, hpool⟩
      refine .of_step h hpc (poolStep_shrink hpool input left) (fun _ _ _ _ hold => hold)
        (accounts_pop h.accounts hpool List.perm_middle) ?_
      rw [Fine, hpool, List.length_cons] at hfine
      exact Nat.le_of_succ_le_succ hfine

/-- `Reset` never pops. -/
theorem runs_reset (h : s.Safe base) {input : PoolCall} {poolCount : Int32}
    (hpc : s.locals t = .locked (.reset poolCount))
    (hcount : CountAllowed s.shared.pool (.reset poolCount)) : Runs base s t input := by
  have himax : int32 (poolCount.toInt - s.shared.pool.num.toInt) =
      .ok (poolCount.toInt - s.shared.pool.num.toInt) :=
    int32_ok hcount.1 hcount.2
  by_cases hpos : poolCount.toInt - s.shared.pool.num.toInt > 0
  · have hact : PoolState.poolStep t input s.shared (.locked (.reset poolCount)) =
        .ok (s.shared, .grow (poolCount.toInt - s.shared.pool.num.toInt).toNat) := by
      rw [PoolState.poolStep, himax, Checked.ok_bind, if_pos hpos]
      rfl
    exact .goOn h hpc hact trivial
  · have hact : PoolState.poolStep t input s.shared (.locked (.reset poolCount)) =
        .ok (s.shared, .unlock) := by
      rw [PoolState.poolStep, himax, Checked.ok_bind, if_neg hpos]
      rfl
    exact .goOn h hpc hact trivial

/-- `Resize` of more than there are pushes. -/
theorem poolStep_resize_grow {this : PoolState T} {poolCount imax : Int32}
    (hmax : PoolState.resizeMax poolCount this.pool.mPool.length = imax) (hpos : 0 < imax.toInt)
    (call : PoolCall) :
    PoolState.poolStep t call this (.locked (.resize poolCount)) =
      .ok (this, .grow imax.toInt.toNat) := by
  have hgt : imax > 0 := Int32.lt_iff_toInt_lt.2 hpos
  rw [PoolState.poolStep, hmax]
  exact if_pos hgt

/-- Otherwise it turns the sign of the difference, which an `int32` need not have room for. -/
theorem poolStep_resize_shrink {this : PoolState T} {poolCount imax : Int32}
    (hmax : PoolState.resizeMax poolCount this.pool.mPool.length = imax) (hle : imax.toInt ≤ 0)
    (call : PoolCall) :
    PoolState.poolStep t call this (.locked (.resize poolCount)) =
      int32 (-imax.toInt) >>= fun imax => .ok (this, .shrink imax.toNat) := by
  have hnot : ¬ imax > 0 := fun hgt => Int.not_lt.2 hle (Int32.lt_iff_toInt_lt.1 hgt)
  rw [PoolState.poolStep, hmax]
  exact if_neg hnot

/-- `Resize` pops no more objects than there are. -/
theorem runs_resize (h : s.Safe base) {input : PoolCall} {poolCount : Int32}
    (hpc : s.locals t = .locked (.resize poolCount))
    (hcount : CountAllowed s.shared.pool (.resize poolCount)) : Runs base s t input := by
  rcases hcount with ⟨hnonneg, hsize⟩
  have hlt := poolCount.toInt_lt
  -- With an argument that is not negative the difference does not wrap.
  have himax : (PoolState.resizeMax poolCount s.shared.pool.mPool.length).toInt =
      poolCount.toInt - s.shared.pool.mPool.length :=
    PoolState.resizeMax_eq (by omega) (by omega)
  generalize hmax : PoolState.resizeMax poolCount s.shared.pool.mPool.length = imax at himax
  rcases Int.lt_or_le 0 imax.toInt with hpos | hle
  · exact .goOn h hpc (poolStep_resize_grow hmax hpos input) trivial
  · have hact := poolStep_resize_shrink (t := t) hmax hle input
    rw [int32_ok (by omega) (by omega), Checked.ok_bind] at hact
    refine .goOn h hpc hact ?_
    rw [Fine]
    omega

theorem runs_unlock (h : s.Safe base) {input : PoolCall} (hpc : s.locals t = .unlock) :
    Runs base s t input :=
  .of_step h hpc rfl (fun _ _ _ _ hold => hold) h.accounts trivial

theorem runs_unlockEmpty (h : s.Safe base) {input : PoolCall} (hpc : s.locals t = .unlockEmpty) :
    Runs base s t input :=
  .of_step h hpc rfl (fun _ _ _ _ hold => hold) h.accounts trivial

/-- Nothing is known about the pool here, nor needed. -/
theorem runs_make (h : s.Safe base) {input : PoolCall} (hpc : s.locals t = .make) :
    Runs base s t input := by
  refine .of_step h hpc rfl (fun _ _ _ _ hold => List.mem_cons_of_mem _ hold) ?_ trivial
  have hmake := accounts_make h.accounts
  rw [← length_makeShared s.shared.heap default] at hmake
  exact hmake

theorem step_safe (h : s.Safe base) {turn : ThreadId × PoolCall} (hturn : s.Allowed turn) :
    ∃ s', step s turn = .ok s' ∧ Safe base s' := by
  rcases turn with ⟨t, input⟩
  rw [Allowed] at hturn
  cases hpc : s.locals t with
  | idle =>
      rw [hpc] at hturn
      exact runs_idle h hpc hturn
  | lock call => exact runs_lock h hpc
  | locked call =>
      rw [hpc] at hturn
      cases call with
      | alloc => exact runs_alloc h hpc
      | dealloc ptr => exact runs_dealloc h hpc
      | reset poolCount => exact runs_reset h hpc hturn
      | resize poolCount => exact runs_resize h hpc hturn
  | top => exact runs_top h hpc
  | pop ret => exact runs_pop h hpc
  | grow left => exact runs_grow h hpc
  | shrink left => exact runs_shrink h hpc
  | unlock => exact runs_unlock h hpc
  | unlockEmpty => exact runs_unlockEmpty h hpc
  | make => exact runs_make h hpc

/-! ## Runs -/

theorem new_safe {heap : Heap T} {inNum : Int32} {s : PoolThreads T}
    (h : new heap inNum = .ok s) : s.Safe heap.length := by
  rcases TSharedRecyclePool.new_accounts heap inNum with ⟨pool, heap', hnew, hacc, -⟩
  rw [new, hnew, Checked.ok_bind] at h
  cases h
  exact ⟨hacc, fun _ => iff_of_false nofun id, fun _ => trivial⟩

/-- In every interleaving of the calls of any number of threads that give back only what one of them
holds and none is giving back: no statement reads or pops an empty stack, at most one thread works
on the pool, and each object created is pooled, held by one thread, or destroyed, exactly once. -/
theorem pool_safe (heap : Heap T) (inNum : Int32) (s : PoolThreads T)
    (hnew : new heap inNum = .ok s) (turns : List (ThreadId × PoolCall))
    (hturns : Along step Allowed s turns) :
    ∃ s', run step s turns = .ok s' ∧ AtMostOne InLock s'.locals ∧
      (s'.shared.pool.mPool ++ s'.shared.held.map Prod.snd ++ s'.shared.destroyed).Perm
        (List.range' heap.length (s'.shared.heap.length - heap.length)) := by
  rcases run_keeps (fun _ _ h hturn => step_safe h hturn) (new_safe hnew) hturns with ⟨s', hrun, h⟩
  have hperm := h.accounts.perm
  rw [away, ← List.append_assoc] at hperm
  exact ⟨s', hrun, h.locked.atMostOne, hperm⟩

/-- Two threads find the pool empty, and a third one gives back the object of the first and resizes
the pool. -/
def sampleTurns : List (ThreadId × PoolCall) :=
  [(0, .alloc), (1, .alloc), (0, .alloc), (1, .alloc), (0, .alloc), (0, .alloc), (1, .alloc),
    (1, .alloc), (1, .alloc), (0, .alloc), (1, .alloc), (2, .dealloc (some 0)), (2, .alloc),
    (2, .alloc), (2, .alloc), (2, .resize 0), (2, .alloc), (2, .alloc), (2, .alloc), (2, .alloc),
    (2, .alloc)]

theorem pool_safe_sample :
    ∃ s s' : PoolThreads UInt8, new [] 0 = .ok s ∧ run step s sampleTurns = .ok s' ∧
      AtMostOne InLock s'.locals := by
  have hnew : new ([] : Heap UInt8) 0 =
      .ok { shared := { pool := {}, heap := [] }, locals := fun _ => .idle } := rfl
  have hturns : Along step Allowed
      ({ shared := { pool := {}, heap := [] }, locals := fun _ => .idle } : PoolThreads UInt8)
      sampleTurns := by
    decide
  rcases pool_safe [] 0 _ hnew sampleTurns hturns with ⟨s', hrun, hone, -⟩
  exact ⟨_, s', hnew, hrun, hone⟩

end Statements

/-! ## `Resize` -/

section Resize

variable [Inhabited T] {base : Nat} {s : PoolThreads T} {t : ThreadId}

theorem new_locked {heap : Heap T} {inNum : Int32} (h : new heap inNum = .ok s) :
    LockedBy s.shared.lockHolder InLock s.locals :=
  (new_safe h).locked

/-- While the lock is taken, a thread outside goes on, and leaves the pool alone. -/
theorem poolStep_outside {this : PoolState T} {pc : PoolPc} (call : PoolCall)
    (hholder : this.lockHolder ≠ none) (hpc : ¬ InLock pc) :
    ∃ shared mine, PoolState.poolStep t call this pc = .ok (shared, mine) ∧
      shared.pool = this.pool := by
  cases pc with
  | idle =>
      by_cases hnull : call = .dealloc none
      · exact ⟨_, _, if_pos hnull, rfl⟩
      · exact ⟨_, _, if_neg hnull, rfl⟩
  | lock call => exact ⟨_, _, if_neg hholder, rfl⟩
  | make => exact ⟨_, _, rfl, rfl⟩
  | locked call => exact absurd trivial hpc
  | top => exact absurd trivial hpc
  | pop ret => exact absurd trivial hpc
  | grow left => exact absurd trivial hpc
  | shrink left => exact absurd trivial hpc
  | unlock => exact absurd trivial hpc
  | unlockEmpty => exact absurd trivial hpc

/-- How a `Resize` to fewer than no objects ends: for one argument the difference is the smallest
`int32`, which has no opposite, and for all others there are more rounds than objects. -/
def resizeFault (poolCount : Int32) (size : Nat) : Fault :=
  if poolCount.toInt - size = -2 ^ 31 then .signedOverflow else .emptyContainer

/-- The thread has `left` statements to go before the one that faults. -/
def Dooms (fault : Fault) (left : Nat) (pool : TSharedRecyclePool) : PoolPc → Prop
  | .locked (.resize poolCount) =>
      poolCount.toInt < 0 ∧ -2 ^ 31 ≤ poolCount.toInt - pool.mPool.length ∧
        fault = resizeFault poolCount pool.mPool.length ∧
        left = if poolCount.toInt - pool.mPool.length = -2 ^ 31 then 0 else pool.mPool.length + 1
  | .shrink rounds =>
      pool.mPool.length < rounds ∧ fault = .emptyContainer ∧ left = pool.mPool.length
  | _ => False

theorem Dooms.inLock {fault : Fault} {left : Nat} {pool : TSharedRecyclePool} {pc : PoolPc}
    (h : Dooms fault left pool pc) : InLock pc := by
  cases pc with
  | locked call => exact trivial
  | shrink rounds => exact trivial
  | idle => exact h.elim
  | lock call => exact h.elim
  | make => exact h.elim
  | top => exact h.elim
  | pop ret => exact h.elim
  | grow rounds => exact h.elim
  | unlock => exact h.elim
  | unlockEmpty => exact h.elim

/-- The thread either faults or comes one statement nearer to it. -/
theorem poolStep_dooms {fault : Fault} {left : Nat} {this : PoolState T} {pc : PoolPc}
    (h : Dooms fault left this.pool pc) (call : PoolCall) :
    PoolState.poolStep t call this pc = .error fault ∨
      ∃ shared mine left', PoolState.poolStep t call this pc = .ok (shared, mine) ∧
        Dooms fault left' shared.pool mine ∧ left = left' + 1 := by
  cases pc with
  | locked request =>
      cases request with
      | resize poolCount =>
          rcases h with ⟨hneg, hlo, rfl, rfl⟩
          have himax : (PoolState.resizeMax poolCount this.pool.mPool.length).toInt =
              poolCount.toInt - this.pool.mPool.length :=
            PoolState.resizeMax_eq hlo (by omega)
          rw [resizeFault, poolStep_resize_shrink rfl (by omega) call, himax]
          by_cases hedge : poolCount.toInt - this.pool.mPool.length = -2 ^ 31
          · -- `imax = -imax` has no room.
            left
            rw [if_pos hedge, hedge]
            rfl
          · right
            rw [if_neg hedge, if_neg hedge, int32_ok (by omega) (by omega), Checked.ok_bind]
            refine ⟨_, _, _, rfl, ⟨?_, rfl, rfl⟩, rfl⟩
            omega
      | alloc => exact h.elim
      | dealloc ptr => exact h.elim
      | reset poolCount => exact h.elim
  | shrink rounds =>
      rcases h with ⟨hmore, rfl, rfl⟩
      cases rounds with
      | zero => exact absurd hmore (Nat.not_lt_zero _)
      | succ rounds =>
          cases hpool : this.pool.mPool with
          | nil =>
              left
              rw [PoolState.poolStep, hpool]
          | cons ptr rest =>
              -- One object and one round less.
              right
              rw [hpool, List.length_cons] at hmore
              exact ⟨_, _, _, poolStep_shrink hpool call rounds,
                ⟨Nat.lt_of_succ_lt_succ hmore, rfl, rfl⟩, List.length_cons⟩
  | idle => exact h.elim
  | lock request => exact h.elim
  | make => exact h.elim
  | top => exact h.elim
  | pop ret => exact h.elim
  | grow rounds => exact h.elim
  | unlock => exact h.elim
  | unlockEmpty => exact h.elim

/-- The thread is alone with the pool, and about to fault. -/
structure Doomed (t : ThreadId) (fault : Fault) (left : Nat) (s : PoolThreads T) : Prop where
  locked : LockedBy s.shared.lockHolder InLock s.locals
  dooms : Dooms fault left s.shared.pool (s.locals t)

/-- A turn of the thread brings the fault nearer, and one of another thread changes nothing. -/
theorem step_doomed {fault : Fault} {left : Nat} (h : Doomed t fault left s)
    (turn : ThreadId × PoolCall) :
    step s turn = .error fault ∨
      ∃ s' left', step s turn = .ok s' ∧ Doomed t fault left' s' ∧
        left = left' + if turn.1 = t then 1 else 0 := by
  rcases turn with ⟨u, call⟩
  by_cases hu : u = t
  · subst hu
    rcases poolStep_dooms h.dooms call with hact | ⟨shared, mine, left', hact, hdooms, hleft⟩
    · left
      rw [step, Threads.turn, hact, Checked.error_bind]
    · right
      have hstep : step s (u, call) = .ok (Threads.set s u shared mine) := Threads.turn_ok hact
      refine ⟨_, left', hstep, ⟨step_locked h.locked hstep, ?_⟩, by rw [if_pos rfl, hleft]⟩
      rw [s.set_locals_self, s.set_shared]
      exact hdooms
  · right
    -- Any other thread finds the lock taken, and cannot put objects back.
    have hlock := h.dooms.inLock
    have hheld : s.shared.lockHolder ≠ none := by
      rw [(h.locked t).2 hlock]
      exact Option.some_ne_none t
    rcases poolStep_outside call hheld (h.locked.atMostOne.others hlock u hu) with
      ⟨shared, mine, hact, hpool⟩
    have hstep : step s (u, call) = .ok (Threads.set s u shared mine) := Threads.turn_ok hact
    refine ⟨_, left, hstep, ⟨step_locked h.locked hstep, ?_⟩, by rw [if_neg hu, Nat.add_zero]⟩
    rw [s.set_locals_of_ne (Ne.symm hu), s.set_shared, hpool]
    exact h.dooms

/-- So it faults as soon as it has had enough turns, whatever the other threads do in between. -/
theorem run_doomed {fault : Fault} {left : Nat} (h : Doomed t fault left s)
    (turns : List (ThreadId × PoolCall)) :
    run step s turns = .error fault ∨
      ∃ s' left', run step s turns = .ok s' ∧ Doomed t fault left' s' ∧
        left = left' + turns.countP (·.1 = t) := by
  induction turns generalizing s left with
  | nil => exact .inr ⟨s, left, rfl, h, rfl⟩
  | cons turn turns ih =>
      rcases step_doomed h turn with hfault | ⟨u, mid, hstep, hmid, hfirst⟩
      · left
        rw [run, hfault, Checked.error_bind]
      · rw [run, hstep, Checked.ok_bind]
        rcases ih hmid with hfault | ⟨s', left', hrun, hend, hlast⟩
        · exact .inl hfault
        · refine .inr ⟨s', left', hrun, hend, ?_⟩
          rw [List.countP_cons, hfirst, hlast, Nat.add_assoc]
          simp only [decide_eq_true_eq]

/-- A statement of the thread, followed by more of its own. -/
theorem run_alone {call : PoolCall} {pc mine : PoolPc} {shared : PoolState T} {k : Nat}
    (hpc : s.locals t = pc) (hact : PoolState.poolStep t call s.shared pc = .ok (shared, mine)) :
    run step s (List.replicate (k + 1) (t, call)) =
      run step (Threads.set s t shared mine) (List.replicate k (t, call)) := by
  rw [← hpc] at hact
  have hstep : step s (t, call) = .ok (Threads.set s t shared mine) := Threads.turn_ok hact
  rw [List.replicate_succ, run, hstep, Checked.ok_bind]

/-- The thread, going on alone, comes to the end of its call and leaves `size` objects pooled. -/
def Ends (s : PoolThreads T) (t : ThreadId) (call : PoolCall) (size : Int) : Prop :=
  ∃ k s', run step s (List.replicate k (t, call)) = .ok s' ∧ s'.locals t = .idle ∧
    s'.shared.pool.mPool.length = size ∧ s'.shared.held = s.shared.held

theorem ends_of_unlock (call : PoolCall) (hpc : s.locals t = .unlock) :
    Ends s t call s.shared.pool.mPool.length := by
  refine ⟨1, _, run_alone hpc rfl, ?_, rfl, rfl⟩
  exact s.set_locals_self ..

theorem ends_of_grow (call : PoolCall) {left : Nat} (hpc : s.locals t = .grow left) :
    Ends s t call (s.shared.pool.mPool.length + left) := by
  induction left generalizing s with
  | zero =>
      rcases ends_of_unlock call (Threads.set_locals_self s t s.shared .unlock) with
        ⟨k, s', hrun, hend⟩
      exact ⟨k + 1, s', (run_alone hpc rfl).trans hrun, hend⟩
  | succ left ih =>
      rcases ih (s := Threads.set s t _ (.grow left)) (s.set_locals_self ..) with
        ⟨k, s', hrun, hidle, hsize, hheld⟩
      refine ⟨k + 1, s', (run_alone hpc rfl).trans hrun, hidle, ?_, hheld⟩
      rw [hsize, s.set_shared, List.length_cons]
      omega

theorem ends_of_shrink (call : PoolCall) {left : Nat} (hpc : s.locals t = .shrink left)
    (hle : left ≤ s.shared.pool.mPool.length) :
    Ends s t call (s.shared.pool.mPool.length - left) := by
  induction left generalizing s with
  | zero =>
      rcases ends_of_unlock call (Threads.set_locals_self s t s.shared .unlock) with
        ⟨k, s', hrun, hidle, hsize, hheld⟩
      refine ⟨k + 1, s', (run_alone hpc rfl).trans hrun, hidle, ?_, hheld⟩
      rw [hsize, s.set_shared]
      omega
  | succ left ih =>
      rcases List.exists_cons_of_length_pos (Nat.lt_of_lt_of_le (Nat.succ_pos left) hle) with
        ⟨ptr, rest, hpool⟩
      have hlen : s.shared.pool.mPool.length = rest.length + 1 := by rw [hpool, List.length_cons]
      have hfew : left ≤ rest.length := by omega
      rcases ih (s := Threads.set s t { s.shared with
          pool := ⟨rest⟩, destroyed := ptr :: s.shared.destroyed } (.shrink left))
        (s.set_locals_self ..) hfew with ⟨k, s', hrun, hidle, hsize, hheld⟩
      refine ⟨k + 1, s', (run_alone hpc (poolStep_shrink hpool call left)).trans hrun, hidle, ?_,
        hheld⟩
      have hend : (s'.shared.pool.mPool.length : Int) = rest.length - left := hsize
      rw [hend, hlen]
      omega

/-- `Resize` behind its lock leaves as many objects as it was asked for; a number below
`size - 2 ^ 31` counts as one that is `2 ^ 32` larger. -/
theorem ends_of_resize (call : PoolCall) {poolCount : Int32}
    (hpc : s.locals t = .locked (.resize poolCount))
    (hsize : s.shared.pool.mPool.length < 2 ^ 31)
    (hcount : 0 ≤ poolCount.toInt ∨ poolCount.toInt - s.shared.pool.mPool.length < -2 ^ 31) :
    Ends s t call (poolCount.toInt % 2 ^ 32) := by
  have hlo := poolCount.le_toInt
  have hhi := poolCount.toInt_lt
  have himax := PoolState.toInt_resizeMax poolCount s.shared.pool.mPool.length
  generalize hmax : PoolState.resizeMax poolCount s.shared.pool.mPool.length = imax at himax
  -- Both kinds of argument come to the same difference, that of the unsigned numbers.
  have hwhole : imax.toInt = poolCount.toInt % 2 ^ 32 - s.shared.pool.mPool.length := by
    rw [himax, Int.bmod]
    split <;> omega
  rcases Int.lt_or_le 0 imax.toInt with hpos | hle
  · rcases ends_of_grow call (Threads.set_locals_self s t s.shared (.grow imax.toInt.toNat)) with
      ⟨k, s', hrun, hidle, hend, hheld⟩
    refine ⟨k + 1, s', (run_alone hpc (poolStep_resize_grow hmax hpos call)).trans hrun, hidle, ?_,
      hheld⟩
    rw [hend, s.set_shared]
    omega
  · have hact := poolStep_resize_shrink (t := t) hmax hle call
    rw [int32_ok (by omega) (by omega), Checked.ok_bind] at hact
    have hfew : (-imax.toInt).toNat ≤ s.shared.pool.mPool.length := by omega
    rcases ends_of_shrink call
      (Threads.set_locals_self s t s.shared (.shrink (-imax.toInt).toNat)) hfew with
      ⟨k, s', hrun, hidle, hend, hheld⟩
    refine ⟨k + 1, s', (run_alone hpc hact).trans hrun, hidle, ?_, hheld⟩
    rw [hend, s.set_shared]
    omega

/-- Whatever the threads have called before: when a thread is about to execute the body of `Resize`,
and the pool has a size that fits an `int32`, there is a way for the call to come to its end exactly
when its argument is not negative, or so small that the difference wraps.  Then the thread, going on
alone, leaves as many objects pooled as its argument says as an unsigned number, and every object
held stays held.  With any other argument it faults, at the latest with as many turns as there are
objects and two more: it pops the stack empty and beyond, or the opposite of the difference does not
fit an `int32`. -/
theorem resize_returns_iff (heap : Heap T) (inNum : Int32) (start : PoolThreads T)
    (hnew : new heap inNum = .ok start) (before : List (ThreadId × PoolCall))
    (hrun : run step start before = .ok s) (call : PoolCall) {poolCount : Int32}
    (hpc : s.locals t = .locked (.resize poolCount))
    (hsize : s.shared.pool.mPool.length < 2 ^ 31) :
    ((∃ turns s', run step s turns = .ok s' ∧ s'.locals t = .idle) ↔
        (0 ≤ poolCount.toInt ∨ poolCount.toInt - s.shared.pool.mPool.length < -2 ^ 31)) ∧
      ((0 ≤ poolCount.toInt ∨ poolCount.toInt - s.shared.pool.mPool.length < -2 ^ 31) →
        Ends s t call (poolCount.toInt % 2 ^ 32)) ∧
      (¬ (0 ≤ poolCount.toInt ∨ poolCount.toInt - s.shared.pool.mPool.length < -2 ^ 31) →
        ∀ turns : List (ThreadId × PoolCall),
          s.shared.pool.mPool.length + 2 ≤ turns.countP (·.1 = t) →
          run step s turns =
            .error (resizeFault poolCount s.shared.pool.mPool.length)) := by
  have hlocked : LockedBy s.shared.lockHolder InLock s.locals :=
    inv_of_run (P := fun _ => True) (fun _ _ _ h _ hstep => step_locked h hstep) (new_locked hnew)
      (fun _ _ => trivial) hrun
  have hends := ends_of_resize call hpc hsize
  have hdoomed
      (hbad : ¬ (0 ≤ poolCount.toInt ∨ poolCount.toInt - s.shared.pool.mPool.length < -2 ^ 31)) :
      ∃ left, left < s.shared.pool.mPool.length + 2 ∧
        Doomed t (resizeFault poolCount s.shared.pool.mPool.length) left s := by
    rcases not_or.1 hbad with ⟨hneg, hlo⟩
    refine ⟨if poolCount.toInt - s.shared.pool.mPool.length = -2 ^ 31 then 0
      else s.shared.pool.mPool.length + 1, ?_, hlocked, ?_⟩
    · split <;> omega
    · rw [hpc]
      exact ⟨Int.not_le.1 hneg, Int.not_lt.1 hlo, rfl, rfl⟩
  refine ⟨⟨?_, ?_⟩, hends, ?_⟩
  · -- A thread that is doomed stays so, whoever has the turn, and does not come to the end.
    rintro ⟨turns, s', hturns, hidle⟩
    by_contra hbad
    rcases hdoomed hbad with ⟨left, -, hstart⟩
    rcases run_doomed hstart turns with hfault | ⟨s'', left', hrun', hend, -⟩
    · rw [hturns] at hfault
      cases hfault
    · rw [hturns] at hrun'
      cases hrun'
      have hdooms := hend.dooms
      rw [hidle] at hdooms
      exact hdooms
  · intro hcount
    rcases hends hcount with ⟨k, s', hrun', hidle, -⟩
    exact ⟨_, s', hrun', hidle⟩
  · intro hbad turns hturns
    rcases hdoomed hbad with ⟨left, hleft, hstart⟩
    rcases run_doomed hstart turns with hfault | ⟨s', left', -, -, hcount⟩
    · exact hfault
    · omega

/-- `Resize(-1)` of a pool of two objects, behind its lock. -/
def negativeResize : PoolThreads UInt8 :=
  { shared := { pool := ⟨[1, 0]⟩, heap := [0, 0], lockHolder := some 0 }
    locals := Function.update (Function.update (fun _ => .idle) 0 (.lock (.resize (-1)))) 0
      (.locked (.resize (-1))) }

theorem resize_returns_iff_negative :
    run step negativeResize (List.replicate 4 (0, .alloc)) = .error .emptyContainer := by
  have hnew : new ([] : Heap UInt8) 2 =
      .ok { shared := { pool := ⟨[1, 0]⟩, heap := [0, 0] }, locals := fun _ => .idle } := rfl
  have hpc : negativeResize.locals 0 = .locked (.resize (-1)) := rfl
  have hfaults := (resize_returns_iff [] 2 _ hnew [(0, .resize (-1)), (0, .alloc)]
    (s := negativeResize) rfl .alloc hpc (by decide)).2.2
  exact hfaults (by decide) (List.replicate 4 (0, .alloc)) (by decide)

end Resize

/-! ## The peak -/

/-- Only `Alloc` and `Dealloc`. -/
def Plain : PoolCall → Prop
  | .alloc => True
  | .dealloc _ => True
  | _ => False

instance (call : PoolCall) : Decidable (Plain call) :=
  match call with
  | .alloc => inferInstanceAs (Decidable True)
  | .dealloc _ => inferInstanceAs (Decidable True)
  | .reset _ => inferInstanceAs (Decidable False)
  | .resize _ => inferInstanceAs (Decidable False)

/-- The thread is in no `Reset` or `Resize`. -/
def PlainPc : PoolPc → Prop
  | .lock call => Plain call
  | .locked call => Plain call
  | .grow _ => False
  | .shrink _ => False
  | _ => True

/-- The thread has found the pool empty and not made its object yet. -/
def Misses : PoolPc → Prop
  | .unlockEmpty => True
  | .make => True
  | _ => False

/-- With `n₀` objects made by the constructor, the objects created and missing are as many as these,
or as were held or missing at one time. -/
structure Ledger (n₀ base : Nat) (this : PoolState T) : Prop where
  destroyed : this.destroyed = []
  le_peak : this.held.length + this.missing.length ≤ this.peak
  total : this.heap.length - base + this.missing.length = max n₀ this.peak

namespace Ledger

variable {n₀ base : Nat} {this : PoolState T}

theorem length_away (h : Ledger n₀ base this)
    (hacc : this.pool.Accounts (away this) base this.heap.length) :
    this.pool.mPool.length + this.held.length = this.heap.length - base := by
  have hlen := hacc.length_add
  rwa [away, h.destroyed, List.append_nil, List.length_map] at hlen

/-- The pool is empty, so everything created is held, and a new object makes a new peak. -/
theorem miss (h : Ledger n₀ base this)
    (hacc : this.pool.Accounts (away this) base this.heap.length)
    (hempty : this.pool.mPool = []) (t : ThreadId) :
    Ledger n₀ base { this with missing := t :: this.missing }.mark := by
  have hlen := h.length_away hacc
  have htotal := h.total
  rw [hempty, List.length_nil] at hlen
  refine ⟨h.destroyed, le_max_right _ _, ?_⟩
  simp only [PoolState.mark, List.length_cons]
  omega

/-- An object is left, so the peak does not pass what was created. -/
theorem take (h : Ledger n₀ base this)
    (hacc : this.pool.Accounts (away this) base this.heap.length)
    {ptr : ObjectId} {rest : List ObjectId} (hpool : this.pool.mPool = ptr :: rest)
    (t : ThreadId) (ret : ObjectId) :
    Ledger n₀ base { this with pool := ⟨rest⟩, held := (t, ret) :: this.held }.mark := by
  have hlen := h.length_away hacc
  have htotal := h.total
  rw [hpool, List.length_cons] at hlen
  refine ⟨h.destroyed, le_max_right _ _, ?_⟩
  simp only [PoolState.mark, List.length_cons]
  omega

/-- A missing object is made and held. -/
theorem make [Inhabited T] (h : Ledger n₀ base this)
    (hacc : this.pool.Accounts (away this) base this.heap.length) {t : ThreadId}
    (hmiss : t ∈ this.missing) :
    Ledger n₀ base { this with
      heap := this.heap ++ [default], held := (t, this.heap.length) :: this.held
      missing := this.missing.erase t }.mark := by
  have hbase := hacc.base_le
  have herase := List.length_erase_of_mem hmiss
  have hpos := List.length_pos_of_mem hmiss
  have hle := h.le_peak
  have htotal := h.total
  refine ⟨h.destroyed, le_max_right _ _, ?_⟩
  simp only [PoolState.mark, List.length_cons, List.length_append, List.length_nil]
  omega

/-- An object changes hands. -/
theorem receive (h : Ledger n₀ base this) (t : ThreadId) (call : PoolCall) :
    Ledger n₀ base { this with held := PoolState.receive t call this.held } := by
  refine ⟨h.destroyed, ?_, h.total⟩
  rw [PoolState.length_receive]
  exact h.le_peak

theorem release (h : Ledger n₀ base this) (pool : TSharedRecyclePool) (t : ThreadId)
    (ptr : SharedPtr) :
    Ledger n₀ base { this with pool, held := PoolState.release t ptr this.held } := by
  have hlen : (PoolState.release t ptr this.held).length ≤ this.held.length := by
    cases ptr with
    | none => exact Nat.le_refl _
    | some ptr => exact List.length_erase_le
  exact ⟨h.destroyed, (Nat.add_le_add_right hlen _).trans h.le_peak, h.total⟩

end Ledger

section Peak

variable [Inhabited T] {n₀ base : Nat}

/-- What a statement of `Alloc` or `Dealloc` does to the ledger and to the record: a thread enters
the record when it begins to miss an object, and leaves it when it has made one. -/
theorem poolStep_ledger {this shared : PoolState T} {t : ThreadId} {call : PoolCall}
    {pc mine : PoolPc} (h : Ledger n₀ base this)
    (hacc : this.pool.Accounts (away this) base this.heap.length) (hcall : Plain call)
    (hpc : PlainPc pc) (hmiss : t ∈ this.missing ↔ Misses pc)
    (hact : PoolState.poolStep t call this pc = .ok (shared, mine)) :
    Ledger n₀ base shared ∧ PlainPc mine ∧
      ((shared.missing = this.missing ∧ (Misses mine ↔ Misses pc)) ∨
        (shared.missing = t :: this.missing ∧ ¬ Misses pc ∧ Misses mine) ∨
        (shared.missing = this.missing.erase t ∧ ¬ Misses mine)) := by
  cases pc with
  | idle =>
      rw [PoolState.poolStep] at hact
      split at hact
      · cases hact
        exact ⟨h, trivial, .inl ⟨rfl, Iff.rfl⟩⟩
      · cases hact
        exact ⟨h.receive t call, hcall, .inl ⟨rfl, Iff.rfl⟩⟩
  | lock call =>
      rw [PoolState.poolStep] at hact
      split at hact
      · cases hact
        exact ⟨⟨h.destroyed, h.le_peak, h.total⟩, hpc, .inl ⟨rfl, Iff.rfl⟩⟩
      · cases hact
        exact ⟨h, hpc, .inl ⟨rfl, Iff.rfl⟩⟩
  | locked call =>
      cases call with
      | alloc =>
          cases hpool : this.pool.mPool with
          | nil =>
              -- Nothing is pooled: from here to `make` the thread is on the record.
              rw [PoolState.poolStep, hpool] at hact
              cases hact
              exact ⟨h.miss hacc hpool t, trivial, .inr (.inl ⟨rfl, id, trivial⟩)⟩
          | cons ret rest =>
              rw [PoolState.poolStep, hpool] at hact
              cases hact
              exact ⟨h, trivial, .inl ⟨rfl, Iff.rfl⟩⟩
      | dealloc ptr =>
          cases hact
          exact ⟨h.release _ t ptr, trivial, .inl ⟨rfl, Iff.rfl⟩⟩
      | reset poolCount => exact hpc.elim
      | resize poolCount => exact hpc.elim
  | top =>
      cases hpool : this.pool.mPool with
      | nil =>
          rw [PoolState.poolStep, hpool] at hact
          cases hact
      | cons ret rest =>
          rw [PoolState.poolStep, hpool] at hact
          cases hact
          exact ⟨h, trivial, .inl ⟨rfl, Iff.rfl⟩⟩
  | pop ret =>
      cases hpool : this.pool.mPool with
      | nil =>
          rw [PoolState.poolStep, hpool] at hact
          cases hact
      | cons ptr rest =>
          rw [PoolState.poolStep, hpool] at hact
          cases hact
          exact ⟨h.take hacc hpool t ret, trivial, .inl ⟨rfl, Iff.rfl⟩⟩
  | grow left => exact hpc.elim
  | shrink left => exact hpc.elim
  | unlock =>
      cases hact
      exact ⟨⟨h.destroyed, h.le_peak, h.total⟩, trivial, .inl ⟨rfl, Iff.rfl⟩⟩
  | unlockEmpty =>
      cases hact
      exact ⟨⟨h.destroyed, h.le_peak, h.total⟩, trivial, .inl ⟨rfl, Iff.rfl⟩⟩
  | make =>
      cases hact
      exact ⟨h.make hacc (hmiss.2 trivial), trivial, .inr (.inr ⟨rfl, id⟩)⟩

omit [Inhabited T] in
theorem recorded_set {s : PoolThreads T} {t : ThreadId} {shared : PoolState T} {mine : PoolPc}
    (h : Recorded s.shared.missing Misses s.locals)
    (hchange : (shared.missing = s.shared.missing ∧ (Misses mine ↔ Misses (s.locals t))) ∨
      (shared.missing = t :: s.shared.missing ∧ ¬ Misses (s.locals t) ∧ Misses mine) ∨
      (shared.missing = s.shared.missing.erase t ∧ ¬ Misses mine)) :
    Recorded shared.missing Misses (Threads.set s t shared mine).locals := by
  rcases hchange with ⟨hmissing, hmine⟩ | ⟨hmissing, hbefore, hmine⟩ | ⟨hmissing, hmine⟩
  · rw [hmissing]
    exact h.keep hmine shared
  · rw [hmissing]
    exact h.enter hbefore hmine shared
  · rw [hmissing]
    exact h.leave hmine shared

structure Peaked (n₀ base : Nat) (s : PoolThreads T) : Prop where
  safe : Safe base s
  ledger : Ledger n₀ base s.shared
  plain : ∀ t, PlainPc (s.locals t)
  recorded : Recorded s.shared.missing Misses s.locals

/-- The condition of a turn in which only `Alloc` and `Dealloc` are called. -/
def AllowedPlain (s : PoolThreads T) (turn : ThreadId × PoolCall) : Prop :=
  s.Allowed turn ∧ Plain turn.2

instance (s : PoolThreads T) (turn : ThreadId × PoolCall) : Decidable (AllowedPlain s turn) :=
  inferInstanceAs (Decidable (_ ∧ _))

theorem step_peaked {s : PoolThreads T} (h : Peaked n₀ base s) {turn : ThreadId × PoolCall}
    (hturn : AllowedPlain s turn) : ∃ s', step s turn = .ok s' ∧ Peaked n₀ base s' := by
  rcases turn with ⟨t, call⟩
  rcases step_safe h.safe hturn.1 with ⟨s', hstep, hsafe⟩
  rcases Checked.bind_eq_ok.1 hstep with ⟨⟨shared, mine⟩, hact, hs'⟩
  cases hs'
  rcases poolStep_ledger h.ledger h.safe.accounts hturn.2 (h.plain t) (h.recorded.2 t) hact with
    ⟨hledger, hplain, hchange⟩
  refine ⟨_, hstep, hsafe, hledger, ?_, recorded_set h.recorded hchange⟩
  exact Threads.forall_set PlainPc hplain (fun u _ => h.plain u) shared

theorem new_peaked (heap : Heap T) (inNum : Int32) :
    ∃ s, new heap inNum = .ok s ∧ Peaked inNum.toInt.toNat heap.length s := by
  rcases TSharedRecyclePool.new_accounts heap inNum with ⟨pool, heap', hnew, hacc, hlen⟩
  have hs : new heap inNum =
      .ok { shared := { pool, heap := heap' }, locals := fun _ => .idle } := by
    rw [new, hnew]
    rfl
  refine ⟨_, hs, new_safe hs, ⟨rfl, Nat.le_refl _, ?_⟩, fun _ => trivial, List.nodup_nil,
    fun _ => iff_of_false List.not_mem_nil id⟩
  simp only [hlen, List.length_nil]
  omega

/-- In every interleaving of `Alloc` and `Dealloc` calls of any number of threads that give back
only what one of them holds and none is giving back, the objects created, with those that are
missing, are as many as the constructor made or were held or missing at one time; when no thread
misses one, exactly so many have been created. -/
theorem pool_peak (heap : Heap T) (inNum : Int32) (s : PoolThreads T)
    (hnew : new heap inNum = .ok s) (turns : List (ThreadId × PoolCall))
    (hturns : Along step AllowedPlain s turns) :
    ∃ s', run step s turns = .ok s' ∧
      s'.shared.heap.length - heap.length + s'.shared.missing.length =
        max inNum.toInt.toNat s'.shared.peak ∧
      ((∀ t, ¬ Misses (s'.locals t)) →
        s'.shared.heap.length - heap.length = max inNum.toInt.toNat s'.shared.peak) := by
  rcases new_peaked heap inNum with ⟨t, ht, hstart⟩
  rw [hnew] at ht
  cases ht
  rcases run_keeps (fun _ _ h hturn => step_peaked h hturn) hstart hturns with ⟨s', hrun, h⟩
  refine ⟨s', hrun, h.ledger.total, ?_⟩
  intro hnone
  -- A thread on the record is between its test and `make`, where no thread is.
  have hempty : s'.shared.missing = [] := by
    apply List.eq_nil_iff_forall_not_mem.2
    intro t hmem
    exact hnone t ((h.recorded.2 t).1 hmem)
  have htotal := h.ledger.total
  rwa [hempty, List.length_nil, Nat.add_zero] at htotal

/-- Two threads find the pool empty, one of them before the other has its object, and a third one
gives one of the objects back. -/
theorem pool_peak_sample :
    ∃ s s' : PoolThreads UInt8, new [] 0 = .ok s ∧
      run step s (sampleTurns.take 15) = .ok s' ∧
      s'.shared.heap.length - 0 + s'.shared.missing.length = max 0 s'.shared.peak := by
  have hnew : new ([] : Heap UInt8) 0 =
      .ok { shared := { pool := {}, heap := [] }, locals := fun _ => .idle } := rfl
  have hturns : Along step AllowedPlain
      ({ shared := { pool := {}, heap := [] }, locals := fun _ => .idle } : PoolThreads UInt8)
      (sampleTurns.take 15) := by
    decide
  rcases pool_peak [] 0 _ hnew _ hturns with ⟨s', hrun, hpeak, -⟩
  exact ⟨_, s', hnew, hrun, hpeak⟩

end Peak

end PoolThreads

end Septem
