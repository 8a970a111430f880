import Septem.Library.Threads
import Septem.Servo.NetPacketPool

/-!
# PacketCounterThreads — a packet pool between many producers and one consumer

`Push`, `Pop` and `PacketPoolNum` of `FServoProtocol`, called by any number of threads.  The queue
locks itself; `PacketPoolCount` is a plain `int32`, so `++PacketPoolCount` loads and stores it in two
steps, with other threads in between.  `Pop` of an empty queue is undefined, and a consumer has only
`PacketPoolNum` to tell whether there is a packet.

* `consumer_safe`: as long as no decrement is stored while a producer is between its load and its
  store, a consumer that pops no more packets than `PacketPoolNum` has told it of finds them;
* `consumer_trapped`: otherwise, from every state in which the counter is right, one producer and
  the consumer can go on until the consumer pops a packet that is not there.
-/

namespace Septem

open Cxx

inductive CounterCall
  | push (inNetPacket : SharedPtr)
  | pop
  | packetPoolNum
  deriving DecidableEq, Repr

/-- Where a thread is. -/
inductive CounterPc
  /-- in no call -/
  | idle
  /-- in `Push`, behind `PacketPool->Push` -/
  | pushed
  /-- `++PacketPoolCount` has loaded `count` -/
  | increment (count : Int)
  /-- in `Pop`, behind `PacketPool->Pop` -/
  | popped
  /-- `--PacketPoolCount` has loaded `count` -/
  | decrement (count : Int)
  deriving DecidableEq, Repr

structure CounterLocal where
  pc : CounterPc := .idle
  /-- what `PacketPoolNum` returned last, less the packets popped since -/
  num : Int := 0
  deriving DecidableEq, Repr

/-- The packet pool and its counter, with a record of what happened. -/
structure CounterState where
  packetPool : TNetPacketQueue := {}
  packetPoolCount : Int := 0
  /-- the packets pushed so far -/
  pushed : List SharedPtr := []
  /-- how many of them have been popped -/
  popped : Nat := 0
  /-- the threads that have pushed a packet and not counted it yet -/
  counting : List ThreadId := []
  deriving DecidableEq, Repr

namespace CounterState

/-- One statement of a thread; `call` is what it calls next if it is in no call. -/
def counterStep (t : ThreadId) (call : CounterCall) (this : CounterState) (mine : CounterLocal) :
    Checked (CounterState × CounterLocal) :=
  match mine.pc with
  | .idle =>
      match call with
      | .push ptr =>
          match this.packetPool.push ptr with
          | (true, packetPool) =>
              pure ({ this with
                packetPool, pushed := this.pushed ++ [ptr], counting := t :: this.counting },
                { mine with pc := .pushed })
          | (false, packetPool) => pure ({ this with packetPool }, mine)
      | .pop => do
          match ← this.packetPool.pop none with
          | (true, packetPool) =>
              return ({ this with packetPool, popped := this.popped + 1 },
                { pc := .popped, num := mine.num - 1 })
          | (false, packetPool) => return ({ this with packetPool }, mine)
      | .packetPoolNum => pure (this, { mine with num := this.packetPoolCount })
  | .pushed => pure (this, { mine with pc := .increment this.packetPoolCount })
  | .increment count => do
      let packetPoolCount ← int32 (count + 1)
      return ({ this with packetPoolCount, counting := this.counting.erase t },
        { mine with pc := .idle })
  | .popped => pure (this, { mine with pc := .decrement this.packetPoolCount })
  | .decrement count => do
      let packetPoolCount ← int32 (count - 1)
      return ({ this with packetPoolCount }, { mine with pc := .idle })

section Statements

variable {t : ThreadId} {this : CounterState} {mine : CounterLocal}

theorem counterStep_push (hpc : mine.pc = .idle) (ptr : SharedPtr) :
    counterStep t (.push ptr) this mine = .ok ({ this with
      packetPool := ⟨this.packetPool.pool ++ [ptr]⟩
      pushed := this.pushed ++ [ptr]
      counting := t :: this.counting }, { mine with pc := .pushed }) := by
  simp only [counterStep, hpc, TNetPacketQueue.push, Checked.pure_eq_ok]

theorem counterStep_pop (hpc : mine.pc = .idle) {first : SharedPtr} {rest : List SharedPtr}
    (hpool : this.packetPool.pool = first :: rest) :
    counterStep t .pop this mine = .ok
      ({ this with packetPool := ⟨rest⟩, popped := this.popped + 1 },
        { pc := .popped, num := mine.num - 1 }) := by
  simp only [counterStep, hpc, TNetPacketQueue.pop, hpool, Checked.ok_bind, Checked.pure_eq_ok]

theorem counterStep_pop_empty (hpc : mine.pc = .idle) (hpool : this.packetPool.pool = []) :
    counterStep t .pop this mine = .error .emptyContainer := by
  simp only [counterStep, hpc, TNetPacketQueue.pop, hpool, Checked.error_bind]

theorem counterStep_packetPoolNum (hpc : mine.pc = .idle) :
    counterStep t .packetPoolNum this mine =
      .ok (this, { mine with num := this.packetPoolCount }) := by
  simp only [counterStep, hpc, Checked.pure_eq_ok]

theorem counterStep_pushed (hpc : mine.pc = .pushed) (call : CounterCall) :
    counterStep t call this mine =
      .ok (this, { mine with pc := .increment this.packetPoolCount }) := by
  simp only [counterStep, hpc, Checked.pure_eq_ok]

theorem counterStep_increment {count : Int} (hpc : mine.pc = .increment count)
    (hlo : -2 ^ 31 ≤ count + 1) (hhi : count + 1 < 2 ^ 31) (call : CounterCall) :
    counterStep t call this mine = .ok
      ({ this with packetPoolCount := count + 1, counting := this.counting.erase t },
        { mine with pc := .idle }) := by
  simp only [counterStep, hpc, int32_ok hlo hhi, Checked.ok_bind, Checked.pure_eq_ok]

theorem counterStep_popped (hpc : mine.pc = .popped) (call : CounterCall) :
    counterStep t call this mine =
      .ok (this, { mine with pc := .decrement this.packetPoolCount }) := by
  simp only [counterStep, hpc, Checked.pure_eq_ok]

theorem counterStep_decrement {count : Int} (hpc : mine.pc = .decrement count)
    (hlo : -2 ^ 31 ≤ count - 1) (hhi : count - 1 < 2 ^ 31) (call : CounterCall) :
    counterStep t call this mine =
      .ok ({ this with packetPoolCount := count - 1 }, { mine with pc := .idle }) := by
  simp only [counterStep, hpc, int32_ok hlo hhi, Checked.ok_bind, Checked.pure_eq_ok]

end Statements

end CounterState

/-- Any number of threads with a packet pool. -/
abbrev CounterThreads : Type := Threads CounterState CounterLocal

namespace CounterThreads

def new : CounterThreads :=
  { shared := {}, locals := fun _ => {} }

def step : CounterThreads → ThreadId × CounterCall → Checked CounterThreads :=
  Threads.turn CounterState.counterStep

/-- One thread is the consumer, and pops no more packets than `PacketPoolNum` has told it of. -/
def Allowed (consumer : ThreadId) (s : CounterThreads) (turn : ThreadId × CounterCall) : Prop :=
  (s.locals turn.1).pc = .idle →
    match turn.2 with
    | .push _ => s.shared.pushed.length + 1 < 2 ^ 31
    | .pop => turn.1 = consumer ∧ 0 < (s.locals turn.1).num
    | .packetPoolNum => True

/-- `++PacketPoolCount` has loaded the counter and not stored it. -/
def Incrementing : CounterPc → Prop
  | .increment _ => True
  | _ => False

/-- Between `PacketPool->Push` and the store of the counter. -/
def Counting (mine : CounterLocal) : Prop :=
  mine.pc = .pushed ∨ Incrementing mine.pc

/-- A decrement is stored only when no thread is between the load and the store of an increment. -/
def Apart (s : CounterThreads) (turn : ThreadId × CounterCall) : Prop :=
  match (s.locals turn.1).pc with
  | .decrement _ => ∀ u ∈ s.shared.counting, ¬ Incrementing (s.locals u).pc
  | _ => True

instance (consumer : ThreadId) (s : CounterThreads) (turn : ThreadId × CounterCall) :
    Decidable (Allowed consumer s turn) :=
  match turn with
  | (_, .push _) => inferInstanceAs (Decidable (_ → _))
  | (_, .pop) => inferInstanceAs (Decidable (_ → _ ∧ _))
  | (_, .packetPoolNum) => inferInstanceAs (Decidable (_ → True))

instance (pc : CounterPc) : Decidable (Incrementing pc) :=
  match pc with
  | .increment _ => isTrue trivial
  | .idle | .pushed | .popped | .decrement _ => isFalse id

instance (s : CounterThreads) (turn : ThreadId × CounterCall) : Decidable (Apart s turn) :=
  match hpc : (s.locals turn.1).pc with
  | .decrement _ =>
      decidable_of_iff (∀ u ∈ s.shared.counting, ¬ Incrementing (s.locals u).pc)
        (by rw [Apart, hpc])
  | .idle | .pushed | .increment _ | .popped => isTrue (by rw [Apart, hpc]; trivial)

/-! ## The invariant -/

/-- The packets popped and not counted yet: the consumer's, if it is in `Pop`. -/
def taken : CounterPc → Nat
  | .popped => 1
  | .decrement _ => 1
  | _ => 0

/-- The value of the counter that a thread has loaded. -/
def Loaded (count : Int) (pc : CounterPc) : Prop :=
  pc = .increment count ∨ pc = .decrement count

/-- With `k` packets taken and not counted: the counter may be `count`. -/
structure Fits (k : Nat) (this : CounterState) (count : Int) : Prop where
  low : (k : Int) - this.popped ≤ count
  high : count + this.counting.length ≤ this.packetPool.pool.length + k

/-- The packets pending are those pushed behind the popped ones. -/
structure Stocked (this : CounterState) : Prop where
  queue : this.packetPool.pool = this.pushed.drop this.popped
  popped_le : this.popped ≤ this.pushed.length
  room : this.pushed.length < 2 ^ 31

structure Counted (consumer : ThreadId) (s : CounterThreads) : Prop where
  stocked : Stocked s.shared
  recorded : Recorded s.shared.counting Counting s.locals
  /-- only the consumer is ever in `Pop` -/
  alone : ∀ t, t ≠ consumer → taken (s.locals t).pc = 0
  taken_le : taken (s.locals consumer).pc ≤ s.shared.popped
  counter : Fits (taken (s.locals consumer).pc) s.shared s.shared.packetPoolCount
  loaded : ∀ t count, Loaded count (s.locals t).pc →
    Fits (taken (s.locals consumer).pc) s.shared count
  num : (s.locals consumer).num ≤ s.shared.packetPool.pool.length

section Steps

variable {consumer t : ThreadId} {s : CounterThreads} {shared : CounterState} {mine : CounterLocal}

theorem Stocked.length_eq (h : Stocked shared) :
    shared.packetPool.pool.length + shared.popped = shared.pushed.length := by
  have hle := h.popped_le
  rw [h.queue, List.length_drop]
  omega

/-- A statement of another thread, or one that leaves the thread where it is with respect to
`Pop`. -/
theorem taken_set (htaken : taken mine.pc = taken (s.locals t).pc) (u : ThreadId) :
    taken ((Threads.set s t shared mine).locals u).pc = taken (s.locals u).pc := by
  by_cases hu : u = t
  · rw [hu, s.set_locals_self, htaken]
  · rw [s.set_locals_of_ne hu]

/-- What a statement outside `Pop` owes the invariant. -/
theorem Counted.set (h : Counted consumer s) (hstocked : Stocked shared)
    (hrecorded : Recorded shared.counting Counting (Threads.set s t shared mine).locals)
    (hpopped : shared.popped = s.shared.popped)
    (htaken : taken mine.pc = taken (s.locals t).pc)
    (hcounter : Fits (taken (s.locals consumer).pc) shared shared.packetPoolCount)
    (hkeep : ∀ count, Fits (taken (s.locals consumer).pc) s.shared count →
      Fits (taken (s.locals consumer).pc) shared count)
    (hmine : ∀ count, Loaded count mine.pc → Fits (taken (s.locals consumer).pc) shared count)
    (hgrow : s.shared.packetPool.pool.length ≤ shared.packetPool.pool.length)
    (hnum : t = consumer → mine.num ≤ shared.packetPool.pool.length) :
    Counted consumer (Threads.set s t shared mine) where
  stocked := hstocked
  recorded := hrecorded
  alone := by
    intro u hu
    rw [taken_set htaken]
    exact h.alone u hu
  taken_le := by
    rw [taken_set htaken, s.set_shared, hpopped]
    exact h.taken_le
  counter := by
    rw [taken_set htaken]
    exact hcounter
  loaded := by
    rw [taken_set htaken]
    intro u count
    by_cases hu : u = t
    · rw [hu, s.set_locals_self]
      exact hmine count
    · rw [s.set_locals_of_ne hu]
      exact fun hloaded => hkeep count (h.loaded u count hloaded)
  num := by
    by_cases ht : consumer = t
    · rw [ht, s.set_locals_self]
      exact hnum ht.symm
    · rw [s.set_locals_of_ne ht]
      exact Int.le_trans h.num (Int.ofNat_le.2 hgrow)

theorem step_of_counterStep {call : CounterCall}
    (h : CounterState.counterStep t call s.shared (s.locals t) = .ok (shared, mine)) :
    step s (t, call) = .ok (Threads.set s t shared mine) :=
  Threads.turn_ok h

theorem step_push (h : Counted consumer s) (hpc : (s.locals t).pc = .idle) (ptr : SharedPtr)
    (hroom : s.shared.pushed.length + 1 < 2 ^ 31) :
    ∃ s', step s (t, .push ptr) = .ok s' ∧ Counted consumer s' := by
  have hidle : ¬ Counting (s.locals t) := by
    rw [Counting, hpc]
    rintro (hpushed | hincrement)
    · cases hpushed
    · exact hincrement
  have hlength : (s.shared.packetPool.pool ++ [ptr]).length =
      s.shared.packetPool.pool.length + 1 := List.length_append
  have hcounting : (t :: s.shared.counting).length = s.shared.counting.length + 1 := rfl
  -- One more packet is pending, and one more is to be counted: both sides of the bound grow.
  have hkeep (count : Int) (hfits : Fits (taken (s.locals consumer).pc) s.shared count) :
      Fits (taken (s.locals consumer).pc) { s.shared with
        packetPool := ⟨s.shared.packetPool.pool ++ [ptr]⟩
        pushed := s.shared.pushed ++ [ptr]
        counting := t :: s.shared.counting } count := by
    refine ⟨hfits.low, ?_⟩
    have hhigh := hfits.high
    rw [hlength, hcounting]
    omega
  have hle := h.stocked.popped_le
  refine ⟨_, step_of_counterStep (CounterState.counterStep_push hpc ptr),
    h.set ⟨?_, ?_, ?_⟩ (h.recorded.enter hidle (.inl rfl) _) rfl
    (by rw [hpc]; rfl) (hkeep _ h.counter) hkeep ?_ (by rw [hlength]; omega) ?_⟩
  · rw [List.drop_append_of_le_length hle, ← h.stocked.queue]
  · rw [List.length_append]
    exact Nat.le_add_right_of_le hle
  · rw [List.length_append]
    exact hroom
  · rintro count (hloaded | hloaded) <;> cases hloaded
  · rintro rfl
    apply Int.le_trans h.num
    rw [hlength]
    omega

/-- A load of the counter. -/
theorem step_load (h : Counted consumer s) {call : CounterCall} {pc : CounterPc}
    (hact : CounterState.counterStep t call s.shared (s.locals t) =
      .ok (s.shared, { s.locals t with pc }))
    (hrecorded : Counting { s.locals t with pc } ↔ Counting (s.locals t))
    (htaken : taken pc = taken (s.locals t).pc)
    (hpc : ∀ count, Loaded count pc → count = s.shared.packetPoolCount) :
    ∃ s', step s (t, call) = .ok s' ∧ Counted consumer s' := by
  refine ⟨_, step_of_counterStep hact, h.set h.stocked (h.recorded.keep hrecorded _) rfl htaken
    h.counter (fun _ hfits => hfits) ?_ (Nat.le_refl _) ?_⟩
  · intro count hloaded
    rw [hpc count hloaded]
    exact h.counter
  · rintro rfl
    exact h.num

theorem step_increment (h : Counted consumer s) {count : Int}
    (hpc : (s.locals t).pc = .increment count) (call : CounterCall) :
    ∃ s', step s (t, call) = .ok s' ∧ Counted consumer s' := by
  have hfits := h.loaded t count (.inl hpc)
  have hlow := hfits.low
  have hhigh := hfits.high
  have hstock := h.stocked.length_eq
  have hroom := h.stocked.room
  have htaken := h.taken_le
  have hmem : t ∈ s.shared.counting := by
    rw [h.recorded.2 t, Counting, hpc]
    exact .inr trivial
  have herase := List.length_erase_of_mem hmem
  have hpos := List.length_pos_of_mem hmem
  have hstoreLow : -2 ^ 31 ≤ count + 1 := by omega
  have hstoreHigh : count + 1 < 2 ^ 31 := by omega
  have hidle : ¬ Counting { s.locals t with pc := .idle } := by
    rintro (hpushed | hincrement)
    · cases hpushed
    · exact hincrement
  -- The store may undo what others have stored since the load; the bounds on what was loaded are
  -- enough.
  refine ⟨_, step_of_counterStep (CounterState.counterStep_increment hpc hstoreLow hstoreHigh call),
    h.set ⟨h.stocked.queue, h.stocked.popped_le, hroom⟩ (h.recorded.leave hidle _) rfl
      (by rw [hpc]; rfl) ⟨?_, ?_⟩ ?_ ?_ (Nat.le_refl _) ?_⟩
  · dsimp only
    omega
  · dsimp only
    omega
  · -- One thread less is still to count.
    intro other hother
    refine ⟨hother.low, ?_⟩
    have hhigh := hother.high
    dsimp only
    omega
  · rintro other (hloaded | hloaded) <;> cases hloaded
  · rintro rfl
    exact h.num

/-- The consumer takes a packet: it is popped and not counted yet. -/
theorem step_pop (h : Counted consumer s) (hpc : (s.locals consumer).pc = .idle)
    (hnum : 0 < (s.locals consumer).num) :
    ∃ s', step s (consumer, .pop) = .ok s' ∧ Counted consumer s' := by
  have hroom := h.stocked.room
  have hstock := h.stocked.length_eq
  have hpending := h.num
  have hzero : taken (s.locals consumer).pc = 0 := by rw [hpc]; rfl
  have hcounter := h.counter
  have hloaded := h.loaded
  rw [hzero] at hcounter hloaded
  cases hpool : s.shared.packetPool.pool with
  | nil =>
      rw [hpool] at hpending
      -- It has been told of a packet, so the queue is not empty.
      exact absurd hpending (Int.not_le.2 hnum)
  | cons first rest =>
      rw [hpool, List.length_cons] at hstock hpending
      have hkeep (count : Int) (hfits : Fits 0 s.shared count) : Fits 1
          { s.shared with packetPool := ⟨rest⟩, popped := s.shared.popped + 1 } count := by
        have hlow := hfits.low
        have hhigh := hfits.high
        rw [hpool, List.length_cons] at hhigh
        constructor
        · dsimp only
          omega
        · dsimp only
          omega
      have hrecorded : Counting { pc := .popped, num := (s.locals consumer).num - 1 } ↔
          Counting (s.locals consumer) := by
        simp only [Counting, hpc, Incrementing, reduceCtorEq, false_or]
      refine ⟨_, step_of_counterStep (CounterState.counterStep_pop hpc hpool),
        ⟨⟨?_, ?_, hroom⟩, h.recorded.keep hrecorded _, ?_, ?_, ?_, ?_, ?_⟩⟩
      · rw [s.set_shared, ← List.tail_drop, ← h.stocked.queue, hpool]
        rfl
      · rw [s.set_shared]
        dsimp only
        omega
      · intro u hu
        rw [s.set_locals_of_ne hu]
        exact h.alone u hu
      · rw [s.set_locals_self]
        exact Nat.le_add_left 1 s.shared.popped
      · rw [s.set_locals_self]
        exact hkeep _ hcounter
      · rw [s.set_locals_self]
        intro u count
        by_cases hu : u = consumer
        · rw [hu, s.set_locals_self]
          rintro (hmine | hmine) <;> cases hmine
        · rw [s.set_locals_of_ne hu]
          exact fun hother => hkeep count (hloaded u count hother)
      · rw [s.set_locals_self, s.set_shared]
        dsimp only
        omega

/-- The consumer counts the packet it has taken.  What other threads have loaded would be too much
afterwards, so none may have loaded anything. -/
theorem step_decrement (h : Counted consumer s) {count : Int}
    (hpc : (s.locals consumer).pc = .decrement count)
    (hapart : ∀ u ∈ s.shared.counting, ¬ Incrementing (s.locals u).pc) (call : CounterCall) :
    ∃ s', step s (consumer, call) = .ok s' ∧ Counted consumer s' := by
  have hone : taken (s.locals consumer).pc = 1 := by rw [hpc]; rfl
  have hfits := h.loaded consumer count (.inr hpc)
  rw [hone] at hfits
  have hlow := hfits.low
  have hhigh := hfits.high
  have hle := h.stocked.popped_le
  have hstock := h.stocked.length_eq
  have hroom := h.stocked.room
  have hstoreLow : -2 ^ 31 ≤ count - 1 := by omega
  have hstoreHigh : count - 1 < 2 ^ 31 := by omega
  have hrecorded : Counting { s.locals consumer with pc := .idle } ↔
      Counting (s.locals consumer) := by
    simp only [Counting, hpc, Incrementing, reduceCtorEq, false_or]
  refine ⟨_, step_of_counterStep (CounterState.counterStep_decrement hpc hstoreLow hstoreHigh call),
    ⟨⟨h.stocked.queue, hle, hroom⟩, h.recorded.keep hrecorded _, ?_, ?_, ?_, ?_, ?_⟩⟩
  · intro u hu
    rw [s.set_locals_of_ne hu]
    exact h.alone u hu
  · rw [s.set_locals_self]
    exact Nat.zero_le _
  · rw [s.set_locals_self]
    constructor
    · dsimp only [taken, Threads.set_shared]
      omega
    · dsimp only [taken, Threads.set_shared]
      omega
  · intro u other hother
    by_cases hu : u = consumer
    · rw [hu, s.set_locals_self] at hother
      rcases hother with hmine | hmine <;> cases hmine
    · rw [s.set_locals_of_ne hu] at hother
      rcases hother with hincrement | hdecrement
      · have hinc : Incrementing (s.locals u).pc := by rw [hincrement]; trivial
        exact absurd hinc (hapart u ((h.recorded.2 u).2 (.inr hinc)))
      · have hnone := h.alone u hu
        rw [hdecrement] at hnone
        cases hnone
  · rw [s.set_locals_self]
    exact h.num

/-- The call `PacketPoolNum`: the consumer is not in `Pop`, so the counter is not too large. -/
theorem step_packetPoolNum (h : Counted consumer s) (hpc : (s.locals t).pc = .idle) :
    ∃ s', step s (t, .packetPoolNum) = .ok s' ∧ Counted consumer s' := by
  have hrecorded : Counting { s.locals t with num := s.shared.packetPoolCount } ↔
      Counting (s.locals t) := Iff.rfl
  refine ⟨_, step_of_counterStep (CounterState.counterStep_packetPoolNum hpc),
    h.set h.stocked (h.recorded.keep hrecorded _) rfl rfl h.counter (fun _ hfits => hfits)
      (fun count => h.loaded t count) (Nat.le_refl _) ?_⟩
  rintro rfl
  have hhigh := h.counter.high
  rw [hpc] at hhigh
  dsimp only [taken] at hhigh ⊢
  omega

theorem step_counted (h : Counted consumer s) {turn : ThreadId × CounterCall}
    (hturn : Allowed consumer s turn ∧ Apart s turn) :
    ∃ s', step s turn = .ok s' ∧ Counted consumer s' := by
  rcases turn with ⟨t, call⟩
  rcases hturn with ⟨hallowed, hapart⟩
  cases hpc : (s.locals t).pc with
  | idle =>
      have hcall := hallowed hpc
      cases call with
      | push ptr => exact step_push h hpc ptr hcall
      | pop =>
          rcases hcall with ⟨ht, hnum⟩
          cases ht
          exact step_pop h hpc hnum
      | packetPoolNum => exact step_packetPoolNum h hpc
  | pushed =>
      refine step_load h (CounterState.counterStep_pushed hpc call) ?_ ?_ ?_
      · simp only [Counting, hpc, Incrementing, or_true, true_or]
      · rw [hpc]
        rfl
      · rintro count (hloaded | hloaded)
        · cases hloaded
          rfl
        · cases hloaded
  | increment count => exact step_increment h hpc call
  | popped =>
      refine step_load h (CounterState.counterStep_popped hpc call) ?_ ?_ ?_
      · simp only [Counting, hpc, Incrementing, reduceCtorEq, false_or]
      · rw [hpc]
        rfl
      · rintro count (hloaded | hloaded)
        · cases hloaded
        · cases hloaded
          rfl
  | decrement count =>
      -- Only the consumer pops, so the decrement is its own.
      have ht : t = consumer := by
        by_contra hne
        have hnone := h.alone t hne
        rw [hpc] at hnone
        cases hnone
      subst ht
      rw [Apart, hpc] at hapart
      exact step_decrement h hpc hapart call

end Steps

/-! ## Runs -/

theorem new_counted (consumer : ThreadId) : Counted consumer new where
  stocked := ⟨rfl, Nat.le_refl 0, by decide⟩
  recorded := by
    refine ⟨List.nodup_nil, fun t => iff_of_false List.not_mem_nil ?_⟩
    rintro (hpushed | hincrement)
    · cases hpushed
    · exact hincrement
  alone := fun _ _ => rfl
  taken_le := Nat.le_refl 0
  counter := ⟨Int.le_refl 0, Int.le_refl 0⟩
  loaded := by rintro t count (hloaded | hloaded) <;> cases hloaded
  num := Int.le_refl 0

/-- Any number of producers and one consumer, interleaved between any two statements, where no
decrement is stored while a producer is between the load and the store of its increment: no `Pop`
meets an empty queue, the packets pending are those pushed behind the popped ones, the consumer
finds as many as it has been told of, and the counter, with the packets that are still to be
counted, is never more than the packets pending, with the one that has been popped and not been
counted yet. -/
theorem consumer_safe (consumer : ThreadId) (turns : List (ThreadId × CounterCall))
    (h : Along step (fun s turn => Allowed consumer s turn ∧ Apart s turn) new turns) :
    ∃ s, run step new turns = .ok s ∧
      s.shared.packetPool.pool = s.shared.pushed.drop s.shared.popped ∧
      (s.locals consumer).num ≤ s.shared.packetPool.pool.length ∧
      s.shared.packetPoolCount + s.shared.counting.length ≤
        s.shared.packetPool.pool.length + taken (s.locals consumer).pc := by
  rcases run_keeps (fun s turn (hs : Counted consumer s) hturn => step_counted hs hturn)
    (new_counted consumer) h with ⟨s, hrun, hs⟩
  exact ⟨s, hrun, hs.stocked.queue, hs.num, hs.counter.high⟩

/-- Two producers lose an increment, and the consumer pops the packet it is told of. -/
theorem consumer_safe_lostIncrement :
    let turns : List (ThreadId × CounterCall) :=
      [(1, .push none), (2, .push none), (1, .pop), (2, .pop), (1, .pop), (2, .pop),
        (0, .packetPoolNum), (0, .pop), (0, .pop), (0, .pop)]
    Along step (fun s turn => Allowed 0 s turn ∧ Apart s turn) new turns ∧
      ∃ s, run step new turns = .ok s ∧ s.shared.packetPoolCount = 0 ∧
        s.shared.packetPool.pool.length = 1 ∧ (s.locals 0).num ≤ 1 := by
  intro turns
  have halong : Along step (fun s turn => Allowed 0 s turn ∧ Apart s turn) new turns := by decide
  rcases consumer_safe 0 turns halong with ⟨s, hrun, -, hnum, -⟩
  cases hrun
  exact ⟨halong, _, rfl, rfl, rfl, hnum⟩

/-! ## The trap -/

section Trap

variable {consumer producer t : ThreadId} {s s' : CounterThreads}

/-- The consumer's condition is on calls only. -/
theorem allowed_inside (call : CounterCall) (hpc : (s.locals t).pc ≠ .idle) :
    Allowed consumer s (t, call) := fun hidle => absurd hidle hpc

/-- A thread goes on in its call. -/
theorem reaches_goOn {call : CounterCall} {shared shared' : CounterState}
    {mine mine' : CounterLocal} (hpc : mine.pc ≠ .idle)
    (hact : CounterState.counterStep t call shared mine = .ok (shared', mine')) :
    Reaches step (Allowed consumer) (Threads.set s t shared mine)
      (Threads.set s t shared' mine') := by
  have hlocal : (Threads.set s t shared mine).locals t = mine := s.set_locals_self t shared mine
  have hinside : Allowed consumer (Threads.set s t shared mine) (t, call) :=
    allowed_inside call (by rw [hlocal]; exact hpc)
  have hstep : step (Threads.set s t shared mine) (t, call) =
      .ok (Threads.set s t shared' mine') := by
    rw [← Threads.set_set s t shared shared' mine mine']
    apply step_of_counterStep
    rw [hlocal]
    exact hact
  exact .of_step hinside hstep

/-- A producer pushes a packet and loads the counter. -/
theorem reaches_loaded (hpc : (s.locals t).pc = .idle)
    (hroom : s.shared.pushed.length + 1 < 2 ^ 31) (ptr : SharedPtr) :
    Reaches step (Allowed consumer) s (Threads.set s t
      { s.shared with
        packetPool := ⟨s.shared.packetPool.pool ++ [ptr]⟩
        pushed := s.shared.pushed ++ [ptr]
        counting := t :: s.shared.counting }
      { s.locals t with pc := .increment s.shared.packetPoolCount }) := by
  have hpush := step_of_counterStep (CounterState.counterStep_push hpc ptr)
  have hallowed : Allowed consumer s (t, .push ptr) := fun _ => hroom
  exact (Reaches.of_step hallowed hpush).trans
    (reaches_goOn nofun (CounterState.counterStep_pushed rfl .pop))

/-- The consumer pops a packet and counts it, with nobody else in between. -/
theorem reaches_popped (hpc : (s.locals consumer).pc = .idle)
    (hnum : 0 < (s.locals consumer).num) {first : SharedPtr} {rest : List SharedPtr}
    (hpool : s.shared.packetPool.pool = first :: rest)
    (hlo : -2 ^ 31 ≤ s.shared.packetPoolCount - 1) (hhi : s.shared.packetPoolCount - 1 < 2 ^ 31) :
    Reaches step (Allowed consumer) s (Threads.set s consumer
      { s.shared with
        packetPool := ⟨rest⟩
        popped := s.shared.popped + 1
        packetPoolCount := s.shared.packetPoolCount - 1 }
      { pc := .idle, num := (s.locals consumer).num - 1 }) := by
  have hpop := step_of_counterStep (CounterState.counterStep_pop hpc hpool)
  have hallowed : Allowed consumer s (consumer, .pop) := fun _ => ⟨rfl, hnum⟩
  have hload : Reaches step (Allowed consumer) s _ := (Reaches.of_step hallowed hpop).trans
    (reaches_goOn nofun (CounterState.counterStep_popped rfl .pop))
  exact hload.trans (reaches_goOn nofun (CounterState.counterStep_decrement rfl hlo hhi .pop))

/-- A consumer that has been told of more packets than there are can come to pop an empty queue. -/
theorem reaches_empty (k : Nat) (hpc : (s.locals consumer).pc = .idle)
    (hlength : s.shared.packetPool.pool.length = k) (hnum : (k : Int) < (s.locals consumer).num)
    (hlo : (k : Int) - 2 ^ 31 ≤ s.shared.packetPoolCount)
    (hhi : s.shared.packetPoolCount < 2 ^ 31) :
    ∃ s', Reaches step (Allowed consumer) s s' ∧ Allowed consumer s' (consumer, .pop) ∧
      step s' (consumer, .pop) = .error .emptyContainer := by
  induction k generalizing s with
  | zero =>
      have hpool := List.length_eq_zero_iff.1 hlength
      have hpop : step s (consumer, .pop) = .error .emptyContainer := by
        simp only [step, Threads.turn, CounterState.counterStep_pop_empty hpc hpool,
          Checked.error_bind]
      exact ⟨s, ⟨[], trivial, rfl⟩, fun _ => ⟨rfl, hnum⟩, hpop⟩
  | succ k ih =>
      rcases List.exists_cons_of_length_eq_add_one hlength with ⟨first, rest, hpool⟩
      rw [hpool, List.length_cons] at hlength
      -- It takes one packet; both numbers are one less.
      have hpopped := reaches_popped hpc (by omega) hpool (by omega) (by omega)
      rcases ih (s := Threads.set s consumer { s.shared with
          packetPool := ⟨rest⟩
          popped := s.shared.popped + 1
          packetPoolCount := s.shared.packetPoolCount - 1 }
          { pc := .idle, num := (s.locals consumer).num - 1 })
        (by rw [s.set_locals_self]) (Nat.succ.inj hlength)
        (by rw [s.set_locals_self]; dsimp only; omega) (by rw [s.set_shared]; dsimp only; omega)
        (by rw [s.set_shared]; dsimp only; omega) with ⟨s', hreaches, hend⟩
      exact ⟨s', hpopped.trans hreaches, hend⟩

/-- One thread pushes a packet and counts it. -/
theorem reaches_pushed (hpc : (s.locals t).pc = .idle)
    (hroom : s.shared.pushed.length + 1 < 2 ^ 31) (ptr : SharedPtr)
    (hlo : -2 ^ 31 ≤ s.shared.packetPoolCount + 1) (hhi : s.shared.packetPoolCount + 1 < 2 ^ 31) :
    Reaches step (Allowed consumer) s (Threads.set s t
      { s.shared with
        packetPool := ⟨s.shared.packetPool.pool ++ [ptr]⟩
        packetPoolCount := s.shared.packetPoolCount + 1
        pushed := s.shared.pushed ++ [ptr] }
      { s.locals t with pc := .idle }) := by
  have hloaded : Reaches step (Allowed consumer) s _ := reaches_loaded hpc hroom ptr
  have hcounted := hloaded.trans
    (reaches_goOn nofun (CounterState.counterStep_increment rfl hlo hhi .pop))
  rwa [List.erase_cons_head] at hcounted

variable (consumer) in
/-- A thread asks how many packets there are. -/
theorem reaches_told (hpc : (s.locals t).pc = .idle) :
    ∃ s', Reaches step (Allowed consumer) s s' ∧ s'.shared = s.shared ∧
      (s'.locals t).pc = .idle ∧ (s'.locals t).num = s.shared.packetPoolCount ∧
      ∀ u, u ≠ t → s'.locals u = s.locals u := by
  have htold := step_of_counterStep (CounterState.counterStep_packetPoolNum hpc)
  have hallowed : Allowed consumer s (t, .packetPoolNum) := fun _ => trivial
  refine ⟨_, .of_step hallowed htold, rfl, ?_, ?_, fun u hu => s.set_locals_of_ne hu ..⟩
  · rw [s.set_locals_self]
    exact hpc
  · rw [s.set_locals_self]

/-- A producer's increment around the consumer's decrement: the counter is one more than there are
packets. -/
theorem reaches_overcounted (hne : producer ≠ consumer)
    (hproducer : (s.locals producer).pc = .idle) (hconsumer : (s.locals consumer).pc = .idle)
    (hnum : 0 < (s.locals consumer).num)
    (hcount : s.shared.packetPoolCount = s.shared.packetPool.pool.length)
    (hpos : 0 < s.shared.packetPool.pool.length) (hfew : s.shared.packetPool.pool.length < 2 ^ 31 - 1)
    (hroom : s.shared.pushed.length + 1 < 2 ^ 31) :
    ∃ s', Reaches step (Allowed consumer) s s' ∧ (s'.locals consumer).pc = .idle ∧
      s'.shared.packetPool.pool.length = s.shared.packetPool.pool.length ∧
      s'.shared.packetPoolCount = s.shared.packetPool.pool.length + 1 := by
  rcases List.exists_cons_of_length_pos hpos with ⟨first, rest, hpool⟩
  -- The producer has loaded the counter …
  have hloaded : ∃ u, Reaches step (Allowed consumer) s u ∧
      (u.locals producer).pc = .increment s.shared.packetPoolCount ∧
      u.locals consumer = s.locals consumer ∧
      u.shared.packetPool.pool = first :: (rest ++ [none]) ∧
      u.shared.packetPoolCount = s.shared.packetPoolCount := by
    refine ⟨_, reaches_loaded hproducer hroom none, ?_, s.set_locals_of_ne hne.symm .., ?_, rfl⟩
    · rw [s.set_locals_self]
    · rw [s.set_shared, hpool]
      rfl
  rcases hloaded with ⟨u, hu, hproducer', hconsumer', hpool', hcount'⟩
  -- … the consumer takes a packet and counts it …
  have hpopped : ∃ v, Reaches step (Allowed consumer) u v ∧
      (v.locals producer).pc = .increment s.shared.packetPoolCount ∧
      (v.locals consumer).pc = .idle ∧ v.shared.packetPool.pool = rest ++ [none] := by
    rw [← hconsumer'] at hconsumer hnum
    refine ⟨_, reaches_popped hconsumer hnum hpool' (by omega) (by omega), ?_, ?_, rfl⟩
    · rw [u.set_locals_of_ne hne]
      exact hproducer'
    · rw [u.set_locals_self]
  rcases hpopped with ⟨v, hv, hproducer'', hconsumer'', hpool''⟩
  -- … and the producer stores what it has loaded, plus one.
  have hstore := step_of_counterStep (CounterState.counterStep_increment (t := producer) hproducer''
    (by omega) (by omega) .pop)
  have hallowed : Allowed consumer v (producer, .pop) :=
    allowed_inside .pop (by rw [hproducer'']; exact nofun)
  refine ⟨_, (hu.trans hv).trans (.of_step hallowed hstore), ?_, ?_, ?_⟩
  · rw [v.set_locals_of_ne hne.symm]
    exact hconsumer''
  · rw [v.set_shared, hpool'', hpool, List.length_append, List.length_cons]
    rfl
  · rw [v.set_shared, hcount]

/-- From every state in which the counter is right, an `int32` has room for two more packets, and a
producer and the consumer are in no call, the two can go on until the consumer, which pops no more
packets than it has been told of, pops one that is not there. -/
theorem consumer_trapped (consumer producer : ThreadId) (hne : producer ≠ consumer)
    (s : CounterThreads) (hproducer : (s.locals producer).pc = .idle)
    (hconsumer : (s.locals consumer).pc = .idle)
    (hright : s.shared.packetPoolCount = s.shared.packetPool.pool.length)
    (hstocked : Stocked s.shared) (hroom : s.shared.pushed.length + 2 < 2 ^ 31) :
    ∃ s', Reaches step (Allowed consumer) s s' ∧ Allowed consumer s' (consumer, .pop) ∧
      step s' (consumer, .pop) = .error .emptyContainer := by
  have hlength := hstocked.length_eq
  -- One more packet, so that there is one to be told of.
  have hpushed : ∃ u, Reaches step (Allowed consumer) s u ∧ (u.locals producer).pc = .idle ∧
      (u.locals consumer).pc = .idle ∧
      u.shared.packetPool.pool.length = s.shared.packetPool.pool.length + 1 ∧
      u.shared.packetPoolCount = s.shared.packetPoolCount + 1 ∧
      u.shared.pushed.length = s.shared.pushed.length + 1 := by
    refine ⟨_, reaches_pushed hproducer (by omega) none (by omega) (by omega), ?_, ?_,
      List.length_append, rfl, List.length_append⟩
    · rw [s.set_locals_self]
    · rw [s.set_locals_of_ne hne.symm]
      exact hconsumer
  rcases hpushed with ⟨u, hu, hproducer, hconsumer, hpool, hcount, hpushed⟩
  rcases reaches_told consumer hconsumer with
    ⟨v, hv, hshared, hconsumer, hnum, hothers⟩
  rw [← hothers producer hne] at hproducer
  rw [← hshared] at hpool hcount hpushed hnum
  rcases reaches_overcounted hne hproducer hconsumer (by omega) (by omega) (by omega) (by omega)
    (by omega) with ⟨w, hw, hconsumer, hpool', hcount'⟩
  -- The consumer is told of one packet too many.
  rcases reaches_told consumer hconsumer with ⟨x, hx, hshared, hconsumer, hnum, -⟩
  rcases reaches_empty w.shared.packetPool.pool.length hconsumer (by rw [hshared]) (by omega)
    (by rw [hshared]; omega) (by rw [hshared]; omega) with ⟨s', hs', hend⟩
  exact ⟨s', (((hu.trans hv).trans hw).trans hx).trans hs', hend⟩

theorem consumer_trapped_new :
    ∃ s', Reaches step (Allowed 0) new s' ∧ Allowed 0 s' (0, .pop) ∧
      step s' (0, .pop) = .error .emptyContainer :=
  consumer_trapped 0 1 (by decide) new rfl rfl rfl ⟨rfl, Nat.le_refl 0, by decide⟩ (by decide)

end Trap

end CounterThreads

end Septem
