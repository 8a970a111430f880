import Septem.Library.SharedHeap
import Septem.Library.Threads

/-!
# TaskThread — a thread with a task queue

`TTaskThread` of `Core/Thread/SeptemThread.hpp`: its members, the code its worker threads execute
(`ThreadRun` and `Run`), and the calls that any number of client threads make.

A step of the system is one access to the shared members.  `PopTask`, `ClearTaskQueue` and the push
of `PushTask` hold the queue's lock from beginning to end, so each of them is one step.  Next to the
members the state keeps a history of what has happened, which no step reads.
-/

namespace Septem

open Cxx

/-! ## The members -/

abbrev WorkerId : Type := Nat

structure TTaskThread where
  /-- `m_Thread`; `none` is the 0 of the constructor. -/
  mThread : Option WorkerId := none
  bRunning : Bool := false
  /-- 1: init, 2: running, 3: stopping -/
  iThreadState : Int32 := 0
  taskQueue : List SharedPtr := []
  deriving DecidableEq, Repr

namespace TTaskThread

/-- `pthread_create(&m_Thread, …)`, which names the new thread unless it fails. -/
def createThread (created : Option WorkerId) (this : TTaskThread) : TTaskThread :=
  match created with
  | some worker => { this with mThread := some worker }
  | none => this

def stopThread (this : TTaskThread) : TTaskThread :=
  { this with bRunning := false }

/-- The locked part of `PushTask`. -/
def pushTask (inTask : SharedPtr) (this : TTaskThread) : TTaskThread :=
  { this with taskQueue := this.taskQueue ++ [inTask] }

/-- What `PopTask` returns, what it leaves in `OutTask`, and the thread after it. -/
def popTask (outTask : SharedPtr) (this : TTaskThread) : Bool × SharedPtr × TTaskThread :=
  match this.taskQueue with
  | [] => (false, outTask, this)
  | task :: rest => (true, task, { this with taskQueue := rest })

def clearTaskQueue (this : TTaskThread) : TTaskThread :=
  { this with taskQueue := [] }

end TTaskThread

/-! ## The worker -/

/-- Where a worker is in `ThreadRun`. -/
inductive WorkerPc
  /-- `i_ThreadState = 1` -/
  | enter
  | init
  /-- `bRunning = true` -/
  | setRunning
  /-- `i_ThreadState = 2` -/
  | setState2
  /-- `while (bRunning)` -/
  | whileTest
  | popTask
  /-- the call of `OnDoTask` -/
  | onDoTask
  /-- inside `OnDoTask` -/
  | inTask
  /-- `i_ThreadState = 3` -/
  | setState3
  | destory
  | exited
  deriving DecidableEq, Repr

structure Worker where
  pc : WorkerPc := .enter
  pCacheTask : SharedPtr := none
  deriving DecidableEq, Repr

/-- One step of `ThreadRun`.  `OnDoTask` gets the cached task by reference; `left` is what it
leaves there. -/
def TTaskThread.threadRun (left : SharedPtr) (this : TTaskThread) (worker : Worker) :
    TTaskThread × Worker :=
  match worker.pc with
  | .enter => ({ this with iThreadState := 1 }, { worker with pc := .init })
  | .init => (this, { worker with pc := .setRunning })
  | .setRunning => ({ this with bRunning := true }, { worker with pc := .setState2 })
  | .setState2 => ({ this with iThreadState := 2 }, { worker with pc := .whileTest })
  | .whileTest =>
      if this.bRunning then
        (this, { worker with pc := .popTask })
      else
        (this, { worker with pc := .setState3 })
  | .popTask =>
      let (popped, pCacheTask, this) := this.popTask worker.pCacheTask
      if popped ∧ pCacheTask ≠ none then
        (this, { pc := .onDoTask, pCacheTask })
      else
        (this, { pc := .whileTest, pCacheTask })
  | .onDoTask => (this, { worker with pc := .inTask })
  | .inTask => (this, { pc := .whileTest, pCacheTask := left })
  | .setState3 => ({ this with iThreadState := 3 }, { worker with pc := .destory })
  | .destory => (this, { worker with pc := .exited })
  | .exited => (this, worker)

/-- The three outcomes of `if (PopTask(pCacheTask) && pCacheTask)`. -/
theorem TTaskThread.threadRun_popTask (left : SharedPtr) (this : TTaskThread)
    (pCacheTask : SharedPtr) : this.threadRun left ⟨.popTask, pCacheTask⟩ =
      match this.taskQueue with
      | [] => (this, ⟨.whileTest, pCacheTask⟩)
      | none :: rest => ({ this with taskQueue := rest }, ⟨.whileTest, none⟩)
      | some object :: rest => ({ this with taskQueue := rest }, ⟨.onDoTask, some object⟩) := by
  rcases this with ⟨mThread, bRunning, iThreadState, taskQueue⟩
  rcases taskQueue with _ | ⟨_ | object, rest⟩ <;> rfl

/-! ## The history -/

/-- Why a task is no longer in the queue. -/
inductive TaskFate
  /-- popped in order to be executed -/
  | executed
  /-- popped and found null -/
  | skipped
  | cleared
  deriving DecidableEq, Repr

structure TaskHistory where
  /-- the tasks that have been pushed, in the order of the locked pushes -/
  accepted : List SharedPtr := []
  /-- the tasks that have left the queue, in this order -/
  removed : List (SharedPtr × TaskFate) := []
  /-- what `OnDoTask` has been called with, in order -/
  calls : List SharedPtr := []
  /-- how often a worker has found `bRunning` true in `while (bRunning)` -/
  iterations : Nat := 0
  deriving DecidableEq, Repr

namespace TaskHistory

/-- The tasks that met this fate. -/
def withFate (fate : TaskFate) (removed : List (SharedPtr × TaskFate)) : List SharedPtr :=
  (removed.filter (·.2 = fate)).map Prod.fst

/-- What the next step of `worker` adds. -/
def record (this : TTaskThread) (worker : Worker) (history : TaskHistory) : TaskHistory :=
  match worker.pc with
  | .whileTest =>
      if this.bRunning then { history with iterations := history.iterations + 1 } else history
  | .popTask =>
      match this.taskQueue with
      | [] => history
      | task :: _ =>
          let fate := if task = none then .skipped else .executed
          { history with removed := history.removed ++ [(task, fate)] }
  | .onDoTask => { history with calls := history.calls ++ [worker.pCacheTask] }
  | _ => history

end TaskHistory

/-! ## The system -/

/-- What a client thread is about to do in a call. -/
inductive ClientPc
  /-- in no call -/
  | idle
  /-- the locked push of a `PushTask` that has found `bRunning` true -/
  | pushTask (inTask : SharedPtr)
  /-- `if (m_Thread > 0)` in `JoinThread` -/
  | joinThread
  /-- `pthread_join(m_Thread, NULL)` -/
  | pthreadJoin (worker : WorkerId)
  deriving DecidableEq, Repr

inductive TaskCall
  /-- `created`: whether `pthread_create` succeeds -/
  | createThread (created : Bool)
  | stopThread
  | joinThread
  | delayStopThread
  | pushTask (inTask : SharedPtr)
  | clearTaskQueue
  deriving DecidableEq, Repr

inductive TaskEvent
  /-- A client thread makes a call. -/
  | call (client : ThreadId) (method : TaskCall)
  /-- A client thread goes on in its call. -/
  | client (client : ThreadId)
  /-- A worker takes a step of `ThreadRun`. -/
  | worker (worker : WorkerId) (left : SharedPtr)
  deriving DecidableEq, Repr

/-- The event is a call of `CreateThread`. -/
def TaskEvent.creates : TaskEvent → Bool
  | .call _ (.createThread _) => true
  | _ => false

structure TaskSystem where
  thread : TTaskThread := {}
  /-- the worker threads that have been created, by their number -/
  workers : List Worker := []
  clients : ThreadId → ClientPc := fun _ => .idle
  /-- the workers that have been joined -/
  joined : List WorkerId := []
  history : TaskHistory := {}

namespace TaskSystem

/-- Nothing has been called yet; a derived class may have set `bRunning`. -/
def start (bRunning : Bool) : TaskSystem :=
  { thread := { bRunning } }

def setClient (c : ThreadId) (pc : ClientPc) (s : TaskSystem) : TaskSystem :=
  { s with clients := Function.update s.clients c pc }

/-- The first step of a call. -/
def startCall (c : ThreadId) (s : TaskSystem) : TaskCall → TaskSystem
  | .createThread created =>
      if created then
        { s with
          thread := s.thread.createThread (some s.workers.length)
          workers := s.workers ++ [{}] }
      else
        { s with thread := s.thread.createThread none }
  | .stopThread => { s with thread := s.thread.stopThread }
  | .joinThread => s.setClient c .joinThread
  | .delayStopThread => { s with thread := s.thread.stopThread }.setClient c .joinThread
  | .pushTask inTask => if s.thread.bRunning then s.setClient c (.pushTask inTask) else s
  | .clearTaskQueue =>
      { s with
        thread := s.thread.clearTaskQueue
        history := { s.history with
          removed := s.history.removed ++ s.thread.taskQueue.map (·, .cleared) } }

def Exited (s : TaskSystem) (w : WorkerId) : Prop :=
  s.workers[w]?.map Worker.pc = some .exited

instance (s : TaskSystem) (w : WorkerId) : Decidable (s.Exited w) :=
  inferInstanceAs (Decidable (s.workers[w]?.map Worker.pc = some .exited))

def lockedPush (inTask : SharedPtr) (s : TaskSystem) : TaskSystem :=
  { s with
    thread := s.thread.pushTask inTask
    history := { s.history with accepted := s.history.accepted ++ [inTask] } }

/-- The next step of a client that is in a call. -/
def clientStep (c : ThreadId) (s : TaskSystem) : TaskSystem :=
  match s.clients c with
  | .idle => s
  | .pushTask inTask => (s.lockedPush inTask).setClient c .idle
  | .joinThread =>
      match s.thread.mThread with
      | some w => s.setClient c (.pthreadJoin w)
      | none => s.setClient c .idle
  | .pthreadJoin w =>
      -- To join a thread twice is undefined; whoever comes second gets no further here.
      if s.Exited w ∧ w ∉ s.joined then
        { s with joined := w :: s.joined }.setClient c .idle
      else
        s

/-- The next step of a worker, if there is such a worker. -/
def workerStep (w : WorkerId) (left : SharedPtr) (s : TaskSystem) : TaskSystem :=
  match s.workers[w]? with
  | none => s
  | some worker =>
      let (thread, next) := s.thread.threadRun left worker
      { s with
        thread
        workers := s.workers.set w next
        history := s.history.record s.thread worker }

/-- A client makes one call after the other. -/
def next (s : TaskSystem) : TaskEvent → TaskSystem
  | .call c method => if s.clients c = .idle then s.startCall c method else s
  | .client c => s.clientStep c
  | .worker w left => s.workerStep w left

def step (s : TaskSystem) (event : TaskEvent) : Checked TaskSystem :=
  pure (s.next event)

/-! ## Small lemmas -/

section Steps

variable {s : TaskSystem} {c : ThreadId}

theorem setClient_clients_self (pc : ClientPc) : (s.setClient c pc).clients c = pc := by
  simp [setClient]

/-- What holds of the client that moved and of all clients before holds of all clients after. -/
theorem forall_setClient (P : ClientPc → Prop) {pc : ClientPc} (hpc : P pc)
    (h : ∀ d, P (s.clients d)) : ∀ d, P ((s.setClient c pc).clients d) :=
  (Function.forall_update_iff s.clients fun _ x => P x).2 ⟨hpc, fun d _ => h d⟩

theorem workerStep_eq {w : WorkerId} {worker : Worker} (hget : s.workers[w]? = some worker)
    (left : SharedPtr) : s.workerStep w left =
      { s with
        thread := (s.thread.threadRun left worker).1
        workers := s.workers.set w (s.thread.threadRun left worker).2
        history := s.history.record s.thread worker } := by
  rw [workerStep, hget]

theorem workerStep_none {w : WorkerId} (hget : s.workers[w]? = none) (left : SharedPtr) :
    s.workerStep w left = s := by
  rw [workerStep, hget]

theorem next_call_idle (hidle : s.clients c = .idle) (method : TaskCall) :
    s.next (.call c method) = s.startCall c method := if_pos hidle

/-- A client that is in a call makes no other. -/
theorem next_call_busy (hbusy : s.clients c ≠ .idle) (method : TaskCall) :
    s.next (.call c method) = s := if_neg hbusy

/-- `PushTask` goes on to its push or drops the task. -/
theorem startCall_pushTask (s : TaskSystem) (c : ThreadId) (inTask : SharedPtr) :
    s.startCall c (.pushTask inTask) = s.setClient c (.pushTask inTask) ∨
      s.startCall c (.pushTask inTask) = s := by
  by_cases hrunning : s.thread.bRunning
  · exact .inl (if_pos hrunning)
  · exact .inr (if_neg hrunning)

theorem run_cons (event : TaskEvent) (events : List TaskEvent) :
    run step s (event :: events) = run step (s.next event) events := rfl

end Steps

/-- No worker has moved, and nobody has set `bRunning`. -/
structure Frame (s s' : TaskSystem) : Prop where
  workers : s'.workers = s.workers
  iterations : s'.history.iterations = s.history.iterations
  calls : s'.history.calls = s.history.calls
  bRunning : s.thread.bRunning = false → s'.thread.bRunning = false

theorem Frame.refl (s : TaskSystem) : Frame s s := ⟨rfl, rfl, rfl, id⟩

/-- Only `CreateThread` touches the workers. -/
theorem startCall_frame (s : TaskSystem) (c : ThreadId) {method : TaskCall}
    (hcreate : ∀ created, method ≠ .createThread created) : Frame s (s.startCall c method) := by
  cases method with
  | createThread created => exact absurd rfl (hcreate created)
  | stopThread => exact ⟨rfl, rfl, rfl, fun _ => rfl⟩
  | joinThread => exact ⟨rfl, rfl, rfl, id⟩
  | delayStopThread => exact ⟨rfl, rfl, rfl, fun _ => rfl⟩
  | pushTask inTask =>
      rcases startCall_pushTask s c inTask with hcall | hcall
      · rw [hcall]
        exact ⟨rfl, rfl, rfl, id⟩
      · rw [hcall]
        exact Frame.refl s
  | clearTaskQueue => exact ⟨rfl, rfl, rfl, id⟩

theorem clientStep_frame (s : TaskSystem) (c : ThreadId) : Frame s (s.clientStep c) := by
  unfold clientStep
  split
  · exact Frame.refl s
  · exact ⟨rfl, rfl, rfl, id⟩
  · split <;> exact ⟨rfl, rfl, rfl, id⟩
  · split
    · exact ⟨rfl, rfl, rfl, id⟩
    · exact Frame.refl s

end TaskSystem

end Septem
