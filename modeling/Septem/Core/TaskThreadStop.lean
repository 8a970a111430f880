import Septem.Core.TaskThread

/-!
# TaskThreadStop — stopping a worker thread

`StopThread` and `DelayStopThread` set `bRunning` to false, and the worker sets it to true once it
has been initialized.  A stop that comes before this store is overwritten, and the worker runs on.
A stop that comes later is kept: `bRunning` stays false, no further iteration of `Run` begins, and
every worker leaves after at most six steps of its own (`stop_kept_iff`).
-/

namespace Septem

open Cxx

/-! ## How far a worker is -/

/-- The steps of a worker up to its store `bRunning = true`. -/
def WorkerPc.toRunning : WorkerPc → Nat
  | .enter => 3
  | .init => 2
  | .setRunning => 1
  | _ => 0

/-- The worker has executed `bRunning = true`. -/
def WorkerPc.Started (pc : WorkerPc) : Prop :=
  pc.toRunning = 0

instance (pc : WorkerPc) : Decidable pc.Started :=
  inferInstanceAs (Decidable (pc.toRunning = 0))

/-- A bound on the steps to the end of a worker that has started and finds `bRunning` false. -/
def WorkerPc.toExit : WorkerPc → Nat
  | .onDoTask => 5
  | .inTask => 4
  | .setState2 => 4
  | .whileTest => 3
  | .setState3 => 2
  | .destory => 1
  | .exited => 0
  | _ => 6

theorem WorkerPc.toExit_le (pc : WorkerPc) : pc.toExit ≤ 6 := by
  cases pc <;> decide

theorem WorkerPc.toExit_eq_zero {pc : WorkerPc} (h : pc.toExit = 0) : pc = .exited := by
  cases pc <;> first | rfl | cases h

/-- A started worker that finds `bRunning` false is on its way out. -/
theorem TTaskThread.threadRun_stopped {this : TTaskThread} {worker : Worker}
    (hstop : this.bRunning = false) (hstarted : worker.pc.Started) (left : SharedPtr) :
    (this.threadRun left worker).1.bRunning = false ∧
      (this.threadRun left worker).2.pc.Started ∧
      (this.threadRun left worker).2.pc.toExit ≤ worker.pc.toExit - 1 := by
  rcases worker with ⟨pc, pCacheTask⟩
  cases pc with
  | enter => cases hstarted
  | init => cases hstarted
  | setRunning => cases hstarted
  | whileTest => simp [threadRun, hstop, WorkerPc.Started, WorkerPc.toRunning, WorkerPc.toExit]
  | popTask =>
      have hback : WorkerPc.whileTest.toExit ≤ WorkerPc.popTask.toExit - 1 := by decide
      have htaken : WorkerPc.onDoTask.toExit ≤ WorkerPc.popTask.toExit - 1 := by decide
      rw [threadRun_popTask]
      rcases this.taskQueue with _ | ⟨_ | object, rest⟩
      · exact ⟨hstop, rfl, hback⟩
      · exact ⟨hstop, rfl, hback⟩
      · exact ⟨hstop, rfl, htaken⟩
  | _ => exact ⟨hstop, rfl, Nat.le_refl _⟩

/-- A worker that has not started comes closer to its store, and the last step is the store. -/
theorem TTaskThread.threadRun_starts {this : TTaskThread} {worker : Worker} {n : Nat}
    (h : worker.pc.toRunning = n + 1) (left : SharedPtr) :
    (this.threadRun left worker).2.pc.toRunning = n ∧
      (n = 0 → (this.threadRun left worker).1.bRunning = true) := by
  rcases worker with ⟨pc, pCacheTask⟩
  cases pc with
  | enter =>
      cases h
      exact ⟨rfl, nofun⟩
  | init =>
      cases h
      exact ⟨rfl, nofun⟩
  | setRunning =>
      cases h
      exact ⟨rfl, fun _ => rfl⟩
  | _ => cases h

/-! ## Events -/

def TaskEvent.isTurnOf (w : WorkerId) : TaskEvent → Bool
  | .worker w' _ => w' = w
  | _ => false

/-- How often it is worker `w`'s turn. -/
def turns (w : WorkerId) (events : List TaskEvent) : Nat :=
  events.countP (TaskEvent.isTurnOf w)

theorem TTaskThread.threadRun_mThread (this : TTaskThread) (left : SharedPtr) (worker : Worker) :
    (this.threadRun left worker).1.mThread = this.mThread := by
  rcases worker with ⟨pc, pCacheTask⟩
  cases pc with
  | whileTest =>
      dsimp only [threadRun]
      split <;> rfl
  | popTask =>
      rw [threadRun_popTask]
      rcases this.taskQueue with _ | ⟨_ | object, rest⟩ <;> rfl
  | _ => rfl

namespace TaskSystem

/-- The steps worker `w` needs at most, if it has started and `bRunning` is false. -/
def toExit (s : TaskSystem) (w : WorkerId) : Nat :=
  (s.workers[w]?.map (·.pc.toExit)).getD 0

theorem toExit_le (s : TaskSystem) (w : WorkerId) : s.toExit w ≤ 6 := by
  unfold toExit
  cases s.workers[w]? with
  | none => decide
  | some worker => exact worker.pc.toExit_le

theorem exited_of_toExit {s : TaskSystem} {w : WorkerId} (hw : w < s.workers.length)
    (h : s.toExit w = 0) : s.Exited w := by
  rw [toExit, List.getElem?_eq_getElem hw] at h
  rw [Exited, List.getElem?_eq_getElem hw]
  exact congrArg some (WorkerPc.toExit_eq_zero h)

/-! ## A stop that is kept -/

/-- `bRunning` is false, and no worker is about to set it. -/
structure Stopped (s : TaskSystem) : Prop where
  bRunning : s.thread.bRunning = false
  started : ∀ worker ∈ s.workers, worker.pc.Started

/-- From `s` to `s'` no iteration has begun, and worker `w` has come closer to its end by as many
steps as it had turns. -/
structure WindDown (s s' : TaskSystem) (turns : WorkerId → Nat) : Prop where
  stopped : Stopped s'
  iterations : s'.history.iterations = s.history.iterations
  length : s'.workers.length = s.workers.length
  toExit : ∀ w, s'.toExit w ≤ s.toExit w - turns w

section WindDown

variable {s : TaskSystem}

theorem Stopped.of_frame (h : Stopped s) {s' : TaskSystem} (hframe : Frame s s') :
    WindDown s s' fun _ => 0 where
  stopped := ⟨hframe.bRunning h.bRunning, by rw [hframe.workers]; exact h.started⟩
  iterations := hframe.iterations
  length := by rw [hframe.workers]
  toExit := by
    intro w
    rw [TaskSystem.toExit, hframe.workers]
    exact Nat.le_refl _

theorem Stopped.workerStep (h : Stopped s) (w : WorkerId) (left : SharedPtr) :
    WindDown s (s.workerStep w left) fun v => if w = v then 1 else 0 := by
  cases hget : s.workers[w]? with
  | none =>
      rw [workerStep_none hget]
      refine ⟨h, rfl, rfl, fun v => ?_⟩
      by_cases hv : w = v
      · subst hv
        simp [TaskSystem.toExit, hget]
      · simp [hv]
  | some worker =>
      have hstarted := h.started worker (List.mem_of_getElem? hget)
      rcases TTaskThread.threadRun_stopped h.bRunning hstarted left with
        ⟨hrunning, hnext, hexit⟩
      rw [workerStep_eq hget]
      exact
        { stopped := ⟨hrunning, fun other hother => by
            rcases List.mem_or_eq_of_mem_set hother with hold | rfl
            · exact h.started other hold
            · exact hnext⟩
          iterations := by
            rcases worker with ⟨pc, pCacheTask⟩
            simp only [TaskHistory.record, h.bRunning]
            cases pc with
            | popTask => cases s.thread.taskQueue <;> rfl
            | _ => rfl
          length := List.length_set
          toExit := fun v => by
            by_cases hv : w = v
            · subst hv
              have hw : w < s.workers.length := (List.getElem?_eq_some_iff.1 hget).1
              rw [TaskSystem.toExit, TaskSystem.toExit, List.getElem?_set_self hw, hget]
              simpa using hexit
            · simp [TaskSystem.toExit, hv] }

/-- As long as no thread is created, a stop is kept by every step. -/
theorem Stopped.next (h : Stopped s) {event : TaskEvent} (hcreate : ¬ event.creates) :
    WindDown s (s.next event) fun w => if event.isTurnOf w then 1 else 0 := by
  cases event with
  | call c method =>
      have hmethod (created : Bool) : method ≠ .createThread created := by
        rintro rfl
        exact hcreate rfl
      by_cases hidle : s.clients c = .idle
      · rw [next_call_idle hidle]
        exact h.of_frame (startCall_frame s c hmethod)
      · rw [next_call_busy hidle]
        exact h.of_frame (Frame.refl s)
  | client c => exact h.of_frame (clientStep_frame s c)
  | worker w left => simpa [TaskEvent.isTurnOf, TaskSystem.next] using h.workerStep w left

theorem WindDown.trans {s₁ s₂ s₃ : TaskSystem} {turns₁ turns₂ : WorkerId → Nat}
    (h₁ : WindDown s₁ s₂ turns₁) (h₂ : WindDown s₂ s₃ turns₂) :
    WindDown s₁ s₃ fun w => turns₁ w + turns₂ w where
  stopped := h₂.stopped
  iterations := h₂.iterations.trans h₁.iterations
  length := h₂.length.trans h₁.length
  toExit := by
    intro w
    have hfirst := h₁.toExit w
    have hsecond := h₂.toExit w
    omega

/-- As long as no thread is created, a stop is kept by every run. -/
protected theorem Stopped.run (h : Stopped s) {events : List TaskEvent} {s' : TaskSystem}
    (hcreate : ∀ event ∈ events, ¬ event.creates) (hrun : run step s events = .ok s') :
    WindDown s s' fun w => turns w events := by
  induction events generalizing s with
  | nil =>
      cases hrun
      exact h.of_frame (Frame.refl _)
  | cons event events ih =>
      rw [run_cons] at hrun
      have hfirst := h.next (hcreate event List.mem_cons_self)
      have hrest := ih hfirst.stopped
        (fun later hlater => hcreate later (List.mem_cons_of_mem event hlater)) hrun
      have hboth := hfirst.trans hrest
      refine ⟨hboth.stopped, hboth.iterations, hboth.length, fun w => ?_⟩
      have hturns : turns w (event :: events) =
          turns w events + if event.isTurnOf w then 1 else 0 := List.countP_cons
      rw [hturns, Nat.add_comm]
      exact hboth.toExit w

end WindDown

/-! ## A stop that is lost -/

/-- A worker that has not started sets `bRunning`, whatever has been stopped before. -/
theorem start_worker {s : TaskSystem} {w : WorkerId} {worker : Worker}
    (hget : s.workers[w]? = some worker) {n : Nat} (hpc : worker.pc.toRunning = n + 1) :
    ∃ s', run step s (List.replicate (n + 1) (.worker w none)) = .ok s' ∧
      s'.thread.bRunning = true := by
  induction n generalizing s worker with
  | zero =>
      refine ⟨s.workerStep w none, rfl, ?_⟩
      rw [workerStep_eq hget]
      exact (TTaskThread.threadRun_starts hpc none).2 rfl
  | succ n ih =>
      have hw : w < s.workers.length := (List.getElem?_eq_some_iff.1 hget).1
      have hnext : (s.workerStep w none).workers[w]? =
          some (s.thread.threadRun none worker).2 := by
        rw [workerStep_eq hget]
        exact List.getElem?_set_self hw
      rcases ih hnext (TTaskThread.threadRun_starts hpc none).1 with ⟨s', hrun, hrunning⟩
      exact ⟨s', hrun, hrunning⟩

/-! ## Joining -/

/-- `m_Thread`, and what clients wait for, is a worker. -/
structure JoinsWorker (s : TaskSystem) : Prop where
  mThread : ∀ w, s.thread.mThread = some w → w < s.workers.length
  clients : ∀ c w, s.clients c = .pthreadJoin w → w < s.workers.length

section Joins

variable {s : TaskSystem}

theorem JoinsWorker.setClient (h : JoinsWorker s) (c : ThreadId) {pc : ClientPc}
    (hpc : ∀ w, pc = .pthreadJoin w → w < s.workers.length) : JoinsWorker (s.setClient c pc) where
  mThread := h.mThread
  clients := forall_setClient (fun pc => ∀ w, pc = .pthreadJoin w → w < s.workers.length) hpc
    h.clients

theorem JoinsWorker.startCall (h : JoinsWorker s) (c : ThreadId) (method : TaskCall) :
    JoinsWorker (s.startCall c method) := by
  have hjoin (w : WorkerId) (hw : ClientPc.joinThread = .pthreadJoin w) : w < s.workers.length := by
    cases hw
  cases method with
  | createThread created =>
      cases created with
      | false => exact h
      | true =>
          have hlen : (s.workers ++ [({} : Worker)]).length = s.workers.length + 1 := by
            rw [List.length_append, List.length_singleton]
          refine ⟨fun w hw => ?_, fun d w hw => ?_⟩
          · cases hw
            exact Nat.lt_of_lt_of_eq (Nat.lt_succ_self _) hlen.symm
          · exact Nat.lt_of_lt_of_eq (Nat.lt_succ_of_lt (h.clients d w hw)) hlen.symm
  | stopThread => exact ⟨h.mThread, h.clients⟩
  | joinThread => exact h.setClient c hjoin
  | delayStopThread =>
      have hstop : JoinsWorker { s with thread := s.thread.stopThread } := ⟨h.mThread, h.clients⟩
      exact hstop.setClient c hjoin
  | pushTask inTask =>
      rcases startCall_pushTask s c inTask with hcall | hcall
      · rw [hcall]
        refine h.setClient c ?_
        intro w hw
        cases hw
      · rwa [hcall]
  | clearTaskQueue => exact ⟨h.mThread, h.clients⟩

theorem JoinsWorker.clientStep (h : JoinsWorker s) (c : ThreadId) :
    JoinsWorker (s.clientStep c) := by
  unfold TaskSystem.clientStep
  split
  · exact h
  · rename_i inTask _
    have hpush : JoinsWorker (s.lockedPush inTask) := ⟨h.mThread, h.clients⟩
    exact hpush.setClient c nofun
  · split
    · rename_i w hthread
      refine h.setClient c ?_
      rintro v ⟨⟩
      exact h.mThread w hthread
    · exact h.setClient c nofun
  · rename_i w _
    split
    · have hjoined : JoinsWorker { s with joined := w :: s.joined } := ⟨h.mThread, h.clients⟩
      exact hjoined.setClient c nofun
    · exact h

theorem JoinsWorker.next (h : JoinsWorker s) (event : TaskEvent) : JoinsWorker (s.next event) := by
  cases event with
  | call c method =>
      by_cases hidle : s.clients c = .idle
      · rw [next_call_idle hidle]
        exact h.startCall c method
      · rwa [next_call_busy hidle]
  | client c => exact h.clientStep c
  | worker w left =>
      unfold TaskSystem.next
      cases hget : s.workers[w]? with
      | none => simpa only [workerStep_none hget] using h
      | some worker =>
          simp only [workerStep_eq hget]
          refine ⟨fun v hv => ?_, fun c v hv => ?_⟩
          · rw [TTaskThread.threadRun_mThread] at hv
            simpa using h.mThread v hv
          · simpa using h.clients c v hv

protected theorem JoinsWorker.run (h : JoinsWorker s) {events : List TaskEvent} {s' : TaskSystem}
    (hrun : run step s events = .ok s') : JoinsWorker s' := by
  refine inv_of_run (P := fun _ => True) ?_ h (fun _ _ => trivial) hrun
  intro t event t' ht _ hstep
  cases hstep
  exact ht.next event

end Joins

theorem start_joins {bRunning : Bool} : JoinsWorker (start bRunning) :=
  ⟨nofun, nofun⟩

/-! ## When a stop is kept -/

/-- What a stop is for: from `s` on, unless a thread is created. -/
structure StopKept (s : TaskSystem) : Prop where
  /-- `bRunning` is never true again, and no further iteration of `Run` begins. -/
  running : ∀ events s', (∀ event ∈ events, ¬ event.creates) → run step s events = .ok s' →
    s'.thread.bRunning = false ∧ s'.history.iterations = s.history.iterations
  /-- A worker that gets six turns has left. -/
  exits : ∀ events s' w, (∀ event ∈ events, ¬ event.creates) → run step s events = .ok s' →
    w < s.workers.length → 6 ≤ turns w events → s'.Exited w
  /-- Who waits for it in `JoinThread` or `DelayStopThread` returns, being the first to join it. -/
  joins : ∀ events s' c w, (∀ event ∈ events, ¬ event.creates) → run step s events = .ok s' →
    s'.clients c = .pthreadJoin w → w ∉ s'.joined → 6 ≤ turns w events →
    (s'.clientStep c).clients c = .idle

theorem Stopped.stopKept {s : TaskSystem} (h : Stopped s) (hjoins : JoinsWorker s) :
    StopKept s := by
  have hexits (events : List TaskEvent) (s' : TaskSystem) (w : WorkerId)
      (hcreate : ∀ event ∈ events, ¬ event.creates) (hrun : run step s events = .ok s')
      (hw : w < s.workers.length) (hturns : 6 ≤ turns w events) : s'.Exited w := by
    have hdown := h.run hcreate hrun
    refine exited_of_toExit (by rw [hdown.length]; exact hw) ?_
    have hle := hdown.toExit w
    have hbound := s.toExit_le w
    omega
  refine ⟨fun events s' hcreate hrun => ?_, hexits,
    fun events s' c w hcreate hrun hc hfirst hturns => ?_⟩
  · have hdown := h.run hcreate hrun
    exact ⟨hdown.stopped.bRunning, hdown.iterations⟩
  · have hw : w < s.workers.length := by
      rw [← (h.run hcreate hrun).length]
      exact (hjoins.run hrun).clients c w hc
    have hexited := hexits events s' w hcreate hrun hw hturns
    simp only [clientStep, hc, if_pos (And.intro hexited hfirst)]
    exact setClient_clients_self .idle

/-- A stop is kept exactly when every worker that has been created has executed
`bRunning = true`. -/
theorem stop_kept_iff {bRunning : Bool} {events : List TaskEvent} {s : TaskSystem}
    (hrun : run step (start bRunning) events = .ok s) {c : ThreadId} (hidle : s.clients c = .idle)
    {method : TaskCall} (hstop : method = .stopThread ∨ method = .delayStopThread) :
    StopKept (s.next (.call c method)) ↔ ∀ worker ∈ s.workers, worker.pc.Started := by
  have hmethod (created : Bool) : method ≠ .createThread created := by
    rintro rfl
    rcases hstop with h | h <;> cases h
  have hstopped : (s.startCall c method).thread.bRunning = false := by
    rcases hstop with rfl | rfl <;> rfl
  have hworkers : (s.startCall c method).workers = s.workers :=
    (startCall_frame s c hmethod).workers
  rw [next_call_idle hidle]
  constructor
  · intro hkept worker hworker
    -- Otherwise the worker still has to store `true`.
    by_contra hpc
    rcases Nat.exists_eq_succ_of_ne_zero hpc with ⟨n, hn⟩
    rcases List.mem_iff_getElem?.1 hworker with ⟨w, hget⟩
    rw [← hworkers] at hget
    rcases start_worker hget hn with ⟨s', hlater, hrunning⟩
    have hfalse := (hkept.running _ s' (fun event hevent => by
      rw [List.eq_of_mem_replicate hevent]
      exact nofun) hlater).1
    rw [hrunning] at hfalse
    cases hfalse
  · intro hstarted
    have hjoins : JoinsWorker s := start_joins.run hrun
    have hstop : Stopped (s.startCall c method) := ⟨hstopped, by rwa [hworkers]⟩
    exact hstop.stopKept (hjoins.startCall c method)

/-- A worker that has got as far as `i_ThreadState = 2` is stopped. -/
theorem stop_kept_after_store :
    ∃ s, run step (start false) [.call 0 (.createThread true), .worker 0 none, .worker 0 none,
      .worker 0 none] = .ok s ∧ StopKept (s.next (.call 0 .delayStopThread)) := by
  have hrun : run step (start false) [.call 0 (.createThread true), .worker 0 none,
    .worker 0 none, .worker 0 none] = .ok _ := rfl
  exact ⟨_, hrun, (stop_kept_iff hrun rfl (.inr rfl)).2 (by decide)⟩

/-- A worker that has only been created is not. -/
theorem stop_lost :
    ¬ ∀ (events : List TaskEvent) (s : TaskSystem) (c : ThreadId) (method : TaskCall),
      run step (start false) events = .ok s → s.clients c = .idle →
        method = .stopThread ∨ method = .delayStopThread →
          StopKept (s.next (.call c method)) := by
  intro h
  have hkept := h [.call 0 (.createThread true)] _ 0 .delayStopThread rfl rfl (.inr rfl)
  have hcreate : ∀ event ∈ List.replicate 3 (TaskEvent.worker 0 none), ¬ event.creates := by
    intro event hevent
    rw [List.eq_of_mem_replicate hevent]
    exact nofun
  have hfalse := (hkept.running (List.replicate 3 (.worker 0 none)) _ hcreate rfl).1
  cases hfalse

/-! ## Waiting for ever -/

/-- The worker has not left its loop, nor found `bRunning` false in it. -/
def InLoop (worker : Worker) : Prop :=
  worker.pc.Started ∧ worker.pc ≠ .setState3 ∧ worker.pc ≠ .destory ∧ worker.pc ≠ .exited

/-- Client `c` waits for a worker that runs on. -/
structure Waiting (c : ThreadId) (w : WorkerId) (s : TaskSystem) : Prop where
  client : s.clients c = .pthreadJoin w
  bRunning : s.thread.bRunning = true
  worker : ∃ worker, s.workers[w]? = some worker ∧ InLoop worker

/-- Another client than `c` stops the thread. -/
def StopsBeside (c : ThreadId) : TaskEvent → Prop
  | .call d .stopThread => d ≠ c
  | .call d .delayStopThread => d ≠ c
  | _ => False

theorem threadRun_running {this : TTaskThread} {worker : Worker} (h : this.bRunning = true)
    (left : SharedPtr) : (this.threadRun left worker).1.bRunning = true ∧
      (InLoop worker → InLoop (this.threadRun left worker).2) := by
  rcases worker with ⟨pc, pCacheTask⟩
  cases pc with
  | enter => exact ⟨h, fun hloop => nomatch hloop.1⟩
  | init => exact ⟨h, fun hloop => nomatch hloop.1⟩
  | setRunning => exact ⟨rfl, fun hloop => nomatch hloop.1⟩
  | whileTest => simp [TTaskThread.threadRun, h, InLoop, WorkerPc.Started, WorkerPc.toRunning]
  | popTask =>
      rw [TTaskThread.threadRun_popTask]
      rcases this.taskQueue with _ | ⟨_ | object, rest⟩ <;>
        exact ⟨h, fun _ => ⟨rfl, nofun, nofun, nofun⟩⟩
  | setState3 => exact ⟨h, fun hloop => absurd rfl hloop.2.1⟩
  | destory => exact ⟨h, fun hloop => absurd rfl hloop.2.2.1⟩
  | exited => exact ⟨h, fun hloop => absurd rfl hloop.2.2.2⟩
  | _ => exact ⟨h, fun _ => ⟨rfl, nofun, nofun, nofun⟩⟩

section Waiting

variable {c : ThreadId} {w : WorkerId} {s : TaskSystem}

/-- What another client does in its calls is no help. -/
theorem Waiting.setClient (h : Waiting c w s) {d : ThreadId} (hd : d ≠ c) (pc : ClientPc) :
    Waiting c w (s.setClient d pc) := by
  refine ⟨?_, h.bRunning, h.worker⟩
  rw [TaskSystem.setClient]
  exact (Function.update_of_ne hd.symm pc s.clients).trans h.client

theorem Waiting.startCall (h : Waiting c w s) {d : ThreadId} (hd : d ≠ c) {method : TaskCall}
    (hstop : ¬ StopsBeside c (.call d method)) : Waiting c w (s.startCall d method) := by
  cases method with
  | createThread created =>
      cases created with
      | false => exact h
      | true =>
          rcases h.worker with ⟨worker, hget, hloop⟩
          have hw : w < s.workers.length := (List.getElem?_eq_some_iff.1 hget).1
          refine ⟨h.client, h.bRunning, worker, ?_, hloop⟩
          exact (List.getElem?_append_left hw).trans hget
  | stopThread => exact absurd hd hstop
  | joinThread => exact h.setClient hd _
  | delayStopThread => exact absurd hd hstop
  | pushTask inTask =>
      rcases startCall_pushTask s d inTask with hcall | hcall
      · rw [hcall]
        exact h.setClient hd _
      · rwa [hcall]
  | clearTaskQueue => exact ⟨h.client, h.bRunning, h.worker⟩

theorem Waiting.clientStep (h : Waiting c w s) (d : ThreadId) : Waiting c w (s.clientStep d) := by
  by_cases hd : d = c
  · subst hd
    rcases h.worker with ⟨worker, hget, hloop⟩
    have hexit : ¬ s.Exited w := by
      rw [Exited, hget]
      exact fun heq => hloop.2.2.2 (Option.some.inj heq)
    simpa only [TaskSystem.clientStep, h.client, if_neg (mt And.left hexit)] using h
  · unfold TaskSystem.clientStep
    split
    · exact h
    · rename_i inTask _
      have hpush : Waiting c w (s.lockedPush inTask) := ⟨h.client, h.bRunning, h.worker⟩
      exact hpush.setClient hd _
    · split <;> exact h.setClient hd _
    · rename_i v _
      split
      · have hjoined : Waiting c w { s with joined := v :: s.joined } :=
          ⟨h.client, h.bRunning, h.worker⟩
        exact hjoined.setClient hd _
      · exact h

theorem Waiting.workerStep (h : Waiting c w s) (v : WorkerId) (left : SharedPtr) :
    Waiting c w (s.workerStep v left) := by
  rcases h.worker with ⟨worker, hget, hloop⟩
  cases hmine : s.workers[v]? with
  | none => rwa [workerStep_none hmine]
  | some mine =>
      rw [workerStep_eq hmine]
      refine ⟨h.client, (threadRun_running h.bRunning left).1, ?_⟩
      by_cases hv : v = w
      · subst hv
        rw [hget] at hmine
        cases hmine
        have hw : v < s.workers.length := (List.getElem?_eq_some_iff.1 hget).1
        exact ⟨_, List.getElem?_set_self hw, (threadRun_running h.bRunning left).2 hloop⟩
      · exact ⟨worker, (List.getElem?_set_ne hv).trans hget, hloop⟩

theorem Waiting.next (h : Waiting c w s) {event : TaskEvent} (hstop : ¬ StopsBeside c event) :
    Waiting c w (s.next event) := by
  cases event with
  | call d method =>
      by_cases hidle : s.clients d = .idle
      · have hd : d ≠ c := by
          rintro rfl
          rw [h.client] at hidle
          cases hidle
        rw [next_call_idle hidle]
        exact h.startCall hd hstop
      · rwa [next_call_busy hidle]
  | client d => exact h.clientStep d
  | worker v left => exact h.workerStep v left

/-- Once the stop of `DelayStopThread` has been overwritten, the call does not return, unless some
other client stops the thread once more. -/
theorem waits_for_ever (h : Waiting c w s) {events : List TaskEvent} {s' : TaskSystem}
    (hstop : ∀ event ∈ events, ¬ StopsBeside c event) (hrun : run step s events = .ok s') :
    Waiting c w s' := by
  refine inv_of_run (P := fun event => ¬ StopsBeside c event) ?_ h hstop hrun
  intro t event t' ht hevent hstep
  cases hstep
  exact ht.next hevent

end Waiting

/-- `DelayStopThread` right after `CreateThread`, and then the worker's first steps. -/
example : ∃ s, run step (start false) [.call 0 (.createThread true), .call 0 .delayStopThread,
    .client 0, .worker 0 none, .worker 0 none, .worker 0 none] = .ok s ∧ Waiting 0 0 s :=
  ⟨_, rfl, rfl, rfl, _, rfl, rfl, nofun, nofun, nofun⟩

end TaskSystem

end Septem
